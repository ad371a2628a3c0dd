import ClassAtlas.Graph.Closure
import Mathlib.Data.List.Perm.Subperm
import Mathlib.Logic.Relation

namespace ClassAtlas

open Relation

/-!
# The closure is reachability

The layers of the search hold exactly the nodes that steps lead to, whatever cycles there are, and
the closure is what the steps from these nodes report.

* `Leads` — a step from one node to another, reported or not;
* `Searching` — the invariant of the search: every layer but an empty one uses up a new node, so
  the bound on the layers is not met before the nodes run out;
* `mem_layers_iff` — the layers are the reachable nodes;
* `exists_closure_eq`, `mem_closure_iff` — the closure, split into what the seed reports and the
  rest, and as a whole.
-/

variable {steps : NodeId → List Step} {size bound : Nat} {visited layer : List NodeId}
  {seed target : NodeId}

/-! ### Steps -/

theorem nodup_eraseDups {β : Type} [BEq β] [LawfulBEq β] (l : List β) : l.eraseDups.Nodup := by
  -- What is left behind the first element is a filtered list, so the induction is on the length.
  induction hlen : l.length using Nat.strongRecOn generalizing l with
  | ind n ih =>
    cases l with
    | nil => exact List.nodup_nil
    | cons first rest =>
      rw [List.eraseDups_cons, List.nodup_cons, List.mem_eraseDups]
      have hshorter := List.length_filter_le (fun b => !b == first) rest
      rw [List.length_cons] at hlen
      exact ⟨by simp, ih _ (by omega) _ rfl⟩

/-- What occurs again at the end is erased, -/
theorem eraseDups_concat_of_mem {β : Type} [BEq β] [LawfulBEq β] {l : List β} {b : β} (h : b ∈ l) :
    (l ++ [b]).eraseDups = l.eraseDups := by
  rw [List.eraseDups_append]
  simp [List.removeAll, h]

/-- and what is new comes last. -/
theorem eraseDups_concat_of_notMem {β : Type} [BEq β] [LawfulBEq β] {l : List β} {b : β}
    (h : b ∉ l) : (l ++ [b]).eraseDups = l.eraseDups ++ [b] := by
  rw [List.eraseDups_append]
  simp [List.removeAll, h, List.eraseDups_cons]

/-- Some step leads from one node to the other. -/
def Leads (steps : NodeId → List Step) (source target : NodeId) : Prop :=
  ∃ step ∈ steps source, step.target = target

@[simp] theorem report_mem_map_report {nodes : List NodeId} :
    Step.report target ∈ nodes.map .report ↔ target ∈ nodes := by
  simp [Step.report]

@[simp] theorem report_not_mem_map_traverse {nodes : List NodeId} :
    Step.report target ∉ nodes.map .traverse := by
  simp [Step.report, Step.traverse]

@[simp] theorem traverse_mem_map_traverse {nodes : List NodeId} :
    Step.traverse target ∈ nodes.map .traverse ↔ target ∈ nodes := by
  simp [Step.traverse]

@[simp] theorem traverse_not_mem_map_report {nodes : List NodeId} :
    Step.traverse target ∉ nodes.map .report := by
  simp [Step.report, Step.traverse]

/-- Steps are of two sorts. -/
theorem leads_iff {source : NodeId} :
    Leads steps source target
      ↔ Step.report target ∈ steps source ∨ Step.traverse target ∈ steps source := by
  constructor
  · rintro ⟨⟨_, isReport⟩, hstep, rfl⟩
    cases isReport with
    | true => exact .inl hstep
    | false => exact .inr hstep
  · rintro (hstep | hstep)
    · exact ⟨_, hstep, rfl⟩
    · exact ⟨_, hstep, rfl⟩

/-- No step leads out of the graph. -/
def StaysBelow (size : Nat) (steps : NodeId → List Step) : Prop :=
  ∀ source target, Leads steps source target → target < size

theorem mem_nextLayer :
    target ∈ nextLayer steps visited layer
      ↔ (∃ source ∈ layer, Leads steps source target) ∧ target ∉ visited := by
  unfold nextLayer Leads
  rw [List.mem_eraseDups, List.mem_filter, List.mem_map, decide_eq_true_eq]
  simp only [List.mem_flatMap]
  constructor
  · rintro ⟨⟨step, ⟨source, hsource, hstep⟩, htarget⟩, hnew⟩
    exact ⟨⟨source, hsource, step, hstep, htarget⟩, hnew⟩
  · rintro ⟨⟨source, hsource, step, hstep, htarget⟩, hnew⟩
    exact ⟨⟨step, ⟨source, hsource, hstep⟩, htarget⟩, hnew⟩

/-! ### The search -/

/-- What holds at each layer of the search. -/
structure Searching (size bound : Nat) (visited layer : List NodeId) : Prop where
  /-- No node is visited twice. -/
  nodup : visited.Nodup
  /-- All visited nodes are in the graph. -/
  below : ∀ id ∈ visited, id < size
  /-- The layers that are left are enough for the nodes that are left. -/
  enough : layer ≠ [] → size < bound + visited.length

theorem Searching.start (hseed : seed < size) : Searching size size [seed] [seed] where
  nodup := by simp
  below := by
    intro id hid
    rw [List.mem_singleton] at hid
    exact hid ▸ hseed
  enough := by
    intro _
    rw [List.length_singleton]
    omega

/-- While there are nodes in the layer, another layer is allowed. -/
theorem Searching.bound_pos (h : Searching size bound visited layer) (hne : layer ≠ []) :
    0 < bound := by
  -- Distinct numbers below `size` are at most `size` many.
  have hvisited : visited.length ≤ size := by
    have hsubset : visited ⊆ List.range size := fun id hid => List.mem_range.mpr (h.below id hid)
    have hlen := (h.nodup.subperm hsubset).length_le
    rwa [List.length_range] at hlen
  have henough := h.enough hne
  omega

/-- The step lemma: the next layer is new, and so one layer less is enough. -/
theorem Searching.next (hsteps : StaysBelow size steps)
    (h : Searching size (bound + 1) visited layer) :
    Searching size bound (visited ++ nextLayer steps visited layer)
      (nextLayer steps visited layer) where
  nodup := by
    refine List.nodup_append.mpr ⟨h.nodup, nodup_eraseDups _, ?_⟩
    rintro id hvisited _ hnext rfl
    exact (mem_nextLayer.mp hnext).2 hvisited
  below := by
    intro id hid
    rcases List.mem_append.mp hid with hvisited | hnext
    · exact h.below id hvisited
    · obtain ⟨⟨source, -, hleads⟩, -⟩ := mem_nextLayer.mp hnext
      exact hsteps source id hleads
  enough := by
    intro hne
    -- A layer with nodes in it makes up for the one that is used.
    have hpos := List.length_pos_iff.mpr hne
    have hlayer : layer ≠ [] := by
      rintro rfl
      exact hne rfl
    have henough := h.enough hlayer
    rw [List.length_append]
    omega

theorem layers_of_ne_nil (hne : layer ≠ []) :
    layers steps (bound + 1) visited layer
      = layer :: layers steps bound (visited ++ nextLayer steps visited layer)
          (nextLayer steps visited layer) := by
  rw [layers, if_neg (by simpa using hne)]

/-- The layer is one of the layers from it on. -/
theorem subset_layers (steps : NodeId → List Step) (h : Searching size bound visited layer) :
    layer ⊆ (layers steps bound visited layer).flatten := by
  by_cases hne : layer = []
  · subst hne
    exact List.nil_subset _
  · obtain ⟨bound, rfl⟩ := Nat.exists_eq_succ_of_ne_zero (Nat.ne_of_gt (h.bound_pos hne))
    rw [layers_of_ne_nil hne, List.flatten_cons]
    exact List.subset_append_left _ _

/-- Steps do not lead out of the layers and what was visited before. -/
theorem layers_closed (hsteps : StaysBelow size steps) (h : Searching size bound visited layer)
    {source : NodeId} (hsource : source ∈ (layers steps bound visited layer).flatten)
    (hleads : Leads steps source target) :
    target ∈ visited ∨ target ∈ (layers steps bound visited layer).flatten := by
  induction bound generalizing visited layer with
  | zero => simp [layers] at hsource
  | succ bound ih =>
    by_cases hne : layer = []
    · subst hne
      simp [layers] at hsource
    · have hnext := h.next hsteps
      have hlater := subset_layers steps hnext
      rw [layers_of_ne_nil hne, List.flatten_cons, List.mem_append] at hsource ⊢
      rcases hsource with hlayer | hrest
      · by_cases hvisited : target ∈ visited
        · exact .inl hvisited
        · -- A step to a new node leads into the next layer.
          exact .inr (.inr (hlater (mem_nextLayer.mpr ⟨⟨source, hlayer, hleads⟩, hvisited⟩)))
      · rcases ih hnext hrest with hvisited | hrest
        · rcases List.mem_append.mp hvisited with hold | hnew
          · exact .inl hold
          · exact .inr (.inr (hlater hnew))
        · exact .inr (.inr hrest)

/-- Steps lead from the layer to all nodes of the layers from it on. -/
theorem layers_sound (htarget : target ∈ (layers steps bound visited layer).flatten) :
    ∃ source ∈ layer, ReflTransGen (Leads steps) source target := by
  induction bound generalizing visited layer with
  | zero => simp [layers] at htarget
  | succ bound ih =>
    by_cases hne : layer = []
    · subst hne
      simp [layers] at htarget
    · rw [layers_of_ne_nil hne, List.flatten_cons, List.mem_append] at htarget
      rcases htarget with hlayer | hrest
      · exact ⟨target, hlayer, .refl⟩
      · obtain ⟨middle, hmiddle, hreach⟩ := ih hrest
        obtain ⟨⟨source, hsource, hleads⟩, -⟩ := mem_nextLayer.mp hmiddle
        exact ⟨source, hsource, hreach.head hleads⟩

/-- **The layers are the reachable nodes.** -/
theorem mem_layers_iff (hsteps : StaysBelow size steps) (hseed : seed < size) :
    target ∈ (layers steps size [seed] [seed]).flatten
      ↔ ReflTransGen (Leads steps) seed target := by
  have hstart := Searching.start hseed
  have hfirst := subset_layers steps hstart (List.mem_singleton_self seed)
  constructor
  · intro htarget
    obtain ⟨source, hsource, hreach⟩ := layers_sound htarget
    rwa [List.mem_singleton.mp hsource] at hreach
  · intro hreach
    induction hreach with
    | refl => exact hfirst
    | tail _ hleads ih =>
      rcases layers_closed hsteps hstart ih hleads with hvisited | hlayers
      · rwa [List.mem_singleton.mp hvisited]
      · exact hlayers

/-! ### Reports -/

theorem mem_reportsOf {nodes : List NodeId} :
    target ∈ reportsOf steps nodes ↔ ∃ source ∈ nodes, Step.report target ∈ steps source := by
  unfold reportsOf
  rw [List.mem_map]
  simp only [List.mem_filter, List.mem_flatMap]
  constructor
  · rintro ⟨⟨_, isReport⟩, ⟨⟨source, hsource, hstep⟩, hreport⟩, rfl⟩
    obtain rfl : isReport = true := hreport
    exact ⟨source, hsource, hstep⟩
  · rintro ⟨source, hsource, hstep⟩
    exact ⟨.report target, ⟨⟨source, hsource, hstep⟩, rfl⟩, rfl⟩

/-- Nodes marked as directly related, then nodes marked as not. -/
def markedNodes (direct indirect : List NodeId) : List (NodeId × Bool) :=
  direct.map (·, true) ++ indirect.map (·, false)

/-- A node is reported on the way from the seed. -/
def Reported (steps : NodeId → List Step) (seed target : NodeId) : Prop :=
  ∃ source, ReflTransGen (Leads steps) seed source ∧ Step.report target ∈ steps source

/-- **The closure.** First come the nodes that the seed itself reports, then the others that are
    reported on the way from it. -/
theorem exists_closure_eq (hsteps : StaysBelow size steps) (hseed : seed < size) :
    ∃ direct indirect, closure size seed steps = markedNodes direct indirect
      ∧ (∀ target, target ∈ direct ↔ Step.report target ∈ steps seed)
      ∧ ∀ target, target ∈ direct ∨ target ∈ indirect ↔ Reported steps seed target := by
  obtain ⟨bound, rfl⟩ := Nat.exists_eq_succ_of_ne_zero (Nat.ne_of_gt (Nat.zero_lt_of_lt hseed))
  have hlayers : ∀ source, source ∈ (layers steps (bound + 1) [seed] [seed]).flatten
      ↔ ReflTransGen (Leads steps) seed source := fun source => mem_layers_iff hsteps hseed
  rw [closure, if_pos hseed]
  rw [layers_of_ne_nil (List.cons_ne_nil seed [])] at hlayers ⊢
  generalize layers steps bound _ _ = rest at hlayers ⊢
  -- The first layer is the seed alone, so what it reports comes first.
  have hdirect : ∀ target, target ∈ (reportsOf steps [seed]).eraseDups
      ↔ Step.report target ∈ steps seed := by
    intro target
    rw [List.mem_eraseDups, mem_reportsOf]
    simp
  refine ⟨_, _, rfl, hdirect, fun target => ?_⟩
  rw [hdirect, List.mem_eraseDups, List.mem_filter, decide_eq_true_eq, hdirect, mem_reportsOf]
  constructor
  · rintro (hreport | ⟨⟨source, hsource, hreport⟩, -⟩)
    · exact ⟨seed, .refl, hreport⟩
    · exact ⟨source, (hlayers source).mp (List.mem_append_right _ hsource), hreport⟩
  · rintro ⟨source, hreach, hreport⟩
    by_cases hfirst : Step.report target ∈ steps seed
    · exact .inl hfirst
    · rcases List.mem_append.mp ((hlayers source).mpr hreach) with hseed | hrest
      · rw [List.mem_singleton.mp hseed] at hreport
        exact absurd hreport hfirst
      · exact .inr ⟨⟨source, hrest, hreport⟩, hfirst⟩

theorem mem_closure_iff (hsteps : StaysBelow size steps) (hseed : seed < size) :
    target ∈ (closure size seed steps).map (·.1) ↔ Reported steps seed target := by
  obtain ⟨direct, indirect, hclosure, -, hall⟩ := exists_closure_eq hsteps hseed
  rw [hclosure, markedNodes, List.map_append, List.map_map, List.map_map, List.mem_append, ← hall]
  simp

/-- What is reported, told by the relations that the steps follow and report along. -/
theorem reported_iff {Follows Reports : NodeId → NodeId → Prop}
    (hfollows : ∀ source target, Leads steps source target ↔ Follows source target)
    (hreports : ∀ source target, Step.report target ∈ steps source ↔ Reports source target) :
    Reported steps seed target
      ↔ ∃ source, ReflTransGen Follows seed source ∧ Reports source target := by
  have hleads : Leads steps = Follows := by
    ext source target
    exact hfollows source target
  unfold Reported
  rw [hleads]
  simp only [hreports]

/-- Where every step reports, the closure is what one or more steps lead to. -/
theorem reported_iff_transGen {Follows : NodeId → NodeId → Prop}
    (hfollows : ∀ source target, Leads steps source target ↔ Follows source target)
    (hreports : ∀ source target, Step.report target ∈ steps source ↔ Follows source target) :
    Reported steps seed target ↔ TransGen Follows seed target := by
  rw [reported_iff hfollows hreports, TransGen.tail'_iff]

end ClassAtlas
