import ClassAtlas.Graph.Search
import ClassAtlas.Proofs.Graph.Closure
import ClassAtlas.Proofs.Graph.Linking
import Mathlib.Data.List.Induction
import Mathlib.Order.Lattice.Nat

namespace ClassAtlas

open Relation

/-!
# The search finds the closure, layer by layer

The search that marks nodes asks for the steps from each reachable node once, and gives the closure:
the layers are the nodes at one distance from the seed each, so what they report is in the order of
the distances.

* `reportsFrom` — what some layers report, layer by layer, with `reports_eq` for the closure;
* `Search.Within` — the state of a search inside a layer, told by the steps that were taken in it;
* `Search.run_noteAsked` — a whole run asks for the layers and finds what they report;
* `layers_add`, `nodup_flatten_layers` — there are no more layers than rounds, and no node twice;
* `LeadsIn`, `reportDistance` — distances from the seed;
* `Layered` — the layers by distance, with `pairwise_reportsFrom` for the order of the reports;
* `searchFrom_layered` — all of it for a whole search.
-/

variable {steps : NodeId → List Step} {size bound rounds : Nat} {seed id other target : NodeId}
  {visited known layer : List NodeId}

/-! ### Reports, layer by layer -/

/-- The nodes that the steps from a layer report, less the ones that are known. -/
def freshReports (steps : NodeId → List Step) (known layer : List NodeId) : List NodeId :=
  ((reportsOf steps layer).filter (· ∉ known)).eraseDups

/-- What some layers report, each node where it is reported first. -/
def reportsFrom (steps : NodeId → List Step) :
    (direct : Bool) → (known : List NodeId) → List (List NodeId) → List (NodeId × Bool)
  | _, _, [] => []
  | direct, known, layer :: rest =>
    (freshReports steps known layer).map (·, direct)
      ++ reportsFrom steps false (known ++ freshReports steps known layer) rest

/-- The nodes of a list of entries that all have the same sort. -/
theorem map_fst_map_pair (direct : Bool) (nodes : List NodeId) :
    (nodes.map (·, direct)).map (·.1) = nodes := by
  rw [List.map_map]
  exact List.map_id _

theorem mem_freshReports :
    target ∈ freshReports steps known layer ↔ target ∈ reportsOf steps layer ∧ target ∉ known := by
  rw [freshReports, List.mem_eraseDups, List.mem_filter, decide_eq_true_eq]

theorem reportsOf_append (layer more : List NodeId) :
    reportsOf steps (layer ++ more) = reportsOf steps layer ++ reportsOf steps more := by
  simp [reportsOf]

theorem freshReports_append (known layer more : List NodeId) :
    freshReports steps known (layer ++ more) = freshReports steps known layer
      ++ freshReports steps (known ++ freshReports steps known layer) more := by
  unfold freshReports
  rw [reportsOf_append, List.filter_append, List.eraseDups_append]
  congr 2
  rw [List.removeAll, List.filter_filter]
  refine List.filter_congr fun target _ => ?_
  -- A node is among the fresh ones or known, or it is neither.
  by_cases hknown : target ∈ known <;> simp [hknown]

/-- Behind the first layer nothing is direct. -/
theorem reportsFrom_false (known : List NodeId) (rest : List (List NodeId)) :
    reportsFrom steps false known rest
      = (freshReports steps known rest.flatten).map (·, false) := by
  induction rest generalizing known with
  | nil => rfl
  | cons layer rest ih =>
    rw [reportsFrom, ih, List.flatten_cons, freshReports_append, List.map_append]

theorem reports_eq (rest : List (List NodeId)) :
    reports steps rest = reportsFrom steps true [] rest := by
  cases rest with
  | nil => rfl
  | cons first rest =>
    have hfirst : freshReports steps [] first = (reportsOf steps first).eraseDups := by
      simp [freshReports]
    rw [reportsFrom, reportsFrom_false, hfirst, List.nil_append]
    rfl

/-- No node is reported twice. -/
theorem nodup_reportsFrom (direct : Bool) (known : List NodeId) (rest : List (List NodeId)) :
    ((reportsFrom steps direct known rest).map (·.1)).Nodup
      ∧ ∀ target ∈ (reportsFrom steps direct known rest).map (·.1), target ∉ known := by
  induction rest generalizing direct known with
  | nil => exact ⟨List.nodup_nil, by simp [reportsFrom]⟩
  | cons layer rest ih =>
    obtain ⟨hnodup, hnew⟩ := ih false (known ++ freshReports steps known layer)
    rw [reportsFrom, List.map_append, map_fst_map_pair]
    constructor
    · refine List.nodup_append.mpr ⟨nodup_eraseDups _, hnodup, ?_⟩
      rintro target hfresh _ hlater rfl
      exact hnew target hlater (List.mem_append_right _ hfresh)
    · intro target htarget
      rcases List.mem_append.mp htarget with hfresh | hlater
      · exact (mem_freshReports.mp hfresh).2
      · exact fun hknown => hnew target hlater (List.mem_append_left _ hknown)

/-! ### Marks -/

namespace Marks

@[simp] theorem size_clear (size : Nat) : (clear size).bits.size = size := Array.size_replicate

@[simp] theorem size_set (marks : Marks) (id : NodeId) :
    (marks.set id).bits.size = marks.bits.size := Array.size_setIfInBounds

theorem has_clear (h : id < size) : (clear size).has id = false := by
  simp [clear, has, Array.getD, h]

theorem has_set {marks : Marks} (hid : id < marks.bits.size) (hother : other < marks.bits.size) :
    (marks.set id).has other = true ↔ other = id ∨ marks.has other = true := by
  unfold has set
  simp only [Array.getD_eq_getD_getElem?, Array.getElem?_setIfInBounds]
  by_cases heq : id = other
  · subst heq
    simp [hid]
  · simp [heq, Ne.symm heq]

/-- The marks for some old nodes and for those that were met since, with the list of the ones that
    were met for the first time. -/
structure Keeps (size : Nat) (old met : List NodeId) (marks : Marks) (fresh : List NodeId) :
    Prop where
  /-- There is a mark for each node. -/
  size_eq : marks.bits.size = size
  /-- The nodes of both lists are marked, -/
  has_iff : ∀ id < size, marks.has id = true ↔ id ∈ old ∨ id ∈ met
  /-- and the fresh ones are those that are not old. -/
  fresh_eq : fresh = (met.filter (· ∉ old)).eraseDups

variable {old met fresh : List NodeId} {marks : Marks}

theorem keeps_nil (hsize : marks.bits.size = size)
    (hold : ∀ id < size, marks.has id = true ↔ id ∈ old) : Keeps size old [] marks [] where
  size_eq := hsize
  has_iff := by simpa using hold
  fresh_eq := rfl

theorem mem_fresh (h : Keeps size old met marks fresh) : id ∈ fresh ↔ id ∈ met ∧ id ∉ old := by
  rw [h.fresh_eq, List.mem_eraseDups, List.mem_filter, decide_eq_true_eq]

/-- A marked node is met once more. -/
theorem Keeps.meet_again (h : Keeps size old met marks fresh) (hid : id < size)
    (hmark : marks.has id = true) : Keeps size old (met ++ [id]) marks fresh where
  size_eq := h.size_eq
  has_iff := by
    intro other hother
    rw [h.has_iff other hother, List.mem_append, List.mem_singleton, ← or_assoc]
    refine ⟨Or.inl, fun hmem => hmem.elim (fun hkept => hkept) ?_⟩
    rintro rfl
    exact (h.has_iff other hid).mp hmark
  fresh_eq := by
    rw [List.filter_append, h.fresh_eq]
    by_cases hold : id ∈ old
    · rw [List.filter_cons_of_neg (by simpa using hold), List.filter_nil, List.append_nil]
    · -- It is one of the fresh nodes already.
      have hmet := ((h.has_iff id hid).mp hmark).resolve_left hold
      have hfresh := (mem_fresh h).mpr ⟨hmet, hold⟩
      rw [h.fresh_eq] at hfresh
      rw [List.filter_cons_of_pos (by simpa using hold), List.filter_nil, eraseDups_concat,
        pushUnique_of_mem hfresh]

/-- A node is met for the first time. -/
theorem Keeps.meet (h : Keeps size old met marks fresh) (hid : id < size)
    (hmark : ¬marks.has id = true) :
    Keeps size old (met ++ [id]) (marks.set id) (fresh ++ [id]) where
  size_eq := (size_set marks id).trans h.size_eq
  has_iff := by
    intro other hother
    rw [has_set (by rwa [h.size_eq]) (by rwa [h.size_eq]), h.has_iff other hother, List.mem_append,
      List.mem_singleton, or_comm, or_assoc]
  fresh_eq := by
    rw [h.has_iff id hid, not_or] at hmark
    have hfresh : id ∉ fresh := fun hmem => hmark.2 ((mem_fresh h).mp hmem).1
    rw [h.fresh_eq] at hfresh
    rw [List.filter_append, List.filter_cons_of_pos (by simpa using hmark.1), List.filter_nil,
      eraseDups_concat, pushUnique_of_notMem hfresh, ← h.fresh_eq]

end Marks

/-! ### Inside a layer -/

namespace Search

variable {direct : Bool} {seen met : List NodeId} {found : List (NodeId × Bool)}
  {taken : List Step} {search : Search} {step : Step}

/-- A report does not touch what is visited. -/
@[simp] theorem visited_report (direct : Bool) (step : Step) (search : Search) :
    (search.report direct step).visited = search.visited := by
  unfold report
  split <;> rfl

@[simp] theorem next_report (direct : Bool) (step : Step) (search : Search) :
    (search.report direct step).next = search.next := by
  unfold report
  split <;> rfl

/-- A visit does not touch what is reported. -/
@[simp] theorem reported_visit (step : Step) (search : Search) :
    (search.visit step).reported = search.reported := by
  unfold visit
  split <;> rfl

@[simp] theorem found_visit (step : Step) (search : Search) :
    (search.visit step).found = search.found := by
  unfold visit
  split <;> rfl

theorem keeps_visit (h : search.visited.Keeps size seen met search.next)
    (hstep : step.target < size) :
    (search.visit step).visited.Keeps size seen (met ++ [step.target])
      (search.visit step).next := by
  by_cases hmark : search.visited.has step.target = true
  · rw [visit, if_pos hmark]
    exact h.meet_again hstep hmark
  · rw [visit, if_neg hmark]
    exact h.meet hstep hmark

/-- Some nodes were found since the last layer. -/
def Finds (size : Nat) (direct : Bool) (found : List (NodeId × Bool)) (met : List NodeId)
    (search : Search) : Prop :=
  ∃ fresh, search.reported.Keeps size (found.map (·.1)) met fresh
    ∧ search.found = found ++ fresh.map (·, direct)

theorem finds_report (h : search.Finds size direct found met) (hstep : step.target < size)
    (hreport : step.isReport = true) :
    (search.report direct step).Finds size direct found (met ++ [step.target]) := by
  obtain ⟨fresh, hkeeps, hfound⟩ := h
  by_cases hmark : search.reported.has step.target = true
  · rw [report, if_neg (by simp [hmark])]
    exact ⟨fresh, hkeeps.meet_again hstep hmark, hfound⟩
  · rw [report, if_pos (by simp [hmark, hreport])]
    refine ⟨fresh ++ [step.target], hkeeps.meet hstep hmark, ?_⟩
    show search.found ++ [(step.target, direct)] = _
    rw [hfound, List.map_append, List.append_assoc]
    rfl

/-- A search inside a layer, in front of which the nodes of `seen` were visited and those of `found`
    were found, after the steps of `taken`. -/
structure Within (size : Nat) (direct : Bool) (seen : List NodeId) (found : List (NodeId × Bool))
    (taken : List Step) (search : Search) : Prop where
  /-- The nodes that the steps lead to for the first time are next. -/
  visits : search.visited.Keeps size seen (taken.map (·.target)) search.next
  /-- The nodes that they report for the first time are found. -/
  finds : search.Finds size direct found ((taken.filter (·.isReport)).map (·.target))

/-- The step lemma: what holds inside a layer holds after one step more. -/
theorem Within.take (h : Within size direct seen found taken search) (hstep : step.target < size) :
    Within size direct seen found (taken ++ [step]) (search.take direct step) where
  visits := by
    rw [List.map_append, List.map_singleton]
    exact keeps_visit (by simpa using h.visits) hstep
  finds := by
    rw [List.filter_append, List.map_append, Search.take, Finds, reported_visit, found_visit]
    cases hreport : step.isReport with
    | false =>
      -- A step that only passes through a node reports nothing.
      rw [List.filter_cons_of_neg (by simp [hreport]), List.filter_nil, List.map_nil,
        List.append_nil, report, if_neg (by simp [hreport])]
      exact h.finds
    | true =>
      rw [List.filter_cons_of_pos hreport]
      exact finds_report h.finds hstep hreport

/-- The run lemma, for the steps of a layer. -/
theorem Within.foldl_take (h : Within size direct seen found taken search) {more : List Step}
    (hmore : ∀ step ∈ more, step.target < size) :
    Within size direct seen found (taken ++ more) (more.foldl (Search.take direct) search) := by
  induction more generalizing taken search with
  | nil => rwa [List.append_nil]
  | cons step more ih =>
    have hnext := ih (h.take (hmore step List.mem_cons_self)) fun later hlater =>
      hmore later (List.mem_cons_of_mem _ hlater)
    rwa [List.append_assoc] at hnext

/-! ### Between layers -/

/-- A search in front of a layer. -/
structure Between (size : Nat) (seen : List NodeId) (search : Search) : Prop where
  /-- The nodes that were visited are marked, -/
  visits : search.visited.Keeps size seen [] []
  /-- and those that were found. -/
  finds : search.reported.Keeps size (search.found.map (·.1)) [] []
  /-- No node is next. -/
  next_eq : search.next = []

theorem between_start (h : seed < size) : Between size [seed] (start size seed) where
  visits := by
    have hclear : (Marks.clear size).Keeps size [] [] [] :=
      Marks.keeps_nil (Marks.size_clear size) fun id hid => by simp [Marks.has_clear hid]
    have hset := hclear.meet h (by simp [Marks.has_clear h])
    refine Marks.keeps_nil hset.size_eq fun id hid => ?_
    rw [start, hset.has_iff id hid]
    simp
  finds := Marks.keeps_nil (Marks.size_clear size) fun id hid => by
    simp [start, Marks.has_clear hid]
  next_eq := rfl

/-- A whole layer leads to the next one and finds what it reports. -/
theorem Between.expand (hsteps : StaysBelow size steps) (h : search.Between size seen)
    (direct : Bool) (layer : List NodeId) :
    ((layer.flatMap steps).foldl (Search.take direct) search).next = nextLayer steps seen layer
      ∧ ((layer.flatMap steps).foldl (Search.take direct) search).found
        = search.found ++ (freshReports steps (search.found.map (·.1)) layer).map (·, direct)
      ∧ Between size (seen ++ nextLayer steps seen layer)
        { (layer.flatMap steps).foldl (Search.take direct) search with next := [] } := by
  have hmore : ∀ step ∈ layer.flatMap steps, step.target < size := by
    intro step hstep
    obtain ⟨source, -, hstep⟩ := List.mem_flatMap.mp hstep
    exact hsteps source step.target ⟨step, hstep, rfl⟩
  have hbegin : Within size direct seen search.found [] search :=
    ⟨by simpa [h.next_eq] using h.visits, [], h.finds, (List.append_nil _).symm⟩
  obtain ⟨hvisits, fresh, hfinds, hfound⟩ := hbegin.foldl_take hmore
  rw [List.nil_append] at hvisits hfinds
  generalize (layer.flatMap steps).foldl (Search.take direct) search = search' at *
  have hnext : search'.next = nextLayer steps seen layer := hvisits.fresh_eq
  have hfresh : fresh = freshReports steps (search.found.map (·.1)) layer := hfinds.fresh_eq
  rw [hfresh] at hfound
  refine ⟨hnext, hfound, ?_, ?_, rfl⟩
  · -- The marks are the same ones, with nothing met in the layer to come.
    refine Marks.keeps_nil hvisits.size_eq fun id hid => ?_
    rw [hvisits.has_iff id hid, List.mem_append, ← hnext, Marks.mem_fresh hvisits]
    by_cases hseen : id ∈ seen <;> simp [hseen]
  · refine Marks.keeps_nil hfinds.size_eq fun id hid => ?_
    have hnames : search'.found.map (·.1)
        = search.found.map (·.1) ++ freshReports steps (search.found.map (·.1)) layer := by
      rw [hfound, List.map_append, map_fst_map_pair]
    show _ ↔ id ∈ search'.found.map (·.1)
    rw [hfinds.has_iff id hid, hnames, List.mem_append, ← hfresh, Marks.mem_fresh hfinds]
    by_cases hold : id ∈ search.found.map (·.1)
    · simp only [hold, true_or]
    · simp only [hold, false_or, not_false_eq_true, and_true]

end Search

/-! ### Whole runs -/

/-- The nodes of a layer are asked for one by one. -/
theorem Search.run_expand (steps : NodeId → List Step) (direct : Bool) (layer : List NodeId)
    (search : Search) (asked : List NodeId) :
    (search.expand (noteAsked steps) direct layer).run asked
      = ((layer.flatMap steps).foldl (Search.take direct) search, asked ++ layer) := by
  induction layer generalizing search asked with
  | nil =>
    rw [List.append_nil]
    rfl
  | cons id layer ih =>
    have hrest := ih ((steps id).foldl (Search.take direct) search) (asked ++ [id])
    rw [List.append_assoc] at hrest
    rw [List.flatMap_cons, List.foldl_append]
    exact hrest

theorem layers_nil : layers steps bound visited [] = [] := by
  cases bound <;> rfl

/-- **Whole runs.** A run asks for the nodes of the layers, and finds what they report. -/
theorem Search.run_noteAsked (hsteps : StaysBelow size steps) (rounds : Nat) (direct : Bool)
    (layer : List NodeId) {search : Search} (h : search.Between size visited)
    (asked : List NodeId) :
    ∃ last, (Search.run (noteAsked steps) rounds direct layer search).run asked
        = (last, asked ++ (layers steps rounds visited layer).flatten)
      ∧ last.found = search.found ++ reportsFrom steps direct (search.found.map (·.1))
          (layers steps rounds visited layer) := by
  induction rounds generalizing direct layer visited search asked with
  | zero =>
    refine ⟨search, ?_, (List.append_nil _).symm⟩
    rw [layers, List.flatten_nil, List.append_nil]
    rfl
  | succ rounds ih =>
    by_cases hne : layer = []
    · subst hne
      rw [layers_nil]
      refine ⟨search, ?_, (List.append_nil _).symm⟩
      rw [List.flatten_nil, List.append_nil]
      rfl
    · obtain ⟨hnext, hfound, hbetween⟩ := h.expand hsteps direct layer
      have hexpand := run_expand steps direct layer search asked
      generalize (layer.flatMap steps).foldl (Search.take direct) search = search' at *
      obtain ⟨last, hrun, hlast⟩ := ih false search'.next hbetween (asked ++ layer)
      rw [layers_of_ne_nil hne, List.flatten_cons, reportsFrom, ← hnext, ← List.append_assoc,
        ← List.append_assoc]
      rw [← hnext] at hrun hlast
      refine ⟨last, ?_, ?_⟩
      · rw [← hrun, run, if_neg (by simpa using hne), StateT.run_bind, hexpand]
        rfl
      · rw [hlast]
        show search'.found ++ reportsFrom steps false (search'.found.map (·.1)) _ = _
        rw [hfound, List.map_append, map_fst_map_pair]

/-! ### Rounds and layers -/

/-- As many layers as there are nodes are all of them. -/
theorem layers_add (hsteps : StaysBelow size steps) (h : Searching size bound visited layer)
    (extra : Nat) :
    layers steps (bound + extra) visited layer = layers steps bound visited layer := by
  induction bound generalizing visited layer with
  | zero =>
    have hnil : layer = [] := by
      by_contra hne
      exact absurd (h.bound_pos hne) (Nat.lt_irrefl 0)
    rw [hnil, layers_nil, layers_nil]
  | succ bound ih =>
    by_cases hne : layer = []
    · rw [hne, layers_nil, layers_nil]
    · rw [Nat.add_right_comm, layers_of_ne_nil hne, layers_of_ne_nil hne, ih (h.next hsteps)]

/-- No node is in two layers, or in one layer twice. -/
theorem nodup_flatten_layers (hlayer : layer.Nodup) (hvisited : layer ⊆ visited) :
    (layers steps bound visited layer).flatten.Nodup
      ∧ ∀ id ∈ (layers steps bound visited layer).flatten, id ∈ layer ∨ id ∉ visited := by
  induction bound generalizing visited layer with
  | zero => exact ⟨List.nodup_nil, by simp [layers]⟩
  | succ bound ih =>
    by_cases hne : layer = []
    · subst hne
      rw [layers_nil]
      exact ⟨List.nodup_nil, by simp⟩
    · have hnext : (nextLayer steps visited layer).Nodup := nodup_eraseDups _
      obtain ⟨hnodup, hlater⟩ := ih hnext (List.subset_append_right visited _)
      -- All later nodes are new in front of this layer.
      have hnew : ∀ id ∈ (layers steps bound (visited ++ nextLayer steps visited layer)
          (nextLayer steps visited layer)).flatten, id ∉ visited := by
        intro id hid
        rcases hlater id hid with hnext | hnew
        · exact (mem_nextLayer.mp hnext).2
        · exact fun hseen => hnew (List.mem_append_left _ hseen)
      rw [layers_of_ne_nil hne, List.flatten_cons]
      constructor
      · refine List.nodup_append.mpr ⟨hlayer, hnodup, ?_⟩
        rintro id hid _ hrest rfl
        exact hnew id hrest (hvisited hid)
      · intro id hid
        rcases List.mem_append.mp hid with hfirst | hrest
        · exact .inl hfirst
        · exact .inr (hnew id hrest)

/-! ### Distances -/

/-- So many steps lead from the seed to a node. -/
def LeadsIn (steps : NodeId → List Step) (seed : NodeId) : Nat → NodeId → Prop
  | 0, id => id = seed
  | count + 1, id => ∃ source, LeadsIn steps seed count source ∧ Leads steps source id

/-- Steps lead to a node if so many of them do, for some number. -/
theorem reflTransGen_leads_iff :
    ReflTransGen (Leads steps) seed id ↔ ∃ count, LeadsIn steps seed count id := by
  constructor
  · intro hreach
    induction hreach with
    | refl => exact ⟨0, rfl⟩
    | tail _ hleads ih =>
      obtain ⟨count, hcount⟩ := ih
      exact ⟨count + 1, _, hcount, hleads⟩
  · rintro ⟨count, hcount⟩
    induction count generalizing id with
    | zero =>
      obtain rfl : id = seed := hcount
      exact .refl
    | succ count ih =>
      obtain ⟨source, hsource, hleads⟩ := hcount
      exact (ih hsource).tail hleads

/-- A node is reported after so many steps from the seed. -/
def ReportedIn (steps : NodeId → List Step) (seed : NodeId) (count : Nat) (target : NodeId) :
    Prop :=
  ∃ source, LeadsIn steps seed count source ∧ Step.report target ∈ steps source

/-- The distance from the seed to the nearest node that reports the target. -/
noncomputable def reportDistance (steps : NodeId → List Step) (seed target : NodeId) : Nat :=
  sInf {count | ReportedIn steps seed count target}

variable {count : Nat}

theorem reportDistance_eq (hreported : ReportedIn steps seed count target)
    (hfirst : ∀ earlier < count, ¬ReportedIn steps seed earlier target) :
    reportDistance steps seed target = count := by
  refine le_antisymm (Nat.sInf_le hreported) ?_
  by_contra hless
  have hleast : ReportedIn steps seed (reportDistance steps seed target) target :=
    Nat.sInf_mem (s := {count | ReportedIn steps seed count target}) ⟨count, hreported⟩
  exact hfirst _ (not_le.mp hless) hleast

/-- A layer of the search: its nodes are those at one distance from the seed. -/
structure Layered (steps : NodeId → List Step) (seed : NodeId) (count : Nat)
    (visited known layer : List NodeId) : Prop where
  /-- So many steps and no fewer lead to the nodes of the layer. -/
  mem_layer : ∀ id, id ∈ layer
    ↔ LeadsIn steps seed count id ∧ ∀ earlier < count, ¬LeadsIn steps seed earlier id
  /-- At most so many steps lead to the visited nodes. -/
  mem_visited : ∀ id, id ∈ visited ↔ ∃ earlier ≤ count, LeadsIn steps seed earlier id
  /-- After fewer steps the known nodes are reported. -/
  mem_known : ∀ id, id ∈ known ↔ ∃ earlier < count, ReportedIn steps seed earlier id

theorem layered_start (steps : NodeId → List Step) (seed : NodeId) :
    Layered steps seed 0 [seed] [] [seed] where
  mem_layer := by simp [LeadsIn]
  mem_visited := by simp [LeadsIn]
  mem_known := by simp

/-- What is reported from a layer and was not known is reported at its distance first. -/
theorem Layered.mem_freshReports (h : Layered steps seed count visited known layer) :
    target ∈ freshReports steps known layer ↔ ReportedIn steps seed count target
      ∧ ∀ earlier < count, ¬ReportedIn steps seed earlier target := by
  rw [ClassAtlas.mem_freshReports, mem_reportsOf, h.mem_known]
  constructor
  · rintro ⟨⟨source, hsource, hreport⟩, hnew⟩
    exact ⟨⟨source, ((h.mem_layer source).mp hsource).1, hreport⟩,
      fun earlier hearlier hold => hnew ⟨earlier, hearlier, hold⟩⟩
  · rintro ⟨⟨source, hleads, hreport⟩, hfirst⟩
    refine ⟨⟨source, (h.mem_layer source).mpr ⟨hleads, ?_⟩, hreport⟩, ?_⟩
    · -- A node nearer to the seed would report the target earlier.
      exact fun earlier hearlier hnear => hfirst earlier hearlier ⟨source, hnear, hreport⟩
    · rintro ⟨earlier, hearlier, hold⟩
      exact hfirst earlier hearlier hold

/-- The step lemma: the next layer is one step further from the seed. -/
theorem Layered.next (h : Layered steps seed count visited known layer) :
    Layered steps seed (count + 1) (visited ++ nextLayer steps visited layer)
      (known ++ freshReports steps known layer) (nextLayer steps visited layer) := by
  have hlayer : ∀ id, id ∈ nextLayer steps visited layer ↔ LeadsIn steps seed (count + 1) id
      ∧ ∀ earlier < count + 1, ¬LeadsIn steps seed earlier id := by
    intro id
    rw [mem_nextLayer, h.mem_visited]
    constructor
    · rintro ⟨⟨source, hsource, hleads⟩, hnew⟩
      exact ⟨⟨source, ((h.mem_layer source).mp hsource).1, hleads⟩,
        fun earlier hearlier hold => hnew ⟨earlier, by omega, hold⟩⟩
    · rintro ⟨⟨source, hsource, hleads⟩, hfirst⟩
      refine ⟨⟨source, (h.mem_layer source).mpr ⟨hsource, ?_⟩, hleads⟩, ?_⟩
      · -- From a nearer node, fewer steps would lead to this one.
        exact fun earlier hearlier hnear =>
          hfirst (earlier + 1) (by omega) ⟨source, hnear, hleads⟩
      · rintro ⟨earlier, hearlier, hold⟩
        exact hfirst earlier (by omega) hold
  refine ⟨hlayer, fun id => ?_, fun id => ?_⟩
  · rw [List.mem_append, h.mem_visited, hlayer]
    constructor
    · rintro (⟨earlier, hearlier, hold⟩ | ⟨hnew, -⟩)
      · exact ⟨earlier, by omega, hold⟩
      · exact ⟨count + 1, le_rfl, hnew⟩
    · rintro ⟨earlier, hearlier, hleads⟩
      by_cases hold : ∃ earlier ≤ count, LeadsIn steps seed earlier id
      · exact .inl hold
      · refine .inr ⟨?_, fun earlier hearlier hnear => hold ⟨earlier, by omega, hnear⟩⟩
        obtain rfl : earlier = count + 1 := by
          by_contra hne
          exact hold ⟨earlier, by omega, hleads⟩
        exact hleads
  · rw [List.mem_append, h.mem_known, h.mem_freshReports]
    constructor
    · rintro (⟨earlier, hearlier, hold⟩ | ⟨hnew, -⟩)
      · exact ⟨earlier, by omega, hold⟩
      · exact ⟨count, by omega, hnew⟩
    · rintro ⟨earlier, hearlier, hreported⟩
      by_cases hold : ∃ earlier < count, ReportedIn steps seed earlier id
      · exact .inl hold
      · refine .inr ⟨?_, fun earlier hearlier hnear => hold ⟨earlier, hearlier, hnear⟩⟩
        obtain rfl : earlier = count := by
          by_contra hne
          exact hold ⟨earlier, by omega, hreported⟩
        exact hreported

/-- The run lemma: what the layers from one on report comes in the order of the distances. -/
theorem Layered.pairwise_reportsFrom (h : Layered steps seed count visited known layer)
    (direct : Bool) :
    (reportsFrom steps direct known (layers steps bound visited layer)).Pairwise
        (fun first second =>
          reportDistance steps seed first.1 ≤ reportDistance steps seed second.1)
      ∧ ∀ entry ∈ reportsFrom steps direct known (layers steps bound visited layer),
        count ≤ reportDistance steps seed entry.1 := by
  induction bound generalizing count visited known layer direct with
  | zero => exact ⟨List.Pairwise.nil, by simp [layers, reportsFrom]⟩
  | succ bound ih =>
    by_cases hne : layer = []
    · subst hne
      rw [layers_nil]
      exact ⟨List.Pairwise.nil, by simp [reportsFrom]⟩
    · obtain ⟨hsorted, hfar⟩ := ih h.next false
      have hnear : ∀ entry ∈ (freshReports steps known layer).map (·, direct),
          reportDistance steps seed entry.1 = count := by
        intro entry hentry
        obtain ⟨target, htarget, rfl⟩ := List.mem_map.mp hentry
        obtain ⟨hreported, hfirst⟩ := h.mem_freshReports.mp htarget
        exact reportDistance_eq hreported hfirst
      rw [layers_of_ne_nil hne, reportsFrom]
      constructor
      · refine List.pairwise_append.mpr ⟨?_, hsorted, fun first hfirst second hsecond => ?_⟩
        · exact List.pairwise_iff_forall_sublist.mpr fun hsub => by
            rw [hnear _ (hsub.subset List.mem_cons_self),
              hnear _ (hsub.subset (List.mem_cons_of_mem _ List.mem_cons_self))]
        · rw [hnear first hfirst]
          exact Nat.le_of_succ_le (hfar second hsecond)
      · intro entry hentry
        rcases List.mem_append.mp hentry with hfresh | hlater
        · exact (hnear entry hfresh).ge
        · exact Nat.le_of_succ_le (hfar entry hlater)

/-! ### Whole searches -/

/-- What holds of the nodes that a search from a seed asks for, and of what it finds. -/
structure FindsLayered (steps : NodeId → List Step) (seed : NodeId) (asked : List NodeId)
    (found : List (NodeId × Bool)) : Prop where
  /-- No node is asked for twice. -/
  nodup_asked : asked.Nodup
  /-- The nodes that are asked for are the ones that steps lead to, and the seed. -/
  mem_asked : ∀ id, id ∈ asked ↔ ReflTransGen (Leads steps) seed id
  /-- No node is found twice. -/
  nodup_found : (found.map (·.1)).Nodup
  /-- The nodes that are found are those that one of the others reports. -/
  mem_found : ∀ target, target ∈ found.map (·.1)
    ↔ ∃ source, ReflTransGen (Leads steps) seed source ∧ Step.report target ∈ steps source
  /-- The direct ones are those that the seed reports. -/
  direct_iff : ∀ target direct, (target, direct) ∈ found →
    (direct = true ↔ Step.report target ∈ steps seed)
  /-- They are in the order of the distances from the seed to a node that reports them. -/
  nearest_first : found.Pairwise fun first second =>
    reportDistance steps seed first.1 ≤ reportDistance steps seed second.1

theorem closure_eq_reportsFrom (hseed : seed < size) :
    closure size seed steps = reportsFrom steps true [] (layers steps size [seed] [seed]) := by
  rw [closure, if_pos hseed, reports_eq]

/-- The closure has no node twice. -/
theorem nodup_map_fst_closure (hseed : seed < size) :
    ((closure size seed steps).map (·.1)).Nodup := by
  rw [closure_eq_reportsFrom hseed]
  exact (nodup_reportsFrom true [] _).1

/-- It is in the order of the distances. -/
theorem pairwise_closure (hseed : seed < size) :
    (closure size seed steps).Pairwise fun first second =>
      reportDistance steps seed first.1 ≤ reportDistance steps seed second.1 := by
  rw [closure_eq_reportsFrom hseed]
  exact ((layered_start steps seed).pairwise_reportsFrom true).1

theorem direct_iff_of_mem_closure (hsteps : StaysBelow size steps) (hseed : seed < size)
    {direct : Bool} (hentry : (target, direct) ∈ closure size seed steps) :
    direct = true ↔ Step.report target ∈ steps seed := by
  have hnodup : ((closure size seed steps).map (·.1)).Nodup := nodup_map_fst_closure hseed
  obtain ⟨near, far, hclosure, hnear, -⟩ := exists_closure_eq hsteps hseed
  rw [hclosure, markedNodes] at hentry hnodup
  rw [List.map_append, map_fst_map_pair, map_fst_map_pair] at hnodup
  rw [← hnear]
  rcases List.mem_append.mp hentry with hmem | hmem
  · obtain ⟨_, hdirect, heq⟩ := List.mem_map.mp hmem
    obtain ⟨rfl, rfl⟩ := Prod.mk.inj heq
    exact ⟨fun _ => hdirect, fun _ => rfl⟩
  · obtain ⟨_, hindirect, heq⟩ := List.mem_map.mp hmem
    obtain ⟨rfl, rfl⟩ := Prod.mk.inj heq
    -- A node that is not direct is not among the direct ones as well.
    refine ⟨fun h => absurd h Bool.false_ne_true, fun h => ?_⟩
    exact absurd rfl ((List.nodup_append.mp hnodup).2.2 _ h _ hindirect)

/-- An entry of the closure is a node that is reported, with whether the seed reports it. -/
theorem mem_closure_pair_iff (hsteps : StaysBelow size steps) (hseed : seed < size)
    {direct : Bool} :
    (target, direct) ∈ closure size seed steps
      ↔ Reported steps seed target ∧ (direct = true ↔ Step.report target ∈ steps seed) := by
  rw [← mem_closure_iff hsteps hseed, List.mem_map]
  constructor
  · intro hentry
    exact ⟨⟨_, hentry, rfl⟩, direct_iff_of_mem_closure hsteps hseed hentry⟩
  · rintro ⟨⟨⟨_, direct'⟩, hentry, rfl⟩, hdirect⟩
    have hsame : direct = direct' :=
      Bool.eq_iff_iff.mpr (hdirect.trans (direct_iff_of_mem_closure hsteps hseed hentry).symm)
    rwa [hsame]

/-- **The search finds the closure.** From a seed in the graph it asks for the steps from each node
    that steps lead to, once, and finds what they report, nearest first.  From any other seed it
    asks for nothing. -/
theorem searchFrom_layered (hsteps : StaysBelow size steps) (hrounds : size ≤ rounds)
    (seed : NodeId) :
    ∃ asked, (searchFrom rounds size seed (noteAsked steps)).run []
        = (closure size seed steps, asked)
      ∧ (seed < size → FindsLayered steps seed asked (closure size seed steps))
      ∧ (size ≤ seed → asked = [] ∧ closure size seed steps = []) := by
  by_cases hseed : seed < size
  · obtain ⟨extra, rfl⟩ := Nat.exists_eq_add_of_le hrounds
    obtain ⟨last, hrun, hfound⟩ :=
      Search.run_noteAsked hsteps (size + extra) true [seed] (Search.between_start hseed) []
    rw [layers_add hsteps (Searching.start hseed)] at hrun hfound
    refine ⟨(layers steps size [seed] [seed]).flatten, ?_, fun _ => ?_, ?_⟩
    · have hclosure : last.found = closure size seed steps := by
        rw [hfound, closure_eq_reportsFrom hseed]
        rfl
      rw [searchFrom, if_neg (Nat.not_le.mpr hseed), StateT.run_bind, hrun, ← hclosure]
      rfl
    · constructor
      · exact (nodup_flatten_layers (List.nodup_singleton seed) (List.Subset.refl [seed])).1
      · exact fun id => mem_layers_iff hsteps hseed
      · rw [closure_eq_reportsFrom hseed]
        exact (nodup_reportsFrom true [] _).1
      · exact fun target => mem_closure_iff hsteps hseed
      · exact fun target direct => direct_iff_of_mem_closure hsteps hseed
      · rw [closure_eq_reportsFrom hseed]
        exact ((layered_start steps seed).pairwise_reportsFrom true).1
    · exact fun h => absurd hseed (Nat.not_lt.mpr h)
  · have hnone : closure size seed steps = [] := if_neg hseed
    refine ⟨[], ?_, fun h => absurd h hseed, fun _ => ⟨rfl, hnone⟩⟩
    rw [searchFrom, if_pos (Nat.not_lt.mp hseed), hnone]
    rfl

/-- Two nodes lead to each other, and the way to a third one passes through the second one without
    a report. -/
def detour : NodeId → List Step
  | 0 => [.traverse 1]
  | 1 => [.report 0, .report 2]
  | _ => [.report 0, .report 1]

theorem searchFrom_layered_detour : StaysBelow 3 detour ∧
    ∃ asked, (searchFrom 3 3 0 (noteAsked detour)).run []
        = ([(0, false), (2, false), (1, false)], asked)
      ∧ FindsLayered detour 0 asked [(0, false), (2, false), (1, false)] := by
  have hsteps : StaysBelow 3 detour := by
    rintro source _ ⟨step, hstep, rfl⟩
    match source with
    | 0 | 1 | source + 2 =>
      simp only [detour, List.mem_cons, List.not_mem_nil, or_false] at hstep
      rcases hstep with rfl | rfl <;> decide
  obtain ⟨asked, hrun, hfinds, -⟩ := searchFrom_layered hsteps (Nat.le_refl 3) 0
  exact ⟨hsteps, asked, hrun, hfinds (by decide)⟩

end ClassAtlas
