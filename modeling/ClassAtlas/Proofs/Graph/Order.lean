import ClassAtlas.Graph.Registry
import ClassAtlas.Proofs.Graph.Hierarchy
import ClassAtlas.Proofs.Graph.Renumbering
import ClassAtlas.Proofs.Text.Order

namespace ClassAtlas

/-!
# The order in which classes come

A graph does not depend on the order in which its classes became known, if no two of them have the
same name: they are put into one order, and everything else follows from that.

* `ClassDecl.Before` — the order of the classes of a graph;
* `pairwise_graphOrder`, `graphOrder_eq_of_perm` — classes are put into this order, and there is
  only one way to do so;
* `Registry.registerAll` — classes become known one after the other;
* `ClassGraph.build_of_perm` — the same graph, diagnostics and answers in any order.
-/

variable {decl other : ClassDecl} {decls decls' : List ClassDecl}

/-! ### Order -/

/-- A class comes before another one if its source does, and in the same source if its name does,
    byte by byte. -/
def ClassDecl.Before (decl other : ClassDecl) : Prop :=
  decl.origin.index < other.origin.index
    ∨ decl.origin.index = other.origin.index ∧ Text.utf8 decl.name < Text.utf8 other.name

theorem graphBefore_iff : graphBefore decl other = true
    ↔ decl.origin.index < other.origin.index
      ∨ decl.origin.index = other.origin.index ∧ decl.name ≤ other.name := by
  simp only [graphBefore, Bool.or_eq_true, Bool.and_eq_true, decide_eq_true_eq]

theorem graphBefore_trans (first second third : ClassDecl) (h : graphBefore first second = true)
    (h' : graphBefore second third = true) : graphBefore first third = true := by
  rw [graphBefore_iff] at h h' ⊢
  by_cases hsame : first.origin.index = second.origin.index
  · by_cases hsame' : second.origin.index = third.origin.index
    · have hname := (h.resolve_left (by omega)).2
      have hname' := (h'.resolve_left (by omega)).2
      exact Or.inr ⟨hsame.trans hsame', String.le_trans hname hname'⟩
    · exact Or.inl (by omega)
  · exact Or.inl (by omega)

theorem graphBefore_total (first second : ClassDecl) :
    (graphBefore first second || graphBefore second first) = true := by
  rw [Bool.or_eq_true, graphBefore_iff, graphBefore_iff]
  by_cases hsame : first.origin.index = second.origin.index
  · obtain hname | hname := String.le_total first.name second.name
    · exact Or.inl (Or.inr ⟨hsame, hname⟩)
    · exact Or.inr (Or.inr ⟨hsame.symm, hname⟩)
  · omega

/-- Only classes of the same name are at the same place. -/
theorem name_eq_of_graphBefore (h : graphBefore decl other = true)
    (h' : graphBefore other decl = true) : decl.name = other.name := by
  rw [graphBefore_iff] at h h'
  have hname := (h.resolve_left (by omega)).2
  have hname' := (h'.resolve_left (by omega)).2
  exact String.le_antisymm hname hname'

theorem before_of_graphBefore (h : graphBefore decl other = true) (hname : decl.name ≠ other.name) :
    decl.Before other := by
  rw [graphBefore_iff] at h
  obtain hindex | ⟨hindex, hle⟩ := h
  · exact Or.inl hindex
  · have hlt : decl.name < other.name := lt_of_le_of_ne hle hname
    exact Or.inr ⟨hindex, Text.utf8_lt_utf8 hlt⟩

theorem pairwise_mergeSort_graphBefore (decls : List ClassDecl) :
    (graphOrder decls).Pairwise fun decl other => graphBefore decl other = true :=
  List.pairwise_mergeSort graphBefore_trans graphBefore_total decls

theorem graphOrder_perm (decls : List ClassDecl) : (graphOrder decls).Perm decls :=
  List.mergeSort_perm decls graphBefore

/-- Classes of distinct names are put into order. -/
theorem pairwise_graphOrder (hdistinct : (decls.map (·.name)).Nodup) :
    (graphOrder decls).Pairwise ClassDecl.Before := by
  have hnames : (graphOrder decls).Pairwise fun decl other => decl.name ≠ other.name := by
    have hnodup := ((graphOrder_perm decls).map (·.name)).nodup_iff.mpr hdistinct
    exact List.pairwise_map.mp hnodup
  have hsorted := pairwise_mergeSort_graphBefore decls
  exact (hsorted.and hnames).imp fun h => before_of_graphBefore h.1 h.2

/-- There is only one such order. -/
theorem graphOrder_eq_of_perm (hdistinct : (decls.map (·.name)).Nodup) (hperm : decls'.Perm decls) :
    graphOrder decls' = graphOrder decls := by
  have hperm' : (graphOrder decls').Perm (graphOrder decls) :=
    (graphOrder_perm decls').trans (hperm.trans (graphOrder_perm decls).symm)
  refine hperm'.eq_of_pairwise (fun decl other hdecl hother h h' => ?_)
    (pairwise_mergeSort_graphBefore decls') (pairwise_mergeSort_graphBefore decls)
  have hdecl' : decl ∈ decls := (graphOrder_perm decls).mem_iff.mp (hperm'.mem_iff.mp hdecl)
  have hother' : other ∈ decls := (graphOrder_perm decls).mem_iff.mp hother
  exact List.inj_on_of_nodup_map hdistinct hdecl' hother' (name_eq_of_graphBefore h h')

/-! ### Registries -/

namespace Registry

variable {registry : Registry}

/-- Some classes more, one after the other. -/
def registerAll (registry : Registry) (decls : List ClassDecl) : Registry :=
  decls.foldl (fun registry decl => (registry.register decl).1) registry

theorem classes_register_of_new (hnew : decl.name ∉ registry.classes.map (·.name)) :
    (registry.register decl).1.classes = registry.classes ++ [decl] := by
  have hnone : registry.get? decl.name = none := by
    refine List.find?_eq_none.mpr fun known hknown hname => hnew ?_
    rw [decide_eq_true_eq] at hname
    exact hname ▸ List.mem_map_of_mem hknown
  rw [register, hnone]

/-- Classes of new and distinct names all become known. -/
theorem classes_registerAll (h : ((registry.classes ++ decls).map (·.name)).Nodup) :
    (registry.registerAll decls).classes = registry.classes ++ decls := by
  induction decls generalizing registry with
  | nil => rw [List.append_nil]; rfl
  | cons decl later ih =>
    have hnew : decl.name ∉ registry.classes.map (·.name) := by
      intro hknown
      rw [List.map_append, List.map_cons] at h
      exact (List.nodup_append.mp h).2.2 _ hknown _ List.mem_cons_self rfl
    have hclasses := classes_register_of_new hnew
    have hnext : ((registry.register decl).1.registerAll later).classes
        = (registry.register decl).1.classes ++ later := by
      apply ih
      rw [hclasses, List.append_assoc, List.singleton_append]
      exact h
    rw [hclasses, List.append_assoc, List.singleton_append] at hnext
    exact hnext

end Registry

/-! ### Graphs -/

namespace ClassGraph

/-- **Order.** Classes of distinct names make the same graph, with the same diagnostics and the same
    answers, in whatever order they come, also if they are registered first, and whatever order the
    registry keeps them in.  The graph has them in the one order of sources and names. -/
theorem build_of_perm (hdistinct : (decls.map (·.name)).Nodup) (hperm : decls'.Perm decls)
    (diagnostics : Diagnostics) (report : Bool) :
    (build decls diagnostics report).1.decls.Perm decls
      ∧ (build decls diagnostics report).1.decls.Pairwise ClassDecl.Before
      ∧ build decls' diagnostics report = build decls diagnostics report
      ∧ (∀ registry : Registry,
          registry.classes.Perm (Registry.empty.registerAll decls').classes →
          registry.toGraph diagnostics report = build decls diagnostics report)
      ∧ ∀ question ∈ questions, ∀ name,
          question (build decls' diagnostics report).1 name
            = question (build decls diagnostics report).1 name := by
  have hbuild : ∀ {order : List ClassDecl}, order.Perm decls →
      build order diagnostics report = build decls diagnostics report := by
    intro order horder
    rw [build, build, graphOrder_eq_of_perm hdistinct horder]
  have hclasses : (Registry.empty.registerAll decls').classes = decls' := by
    refine Registry.classes_registerAll ?_
    exact (hperm.map (·.name)).nodup_iff.mpr hdistinct
  rw [decls_build]
  refine ⟨graphOrder_perm decls, pairwise_graphOrder hdistinct, hbuild hperm,
    fun registry hregistry => ?_, fun question _ name => ?_⟩
  · rw [hclasses] at hregistry
    exact hbuild (hregistry.trans hperm)
  · rw [hbuild hperm]

/-- Two classes of one source that refer to each other, and one of another source.  They come in two
    orders, in which the class that is first in the graph comes last or in the middle, and a registry
    keeps them in a third one. -/
theorem build_of_perm_cycle :
    let late (decl : ClassDecl) : ClassDecl := { decl with origin := ⟨"late.jar", 1⟩ }
    let base := late (.outline "a.Z" .ordinary (some "a.é") [] [])
    let sub := late (.outline "a.é" .ordinary (some "a.Z") ["a.Missing"] [])
    let first := ClassDecl.outline "z.First" .ordinary none [] []
    build [sub, first, base] .empty true = build [base, sub, first] .empty true
      ∧ Registry.toGraph ⟨[first, base, sub]⟩ .empty true = build [base, sub, first] .empty true
      ∧ (build [base, sub, first] .empty true).1.decls.Pairwise ClassDecl.Before
      ∧ (build [base, sub, first] .empty true).1.decls.map (·.name)
        = ["z.First", "a.Z", "a.é"] := by
  intro late base sub first
  have hdistinct : ([base, sub, first].map (·.name)).Nodup := by decide
  have hperm : [sub, first, base].Perm [base, sub, first] :=
    List.perm_append_singleton base [sub, first]
  have hregistered : (Registry.empty.registerAll [sub, first, base]).classes = [sub, first, base] :=
    rfl
  obtain ⟨-, hsorted, hbuild, hregistry, -⟩ := build_of_perm hdistinct hperm .empty true
  have hkept : [first, base, sub].Perm (Registry.empty.registerAll [sub, first, base]).classes := by
    rw [hregistered]
    exact List.perm_append_singleton sub [first, base]
  have hnames : (build [base, sub, first] .empty true).1.decls.map (·.name)
      = ["z.First", "a.Z", "a.é"] := by cbv
  exact ⟨hbuild, hregistry ⟨[first, base, sub]⟩ hkept, hsorted, hnames⟩

end ClassGraph

end ClassAtlas
