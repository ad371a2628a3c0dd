import ClassAtlas.Proofs.Graph.Arena
import ClassAtlas.Proofs.Graph.Order

namespace ClassAtlas

/-!
# References to classes that are missing

When a graph is made, each mention of a class that is not there can be reported.  The reports are
made while the nodes are linked, one look-up after the other, and leave the links alone.

* `ClassDecl.mentions` — the names that a class mentions in one way;
* `Missing` — the names that are reported where they are mentioned;
* `ClassTable.unresolved_eq` — the reports of one class;
* `ClassGraph.reports_build` — the reports of a graph, and the graph without them.
-/

/-! ### Mentions -/

/-- The names that a class mentions in one way, in the order in which it does. -/
def ClassDecl.mentions (decl : ClassDecl) : ReferenceKind → List String
  | .superclass => decl.superclass.toList
  | .interface => decl.interfaces
  | .annotated => decl.annotations.map (·.name)
  | .outerClass => decl.outerClass.toList
  | .innerClass => decl.innerClasses

/-- The ways to mention a class, in the order of the reports. -/
def ReferenceKind.inOrder : List ReferenceKind :=
  [.superclass, .interface, .annotated, .outerClass, .innerClass]

theorem ClassDecl.references_eq (decl : ClassDecl) :
    decl.references
      = ReferenceKind.inOrder.flatMap fun kind => (decl.mentions kind).map (kind, ·) := by
  simp [references, ReferenceKind.inOrder, mentions]

/-- No class has the name, and it is not the root of all classes. -/
def Missing (decls : List ClassDecl) (name : String) : Prop :=
  name ∉ decls.map (·.name) ∧ name ≠ "java.lang.Object"

instance (decls : List ClassDecl) : DecidablePred (Missing decls) :=
  fun _ => inferInstanceAs (Decidable (_ ∧ _))

/-! ### One class -/

namespace ClassTable

/-- A name is looked up in vain if no class of the table has it. -/
theorem isNone_idOf?_iff (table : ClassTable) (name : String) :
    (table.idOf? name).isNone = true ↔ name ∉ table.toList.map (·.name) := by
  rw [Option.isNone_iff_eq_none, idOf?, List.find?_eq_none, List.mem_map]
  constructor
  · rintro hnone ⟨decl, hdecl, rfl⟩
    obtain ⟨id, hid⟩ := List.getElem?_of_mem hdecl
    rw [Array.getElem?_toList] at hid
    have hlt : id < table.size := (Array.getElem?_eq_some_iff.mp hid).1
    exact hnone id (by rwa [List.mem_reverse, List.mem_range]) (by rw [hid]; simp)
  · intro habsent id _ hname
    rw [decide_eq_true_eq, Option.map_eq_some_iff] at hname
    obtain ⟨decl, hdecl, rfl⟩ := hname
    exact habsent ⟨decl, Array.mem_toList_iff.mpr (Array.mem_of_getElem? hdecl), rfl⟩

/-- The reports of a class are those of the missing ones among its mentions. -/
theorem unresolved_eq (table : ClassTable) (decl : ClassDecl) :
    table.unresolved decl
      = ReferenceKind.inOrder.flatMap fun kind =>
          ((decl.mentions kind).filter (Missing table.toList ·)).map
            (unresolvedReference decl kind) := by
  have hmissing : ∀ name, ((table.idOf? name).isNone && name ≠ rootClass)
      = decide (Missing table.toList name) := by
    intro name
    rw [Bool.eq_iff_iff, Bool.and_eq_true, table.isNone_idOf?_iff, decide_eq_true_eq,
      decide_eq_true_eq]
    rfl
  unfold unresolved
  simp only [hmissing, decl.references_eq, List.filter_flatMap, List.map_flatMap, List.filter_map,
    List.map_map, Function.comp_def]

end ClassTable

/-! ### All classes -/

namespace ClassGraph

variable {decls : List ClassDecl}

theorem contains_build_iff {diagnostics : Diagnostics} {report : Bool} (name : String) :
    (build decls diagnostics report).1.contains name = true ↔ name ∈ decls.map (·.name) := by
  have hnone := (tableOf decls).isNone_idOf?_iff name
  rw [tableOf, List.toList_toArray, ((graphOrder_perm decls).map (·.name)).mem_iff] at hnone
  rw [contains, idOf?_build, Option.isSome_iff_ne_none, ← not_iff_not, ← hnone, tableOf]
  simp

theorem missing_graphOrder (decls : List ClassDecl) (name : String) :
    Missing (graphOrder decls) name ↔ Missing decls name := by
  unfold Missing
  rw [((graphOrder_perm decls).map (·.name)).mem_iff]

/-- The reports of a class of a graph. -/
theorem unresolved_tableOf (decls : List ClassDecl) :
    (tableOf decls).unresolved = fun decl =>
      ReferenceKind.inOrder.flatMap fun kind =>
        ((decl.mentions kind).filter (Missing decls ·)).map (unresolvedReference decl kind) := by
  funext decl
  rw [ClassTable.unresolved_eq, tableOf, List.toList_toArray]
  simp only [missing_graphOrder]

theorem toList_build_true (decls : List ClassDecl) (diagnostics : Diagnostics) :
    (build decls diagnostics true).2.toList
      = diagnostics.toList ++ (graphOrder decls).flatMap (tableOf decls).unresolved := by
  rw [build, Diagnostics.toList_append, if_pos rfl, List.toList_toArray]
  rfl

/-! ### What is not reported -/

/-- Members and dependencies have no part in the order of classes. -/
theorem graphOrder_map_of_origin {change : ClassDecl → ClassDecl}
    (horigin : ∀ decl, (change decl).origin = decl.origin)
    (hname : ∀ decl, (change decl).name = decl.name) (decls : List ClassDecl) :
    graphOrder (decls.map change) = (graphOrder decls).map change := by
  refine (List.map_mergeSort fun decl _ other _ => ?_).symm
  rw [graphBefore, graphBefore, horigin, horigin, hname, hname]

/-- Changes of classes that leave their names, sources and mentions alone do not change the
    reports. -/
theorem toList_build_map (change : ClassDecl → ClassDecl)
    (horigin : ∀ decl, (change decl).origin = decl.origin)
    (hname : ∀ decl, (change decl).name = decl.name)
    (hmentions : ∀ decl kind, (change decl).mentions kind = decl.mentions kind)
    (decls : List ClassDecl) (diagnostics : Diagnostics) :
    (build (decls.map change) diagnostics true).2.toList
      = (build decls diagnostics true).2.toList := by
  have hnames : (decls.map change).map (·.name) = decls.map (·.name) := by
    rw [List.map_map]
    exact List.map_congr_left fun decl _ => hname decl
  have hmissing : ∀ name, Missing (decls.map change) name ↔ Missing decls name := by
    intro name
    rw [Missing, Missing, hnames]
  have hreport : ∀ decl kind, unresolvedReference (change decl) kind
      = unresolvedReference decl kind := by
    intro decl kind
    funext target
    rw [unresolvedReference, unresolvedReference, horigin, hname]
  rw [toList_build_true, toList_build_true, graphOrder_map_of_origin horigin hname,
    List.flatMap_map]
  simp only [unresolved_tableOf, hmentions, hmissing, hreport]

/-! ### The reports of a graph -/

/-- **Reports.** If reports are wanted, each class in graph order has one for each of its mentions of
    a missing class; members and dependencies have none.  Without them, the graph is the same. -/
theorem reports_build (hdistinct : (decls.map (·.name)).Nodup) (diagnostics : Diagnostics) :
    let graph := (build decls diagnostics true).1
    graph.decls.Perm decls
      ∧ graph.decls.Pairwise ClassDecl.Before
      ∧ (∀ name, graph.contains name = true ↔ name ∈ decls.map (·.name))
      ∧ (build decls diagnostics true).2.toList
        = diagnostics.toList ++ (graph.decls.flatMap fun decl =>
            ReferenceKind.inOrder.flatMap fun kind =>
              ((decl.mentions kind).filter (Missing decls ·)).map fun target =>
                { severity := .warning
                  category := .reference
                  message := s!"Unresolved {kind.label} reference to {target}"
                  source := some decl.origin.source
                  className := some decl.name })
      ∧ build decls diagnostics false = (graph, diagnostics)
      ∧ (∀ report, assemble decls diagnostics report = build decls diagnostics report)
      ∧ ∀ (methods : ClassDecl → List MethodDecl) (fields : ClassDecl → List FieldDecl)
          (referenced : ClassDecl → List String),
          let change (decl : ClassDecl) : ClassDecl :=
            { decl with
              methods := methods decl, fields := fields decl, referenced := referenced decl }
          (build (decls.map change) diagnostics true).2.toList
            = (build decls diagnostics true).2.toList := by
  intro graph
  have hdecls : graph.decls = graphOrder decls := decls_build
  refine ⟨?perm, ?order, contains_build_iff, ?reports, rfl, assemble_eq_build decls diagnostics,
    fun methods fields referenced => ?silent⟩
  case perm => exact hdecls ▸ graphOrder_perm decls
  case order => exact hdecls ▸ pairwise_graphOrder hdistinct
  case reports =>
    rw [toList_build_true, hdecls]
    simp only [unresolved_tableOf]
    rfl
  case silent =>
    intro change
    have hmentions : ∀ decl kind, (change decl).mentions kind = decl.mentions kind := by
      intro decl kind
      cases kind <;> rfl
    exact toList_build_map change (fun _ => rfl) (fun _ => rfl) hmentions decls diagnostics

/-- A class with a superclass that need not be there, an interface that is missing and mentioned
    twice, and one that is there: the class itself. -/
theorem reports_build_repeated :
    let decl := ClassDecl.outline "a.Sub" .interface (some "java.lang.Object")
      ["a.Gone", "a.Sub", "a.Gone"] ["a.Gone"]
    (build [decl] .empty true).2.toList.map (·.message)
      = ["Unresolved interface reference to a.Gone", "Unresolved interface reference to a.Gone",
        "Unresolved annotation reference to a.Gone"] := by
  intro decl
  have hdistinct : ([decl].map (·.name)).Nodup := List.nodup_singleton _
  obtain ⟨hperm, -, -, hreports, -⟩ := reports_build hdistinct .empty
  rw [hreports, List.perm_singleton.mp hperm]
  decide

end ClassGraph

end ClassAtlas
