import ClassAtlas.Proofs.Graph.Links
import Mathlib.Order.Monotone.Basic

namespace ClassAtlas

/-!
# Graphs of renumbered sources

A graph depends on the places of the sources of its classes only through their order.  If the
sources get other places in the same order, the graph and the answers to all questions stay the
same, but for the places noted in the classes.

* `ClassDecl.renumber`, `ClassGraph.renumber`, `ClassSet.renumber` — classes whose sources got
  other places;
* `ClassGraph.build_renumber` — the graph of such classes, and what is missing in it;
* `ClassGraph.questions` — the questions about a name that have a set of classes as the answer;
* `ClassGraph.Alike` — graphs that cannot be told apart but for those places;
* `ClassGraph.alike_renumber` — a graph and the one of the renumbered sources.
-/

variable {shift : Nat → Nat}

/-! ### Renumbering -/

/-- The class if its source were at another place. -/
def ClassDecl.renumber (shift : Nat → Nat) (decl : ClassDecl) : ClassDecl :=
  { decl with origin := { decl.origin with index := shift decl.origin.index } }

/-- The member of a set with the class renumbered. -/
def ClassMember.renumber (shift : Nat → Nat) (member : ClassMember) : ClassMember :=
  { member with decl := member.decl.renumber shift }

/-- The set with all classes renumbered. -/
def ClassSet.renumber (shift : Nat → Nat) (set : ClassSet) : ClassSet :=
  { set with members := set.members.map (·.renumber shift) }

/-- The node with its class renumbered. -/
def Node.renumber (shift : Nat → Nat) (node : Node) : Node :=
  { node with decl := node.decl.renumber shift }

/-- The graph with all classes renumbered. -/
def ClassGraph.renumber (shift : Nat → Nat) (graph : ClassGraph) : ClassGraph :=
  ⟨graph.nodes.map (·.renumber shift)⟩

/-- The class keeps its name. -/
@[simp] theorem ClassDecl.name_renumber (decl : ClassDecl) :
    (decl.renumber shift).name = decl.name := rfl

@[simp] theorem Node.decl_renumber (node : Node) :
    (node.renumber shift).decl = node.decl.renumber shift := rfl

/-! ### Building -/

/-- The order of classes stays if the order of the places does. -/
theorem graphOrder_renumber (h : StrictMono shift) (decls : List ClassDecl) :
    graphOrder (decls.map (·.renumber shift)) = (graphOrder decls).map (·.renumber shift) := by
  refine (List.map_mergeSort fun decl _ other _ => ?_).symm
  simp only [graphBefore, ClassDecl.renumber, h.lt_iff_lt, h.injective.eq_iff]
  rfl

namespace ClassTable

variable (table : ClassTable)

@[simp] theorem idOf?_renumber (name : String) :
    ClassTable.idOf? (table.map (·.renumber shift)) name = table.idOf? name := by
  unfold idOf?
  simp only [Array.size_map, Array.getElem?_map, Option.map_map, Function.comp_def,
    ClassDecl.name_renumber]

/-- The links lead where they led before. -/
theorem links_renumber (decl : ClassDecl) :
    ClassTable.links (table.map (·.renumber shift)) (decl.renumber shift) = table.links decl := by
  have hids : ClassTable.idOf? (table.map (·.renumber shift)) = table.idOf? :=
    funext table.idOf?_renumber
  unfold links resolve
  rw [hids]
  rfl

/-- The same references lead nowhere. -/
theorem unresolved_renumber (decl : ClassDecl) :
    ClassTable.unresolved (table.map (·.renumber shift)) (decl.renumber shift)
      = table.unresolved decl := by
  unfold unresolved
  simp only [idOf?_renumber]
  rfl

end ClassTable

namespace ClassGraph

/-- **Building.** If the order of the sources stays, the graph of the classes stays, and so does
    what is said about it. -/
theorem build_renumber (h : StrictMono shift) (decls : List ClassDecl)
    (diagnostics : Diagnostics) (report : Bool) :
    build (decls.map (·.renumber shift)) diagnostics report
      = ((build decls diagnostics report).1.renumber shift,
          (build decls diagnostics report).2) := by
  unfold build
  rw [graphOrder_renumber h, ← List.map_toArray]
  generalize (graphOrder decls).toArray = table
  have hlinks : (table.map (·.renumber shift)).map
      (ClassTable.links (table.map (·.renumber shift))) = table.map (ClassTable.links table) := by
    rw [Array.map_map]
    exact Array.map_congr_left fun decl _ => ClassTable.links_renumber table decl
  refine Prod.ext (congrArg ClassGraph.mk ?_) ?_
  · refine Array.ext_getElem? fun id => ?_
    dsimp only
    rw [hlinks, Array.getElem?_mapIdx, Array.getElem?_map, Array.getElem?_map,
      Array.getElem?_mapIdx, Option.map_map, Option.map_map]
    rfl
  · dsimp only
    rw [Array.toList_map, List.flatMap_map]
    simp only [ClassTable.unresolved_renumber]

/-! ### Answers -/

variable {graph : ClassGraph}

@[simp] theorem size_renumber : (graph.renumber shift).size = graph.size :=
  Array.size_map

theorem decls_renumber : (graph.renumber shift).decls = graph.decls.map (·.renumber shift) := by
  simp [decls, renumber]

@[simp] theorem idOf?_renumber (name : String) :
    (graph.renumber shift).idOf? name = graph.idOf? name := by
  have hdecls : (graph.renumber shift).nodes.map (·.decl)
      = (graph.nodes.map (·.decl)).map (·.renumber shift) := by
    simp [renumber]
  rw [idOf?, hdecls, ClassTable.idOf?_renumber]
  rfl

@[simp] theorem declOf?_renumber (id : NodeId) :
    (graph.renumber shift).declOf? id = (graph.declOf? id).map (·.renumber shift) := by
  simp [declOf?, renumber, Function.comp_def]

theorem get?_renumber (name : String) :
    (graph.renumber shift).get? name = (graph.get? name).map (·.renumber shift) := by
  unfold get?
  rw [idOf?_renumber]
  cases graph.idOf? name with
  | none => rfl
  | some id => exact declOf?_renumber id

/-- A condition that does not depend on the place of the source. -/
theorem declSatisfies_renumber {condition : ClassDecl → Bool}
    (h : ∀ decl, condition (decl.renumber shift) = condition decl) :
    (graph.renumber shift).declSatisfies condition = graph.declSatisfies condition := by
  funext id
  simp [declSatisfies, Function.comp_def, h]

/-- The steps that the contents of nodes give, if they do not depend on the place of the
    source. -/
theorem stepsFrom_renumber {steps steps' : Node → List Step}
    (h : ∀ node, steps' (node.renumber shift) = steps node) :
    (graph.renumber shift).stepsFrom steps' = graph.stepsFrom steps := by
  funext id
  unfold stepsFrom renumber
  rw [Array.getElem?_map]
  cases graph.nodes[id]? with
  | none => rfl
  | some node => exact h node

theorem listedBy_renumber {list : Node → List NodeId}
    (h : ∀ node, list (node.renumber shift) = list node) :
    (graph.renumber shift).listedBy list = graph.listedBy list := by
  funext id
  unfold listedBy renumber
  rw [Array.getElem?_map, Option.map_map, Function.comp_def]
  simp only [h]

end ClassGraph

/-! ### Sets -/

namespace ClassSet

theorem insert_renumber (set : ClassSet) (member : ClassMember) :
    (set.renumber shift).insert (member.decl.renumber shift) member.direct
      = (set.insert member.decl member.direct).renumber shift := by
  unfold insert add
  by_cases hknown : set.contains member.decl.name = true
  · rw [if_pos hknown, if_pos (by exact hknown)]
  · rw [if_neg hknown, if_neg (by exact hknown)]
    unfold renumber
    simp [ClassMember.renumber]

/-- Renumbered classes make the renumbered set. -/
theorem ofMembers_renumber (members : List ClassMember) :
    ofMembers (members.map (·.renumber shift)) = (ofMembers members).renumber shift := by
  have hall : ∀ set : ClassSet,
      (set.renumber shift).insertAll (members.map (·.renumber shift))
        = (set.insertAll members).renumber shift := by
    induction members with
    | nil => exact fun _ => rfl
    | cons member rest ih =>
      intro set
      exact (congrArg (ClassSet.insertAll · _) (set.insert_renumber member)).trans (ih _)
  exact hall .empty

end ClassSet

namespace ClassGraph

variable {graph : ClassGraph}

theorem setOf_renumber (found : List (NodeId × Bool)) :
    (graph.renumber shift).setOf found = (graph.setOf found).renumber shift := by
  unfold setOf
  rw [← ClassSet.ofMembers_renumber, List.map_filterMap]
  refine congrArg ClassSet.ofMembers (List.filterMap_congr fun answer _ => ?_)
  rw [member?, declOf?_renumber, member?, Option.map_map, Option.map_map]
  rfl

theorem query_renumber {steps steps' : NodeId → Node → List Step}
    (h : ∀ id node, steps' id (node.renumber shift) = steps id node) (name : String) :
    (graph.renumber shift).query name steps' = (graph.query name steps).renumber shift := by
  unfold query
  rw [idOf?_renumber]
  cases graph.idOf? name with
  | none => rfl
  | some seed =>
    have hsteps : (fun id => (graph.renumber shift).stepsFrom (steps' id) id)
        = fun id => graph.stepsFrom (steps id) id :=
      funext fun id => congrFun (stepsFrom_renumber (h id)) id
    dsimp only
    rw [setOf_renumber, size_renumber, hsteps]

/-! ### Each question -/

theorem implementors_renumber (name : String) :
    (graph.renumber shift).implementors name = (graph.implementors name).renumber shift := by
  refine query_renumber (fun id node => ?_) name
  rw [declSatisfies_renumber fun _ => rfl]
  rfl

theorem annotationsOn_renumber (name : String) :
    (graph.renumber shift).annotationsOn name = (graph.annotationsOn name).renumber shift := by
  unfold annotationsOn
  rw [idOf?_renumber]
  cases graph.idOf? name with
  | none => rfl
  | some seed =>
    refine query_renumber (fun id node => ?_) name
    rw [declSatisfies_renumber fun _ => rfl]
    rfl

theorem carriers_renumber (seed : NodeId) :
    (graph.renumber shift).carriers seed = graph.carriers seed := by
  unfold carriers
  dsimp only
  rw [declSatisfies_renumber fun _ => rfl, size_renumber, stepsFrom_renumber fun _ => rfl]
  rfl

theorem subclassesOf_renumber :
    (graph.renumber shift).subclassesOf = graph.subclassesOf := by
  funext id
  unfold subclassesOf
  rw [size_renumber, stepsFrom_renumber fun _ => rfl]
  rfl

theorem typesWithAnnotation_renumber (name : String) :
    let found := graph.typesWithAnnotation name
    typesWithAnnotation (graph.renumber shift) name = found.renumber shift := by
  dsimp only
  unfold typesWithAnnotation
  rw [idOf?_renumber]
  cases graph.idOf? name with
  | none => rfl
  | some seed =>
    dsimp only
    rw [setOf_renumber, carriers_renumber, listedBy_renumber fun _ => rfl,
      declSatisfies_renumber fun _ => rfl, declSatisfies_renumber fun _ => rfl,
      subclassesOf_renumber]

theorem withMemberAnnotation_renumber {users : Node → List NodeId}
    (h : ∀ node, users (node.renumber shift) = users node) (name : String) :
    let found := graph.withMemberAnnotation name users
    withMemberAnnotation (graph.renumber shift) name users = found.renumber shift := by
  dsimp only
  unfold withMemberAnnotation
  rw [idOf?_renumber]
  cases graph.idOf? name with
  | none => rfl
  | some seed =>
    dsimp only
    rw [setOf_renumber, carriers_renumber, listedBy_renumber h]

/-! ### All questions -/

/-- The questions about a name that have a set of classes as the answer. -/
def questions : List (ClassGraph → String → ClassSet) :=
  [ancestors, descendants, interfaces, implementors, annotationsOn, typesWithAnnotation,
    withMethodAnnotation, withFieldAnnotation, innerClasses, outerClasses, dependencies]

theorem questions_renumber (shift : Nat → Nat) (graph : ClassGraph) :
    ∀ question ∈ questions, ∀ name,
      question (graph.renumber shift) name = (question graph name).renumber shift := by
  simp only [questions, List.forall_mem_cons]
  refine ⟨?ancestors, ?descendants, ?interfaces, implementors_renumber, annotationsOn_renumber,
    typesWithAnnotation_renumber, ?methods, ?fields, ?inner, ?outer, ?dependencies,
    fun _ hnone => absurd hnone List.not_mem_nil⟩
  case methods => exact withMemberAnnotation_renumber fun _ => rfl
  case fields => exact withMemberAnnotation_renumber fun _ => rfl
  -- The others follow links, which the places of the sources do not touch.
  all_goals exact query_renumber fun _ _ => rfl

/-- Two graphs have the same classes in the same order, but for the places of their sources, and
    give the same answers. -/
structure Alike (shift : Nat → Nat) (graph graph' : ClassGraph) : Prop where
  /-- The classes. -/
  decls_eq : graph'.decls = graph.decls.map (·.renumber shift)
  /-- The node of a name. -/
  idOf?_eq : ∀ name, graph'.idOf? name = graph.idOf? name
  /-- The class of a name. -/
  get?_eq : ∀ name, graph'.get? name = (graph.get? name).map (·.renumber shift)
  /-- The classes found from a name. -/
  questions_eq : ∀ question ∈ questions, ∀ name,
    question graph' name = (question graph name).renumber shift
  /-- The superclass of a class. -/
  superclassOf?_eq : ∀ decl, graph'.superclassOf? (decl.renumber shift)
    = (graph.superclassOf? decl).map (·.renumber shift)
  /-- The interfaces of a class. -/
  interfacesOf_eq : ∀ decl, graph'.interfacesOf (decl.renumber shift)
    = (graph.interfacesOf decl).map (·.renumber shift)
  /-- The type of an annotation. -/
  typeOf?_eq : ∀ note, graph'.typeOf? note = (graph.typeOf? note).map (·.renumber shift)
  /-- The element values of an annotation. -/
  elementsWithDefaults_eq : ∀ note,
    graph'.elementsWithDefaults note = graph.elementsWithDefaults note

theorem Alike.names_eq {graph' : ClassGraph} (h : graph.Alike shift graph') :
    graph'.decls.map (·.name) = graph.decls.map (·.name) := by
  rw [h.decls_eq, List.map_map]
  rfl

/-- **Renumbering.** A graph and the same graph with renumbered sources are alike. -/
theorem alike_renumber (shift : Nat → Nat) (graph : ClassGraph) :
    graph.Alike shift (graph.renumber shift) where
  decls_eq := decls_renumber
  idOf?_eq := idOf?_renumber
  get?_eq := get?_renumber
  questions_eq := questions_renumber shift graph
  superclassOf?_eq decl := by
    unfold superclassOf?
    show decl.superclass.bind _ = _
    cases decl.superclass with
    | none => rfl
    | some name => exact get?_renumber name
  interfacesOf_eq decl := by
    unfold interfacesOf
    show decl.interfaces.filterMap _ = _
    rw [List.map_filterMap]
    exact List.filterMap_congr fun name _ => get?_renumber name
  typeOf?_eq note := get?_renumber note.name
  elementsWithDefaults_eq note := by
    unfold elementsWithDefaults typeOf?
    rw [get?_renumber]
    cases graph.get? note.name <;> rfl

end ClassGraph

end ClassAtlas
