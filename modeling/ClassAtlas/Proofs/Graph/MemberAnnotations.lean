import ClassAtlas.Proofs.Graph.Annotations
import ClassAtlas.Proofs.Graph.Arena

namespace ClassAtlas

open Relation

/-!
# Annotated members

The classes with an annotation on a method or a field are found backwards: first all annotation
types that bring the annotation with them, then the classes that the graph lists at these.  Forwards
it is asked what is on the types of the annotations of the members.  Both find the same classes,
also where annotation types annotate each other in a circle.

* `AnnotatedThroughoutByTypes` — annotations are of annotation types, also those on members;
* `ClassGraph.Brings` — an annotation brings an annotation type with it;
* `ClassGraph.ListsUsers` — a list of a node has the classes that use it as an annotation;
* `ClassGraph.holds_withMemberAnnotation` — what is found backwards;
* `ClassGraph.exists_brings_iff` — what is found forwards;
* `memberAnnotations_build` — they are the same, for methods and for fields.
-/

/-! ### Annotations on members -/

/-- The annotations on the methods of a class. -/
def ClassDecl.methodAnnotations (decl : ClassDecl) : List AnnotationUse :=
  decl.methods.flatMap (·.annotations)

/-- The annotations on the fields of a class. -/
def ClassDecl.fieldAnnotations (decl : ClassDecl) : List AnnotationUse :=
  decl.fields.flatMap (·.annotations)

/-- The annotations on a class, on its methods and on its fields. -/
def ClassDecl.annotationsThroughout (decl : ClassDecl) : List AnnotationUse :=
  decl.annotations ++ decl.methodAnnotations ++ decl.fieldAnnotations

/-- Something is among the items of a list iff it is among those of one entry. -/
theorem exists_mem_flatMap_iff {α β : Type} {list : List α} {items : α → List β} {P : β → Prop} :
    (∃ item ∈ list.flatMap items, P item) ↔ ∃ entry ∈ list, ∃ item ∈ items entry, P item := by
  simp only [List.mem_flatMap]
  constructor
  · rintro ⟨item, ⟨entry, hentry, hitem⟩, h⟩
    exact ⟨entry, hentry, item, hitem, h⟩
  · rintro ⟨entry, hentry, item, hitem, h⟩
    exact ⟨item, ⟨entry, hentry, hitem⟩, h⟩

/-- The class of every annotation on a class, a method or a field is an annotation type, as far as
    it is there. -/
def AnnotatedThroughoutByTypes (decls : List ClassDecl) : Prop :=
  ∀ decl ∈ decls, ∀ note ∈ decl.annotationsThroughout, ∀ type ∈ decls, type.name = note.name →
    type.isAnnotationType = true

namespace ClassGraph

variable {graph : ClassGraph} {id seed source target : NodeId} {node : Node}
  {notes : ClassDecl → List AnnotationUse} {users : Node → List NodeId}

/-- An annotation has a class in the graph, which is the given one or has it on itself. -/
def Brings (graph : ClassGraph) (note : AnnotationUse) (type : ClassDecl) : Prop :=
  ∃ other, graph.typeOf? note = some other
    ∧ (other = type ∨ (graph.annotationsOn other.name).contains type.name = true)

/-- Some of the annotations in a class are of this type. -/
def Uses (graph : ClassGraph) (notes : ClassDecl → List AnnotationUse) : NodeId → NodeId → Prop :=
  graph.Refers fun decl => (notes decl).map (·.name)

theorem uses_iff {other : Node} (hnode : graph.nodes[source]? = some node)
    (hother : graph.nodes[target]? = some other) :
    graph.Uses notes source target ↔ ∃ note ∈ notes node.decl, note.name = other.decl.name := by
  rw [Uses, refers_iff hnode hother, List.mem_map]

/-- A list of each node has the classes that use the class of the node. -/
def ListsUsers (graph : ClassGraph) (users : Node → List NodeId)
    (notes : ClassDecl → List AnnotationUse) : Prop :=
  ∀ ⦃target : NodeId⦄ ⦃node : Node⦄, graph.nodes[target]? = some node →
    ∀ source, source ∈ users node ↔ graph.Uses notes source target

/-- Only annotation types are used as annotations. -/
def UsesTypes (graph : ClassGraph) (notes : ClassDecl → List AnnotationUse) : Prop :=
  ∀ ⦃source target⦄, graph.Uses notes source target → graph.IsAnnotationType target

/-! ### Backwards -/

/-- The users of an annotation and of those that bring it along, the users of the annotation itself
    being the direct ones. -/
theorem holds_withMemberAnnotation (hlinked : graph.Linked) (husers : graph.ListsUsers users notes)
    (hseed : graph.nodes[seed]? = some node) :
    graph.Holds (graph.withMemberAnnotation node.decl.name users)
      (fun id => ∃ carrier, graph.Uses notes id carrier ∧ ReflTransGen graph.Conveys carrier seed)
      (graph.Uses notes · seed) := by
  have hlist : ∀ source target,
      source ∈ graph.listedBy users target ↔ graph.Uses notes source target :=
    fun source target => mem_listedBy husers fun h => h.exists_nodes.2
  have hlt : seed < graph.size := (Array.getElem?_eq_some_iff.mp hseed).1
  obtain ⟨others, hcarriers, hothers⟩ := graph.exists_carriers_eq seed
  have hquery : graph.withMemberAnnotation node.decl.name users
      = graph.setOf (markedNodes (graph.listedBy users seed)
          (others.flatMap (graph.listedBy users))) := by
    unfold withMemberAnnotation
    rw [(idOf?_eq_some_iff hlinked.distinct).mpr ⟨node, hseed, rfl⟩]
    -- Only the first of the carriers is the annotation itself, so only its users are marked.
    show graph.setOf ((graph.carriers seed).flatMap _) = _
    rw [hcarriers, flatMap_listedBy_carriers _ hothers]
  rw [hquery]
  refine (holds_setOf_markedNodes hlinked.distinct _ _).congr (fun id => ?_)
    fun id => hlist id seed
  rw [mem_listedBy_carriers hcarriers hlist]
  simp only [mem_carriers hlinked hlt, and_comm]

/-! ### Forwards -/

/-- An annotation brings a class with it by a chain from its own type. -/
theorem exists_brings_iff (hlinked : graph.Linked) (htypes : graph.AnnotatesByTypes)
    (huses : graph.UsesTypes notes) {other : Node} (hnode : graph.nodes[source]? = some node)
    (hother : graph.nodes[target]? = some other) :
    (∃ note ∈ notes node.decl, graph.Brings note other.decl)
      ↔ ∃ carrier, graph.Uses notes source carrier
        ∧ ReflTransGen graph.Conveys carrier target := by
  -- What is on the type of such an annotation, which is an annotation type.
  have hon : ∀ {carrier : NodeId} {type : Node}, graph.nodes[carrier]? = some type →
      graph.Uses notes source carrier →
      (type.decl = other.decl
          ∨ (graph.annotationsOn type.decl.name).contains other.decl.name = true
        ↔ ReflTransGen graph.Conveys carrier target) := by
    intro carrier type htype huse
    have hholds := holds_annotationsOn_annotationType hlinked htypes htype (huses huse)
    -- A chain of no steps is the case that the type is the class itself, which a cycle of
    -- annotations gives once more.
    rw [hholds.contains_iff hother, reflTransGen_iff_eq_or_transGen]
    refine or_congr_left ⟨fun hdecl => ?_, fun hsame => ?_⟩
    · exact hlinked.distinct hother htype (congrArg _ hdecl.symm)
    · rw [← hsame, hother] at htype
      exact congrArg _ (Option.some.inj htype).symm
  constructor
  · rintro ⟨note, hnote, type, htype, hbrings⟩
    obtain ⟨carrier, node', hcarrier, hname, rfl⟩ := (get?_eq_some_iff hlinked.distinct).mp htype
    have huse := (uses_iff hnode hcarrier).mpr ⟨note, hnote, hname.symm⟩
    exact ⟨carrier, huse, (hon hcarrier huse).mp hbrings⟩
  · rintro ⟨carrier, huse, hchain⟩
    obtain ⟨type, hcarrier⟩ := huse.exists_nodes.2
    obtain ⟨note, hnote, hname⟩ := (uses_iff hnode hcarrier).mp huse
    have htype := (get?_eq_some_iff hlinked.distinct).mpr ⟨carrier, type, hcarrier, hname.symm, rfl⟩
    exact ⟨note, hnote, type.decl, htype, (hon hcarrier huse).mpr hchain⟩

/-! ### The graph of some classes -/

variable {decls : List ClassDecl} {diagnostics : Diagnostics} {report : Bool}

/-- The users are read back from the links of the classes. -/
theorem listsUsers_build (h : (decls.map (·.name)).Nodup) (list : Links → List NodeId)
    (husers : ∀ links id decl, users (Node.ofLinks links id decl) = linkedFrom links (id ∈ list ·))
    (hlist : ∀ (table : ClassTable) (decl : ClassDecl),
      list (table.links decl) = table.resolve ((notes decl).map (·.name))) :
    (build decls diagnostics report).1.ListsUsers users notes := by
  intro target node hnode source
  rw [nodes_build, Option.map_eq_some_iff] at hnode
  obtain ⟨decl, -, rfl⟩ := hnode
  rw [Uses, refers_build, husers]
  refine mem_linkedFrom_iff fun source decl hdecl => ?_
  rw [decide_eq_true_eq, hlist]
  exact ClassTable.mem_resolve_iff (fun decl => (notes decl).map (·.name)) (distinct_tableOf h)
    hdecl

theorem listsUsers_methods_build (h : (decls.map (·.name)).Nodup) :
    (build decls diagnostics report).1.ListsUsers (·.methodAnnotated)
      ClassDecl.methodAnnotations := by
  refine listsUsers_build h (·.onMethods) (fun _ _ _ => rfl) fun table decl => ?_
  rw [ClassDecl.methodAnnotations, List.map_flatMap]
  rfl

theorem listsUsers_fields_build (h : (decls.map (·.name)).Nodup) :
    (build decls diagnostics report).1.ListsUsers (·.fieldAnnotated)
      ClassDecl.fieldAnnotations := by
  refine listsUsers_build h (·.onFields) (fun _ _ _ => rfl) fun table decl => ?_
  rw [ClassDecl.fieldAnnotations, List.map_flatMap]
  rfl

theorem usesTypes_build (h : AnnotatedThroughoutByTypes decls)
    (notes : ClassDecl → List AnnotationUse)
    (hnotes : ∀ decl, notes decl ⊆ decl.annotationsThroughout) :
    (build decls diagnostics report).1.UsesTypes notes := by
  intro source target huse
  obtain ⟨⟨node, hnode⟩, other, hother⟩ := huse.exists_nodes
  obtain ⟨note, hnote, hname⟩ := (uses_iff hnode hother).mp huse
  rw [IsAnnotationType, declSatisfies_eq hother]
  exact h _ (mem_of_node hnode) note (hnotes _ hnote) _ (mem_of_node hother) hname.symm

/-- What a class itself is annotated with is on it, whatever its superclasses are. -/
theorem contains_annotationsOn_build (hdistinct : (decls.map (·.name)).Nodup)
    {decl type : ClassDecl} (hdecl : decl ∈ decls) (htype : type ∈ decls)
    (hnote : ∃ note ∈ decl.annotations, note.name = type.name) :
    ((build decls diagnostics report).1.annotationsOn decl.name).contains type.name = true := by
  have hlinked : (build decls diagnostics report).1.Linked := linked_build hdistinct
  obtain ⟨source, node, hnode, rfl⟩ := exists_node hdecl diagnostics report
  obtain ⟨target, other, hother, rfl⟩ := exists_node htype diagnostics report
  have hannotated : (build decls diagnostics report).1.AnnotatedWith source target :=
    (refers_iff hnode hother).mpr (List.mem_map.mpr hnote)
  exact ((holds_annotationsOn_of_shows hlinked hnode).contains_iff hother).mpr
    ⟨source, .refl, hannotated, .inl rfl⟩

/-- The classes with an annotation on a member, as the annotations on types tell them. -/
theorem withMemberAnnotation_build_iff (hdistinct : (decls.map (·.name)).Nodup)
    (htypes : AnnotatedThroughoutByTypes decls)
    (husers : (build decls diagnostics report).1.ListsUsers users notes)
    (hnotes : ∀ decl, notes decl ⊆ decl.annotationsThroughout)
    {decl type : ClassDecl} (hdecl : decl ∈ decls) (htype : type ∈ decls) :
    let graph := (build decls diagnostics report).1
    let found := graph.withMemberAnnotation type.name users
    (found.contains decl.name = true ↔ ∃ note ∈ notes decl, graph.Brings note type)
      ∧ (found.isDirect? decl.name = some true ↔ ∃ note ∈ notes decl, note.name = type.name) := by
  intro graph found
  have hlinked : graph.Linked := linked_build hdistinct
  have huses : graph.UsesTypes notes := usesTypes_build htypes notes hnotes
  have hannotates : graph.AnnotatesByTypes :=
    usesTypes_build htypes (·.annotations) fun _ => by simp [ClassDecl.annotationsThroughout]
  obtain ⟨source, node, hnode, rfl⟩ := exists_node hdecl diagnostics report
  obtain ⟨target, other, hother, rfl⟩ := exists_node htype diagnostics report
  have hholds := holds_withMemberAnnotation hlinked husers hother
  constructor
  · rw [hholds.contains_iff hnode, exists_brings_iff hlinked hannotates huses hnode hother]
  · rw [hholds.isDirect?_true_iff hnode fun id huse => ⟨target, huse, .refl⟩,
      uses_iff hnode hother]

end ClassGraph

/-- **Annotated members.** A class is among those with an annotation on a method iff the type of an
    annotation on one of its methods is that annotation or has it on itself, and is marked as direct
    iff a method has that annotation; and the same for fields. -/
theorem memberAnnotations_build {decls : List ClassDecl} (hdistinct : (decls.map (·.name)).Nodup)
    (htypes : AnnotatedThroughoutByTypes decls) (diagnostics : Diagnostics) (report : Bool)
    (type decl : ClassDecl) (htype : type ∈ decls) (hdecl : decl ∈ decls) :
    let graph := (ClassGraph.build decls diagnostics report).1
    let onMethod := graph.withMethodAnnotation type.name
    let onField := graph.withFieldAnnotation type.name
    (onMethod.contains decl.name = true
        ↔ ∃ method ∈ decl.methods, ∃ note ∈ method.annotations, graph.Brings note type)
      ∧ (onMethod.isDirect? decl.name = some true
        ↔ ∃ method ∈ decl.methods, ∃ note ∈ method.annotations, note.name = type.name)
      ∧ (onField.contains decl.name = true
        ↔ ∃ field ∈ decl.fields, ∃ note ∈ field.annotations, graph.Brings note type)
      ∧ (onField.isDirect? decl.name = some true
        ↔ ∃ field ∈ decl.fields, ∃ note ∈ field.annotations, note.name = type.name) := by
  intro graph onMethod onField
  have hmethods : graph.ListsUsers (·.methodAnnotated) ClassDecl.methodAnnotations :=
    ClassGraph.listsUsers_methods_build hdistinct
  have hfields : graph.ListsUsers (·.fieldAnnotated) ClassDecl.fieldAnnotations :=
    ClassGraph.listsUsers_fields_build hdistinct
  obtain ⟨hmethod, hmethodDirect⟩ :=
    ClassGraph.withMemberAnnotation_build_iff hdistinct htypes hmethods
      (fun _ => by simp [ClassDecl.annotationsThroughout]) hdecl htype
  obtain ⟨hfield, hfieldDirect⟩ :=
    ClassGraph.withMemberAnnotation_build_iff hdistinct htypes hfields
      (fun _ => by simp [ClassDecl.annotationsThroughout]) hdecl htype
  exact ⟨hmethod.trans exists_mem_flatMap_iff, hmethodDirect.trans exists_mem_flatMap_iff,
    hfield.trans exists_mem_flatMap_iff, hfieldDirect.trans exists_mem_flatMap_iff⟩

/-- Two annotation types that are on each other, and a class with a field that has the first. -/
theorem memberAnnotations_build_cycle :
    let first := ClassDecl.outline "a.First" .annotationType none [] ["a.Second"]
    let second := ClassDecl.outline "a.Second" .annotationType none [] ["a.First"]
    let field : FieldDecl :=
      { name := "count", modifiers := ⟨0⟩, descriptor := "I", type := .primitive .int [],
        isGeneric := false, annotations := [⟨"a.First", []⟩], constant := none }
    let decl := { ClassDecl.outline "a.Service" .ordinary none [] [] with fields := [field] }
    let graph := (ClassGraph.build [first, second, decl] .empty false).1
    (graph.withFieldAnnotation "a.Second").contains "a.Service" = true
      ∧ (graph.withFieldAnnotation "a.Second").isDirect? "a.Service" ≠ some true
      ∧ (graph.withFieldAnnotation "a.First").isDirect? "a.Service" = some true := by
  intro first second field decl graph
  have hdistinct : ([first, second, decl].map (·.name)).Nodup := by decide
  have htypes : AnnotatedThroughoutByTypes [first, second, decl] := by
    unfold AnnotatedThroughoutByTypes
    decide
  have hfirst : first ∈ [first, second, decl] := List.mem_cons_self
  have hsecond : second ∈ [first, second, decl] := by simp
  have hdecl : decl ∈ [first, second, decl] := by simp
  have hbrings : graph.Brings ⟨"a.First", []⟩ second :=
    ⟨first, ClassGraph.get?_build hdistinct hfirst, .inr <|
      ClassGraph.contains_annotationsOn_build hdistinct hfirst hsecond (by decide)⟩
  have honSecond := memberAnnotations_build hdistinct htypes .empty false second decl hsecond hdecl
  have honFirst := memberAnnotations_build hdistinct htypes .empty false first decl hfirst hdecl
  refine ⟨honSecond.2.2.1.mpr ⟨field, List.mem_singleton.mpr rfl, _, List.mem_singleton.mpr rfl,
    hbrings⟩, fun hdirect => ?_, honFirst.2.2.2.mpr (by decide)⟩
  exact absurd (honSecond.2.2.2.mp hdirect) (by decide)

end ClassAtlas
