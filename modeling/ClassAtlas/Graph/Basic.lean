import ClassAtlas.ClassFile.Declaration
import ClassAtlas.Diagnostic
import ClassAtlas.Error
import ClassAtlas.Graph.Closure

namespace ClassAtlas

/-!
# The class graph

Classes refer to each other by name.  The graph resolves the names once, in both directions.

* `graphOrder` — the order of the classes: by source, then by name;
* `ClassTable` — the classes in order, with `ClassTable.idOf?` for the class of a name;
* `Links` — what one class refers to;
* `Node` — a class with its links and the links that lead to it;
* `ClassGraph.build` — the graph of some classes, and the diagnostics of what is missing.
-/

/-! ### Order and names -/

/-- Whether a class comes before another one, or at the same place. -/
def graphBefore (a b : ClassDecl) : Bool :=
  a.origin.index < b.origin.index || (a.origin.index = b.origin.index && decide (a.name ≤ b.name))

/-- Classes by the place of their source, those of one place by name. -/
def graphOrder (decls : List ClassDecl) : List ClassDecl := decls.mergeSort graphBefore

/-- Classes in graph order. -/
abbrev ClassTable := Array ClassDecl

/-- The class of a name.  Should a name occur twice, the later class has it. -/
def ClassTable.idOf? (table : ClassTable) (name : String) : Option NodeId :=
  (List.range table.size).reverse.find? fun id => (table[id]?.map (·.name)) = some name

/-! ### References -/

/-- The sorts of references that are reported if nothing is there. -/
inductive ReferenceKind where
  | superclass | interface | annotated | outerClass | innerClass
  deriving DecidableEq, Repr

/-- The sort of a reference in a message. -/
def ReferenceKind.label : ReferenceKind → String
  | .superclass => "superclass"
  | .interface => "interface"
  | .annotated => "annotation"
  | .outerClass => "outer class"
  | .innerClass => "inner class"

/-- The references of a class that are reported if nothing is there, in the order of the
    reports. -/
def ClassDecl.references (decl : ClassDecl) : List (ReferenceKind × String) :=
  decl.superclass.toList.map (.superclass, ·)
    ++ decl.interfaces.map (.interface, ·)
    ++ decl.annotations.map (fun note => (.annotated, note.name))
    ++ decl.outerClass.toList.map (.outerClass, ·)
    ++ decl.innerClasses.map (.innerClass, ·)

/-- The root of all classes, which need not be there. -/
def rootClass : String := "java.lang.Object"

/-- The report of a reference to nothing. -/
def unresolvedReference (decl : ClassDecl) (kind : ReferenceKind) (target : String) :
    Diagnostic where
  severity := .warning
  category := .reference
  message := s!"Unresolved {kind.label} reference to {target}"
  source := some decl.origin.source
  className := some decl.name

/-- The reports of all references of a class to nothing. -/
def ClassTable.unresolved (table : ClassTable) (decl : ClassDecl) : List Diagnostic :=
  (decl.references.filter fun reference =>
      (table.idOf? reference.2).isNone && reference.2 ≠ rootClass).map
    fun reference => unresolvedReference decl reference.1 reference.2

/-! ### Links -/

/-- The classes of the graph that a class refers to, each list without repetitions. -/
structure Links where
  /-- The superclass. -/
  superclass : Option NodeId
  /-- The interfaces. -/
  interfaces : List NodeId
  /-- The types of the annotations on the class. -/
  annotations : List NodeId
  /-- The class it is declared in. -/
  outer : Option NodeId
  /-- The member classes it lists. -/
  inner : List NodeId
  /-- All classes it mentions. -/
  dependencies : List NodeId
  /-- The types of the annotations on its methods. -/
  onMethods : List NodeId
  /-- The types of the annotations on its fields. -/
  onFields : List NodeId
  deriving DecidableEq, Repr

/-- A class that refers to nothing. -/
def Links.none : Links := ⟨.none, [], [], .none, [], [], [], []⟩

/-- The classes of some names, as far as there are any, each once. -/
def ClassTable.resolve (table : ClassTable) (names : List String) : List NodeId :=
  (names.filterMap table.idOf?).eraseDups

/-- What a class refers to. -/
def ClassTable.links (table : ClassTable) (decl : ClassDecl) : Links where
  superclass := decl.superclass.bind table.idOf?
  interfaces := table.resolve decl.interfaces
  annotations := table.resolve (decl.annotations.map (·.name))
  outer := decl.outerClass.bind table.idOf?
  inner := table.resolve decl.innerClasses
  dependencies := table.resolve decl.referenced
  onMethods := table.resolve (decl.methods.flatMap fun m => m.annotations.map (·.name))
  onFields := table.resolve (decl.fields.flatMap fun f => f.annotations.map (·.name))

/-! ### Nodes -/

/-- A class with the links from it and to it. -/
structure Node where
  /-- The class. -/
  decl : ClassDecl
  /-- What it refers to. -/
  links : Links
  /-- The member classes: those it lists, and those that name it as their outer class. -/
  inner : List NodeId
  /-- The classes it is the superclass of. -/
  subclasses : List NodeId
  /-- The classes and interfaces that list it as an interface. -/
  implementors : List NodeId
  /-- The classes it annotates. -/
  annotated : List NodeId
  /-- The classes with a method it annotates. -/
  methodAnnotated : List NodeId
  /-- The classes with a field it annotates. -/
  fieldAnnotated : List NodeId

/-- The annotation that makes an annotation type pass on to subclasses. -/
def inheritedMarker : String := "java.lang.annotation.Inherited"

/-- Whether the class is an annotation type that passes on to subclasses. -/
def ClassDecl.isInherited (decl : ClassDecl) : Bool :=
  decl.isAnnotationType && (annotationNamed? decl.annotations inheritedMarker).isSome

/-- The nodes whose links satisfy a condition, in order. -/
def linkedFrom (links : Array Links) (condition : Links → Bool) : List NodeId :=
  (List.range links.size).filter fun id => condition (links[id]?.getD Links.none)

/-- The node of a class.  The member classes it lists stand behind those earlier in the graph
    that name it as their outer class, and before the later ones. -/
def Node.ofLinks (links : Array Links) (id : NodeId) (decl : ClassDecl) : Node :=
  let own := links[id]?.getD Links.none
  let members := linkedFrom links (·.outer = some id)
  { decl
    links := own
    inner := (members.filter (· ≤ id) ++ own.inner ++ members.filter (id < ·)).eraseDups
    subclasses := linkedFrom links (·.superclass = some id)
    implementors := linkedFrom links (id ∈ ·.interfaces)
    annotated := linkedFrom links (id ∈ ·.annotations)
    methodAnnotated := linkedFrom links (id ∈ ·.onMethods)
    fieldAnnotated := linkedFrom links (id ∈ ·.onFields) }

/-! ### The graph -/

/-- A class graph. -/
structure ClassGraph where
  /-- The nodes, in graph order. -/
  nodes : Array Node

namespace ClassGraph

/-- The graph of some classes, and the diagnostics with the reports of what is missing, if
    these are wanted. -/
def build (decls : List ClassDecl) (diagnostics : Diagnostics) (report : Bool) :
    ClassGraph × Diagnostics :=
  let table : ClassTable := (graphOrder decls).toArray
  let links := table.map table.links
  let nodes := table.mapIdx (Node.ofLinks links)
  let missing := if report then table.toList.flatMap table.unresolved else []
  (⟨nodes⟩, diagnostics.append missing)

/-- The classes, in graph order. -/
def decls (graph : ClassGraph) : List ClassDecl := graph.nodes.toList.map (·.decl)

/-- How many classes there are. -/
def size (graph : ClassGraph) : Nat := graph.nodes.size

/-- The node of a name. -/
def idOf? (graph : ClassGraph) (name : String) : Option NodeId :=
  ClassTable.idOf? (graph.nodes.map (·.decl)) name

/-- Whether there is a class of a name. -/
def contains (graph : ClassGraph) (name : String) : Bool := (graph.idOf? name).isSome

/-- The class of a node. -/
def declOf? (graph : ClassGraph) (id : NodeId) : Option ClassDecl :=
  (graph.nodes[id]?).map (·.decl)

/-- The class of a name. -/
def get? (graph : ClassGraph) (name : String) : Option ClassDecl :=
  (graph.idOf? name).bind graph.declOf?

/-- The class of a name, which has to be there. -/
def require (graph : ClassGraph) (name : String) : Except Error ClassDecl :=
  match graph.get? name with
  | some decl => .ok decl
  | none => .error (.referenceNotFound name)

end ClassGraph

end ClassAtlas
