import ClassAtlas.Graph.Basic
import ClassAtlas.Graph.ClassSet

namespace ClassAtlas.ClassGraph

/-!
# Questions to the class graph

* `ancestors`, `descendants`, `interfaces`, `implementors` — the hierarchy;
* `annotationsOn`, `typesWithAnnotation`, `withMethodAnnotation`, `withFieldAnnotation` —
  annotations, with those on annotation types and those that subclasses inherit;
* `innerClasses`, `outerClasses`, `dependencies` — nesting and mention;
* `elementsWithDefaults` — the element values of an annotation, defaults included.

The answer about a name that is not in the graph is the empty set.
-/

/-! ### Following steps -/

/-- The steps from a node that its contents give; none from a place without a node. -/
def stepsFrom (graph : ClassGraph) (steps : Node → List Step) (id : NodeId) : List Step :=
  match graph.nodes[id]? with
  | some node => steps node
  | none => []

/-- The member for a node; none for a place without a node. -/
def member? (graph : ClassGraph) (id : NodeId) (direct : Bool) : Option ClassMember :=
  (graph.declOf? id).map (⟨·, direct⟩)

/-- The set of some nodes. -/
def setOf (graph : ClassGraph) (found : List (NodeId × Bool)) : ClassSet :=
  ClassSet.ofMembers (found.filterMap fun answer => graph.member? answer.1 answer.2)

/-- The classes reported on the way from the class of a name. -/
def query (graph : ClassGraph) (name : String) (steps : NodeId → Node → List Step) : ClassSet :=
  match graph.idOf? name with
  | none => .empty
  | some seed =>
    graph.setOf (closure graph.size seed fun id => graph.stepsFrom (steps id) id)

/-- Whether a condition holds of the class of a node. -/
def declSatisfies (graph : ClassGraph) (condition : ClassDecl → Bool) (id : NodeId) : Bool :=
  ((graph.declOf? id).map condition).getD false

/-! ### Hierarchy -/

/-- The superclasses. -/
def ancestors (graph : ClassGraph) (name : String) : ClassSet :=
  graph.query name fun _ node => node.links.superclass.toList.map .report

/-- The subclasses. -/
def descendants (graph : ClassGraph) (name : String) : ClassSet :=
  graph.query name fun _ node => node.subclasses.map .report

/-- The interfaces, those of interfaces and superclasses included. -/
def interfaces (graph : ClassGraph) (name : String) : ClassSet :=
  graph.query name fun _ node =>
    node.links.interfaces.map .report ++ node.links.superclass.toList.map .traverse

/-- The classes that have an interface, by themselves, through interfaces or through
    superclasses.  Interfaces are passed through. -/
def implementors (graph : ClassGraph) (name : String) : ClassSet :=
  graph.query name fun _ node =>
    node.implementors.map (fun id => ⟨id, !graph.declSatisfies (·.isInterface) id⟩)
      ++ node.subclasses.map .report

/-! ### Annotations -/

/-- The types of the annotations on a class, of those on annotation types met on the way, and of
    the inherited ones on superclasses. -/
def annotationsOn (graph : ClassGraph) (name : String) : ClassSet :=
  match graph.idOf? name with
  | none => .empty
  | some seed =>
    graph.query name fun id node =>
      let own := id = seed || node.decl.isAnnotationType
      let reported := node.links.annotations.filter fun target =>
        own || graph.declSatisfies (·.isInherited) target
      reported.map .report
        ++ if node.decl.isAnnotationType then []
          else node.links.superclass.toList.map .traverse

/-- The annotation types that bring an annotation with them: itself, and those annotated with
    such a type. -/
def carriers (graph : ClassGraph) (seed : NodeId) : List NodeId :=
  let annotationTypes (node : Node) : List Step :=
    (node.annotated.filter (graph.declSatisfies (·.isAnnotationType))).map .report
  let found := closure graph.size seed (graph.stepsFrom annotationTypes)
  seed :: (found.map (·.1)).filter (· ≠ seed)

/-- Some nodes that a node lists; none at a place without a node. -/
def listedBy (graph : ClassGraph) (list : Node → List NodeId) (id : NodeId) : List NodeId :=
  ((graph.nodes[id]?).map list).getD []

/-- The subclasses of a node. -/
def subclassesOf (graph : ClassGraph) (id : NodeId) : List NodeId :=
  (closure graph.size id (graph.stepsFrom fun node => node.subclasses.map .report)).map (·.1)

/-- The classes that an annotation is on: those it annotates, those annotated by a type that
    brings it along, and the subclasses that inherit one of these. -/
def typesWithAnnotation (graph : ClassGraph) (name : String) : ClassSet :=
  match graph.idOf? name with
  | none => .empty
  | some seed =>
    let carriers := graph.carriers seed
    let annotated := carriers.flatMap fun carrier =>
      (graph.listedBy (·.annotated) carrier).map (·, carrier == seed)
    let inheritance := carriers.filter (graph.declSatisfies (·.isInherited))
    let bases := (inheritance.flatMap (graph.listedBy (·.annotated))).filter
      fun id => !graph.declSatisfies (·.isInterface) id
    graph.setOf (annotated ++ (bases.flatMap graph.subclassesOf).map (·, false))

/-- The classes with a member that an annotation, or one that brings it along, is on. -/
def withMemberAnnotation (graph : ClassGraph) (name : String) (users : Node → List NodeId) :
    ClassSet :=
  match graph.idOf? name with
  | none => .empty
  | some seed =>
    graph.setOf ((graph.carriers seed).flatMap fun carrier =>
      (graph.listedBy users carrier).map (·, carrier == seed))

/-- The classes with a method that an annotation is on. -/
def withMethodAnnotation (graph : ClassGraph) (name : String) : ClassSet :=
  graph.withMemberAnnotation name (·.methodAnnotated)

/-- The classes with a field that an annotation is on. -/
def withFieldAnnotation (graph : ClassGraph) (name : String) : ClassSet :=
  graph.withMemberAnnotation name (·.fieldAnnotated)

/-! ### Nesting and mention -/

/-- The member classes, those of member classes included. -/
def innerClasses (graph : ClassGraph) (name : String) : ClassSet :=
  graph.query name fun _ node => node.inner.map .report

/-- The classes a class is declared in. -/
def outerClasses (graph : ClassGraph) (name : String) : ClassSet :=
  graph.query name fun _ node => node.links.outer.toList.map .report

/-- The classes mentioned, those mentioned by such classes included. -/
def dependencies (graph : ClassGraph) (name : String) : ClassSet :=
  graph.query name fun _ node => node.links.dependencies.map .report

/-! ### Single references -/

/-- The superclass of a class. -/
def superclassOf? (graph : ClassGraph) (decl : ClassDecl) : Option ClassDecl :=
  decl.superclass.bind graph.get?

/-- The interfaces of a class, as far as they are in the graph. -/
def interfacesOf (graph : ClassGraph) (decl : ClassDecl) : List ClassDecl :=
  decl.interfaces.filterMap graph.get?

/-- The type of an annotation. -/
def typeOf? (graph : ClassGraph) (note : AnnotationUse) : Option ClassDecl :=
  graph.get? note.name

/-- An element value more, unless the element has one already. -/
def addDefault (elements : List AnnotationElement) (method : MethodDecl) :
    List AnnotationElement :=
  match method.default with
  | none => elements
  | some value =>
    if elements.any (·.name = method.name) then elements else elements ++ [⟨method.name, value⟩]

/-- The element values of an annotation, followed by the defaults of the elements that are left
    out, in the order in which the annotation type declares them. -/
def elementsWithDefaults (graph : ClassGraph) (note : AnnotationUse) : List AnnotationElement :=
  match graph.typeOf? note with
  | none => note.elements
  | some type => type.methods.foldl addDefault note.elements

end ClassAtlas.ClassGraph
