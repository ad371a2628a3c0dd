import ClassAtlas.Graph.Basic

namespace ClassAtlas

/-!
# Linking the nodes one by one

The links of a graph can be made in one pass over its nodes: each node in turn is entered at the
nodes it refers to, earlier and later ones, and then keeps what it refers to.

* `pushUnique`, `pushAll` — nodes at the end of a list, unless they are there;
* `ClassTable.targets` — what a class refers to, with repetitions;
* `NodeList` — one of the lists of a node, with `NodeList.enter` for a node that is entered in it;
* `Links.enter` — a node is entered at the nodes it refers to;
* `Node.keep` — a node keeps what it refers to;
* `ClassTable.report` — what is missing is reported;
* `ClassGraph.assemble` — the graph of some classes, made in this way.
-/

/-! ### Lists without repetitions -/

/-- One node more at the end, unless it is there. -/
def pushUnique (nodes : List NodeId) (id : NodeId) : List NodeId :=
  if id ∈ nodes then nodes else nodes ++ [id]

/-- Some nodes more at the end, one after the other. -/
def pushAll (nodes more : List NodeId) : List NodeId := more.foldl pushUnique nodes

/-! ### Classes -/

/-- A class that is not linked yet. -/
def Node.unlinked (decl : ClassDecl) : Node where
  decl := decl
  links := Links.none
  inner := []
  subclasses := []
  implementors := []
  annotated := []
  methodAnnotated := []
  fieldAnnotated := []

/-- What a class refers to, once for each time that it does. -/
def ClassTable.targets (table : ClassTable) (decl : ClassDecl) : Links where
  superclass := decl.superclass.bind table.idOf?
  interfaces := decl.interfaces.filterMap table.idOf?
  annotations := (decl.annotations.map (·.name)).filterMap table.idOf?
  outer := decl.outerClass.bind table.idOf?
  inner := decl.innerClasses.filterMap table.idOf?
  dependencies := decl.referenced.filterMap table.idOf?
  onMethods := (decl.methods.flatMap fun m => m.annotations.map (·.name)).filterMap table.idOf?
  onFields := (decl.fields.flatMap fun f => f.annotations.map (·.name)).filterMap table.idOf?

/-! ### The lists of a node -/

/-- One of the lists of a node. -/
structure NodeList where
  /-- The list. -/
  get : Node → List NodeId
  /-- The node with another list. -/
  put : List NodeId → Node → Node
  get_put : ∀ list node, get (put list node) = list
  put_get : ∀ node, put (get node) node = node
  put_put : ∀ first second node, put second (put first node) = put second node

namespace NodeList

def subclasses : NodeList :=
  ⟨(·.subclasses), fun list node => { node with subclasses := list },
    fun _ _ => rfl, fun _ => rfl, fun _ _ _ => rfl⟩

def implementors : NodeList :=
  ⟨(·.implementors), fun list node => { node with implementors := list },
    fun _ _ => rfl, fun _ => rfl, fun _ _ _ => rfl⟩

def annotated : NodeList :=
  ⟨(·.annotated), fun list node => { node with annotated := list },
    fun _ _ => rfl, fun _ => rfl, fun _ _ _ => rfl⟩

def methodAnnotated : NodeList :=
  ⟨(·.methodAnnotated), fun list node => { node with methodAnnotated := list },
    fun _ _ => rfl, fun _ => rfl, fun _ _ _ => rfl⟩

def fieldAnnotated : NodeList :=
  ⟨(·.fieldAnnotated), fun list node => { node with fieldAnnotated := list },
    fun _ _ => rfl, fun _ => rfl, fun _ _ _ => rfl⟩

def inner : NodeList :=
  ⟨(·.inner), fun list node => { node with inner := list },
    fun _ _ => rfl, fun _ => rfl, fun _ _ _ => rfl⟩

/-- A node is pushed to the list. -/
def push (field : NodeList) (id : NodeId) (node : Node) : Node :=
  field.put (pushUnique (field.get node) id) node

/-- A node is pushed to the list of each of some nodes, one after the other. -/
def enter (field : NodeList) (targets : List NodeId) (id : NodeId) (nodes : Array Node) :
    Array Node :=
  targets.foldl (fun nodes target => nodes.modify target (field.push id)) nodes

end NodeList

/-! ### One node -/

/-- A node is entered at the nodes it refers to. -/
def Links.enter (targets : Links) (id : NodeId) (nodes : Array Node) : Array Node :=
  nodes
    |> NodeList.subclasses.enter targets.superclass.toList id
    |> NodeList.implementors.enter targets.interfaces id
    |> NodeList.annotated.enter targets.annotations id
    |> NodeList.methodAnnotated.enter targets.onMethods id
    |> NodeList.fieldAnnotated.enter targets.onFields id
    |> NodeList.inner.enter targets.outer.toList id

/-- A node keeps what it refers to. -/
def Node.keep (targets : Links) (node : Node) : Node :=
  { node with
    links := {
      superclass := targets.superclass
      interfaces := pushAll node.links.interfaces targets.interfaces
      annotations := pushAll node.links.annotations targets.annotations
      outer := targets.outer
      inner := pushAll node.links.inner targets.inner
      dependencies := pushAll node.links.dependencies targets.dependencies
      onMethods := pushAll node.links.onMethods targets.onMethods
      onFields := pushAll node.links.onFields targets.onFields }
    inner := pushAll node.inner targets.inner }

/-- A node is linked. -/
def Links.link (targets : Links) (id : NodeId) (nodes : Array Node) : Array Node :=
  (targets.enter id nodes).modify id (Node.keep targets)

/-! ### One pass -/

/-- The references of a class to nothing are reported as they are looked up. -/
def ClassTable.report (table : ClassTable) (diagnostics : Diagnostics) (decl : ClassDecl) :
    Diagnostics :=
  decl.references.foldl (fun diagnostics reference =>
    if (table.idOf? reference.2).isNone && reference.2 ≠ rootClass then
      diagnostics.push (unresolvedReference decl reference.1 reference.2)
    else diagnostics) diagnostics

/-- The next node is linked, and its reports are made if they are wanted. -/
def ClassTable.visit (table : ClassTable) (report : Bool) (state : Array Node × Diagnostics)
    (id : NodeId) : Array Node × Diagnostics :=
  match table[id]? with
  | none => state
  | some decl =>
    ((table.targets decl).link id state.1,
      if report then table.report state.2 decl else state.2)

/-- The first nodes are linked. -/
def ClassTable.visitTo (table : ClassTable) (diagnostics : Diagnostics) (report : Bool)
    (count : Nat) : Array Node × Diagnostics :=
  (List.range count).foldl (table.visit report) (table.map Node.unlinked, diagnostics)

/-- The graph of some classes, linked node by node. -/
def ClassGraph.assemble (decls : List ClassDecl) (diagnostics : Diagnostics) (report : Bool) :
    ClassGraph × Diagnostics :=
  let table : ClassTable := (graphOrder decls).toArray
  let linked := table.visitTo diagnostics report table.size
  (⟨linked.1⟩, linked.2)

end ClassAtlas
