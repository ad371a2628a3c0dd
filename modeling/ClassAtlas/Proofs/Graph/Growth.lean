import ClassAtlas.Proofs.Graph.Annotations
import ClassAtlas.Proofs.Graph.Arena
import ClassAtlas.Proofs.Graph.Renumbering
import ClassAtlas.Proofs.Graph.SetAlgebra

namespace ClassAtlas

open Relation

/-!
# Graphs that grow

When classes are added to a graph, all its nodes move to other places and names that led nowhere
may lead somewhere.  The answers to all questions only gain members, and no member changes its mark:
what a step from a class leads to among the old classes does not depend on the new ones.

* `ClassSet.Within` — a set is a part of another one, marks included;
* `Node.Embeds` — a node and the node of the same class in a larger graph;
* `ClassGraph.Embedding` — the nodes of a graph at places of a larger one, with the same links
  between them;
* `SameSteps.reported`, `Embedding.query_within` — a search in the two graphs;
* `Embedding.questions_within` — the answers in the two graphs;
* `ClassGraph.questions_build_within` — the answers with more classes.
-/

/-! ### Sets -/

namespace ClassSet

variable {set larger : ClassSet} {member : ClassMember}

/-- Every member of a set is a member of the other one, and its class is marked alike there. -/
structure Within (set larger : ClassSet) : Prop where
  mem : ∀ member ∈ set.members, member ∈ larger.members
  direct_eq : ∀ member ∈ set.members, ∀ other ∈ larger.members, other.name = member.name →
    other.direct = member.direct

theorem within_empty (larger : ClassSet) : empty.Within larger := by
  constructor <;> simp

theorem Within.names_subset (h : set.Within larger) : set.names ⊆ larger.names :=
  List.map_subset _ h.mem

theorem mem_of_mem_insertAll {members : List ClassMember}
    (h : member ∈ (set.insertAll members).members) : member ∈ set.members ∨ member ∈ members := by
  induction members generalizing set with
  | nil => exact .inl h
  | cons first rest ih =>
    have hnext : member ∈ ((set.insert first.decl first.direct).insertAll rest).members := h
    obtain hinsert | hrest := ih hnext
    · cases hknown : set.contains first.decl.name with
      | true =>
        rw [insert_of_contains _ hknown] at hinsert
        exact .inl hinsert
      | false =>
        rw [members_insert_of_not_contains _ hknown, List.mem_append, List.mem_singleton] at hinsert
        exact hinsert.imp_right fun h => List.mem_cons.mpr (.inl h)
    · exact .inr (List.mem_cons_of_mem _ hrest)

/-- A member is what is found by its name. -/
theorem get?_eq_some_iff {members : List ClassMember} {name : String} :
    (ofMembers members).get? name = some member
      ↔ member ∈ (ofMembers members).members ∧ member.name = name :=
  (consistent_ofMembers members).get?_eq_some_iff

end ClassSet

/-! ### Nodes at other places -/

/-- Of the nodes of a graph, two lists have the same ones, the second one at their places in a larger
    graph. -/
def SameBelow (size : Nat) (place : NodeId → NodeId) (list list' : List NodeId) : Prop :=
  ∀ target < size, target ∈ list ↔ place target ∈ list'

/-- A node and the node of the same class in a larger graph: between the old classes they have the
    same links. -/
structure Node.Embeds (size : Nat) (place : NodeId → NodeId) (node other : Node) : Prop where
  decl_eq : other.decl = node.decl
  superclass :
    SameBelow size place node.links.superclass.toList other.links.superclass.toList
  outer : SameBelow size place node.links.outer.toList other.links.outer.toList
  interfaces : SameBelow size place node.links.interfaces other.links.interfaces
  annotations : SameBelow size place node.links.annotations other.links.annotations
  dependencies : SameBelow size place node.links.dependencies other.links.dependencies
  inner : SameBelow size place node.inner other.inner
  subclasses : SameBelow size place node.subclasses other.subclasses
  implementors : SameBelow size place node.implementors other.implementors
  annotated : SameBelow size place node.annotated other.annotated
  methodAnnotated : SameBelow size place node.methodAnnotated other.methodAnnotated
  fieldAnnotated : SameBelow size place node.fieldAnnotated other.fieldAnnotated

namespace Node

variable {node other : Node} {list : List NodeId} {size : Nat} {place : NodeId → NodeId}
  {target : NodeId}

theorem Embeds.superclass_iff (h : node.Embeds size place other) (htarget : target < size) :
    node.links.superclass = some target ↔ other.links.superclass = some (place target) := by
  simpa only [Option.mem_toList] using h.superclass target htarget

theorem subset_stored (hlist : list ∈ node.lists) : list ⊆ node.stored := fun _ hmem =>
  List.mem_append_right _ (List.mem_flatten.mpr ⟨list, hlist, hmem⟩)

theorem superclass_subset_stored (node : Node) : node.links.superclass.toList ⊆ node.stored := by
  simp [stored]

theorem outer_subset_stored (node : Node) : node.links.outer.toList ⊆ node.stored := by
  simp [stored]

end Node

/-- The classes of a table have places in a larger one. -/
structure ClassTable.Placed (table larger : ClassTable) (place : NodeId → NodeId) : Prop where
  distinct : table.Distinct
  distinct_larger : larger.Distinct
  getElem?_place : ∀ ⦃id : NodeId⦄ ⦃decl : ClassDecl⦄, table[id]? = some decl →
    larger[place id]? = some decl

namespace ClassTable.Placed

variable {table larger : ClassTable} {place : NodeId → NodeId} {decl : ClassDecl} {id : NodeId}

/-- The old class of a name has it in the larger table too. -/
theorem idOf?_iff (h : table.Placed larger place) (hid : id < table.size) (name : String) :
    table.idOf? name = some id ↔ larger.idOf? name = some (place id) := by
  have hdecl : table[id]? = some table[id] := Array.getElem?_eq_getElem hid
  rw [idOf?_eq_some_iff h.distinct, idOf?_eq_some_iff h.distinct_larger, hdecl,
    h.getElem?_place hdecl]

theorem bind_iff (h : table.Placed larger place) (hid : id < table.size) (name : Option String) :
    name.bind table.idOf? = some id ↔ name.bind larger.idOf? = some (place id) := by
  cases name with
  | none => exact iff_of_false nofun nofun
  | some name => exact h.idOf?_iff hid name

theorem sameBelow_bind (h : table.Placed larger place) (name : Option String) :
    SameBelow table.size place (name.bind table.idOf?).toList (name.bind larger.idOf?).toList := by
  intro target htarget
  rw [Option.mem_toList, Option.mem_toList]
  exact h.bind_iff htarget name

theorem sameBelow_resolve (h : table.Placed larger place) (names : List String) :
    SameBelow table.size place (table.resolve names) (larger.resolve names) := by
  intro target htarget
  simp only [resolve, List.mem_eraseDups, List.mem_filterMap, h.idOf?_iff htarget]

/-- The links against a condition that is the same for the old classes. -/
theorem sameBelow_linkedFrom (h : table.Placed larger place) {condition condition' : Links → Bool}
    (hiff : ∀ decl, condition (table.links decl) = true ↔ condition' (larger.links decl) = true) :
    SameBelow table.size place (linkedFrom (table.map table.links) condition)
      (linkedFrom (larger.map larger.links) condition') := by
  intro target htarget
  have hdecl : table[target]? = some table[target] := Array.getElem?_eq_getElem htarget
  rw [mem_linkedFrom_of_getElem? hdecl, mem_linkedFrom_of_getElem? (h.getElem?_place hdecl)]
  exact hiff _

/-- A class has the same links to the old classes, and from them. -/
theorem embeds_ofLinks (h : table.Placed larger place) (hdecl : table[id]? = some decl) :
    (Node.ofLinks (table.map table.links) id decl).Embeds table.size place
      (Node.ofLinks (larger.map larger.links) (place id) decl) := by
  have hid : id < table.size := (Array.getElem?_eq_some_iff.mp hdecl).1
  have hlinks := links_ofLinks_of_getElem? hdecl
  have hlinks' := links_ofLinks_of_getElem? (h.getElem?_place hdecl)
  -- A class with a link back to this one names it.
  have hback : ∀ names : ClassDecl → List String,
      ∀ other, decide (id ∈ table.resolve (names other)) = true
        ↔ decide (place id ∈ larger.resolve (names other)) = true := by
    intro names other
    rw [decide_eq_true_eq, decide_eq_true_eq]
    exact h.sameBelow_resolve (names other) id hid
  have hbind : ∀ name : ClassDecl → Option String,
      ∀ other, decide ((name other).bind table.idOf? = some id) = true
        ↔ decide ((name other).bind larger.idOf? = some (place id)) = true := by
    intro name other
    rw [decide_eq_true_eq, decide_eq_true_eq]
    exact h.bind_iff hid (name other)
  constructor
  case decl_eq => rfl
  case superclass => rw [hlinks, hlinks']; exact h.sameBelow_bind decl.superclass
  case outer => rw [hlinks, hlinks']; exact h.sameBelow_bind decl.outerClass
  case interfaces => rw [hlinks, hlinks']; exact h.sameBelow_resolve decl.interfaces
  case annotations =>
    rw [hlinks, hlinks']
    exact h.sameBelow_resolve (decl.annotations.map (·.name))
  case dependencies => rw [hlinks, hlinks']; exact h.sameBelow_resolve decl.referenced
  case inner =>
    intro target htarget
    rw [mem_inner_ofLinks, mem_inner_ofLinks, ← Node.links_ofLinks _ _ decl,
      ← Node.links_ofLinks _ _ decl, hlinks, hlinks']
    exact or_congr (h.sameBelow_linkedFrom (hbind (·.outerClass)) target htarget)
      (h.sameBelow_resolve decl.innerClasses target htarget)
  case subclasses =>
    rw [Node.subclasses_ofLinks, Node.subclasses_ofLinks]
    exact h.sameBelow_linkedFrom (hbind (·.superclass))
  case implementors =>
    rw [Node.implementors_ofLinks, Node.implementors_ofLinks]
    exact h.sameBelow_linkedFrom (hback (·.interfaces))
  case annotated =>
    rw [Node.annotated_ofLinks, Node.annotated_ofLinks]
    have hnames := hback fun decl => decl.annotations.map (·.name)
    exact h.sameBelow_linkedFrom hnames
  case methodAnnotated =>
    rw [Node.methodAnnotated_ofLinks, Node.methodAnnotated_ofLinks]
    have hnames := hback fun decl => decl.methods.flatMap fun m => m.annotations.map (·.name)
    exact h.sameBelow_linkedFrom hnames
  case fieldAnnotated =>
    rw [Node.fieldAnnotated_ofLinks, Node.fieldAnnotated_ofLinks]
    have hnames := hback fun decl => decl.fields.flatMap fun f => f.annotations.map (·.name)
    exact h.sameBelow_linkedFrom hnames

end ClassTable.Placed

namespace ClassGraph

variable {graph larger : ClassGraph} {id seed source target : NodeId} {node other : Node}
  {place : NodeId → NodeId}

/-- What is found in a set of nodes is the class of one of them. -/
theorem exists_node_of_get? {found : List (NodeId × Bool)} {name : String} {member : ClassMember}
    (h : (graph.setOf found).get? name = some member) :
    ∃ (id : NodeId) (node : Node), graph.nodes[id]? = some node ∧ node.decl = member.decl := by
  obtain ⟨hmem, -⟩ := ClassSet.get?_eq_some_iff.mp h
  obtain hnone | hmem := ClassSet.mem_of_mem_insertAll hmem
  · cases hnone
  · obtain ⟨⟨id, direct⟩, -, hmember⟩ := List.mem_filterMap.mp hmem
    rw [member?, declOf?, Option.map_map, Option.map_eq_some_iff] at hmember
    obtain ⟨node, hnode, rfl⟩ := hmember
    exact ⟨id, node, hnode, rfl⟩

/-! ### Embeddings -/

/-- No node links out of the graph. -/
def Closed (graph : ClassGraph) : Prop :=
  ∀ ⦃id : NodeId⦄ ⦃node : Node⦄, graph.nodes[id]? = some node →
    ∀ target ∈ node.stored, target < graph.size

/-- The nodes of a graph have places in a larger one. -/
structure Embedding (graph larger : ClassGraph) (place : NodeId → NodeId) : Prop where
  linked : graph.Linked
  linked_larger : larger.Linked
  closed : graph.Closed
  closed_larger : larger.Closed
  exists_embeds : ∀ ⦃id : NodeId⦄ ⦃node : Node⦄, graph.nodes[id]? = some node →
    ∃ other, larger.nodes[place id]? = some other ∧ node.Embeds graph.size place other

namespace Embedding

/-- Two nodes have two places. -/
theorem place_inj (h : graph.Embedding larger place) (hnode : graph.nodes[source]? = some node)
    (hother : graph.nodes[target]? = some other) : place source = place target ↔ source = target := by
  refine ⟨fun hsame => h.linked.distinct hnode hother ?_, fun hsame => congrArg place hsame⟩
  obtain ⟨node', hnode', hembeds⟩ := h.exists_embeds hnode
  obtain ⟨other', hother', hembeds'⟩ := h.exists_embeds hother
  rw [hsame, hother'] at hnode'
  rw [← hembeds.decl_eq, ← hembeds'.decl_eq, Option.some.inj hnode']

theorem idOf?_eq (h : graph.Embedding larger place) {name : String}
    (hseed : graph.idOf? name = some seed) : larger.idOf? name = some (place seed) := by
  obtain ⟨node, hnode, rfl⟩ := (idOf?_eq_some_iff h.linked.distinct).mp hseed
  obtain ⟨other, hother, hembeds⟩ := h.exists_embeds hnode
  exact (idOf?_eq_some_iff h.linked_larger.distinct).mpr ⟨other, hother, by rw [hembeds.decl_eq]⟩

theorem lt_size_of_idOf? (h : graph.Embedding larger place) {name : String}
    (hseed : graph.idOf? name = some seed) : seed < graph.size := by
  obtain ⟨node, hnode, -⟩ := (idOf?_eq_some_iff h.linked.distinct).mp hseed
  exact (Array.getElem?_eq_some_iff.mp hnode).1

theorem declSatisfies_eq (h : graph.Embedding larger place) (hid : id < graph.size)
    (condition : ClassDecl → Bool) :
    larger.declSatisfies condition (place id) = graph.declSatisfies condition id := by
  have hnode : graph.nodes[id]? = some graph.nodes[id] := Array.getElem?_eq_getElem hid
  obtain ⟨other, hother, hembeds⟩ := h.exists_embeds hnode
  rw [ClassGraph.declSatisfies_eq hnode, ClassGraph.declSatisfies_eq hother, hembeds.decl_eq]

/-! ### Sets of nodes -/

/-- A set of nodes is within a set of nodes of the larger graph if that one has the places of all of
    them, and of those that are directly related exactly as directly related. -/
theorem within_setOf (h : graph.Embedding larger place)
    {direct indirect direct' indirect' : List NodeId}
    (hrelated : ∀ id < graph.size, id ∈ direct ∨ id ∈ indirect →
      place id ∈ direct' ∨ place id ∈ indirect')
    (hdirect : ∀ id < graph.size, id ∈ direct ↔ place id ∈ direct') :
    (graph.setOf (markedNodes direct indirect)).Within
      (larger.setOf (markedNodes direct' indirect')) := by
  have hholds := holds_setOf_markedNodes h.linked.distinct direct indirect
  have hholds' := holds_setOf_markedNodes h.linked_larger.distinct direct' indirect'
  -- What is found by the name of a member in the one set is found in the other.
  have hfound : ∀ member ∈ (graph.setOf (markedNodes direct indirect)).members,
      (larger.setOf (markedNodes direct' indirect')).get? member.name = some member := by
    intro member hmember
    have hget := ClassSet.get?_eq_some_iff.mpr ⟨hmember, rfl⟩
    obtain ⟨id, node, hnode, hdecl⟩ := exists_node_of_get? hget
    obtain ⟨other, hother, hembeds⟩ := h.exists_embeds hnode
    have hid : id < graph.size := (Array.getElem?_eq_some_iff.mp hnode).1
    have hname : node.decl.name = member.name := congrArg ClassDecl.name hdecl
    have hmark : (graph.setOf (markedNodes direct indirect)).isDirect? node.decl.name
        = some member.direct := by
      rw [hname, ClassSet.isDirect?, ClassGraph.setOf, hget, Option.map_some]
    obtain ⟨hid', hmark'⟩ := (hholds.isDirect?_iff hnode _).mp hmark
    have hlarger := (hholds'.isDirect?_iff hother member.direct).mpr
      ⟨hrelated id hid hid', hmark'.trans (hdirect id hid)⟩
    rw [hembeds.decl_eq, hname, ClassSet.isDirect?, Option.map_eq_some_iff] at hlarger
    obtain ⟨found, hfound, hsame⟩ := hlarger
    obtain ⟨id', node', hnode', hdecl'⟩ := exists_node_of_get? hfound
    have hname' : node'.decl.name = member.name :=
      (congrArg ClassDecl.name hdecl').trans (ClassSet.get?_eq_some_iff.mp hfound).2
    obtain rfl := h.linked_larger.distinct hnode' hother (by rw [hname', hembeds.decl_eq, hname])
    have hdecls : found.decl = member.decl := by
      rw [← hdecl', ← hdecl, ← hembeds.decl_eq, Option.some.inj (hnode'.symm.trans hother)]
    rw [hfound]
    exact congrArg some (by cases found; cases member; simp_all)
  constructor
  · intro member hmember
    exact (ClassSet.get?_eq_some_iff.mp (hfound member hmember)).1
  · intro member hmember other hother hname
    have hother := ClassSet.get?_eq_some_iff.mpr ⟨hother, hname⟩
    have hsame : some other = some member := hother.symm.trans (hfound member hmember)
    rw [Option.some.inj hsame]

/-! ### Searches -/

end Embedding

/-- Steps that do not lead out of the two graphs and are the same between the old nodes. -/
structure SameSteps (graph larger : ClassGraph) (place : NodeId → NodeId)
    (steps steps' : NodeId → List Step) : Prop where
  below : StaysBelow graph.size steps
  below_larger : StaysBelow larger.size steps'
  mem_iff : ∀ id < graph.size, ∀ target < graph.size, ∀ isReport,
    ⟨target, isReport⟩ ∈ steps id ↔ ⟨place target, isReport⟩ ∈ steps' (place id)

/-- What is reported in the graph is reported in the larger one. -/
theorem SameSteps.reported {steps steps' : NodeId → List Step}
    (h : SameSteps graph larger place steps steps') (hseed : seed < graph.size)
    (hreported : Reported steps seed target) : Reported steps' (place seed) (place target) := by
  obtain ⟨source, hreach, hreport⟩ := hreported
  -- The chain is moved step by step; it stays in the graph, where the steps are the same.
  have hmoved : source < graph.size ∧ ReflTransGen (Leads steps') (place seed) (place source) := by
    clear hreport
    induction hreach with
    | refl => exact ⟨hseed, .refl⟩
    | tail _ hleads ih =>
      have htarget := h.below _ _ hleads
      obtain ⟨⟨next, isReport⟩, hstep, rfl⟩ := hleads
      have hstep' := (h.mem_iff _ ih.1 _ htarget isReport).mp hstep
      exact ⟨htarget, ih.2.tail ⟨_, hstep', rfl⟩⟩
  have htarget : target < graph.size := h.below _ _ ⟨_, hreport, rfl⟩
  exact ⟨place source, hmoved.2, (h.mem_iff source hmoved.1 target htarget true).mp hreport⟩

namespace Embedding

theorem place_lt (h : graph.Embedding larger place) (hid : id < graph.size) :
    place id < larger.size := by
  obtain ⟨other, hother, -⟩ := h.exists_embeds (Array.getElem?_eq_getElem hid)
  exact (Array.getElem?_eq_some_iff.mp hother).1

/-- Steps along the links of nodes that are the same for the nodes of each old class. -/
theorem sameSteps (h : graph.Embedding larger place) {steps steps' : NodeId → Node → List Step}
    (hstored : ∀ id node, ∀ step ∈ steps id node, step.target ∈ node.stored)
    (hstored' : ∀ id node, ∀ step ∈ steps' id node, step.target ∈ node.stored)
    (hiff : ∀ ⦃id : NodeId⦄ ⦃node other : Node⦄, graph.nodes[id]? = some node →
      node.Embeds graph.size place other → ∀ target < graph.size, ∀ isReport,
        ⟨target, isReport⟩ ∈ steps id node ↔ ⟨place target, isReport⟩ ∈ steps' (place id) other) :
    SameSteps graph larger place (fun id => graph.stepsFrom (steps id) id)
      (fun id => larger.stepsFrom (steps' id) id) where
  below := by
    rintro source _ ⟨step, hstep, rfl⟩
    obtain ⟨node, hnode, hstep⟩ := mem_stepsFrom.mp hstep
    exact h.closed hnode _ (hstored _ _ _ hstep)
  below_larger := by
    rintro source _ ⟨step, hstep, rfl⟩
    obtain ⟨node, hnode, hstep⟩ := mem_stepsFrom.mp hstep
    exact h.closed_larger hnode _ (hstored' _ _ _ hstep)
  mem_iff := by
    intro id hid target htarget isReport
    have hnode : graph.nodes[id]? = some graph.nodes[id] := Array.getElem?_eq_getElem hid
    obtain ⟨other, hother, hembeds⟩ := h.exists_embeds hnode
    simp only [stepsFrom, hnode, hother]
    exact hiff hnode hembeds target htarget isReport

/-- Reports along one of the lists of each node. -/
theorem sameSteps_list (h : graph.Embedding larger place) {list : Node → List NodeId}
    (hstored : ∀ node, list node ⊆ node.stored)
    (hsame : ∀ ⦃node other : Node⦄, node.Embeds graph.size place other →
      SameBelow graph.size place (list node) (list other)) :
    SameSteps graph larger place (graph.stepsFrom fun node => (list node).map .report)
      (larger.stepsFrom fun node => (list node).map .report) := by
  have hsteps : ∀ (node : Node), ∀ step ∈ (list node).map Step.report,
      step.target ∈ node.stored := by
    intro node step hstep
    obtain ⟨target, htarget, rfl⟩ := List.mem_map.mp hstep
    exact hstored node htarget
  refine h.sameSteps (fun _ => hsteps) (fun _ => hsteps) ?_
  intro id node other _ hembeds target htarget isReport
  have hlist := hsame hembeds target htarget
  simp [Step.report, hlist, and_comm]

/-- So the answers to a question with such steps are within each other. -/
theorem query_within (h : graph.Embedding larger place) {steps steps' : NodeId → Node → List Step}
    (hsteps : SameSteps graph larger place (fun id => graph.stepsFrom (steps id) id)
      fun id => larger.stepsFrom (steps' id) id) (name : String) :
    (graph.query name steps).Within (larger.query name steps') := by
  unfold query
  cases hname : graph.idOf? name with
  | none => exact ClassSet.within_empty _
  | some seed =>
    rw [h.idOf?_eq hname]
    have hseed := h.lt_size_of_idOf? hname
    obtain ⟨direct, indirect, hclosure, hdirect, hall⟩ := exists_closure_eq hsteps.below hseed
    obtain ⟨direct', indirect', hclosure', hdirect', hall'⟩ :=
      exists_closure_eq hsteps.below_larger (h.place_lt hseed)
    dsimp only
    rw [hclosure, hclosure']
    refine h.within_setOf (fun id hid hfound => ?_) fun id hid => ?_
    · exact (hall' _).mpr (hsteps.reported hseed ((hall id).mp hfound))
    · exact (hdirect id).trans ((hsteps.mem_iff seed hseed id hid true).trans (hdirect' _).symm)

/-! ### Each question -/

/-- A question that follows one of the lists of each node. -/
theorem query_list_within (h : graph.Embedding larger place) {list : Node → List NodeId}
    (hstored : ∀ node, list node ⊆ node.stored)
    (hsame : ∀ ⦃node other : Node⦄, node.Embeds graph.size place other →
      SameBelow graph.size place (list node) (list other)) (name : String) :
    (graph.query name fun _ node => (list node).map .report).Within
      (larger.query name fun _ node => (list node).map .report) :=
  h.query_within (h.sameSteps_list hstored hsame) name

theorem interfaces_within (h : graph.Embedding larger place) (name : String) :
    (graph.interfaces name).Within (larger.interfaces name) := by
  have hstored : ∀ (id : NodeId) (node : Node), ∀ step ∈ stepsToInterfaces id node,
      step.target ∈ node.stored := by
    intro id node step hstep
    simp only [stepsToInterfaces, List.mem_append, List.mem_map] at hstep
    obtain ⟨target, htarget, rfl⟩ | ⟨target, htarget, rfl⟩ := hstep
    · exact Node.subset_stored (by simp [Node.lists]) htarget
    · exact node.superclass_subset_stored htarget
  refine h.query_within (h.sameSteps hstored hstored ?_) name
  intro id node other _ hembeds target htarget isReport
  have hinterfaces := hembeds.interfaces target htarget
  have hsuperclass := hembeds.superclass_iff htarget
  simp [stepsToInterfaces, Step.report, Step.traverse, hinterfaces, hsuperclass]

theorem implementors_within (h : graph.Embedding larger place) (name : String) :
    (graph.implementors name).Within (larger.implementors name) := by
  have hstored : ∀ (graph : ClassGraph) (id : NodeId) (node : Node),
      ∀ step ∈ graph.stepsToImplementors id node, step.target ∈ node.stored := by
    intro graph id node step hstep
    simp only [stepsToImplementors, List.mem_append, List.mem_map] at hstep
    obtain ⟨target, htarget, rfl⟩ | ⟨target, htarget, rfl⟩ := hstep
    · exact Node.subset_stored (by simp [Node.lists]) htarget
    · exact Node.subset_stored (by simp [Node.lists]) htarget
  refine h.query_within (h.sameSteps (hstored graph) (hstored larger) ?_) name
  intro id node other _ hembeds target htarget isReport
  have himplementors := hembeds.implementors target htarget
  have hsubclasses := hembeds.subclasses target htarget
  have hkind := h.declSatisfies_eq htarget (·.isInterface)
  simp [stepsToImplementors, Step.report, himplementors, hsubclasses, hkind]

/-- The steps depend on the class that the question is about, which has a place too. -/
theorem annotationsOn_within (h : graph.Embedding larger place) (name : String) :
    (graph.annotationsOn name).Within (larger.annotationsOn name) := by
  have hstored : ∀ (graph : ClassGraph) (seed id : NodeId) (node : Node),
      ∀ step ∈ graph.stepsToAnnotations seed id node, step.target ∈ node.stored := by
    intro graph seed id node step hstep
    simp only [stepsToAnnotations, List.mem_append, List.mem_map, List.mem_filter] at hstep
    obtain ⟨target, ⟨htarget, -⟩, rfl⟩ | hstep := hstep
    · exact Node.subset_stored (by simp [Node.lists]) htarget
    · split at hstep
      · cases hstep
      · obtain ⟨target, htarget, rfl⟩ := List.mem_map.mp hstep
        exact node.superclass_subset_stored htarget
  cases hname : graph.idOf? name with
  | none =>
    rw [annotationsOn, hname]
    exact ClassSet.within_empty _
  | some seed =>
    obtain ⟨seedNode, hseed, -⟩ := (idOf?_eq_some_iff h.linked.distinct).mp hname
    have hquery : graph.annotationsOn name = graph.query name (graph.stepsToAnnotations seed) := by
      rw [annotationsOn, hname]
      rfl
    have hquery' : larger.annotationsOn name
        = larger.query name (larger.stepsToAnnotations (place seed)) := by
      rw [annotationsOn, h.idOf?_eq hname]
      rfl
    rw [hquery, hquery']
    refine h.query_within (h.sameSteps (hstored graph seed) (hstored larger _) ?_) name
    intro id node other hnode hembeds target htarget isReport
    have hannotations := hembeds.annotations target htarget
    have hsuperclass := hembeds.superclass_iff htarget
    have hkind := h.declSatisfies_eq htarget (·.isInherited)
    have hown := h.place_inj hnode hseed
    cases htype : node.decl.isAnnotationType <;>
      simp [stepsToAnnotations, Step.report, Step.traverse, hembeds.decl_eq, htype, hannotations,
        hsuperclass, hkind, hown]

/-- What a node lists of the old nodes, and what it lists at its place. -/
theorem mem_listedBy_iff (h : graph.Embedding larger place) {list : Node → List NodeId}
    (hsame : ∀ ⦃node other : Node⦄, node.Embeds graph.size place other →
      SameBelow graph.size place (list node) (list other))
    (hsource : source < graph.size) (htarget : target < graph.size) :
    target ∈ graph.listedBy list source ↔ place target ∈ larger.listedBy list (place source) := by
  have hnode : graph.nodes[source]? = some graph.nodes[source] := Array.getElem?_eq_getElem hsource
  obtain ⟨other, hother, hembeds⟩ := h.exists_embeds hnode
  rw [listedBy, listedBy, hnode, hother]
  exact hsame hembeds target htarget

/-- References stay when the classes move. -/
theorem refers_place (h : graph.Embedding larger place) {names : ClassDecl → List String}
    (hrefers : graph.Refers names source target) :
    larger.Refers names (place source) (place target) := by
  obtain ⟨node, other, hnode, hother, hname⟩ := hrefers
  obtain ⟨node', hnode', hembeds⟩ := h.exists_embeds hnode
  obtain ⟨other', hother', hembeds'⟩ := h.exists_embeds hother
  refine ⟨node', other', hnode', hother', ?_⟩
  rwa [hembeds.decl_eq, hembeds'.decl_eq]

theorem subclassesOf_place (h : graph.Embedding larger place) (hseed : seed < graph.size)
    (hid : id ∈ graph.subclassesOf seed) : place id ∈ larger.subclassesOf (place seed) := by
  rw [mem_subclassesOf h.linked hseed] at hid
  rw [mem_subclassesOf h.linked_larger (h.place_lt hseed)]
  exact hid.lift place fun _ _ => h.refers_place

theorem conveys_place (h : graph.Embedding larger place) (hconveys : graph.Conveys source target) :
    larger.Conveys (place source) (place target) := by
  refine ⟨?_, h.refers_place hconveys.2⟩
  rw [IsAnnotationType, h.declSatisfies_eq hconveys.2.lt_size.1]
  exact hconveys.1

theorem carriers_place (h : graph.Embedding larger place) (hseed : seed < graph.size)
    (hid : id ∈ graph.carriers seed) : place id ∈ larger.carriers (place seed) := by
  rw [mem_carriers h.linked hseed] at hid
  rw [mem_carriers h.linked_larger (h.place_lt hseed)]
  exact hid.lift place fun _ _ => h.conveys_place

theorem lt_size_of_mem_carriers (h : graph.Embedding larger place) (hseed : seed < graph.size)
    (hid : id ∈ graph.carriers seed) : id < graph.size := by
  rw [mem_carriers h.linked hseed] at hid
  obtain rfl | ⟨_, hconveys, -⟩ := hid.cases_head
  · exact hseed
  · exact hconveys.2.lt_size.1

/-- The classes that the carriers of an annotation list. -/
theorem listedBy_carriers_place (h : graph.Embedding larger place) {list : Node → List NodeId}
    (hsame : ∀ ⦃node other : Node⦄, node.Embeds graph.size place other →
      SameBelow graph.size place (list node) (list other))
    (hseed : seed < graph.size) (hid : id < graph.size)
    (hlisted : id ∈ (graph.carriers seed).flatMap (graph.listedBy list)) :
    place id ∈ (larger.carriers (place seed)).flatMap (larger.listedBy list) := by
  obtain ⟨carrier, hcarrier, hlisted⟩ := List.mem_flatMap.mp hlisted
  have hlt := h.lt_size_of_mem_carriers hseed hcarrier
  exact List.mem_flatMap.mpr ⟨place carrier, h.carriers_place hseed hcarrier,
    (h.mem_listedBy_iff hsame hlt hid).mp hlisted⟩

/-- The classes that inherit an annotation from a class that a carrier annotates. -/
theorem heirs_place (h : graph.Embedding larger place) (hseed : seed < graph.size)
    (hid : id ∈ graph.heirs (graph.carriers seed)) :
    place id ∈ larger.heirs (larger.carriers (place seed)) := by
  simp only [heirs, List.mem_flatMap, List.mem_filter] at hid ⊢
  obtain ⟨base, ⟨⟨first, ⟨hfirst, hinherited⟩, hlisted⟩, hclass⟩, hsubclass⟩ := hid
  have hannotated := (mem_listedBy_annotated h.linked).mp hlisted
  have hbase := hannotated.lt_size.1
  refine ⟨place base, ⟨⟨place first, ⟨h.carriers_place hseed hfirst, ?_⟩, ?_⟩, ?_⟩,
    h.subclassesOf_place hbase hsubclass⟩
  · rw [h.declSatisfies_eq hannotated.lt_size.2]
    exact hinherited
  · exact (mem_listedBy_annotated h.linked_larger).mpr (h.refers_place hannotated)
  · rw [h.declSatisfies_eq hbase]
    exact hclass

/-- A set of the classes that the carriers of an annotation list, and some more. -/
theorem within_setOf_carriers (h : graph.Embedding larger place) {list : Node → List NodeId}
    (hsame : ∀ ⦃node other : Node⦄, node.Embeds graph.size place other →
      SameBelow graph.size place (list node) (list other))
    (hseed : seed < graph.size) {others others' more more' : List NodeId}
    (hcarriers : graph.carriers seed = seed :: others)
    (hcarriers' : larger.carriers (place seed) = place seed :: others')
    (hmore : ∀ id < graph.size, id ∈ more → place id ∈ more') :
    (graph.setOf (markedNodes (graph.listedBy list seed)
        (others.flatMap (graph.listedBy list) ++ more))).Within
      (larger.setOf (markedNodes (larger.listedBy list (place seed))
        (others'.flatMap (larger.listedBy list) ++ more'))) := by
  refine h.within_setOf (fun id hid hfound => ?_) fun id hid => h.mem_listedBy_iff hsame hseed hid
  rw [List.mem_append, ← or_assoc, ← List.mem_append, ← List.flatMap_cons] at hfound ⊢
  rw [← hcarriers] at hfound
  rw [← hcarriers']
  exact hfound.imp (h.listedBy_carriers_place hsame hseed hid) (hmore id hid)

theorem typesWithAnnotation_within (h : graph.Embedding larger place) (name : String) :
    let found := graph.typesWithAnnotation name
    let foundAgain := larger.typesWithAnnotation name
    found.Within foundAgain := by
  dsimp only
  cases hname : graph.idOf? name with
  | none =>
    unfold typesWithAnnotation
    rw [hname]
    exact ClassSet.within_empty _
  | some seed =>
    have hseed := h.lt_size_of_idOf? hname
    obtain ⟨others, hcarriers, hothers⟩ := graph.exists_carriers_eq seed
    obtain ⟨others', hcarriers', hothers'⟩ := larger.exists_carriers_eq (place seed)
    rw [typesWithAnnotation_eq hname hcarriers hothers,
      typesWithAnnotation_eq (h.idOf?_eq hname) hcarriers' hothers']
    exact h.within_setOf_carriers (fun _ _ hembeds => hembeds.annotated) hseed hcarriers hcarriers'
      fun id _ => h.heirs_place hseed

theorem withMemberAnnotation_within (h : graph.Embedding larger place)
    {users : Node → List NodeId}
    (hsame : ∀ ⦃node other : Node⦄, node.Embeds graph.size place other →
      SameBelow graph.size place (users node) (users other)) (name : String) :
    let found := graph.withMemberAnnotation name users
    let foundAgain := larger.withMemberAnnotation name users
    found.Within foundAgain := by
  dsimp only
  unfold withMemberAnnotation
  cases hname : graph.idOf? name with
  | none => exact ClassSet.within_empty _
  | some seed =>
    have hseed := h.lt_size_of_idOf? hname
    obtain ⟨others, hcarriers, hothers⟩ := graph.exists_carriers_eq seed
    obtain ⟨others', hcarriers', hothers'⟩ := larger.exists_carriers_eq (place seed)
    rw [h.idOf?_eq hname]
    dsimp only
    rw [hcarriers, hcarriers', flatMap_listedBy_carriers users hothers,
      flatMap_listedBy_carriers users hothers', ← List.append_nil (List.flatMap _ others),
      ← List.append_nil (List.flatMap _ others')]
    exact h.within_setOf_carriers hsame hseed hcarriers hcarriers' nofun

/-! ### All questions -/

/-- **Embedding.** The answers to all questions in a graph are within those in a larger one. -/
theorem questions_within (h : graph.Embedding larger place) :
    ∀ question ∈ questions, ∀ name, (question graph name).Within (question larger name) := by
  simp only [questions, List.forall_mem_cons]
  refine ⟨?ancestors, ?descendants, h.interfaces_within, h.implementors_within,
    h.annotationsOn_within, h.typesWithAnnotation_within, ?methods, ?fields, ?inner, ?outer,
    ?dependencies, fun _ hnone => absurd hnone List.not_mem_nil⟩
  case methods => exact h.withMemberAnnotation_within fun _ _ hembeds => hembeds.methodAnnotated
  case fields => exact h.withMemberAnnotation_within fun _ _ hembeds => hembeds.fieldAnnotated
  -- The others follow one list of each node.
  case ancestors =>
    exact h.query_list_within Node.superclass_subset_stored fun _ _ hembeds => hembeds.superclass
  case descendants =>
    exact h.query_list_within (fun node => node.subset_stored (by simp [Node.lists]))
      fun _ _ hembeds => hembeds.subclasses
  case inner =>
    exact h.query_list_within (fun node => node.subset_stored (by simp [Node.lists]))
      fun _ _ hembeds => hembeds.inner
  case outer =>
    exact h.query_list_within Node.outer_subset_stored fun _ _ hembeds => hembeds.outer
  case dependencies =>
    exact h.query_list_within (fun node => node.subset_stored (by simp [Node.lists]))
      fun _ _ hembeds => hembeds.dependencies

end Embedding

/-! ### More classes -/

variable {decls more : List ClassDecl}

theorem nodup_names_of_subperm (hsubperm : decls.Subperm more)
    (hdistinct : (more.map (·.name)).Nodup) : (decls.map (·.name)).Nodup := by
  obtain ⟨order, hperm, hsublist⟩ := hsubperm
  exact (hperm.map _).nodup_iff.mp (hdistinct.sublist (hsublist.map _))

/-- The classes of a graph have places in the graph of more classes. -/
theorem exists_placed (hsubperm : decls.Subperm more) (hdistinct : (more.map (·.name)).Nodup) :
    ∃ place, (tableOf decls).Placed (tableOf more) place := by
  have hplace : ∀ id : NodeId, ∃ target : NodeId, ∀ decl, (tableOf decls)[id]? = some decl →
      (tableOf more)[target]? = some decl := by
    intro id
    cases hdecl : (tableOf decls)[id]? with
    | none => exact ⟨0, fun _ hsome => absurd hsome (Option.some_ne_none _).symm⟩
    | some decl =>
      obtain ⟨target, htarget⟩ := mem_tableOf.mpr (hsubperm.subset (mem_tableOf.mp ⟨id, hdecl⟩))
      refine ⟨target, fun _ hsame => ?_⟩
      rw [htarget, hsame]
  choose place hplace using hplace
  exact ⟨place, distinct_tableOf (nodup_names_of_subperm hsubperm hdistinct),
    distinct_tableOf hdistinct, hplace⟩

theorem closed_build (decls : List ClassDecl) (diagnostics : Diagnostics) (report : Bool) :
    (build decls diagnostics report).1.Closed := by
  intro id node hnode target htarget
  rw [nodes_build, Option.map_eq_some_iff] at hnode
  obtain ⟨decl, hdecl, rfl⟩ := hnode
  rw [size_build]
  exact lt_size_of_mem_stored_ofLinks hdecl htarget

/-- More classes make a larger graph. -/
theorem exists_embedding_build (hsubperm : decls.Subperm more)
    (hdistinct : (more.map (·.name)).Nodup) (diagnostics diagnostics' : Diagnostics)
    (report report' : Bool) :
    ∃ place, (build decls diagnostics report).1.Embedding
      (build more diagnostics' report').1 place := by
  obtain ⟨place, hplaced⟩ := exists_placed hsubperm hdistinct
  refine ⟨place, linked_build (nodup_names_of_subperm hsubperm hdistinct), linked_build hdistinct,
    closed_build .., closed_build .., ?_⟩
  intro id node hnode
  rw [nodes_build, Option.map_eq_some_iff] at hnode
  obtain ⟨decl, hdecl, rfl⟩ := hnode
  have hembeds := hplaced.embeds_ofLinks hdecl
  rw [← size_build] at hembeds
  refine ⟨_, ?_, hembeds⟩
  rw [nodes_build, hplaced.getElem?_place hdecl, Option.map_some]

/-- **Growth.** With more classes, the answer to each question about each name has all members it
    had without them, marked as they were. -/
theorem questions_build_within (hsubperm : decls.Subperm more)
    (hdistinct : (more.map (·.name)).Nodup) (diagnostics diagnostics' : Diagnostics)
    (report report' : Bool) :
    ∀ question ∈ questions, ∀ name,
      (question (build decls diagnostics report).1 name).Within
        (question (build more diagnostics' report').1 name) := by
  obtain ⟨place, hembedding⟩ :=
    exists_embedding_build hsubperm hdistinct diagnostics diagnostics' report report'
  exact hembedding.questions_within

/-- A class whose superclass is missing and a subclass of it; the missing class comes from an earlier
    source and closes a cycle.  What was found before is found again, at other nodes. -/
theorem questions_build_within_cycle :
    let base := ClassDecl.outline "a.Base" .ordinary (some "a.Top") [] []
    let leaf := ClassDecl.outline "a.Leaf" .ordinary (some "a.Base") [] []
    let top := ClassDecl.outline "a.Top" .ordinary (some "a.Leaf") [] []
    let small := (build [base.renumber fun _ => 1, leaf.renumber fun _ => 1] .empty false).1
    let large := (build [top, base.renumber fun _ => 1, leaf.renumber fun _ => 1] .empty true).1
    (small.ancestors "a.Leaf").Within (large.ancestors "a.Leaf")
      ∧ (small.descendants "a.Base").Within (large.descendants "a.Base")
      ∧ (small.ancestors "a.Leaf").names = ["a.Base"]
      ∧ "a.Base" ∈ (large.ancestors "a.Leaf").names
      ∧ (small.descendants "a.Base").names = ["a.Leaf"]
      ∧ "a.Leaf" ∈ (large.descendants "a.Base").names := by
  intro base leaf top small large
  have hwithin := questions_build_within
    (List.sublist_cons_self top [base.renumber fun _ => 1, leaf.renumber fun _ => 1]).subperm
    (by decide) .empty .empty false true
  have habove : (small.ancestors "a.Leaf").Within (large.ancestors "a.Leaf") :=
    hwithin ancestors (by simp [questions]) "a.Leaf"
  have hbelow : (small.descendants "a.Base").Within (large.descendants "a.Base") :=
    hwithin descendants (by simp [questions]) "a.Base"
  have hbase : (small.ancestors "a.Leaf").names = ["a.Base"] := by cbv
  have hleaf : (small.descendants "a.Base").names = ["a.Leaf"] := by cbv
  -- The larger graph is not searched: its answers have what the smaller ones have.
  exact ⟨habove, hbelow, hbase, habove.names_subset (by simp [hbase]), hleaf,
    hbelow.names_subset (by simp [hleaf])⟩

end ClassGraph

end ClassAtlas
