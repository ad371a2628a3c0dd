import ClassAtlas.Proofs.Graph.Arena

namespace ClassAtlas

open Relation

/-!
# Upwards and downwards

Superclasses and outer classes are found along one reference of each class, subclasses and member
classes along the lists into which the graph reads these references back.  For the hierarchy the two
are converse to each other.  For nesting the lists have more in them, the member classes that a
class names itself, so only what is found upwards is sure to be found downwards.

* `ClassGraph.DeclaredIn`, `ClassGraph.HasMember` — nesting as the inner class tells it, and as
  either of the two does;
* `ClassGraph.Nested`, `ClassGraph.nested_build` — the links of the nodes are these references;
* `ClassGraph.holds_query_of_list` — a question along one list of each node;
* `ClassGraph.holds_ancestors`, `ClassGraph.holds_descendants`, `ClassGraph.holds_outerClasses`,
  `ClassGraph.holds_innerClasses` — four such questions;
* `downward_converse` — the downward ones answer the upward ones.
-/

namespace ClassGraph

variable {graph : ClassGraph} {seed source target : NodeId} {node : Node}

/-! ### Nesting -/

/-- A class says that it is declared in the other one. -/
def DeclaredIn (graph : ClassGraph) : NodeId → NodeId → Prop :=
  graph.Refers fun decl => decl.outerClass.toList

/-- A class lists the other one as a member, or the other one says that it is declared in it. -/
def HasMember (graph : ClassGraph) (source target : NodeId) : Prop :=
  graph.Refers (·.innerClasses) source target ∨ graph.DeclaredIn target source

theorem HasMember.exists_nodes (h : graph.HasMember source target) :
    (∃ node, graph.nodes[source]? = some node) ∧ ∃ node, graph.nodes[target]? = some node :=
  h.elim Refers.exists_nodes fun hdeclared => hdeclared.exists_nodes.symm

/-- The links of the nesting are the references. -/
structure Nested (graph : ClassGraph) : Prop where
  outer_iff : ∀ ⦃source : NodeId⦄ ⦃node : Node⦄, graph.nodes[source]? = some node →
    ∀ target, target ∈ node.links.outer.toList ↔ graph.DeclaredIn source target
  inner_iff : ∀ ⦃source : NodeId⦄ ⦃node : Node⦄, graph.nodes[source]? = some node →
    ∀ target, target ∈ node.inner ↔ graph.HasMember source target

/-- A name that leads to a node is the name of the class there. -/
theorem mem_bind_idOf?_iff (hdistinct : graph.Distinct) (hnode : graph.nodes[source]? = some node)
    (name : ClassDecl → Option String) :
    target ∈ ((name node.decl).bind graph.idOf?).toList
      ↔ graph.Refers (fun decl => (name decl).toList) source target := by
  rw [Option.mem_toList, Option.bind_eq_some_iff]
  simp only [idOf?_eq_some_iff hdistinct]
  constructor
  · rintro ⟨_, hname, other, hother, rfl⟩
    exact ⟨node, other, hnode, hother, Option.mem_toList.mpr hname⟩
  · rintro ⟨node', other, hnode', hother, hname⟩
    obtain rfl : node = node' := Option.some.inj (hnode.symm.trans hnode')
    exact ⟨_, Option.mem_toList.mp hname, other, hother, rfl⟩

theorem nested_build {decls : List ClassDecl} {diagnostics : Diagnostics} {report : Bool}
    (h : (decls.map (·.name)).Nodup) : (build decls diagnostics report).1.Nested := by
  have hlinked : (build decls diagnostics report).1.Linked := linked_build h
  have houter : ∀ ⦃source : NodeId⦄ ⦃node : Node⦄,
      (build decls diagnostics report).1.nodes[source]? = some node → ∀ target,
        target ∈ node.links.outer.toList
          ↔ (build decls diagnostics report).1.DeclaredIn source target := by
    intro source node hnode target
    rw [(resolved_build hnode).outer_eq]
    exact mem_bind_idOf?_iff hlinked.distinct hnode (·.outerClass)
  refine ⟨houter, fun source node hnode target => ?_⟩
  -- What a node says about another one is said of two nodes, so first it is shown that they exist.
  have hreads : ∀ {other}, (build decls diagnostics report).1.nodes[target]? = some other →
      (target ∈ node.inner ↔ other.decl.name ∈ node.decl.innerClasses
        ∨ (build decls diagnostics report).1.DeclaredIn target source) := by
    intro other hother
    rw [(readsBack_build h hnode hother).inner_iff, ← houter hother, Option.mem_toList]
  constructor
  · intro hmember
    have hstored : target ∈ node.stored :=
      List.mem_append_right _ (List.mem_flatten_of_mem (by simp [Node.lists]) hmember)
    have hother := Array.getElem?_eq_getElem ((resolved_build hnode).stored_lt target hstored)
    exact ((hreads hother).mp hmember).imp_left fun hname => ⟨node, _, hnode, hother, hname⟩
  · rintro (⟨node', other, hnode', hother, hname⟩ | hdeclared)
    · obtain rfl : node = node' := Option.some.inj (hnode.symm.trans hnode')
      exact (hreads hother).mpr (.inl hname)
    · obtain ⟨other, hother⟩ := hdeclared.exists_nodes.1
      exact (hreads hother).mpr (.inr hdeclared)

/-! ### Questions along a list -/

/-- A question along one list of each node gives what one or more entries lead to. -/
theorem holds_query_of_list (hdistinct : graph.Distinct) (hseed : graph.nodes[seed]? = some node)
    {list : Node → List NodeId} {Rel : NodeId → NodeId → Prop}
    (hlist : ∀ ⦃source : NodeId⦄ ⦃node : Node⦄, graph.nodes[source]? = some node →
      ∀ target, target ∈ list node ↔ Rel source target)
    (hnodes : ∀ source target, Rel source target →
      (∃ node, graph.nodes[source]? = some node) ∧ ∃ node, graph.nodes[target]? = some node) :
    graph.Holds (graph.query node.decl.name fun _ node => (list node).map .report)
      (TransGen Rel seed) (Rel seed) := by
  have hreports : ∀ source target, Step.report target
      ∈ graph.stepsFrom (fun node => (list node).map .report) source ↔ Rel source target :=
    fun source target => report_stepsFrom_list hlist fun h => (hnodes source target h).1
  have hfollows : ∀ source target,
      Leads (graph.stepsFrom fun node => (list node).map .report) source target
        ↔ Rel source target :=
    fun source target => leads_stepsFrom_list hlist fun h => (hnodes source target h).1
  have hbound : ∀ source target, Rel source target → target < graph.size := by
    intro source target h
    obtain ⟨other, hother⟩ := (hnodes source target h).2
    exact (Array.getElem?_eq_some_iff.mp hother).1
  refine (holds_query_of_relations hdistinct hseed hfollows hreports hbound).congr
    (fun id => ?_) fun id => Iff.rfl
  rw [TransGen.tail'_iff]

/-- The superclasses are those that a chain of `extends` leads to. -/
theorem holds_ancestors (hlinked : graph.Linked) (hseed : graph.nodes[seed]? = some node) :
    graph.Holds (graph.ancestors node.decl.name) (TransGen graph.Extends seed)
      (graph.Extends seed) := by
  refine holds_query_of_list hlinked.distinct hseed (fun source node hnode target => ?_)
    fun _ _ h => h.exists_nodes
  rw [Option.mem_toList, hlinked.superclass_iff hnode]

/-- The subclasses are those from which such a chain leads to the class. -/
theorem holds_descendants (hlinked : graph.Linked) (hseed : graph.nodes[seed]? = some node) :
    graph.Holds (graph.descendants node.decl.name) (fun id => TransGen graph.Extends id seed)
      (fun id => graph.Extends id seed) := by
  have hlist : ∀ ⦃source : NodeId⦄ ⦃node : Node⦄, graph.nodes[source]? = some node →
      ∀ target, target ∈ node.subclasses ↔ Function.swap graph.Extends source target :=
    fun _ _ hnode target => hlinked.subclasses_iff hnode target
  have hholds := holds_query_of_list hlinked.distinct hseed hlist fun _ _ h => h.exists_nodes.symm
  exact hholds.congr (fun id => transGen_swap) fun id => Iff.rfl

/-- The outer classes are found the same way. -/
theorem holds_outerClasses (hdistinct : graph.Distinct) (hnested : graph.Nested)
    (hseed : graph.nodes[seed]? = some node) :
    graph.Holds (graph.outerClasses node.decl.name) (TransGen graph.DeclaredIn seed)
      (graph.DeclaredIn seed) :=
  holds_query_of_list hdistinct hseed (fun _ _ hnode => hnested.outer_iff hnode)
    fun _ _ h => h.exists_nodes

/-- The member classes also along the lists of member classes. -/
theorem holds_innerClasses (hdistinct : graph.Distinct) (hnested : graph.Nested)
    (hseed : graph.nodes[seed]? = some node) :
    graph.Holds (graph.innerClasses node.decl.name) (TransGen graph.HasMember seed)
      (graph.HasMember seed) :=
  holds_query_of_list hdistinct hseed (fun _ _ hnode => hnested.inner_iff hnode)
    fun _ _ h => h.exists_nodes

/-- Whoever is declared in a class, at whatever depth, is among its members. -/
theorem transGen_hasMember (h : TransGen graph.DeclaredIn source target) :
    TransGen graph.HasMember target source :=
  TransGen.mono (fun _ _ => Or.inr) _ _ (transGen_swap.mpr h)

end ClassGraph

/-- **Downwards and upwards.** A class is among the subclasses of another one iff that one is among
    its superclasses, and both sets mark it alike, as direct iff the class names it as its
    superclass.  A class is among the member classes of each of its outer classes, and directly if
    the outer class is its direct one, which is the one that it names. -/
theorem downward_converse {decls : List ClassDecl} (hdistinct : (decls.map (·.name)).Nodup)
    (diagnostics : Diagnostics) (report : Bool) (base decl : ClassDecl) (hbase : base ∈ decls)
    (hdecl : decl ∈ decls) :
    let graph := (ClassGraph.build decls diagnostics report).1
    ((graph.descendants base.name).contains decl.name = true
        ↔ (graph.ancestors decl.name).contains base.name = true)
      ∧ ((graph.descendants base.name).contains decl.name = true →
        (graph.descendants base.name).isDirect? decl.name
          = (graph.ancestors decl.name).isDirect? base.name)
      ∧ ((graph.ancestors decl.name).isDirect? base.name = some true
        ↔ decl.superclass = some base.name)
      ∧ ((graph.outerClasses decl.name).contains base.name = true →
        (graph.innerClasses base.name).contains decl.name = true)
      ∧ ((graph.outerClasses decl.name).isDirect? base.name = some true →
        (graph.innerClasses base.name).isDirect? decl.name = some true)
      ∧ ((graph.outerClasses decl.name).isDirect? base.name = some true
        ↔ decl.outerClass = some base.name) := by
  intro graph
  have hlinked : graph.Linked := ClassGraph.linked_build hdistinct
  have hnested : graph.Nested := ClassGraph.nested_build hdistinct
  obtain ⟨target, node, hnode, rfl⟩ := ClassGraph.exists_node hbase diagnostics report
  obtain ⟨source, other, hother, rfl⟩ := ClassGraph.exists_node hdecl diagnostics report
  have hdescendants := ClassGraph.holds_descendants hlinked hnode
  have hancestors := ClassGraph.holds_ancestors hlinked hother
  have hinner := ClassGraph.holds_innerClasses hlinked.distinct hnested hnode
  have houter := ClassGraph.holds_outerClasses hlinked.distinct hnested hother
  refine ⟨?_, fun hcontains => ?_, ?_, fun hcontains => ?_, fun hdirect => ?_, ?_⟩
  · rw [hdescendants.contains_iff hother, hancestors.contains_iff hnode]
  · have hchain := (hdescendants.contains_iff hother).mp hcontains
    exact hdescendants.isDirect?_eq hancestors hother hnode hchain hchain Iff.rfl
  · rw [hancestors.isDirect?_true_iff hnode fun _ => TransGen.single, ClassGraph.Extends,
      ClassGraph.refers_iff hother hnode, Option.mem_toList]
  · have hchain := (houter.contains_iff hnode).mp hcontains
    exact (hinner.contains_iff hother).mpr (ClassGraph.transGen_hasMember hchain)
  · obtain ⟨hchain, hmark⟩ := (houter.isDirect?_iff hnode true).mp hdirect
    refine (hinner.isDirect?_iff hother true).mpr ⟨ClassGraph.transGen_hasMember hchain, ?_⟩
    exact iff_of_true rfl (.inr (hmark.mp rfl))
  · rw [houter.isDirect?_true_iff hnode fun _ => TransGen.single, ClassGraph.DeclaredIn,
      ClassGraph.refers_iff hother hnode, Option.mem_toList]

/-- Two classes that are each other's superclass, each of which is declared in the other one, and a
    third one that the second lists as its member without having it say so. -/
theorem downward_converse_cycle :
    let base : ClassDecl :=
      { ClassDecl.outline "a.Base" .ordinary (some "a.Sub") [] [] with outerClass := some "a.Sub" }
    let sub : ClassDecl :=
      { ClassDecl.outline "a.Sub" .ordinary (some "a.Base") [] [] with
        outerClass := some "a.Base"
        innerClasses := ["a.Leaf"] }
    let leaf := ClassDecl.outline "a.Leaf" .ordinary (some "a.Base") [] []
    let graph := (ClassGraph.build [base, sub, leaf] .empty false).1
    ((graph.descendants "a.Sub").contains "a.Leaf" = true
        ↔ (graph.ancestors "a.Leaf").contains "a.Sub" = true)
      ∧ ((graph.outerClasses "a.Base").isDirect? "a.Sub" = some true →
        (graph.innerClasses "a.Sub").isDirect? "a.Base" = some true)
      ∧ (graph.ancestors "a.Leaf").contains "a.Sub" = true
      ∧ (graph.descendants "a.Sub").contains "a.Leaf" = true
      ∧ (graph.outerClasses "a.Base").isDirect? "a.Sub" = some true
      ∧ (graph.innerClasses "a.Sub").isDirect? "a.Base" = some true := by
  intro base sub leaf graph
  have hdistinct : ([base, sub, leaf].map (·.name)).Nodup := by decide
  have hsub : sub ∈ [base, sub, leaf] := by simp
  obtain ⟨hdescends, -⟩ := downward_converse hdistinct .empty false sub leaf hsub (by simp)
  obtain ⟨-, -, -, -, hmember, hdeclared⟩ :=
    downward_converse hdistinct .empty false sub base hsub (by simp)
  have habove : (graph.ancestors "a.Leaf").contains "a.Sub" = true := by cbv
  have houter := hdeclared.mpr rfl
  exact ⟨hdescends, hmember, habove, hdescends.mpr habove, houter, hmember houter⟩

end ClassAtlas
