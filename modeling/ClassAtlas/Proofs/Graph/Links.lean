import ClassAtlas.Proofs.Graph.Membership

namespace ClassAtlas

open Relation

/-!
# What the graph of some classes links

If no two classes have the same name, the links of a graph are the references by name, in both
directions.

* `ClassGraph.Refers` — one class names the other;
* `ClassGraph.Linked` — the links of the nodes are these references;
* `ClassGraph.decls_build`, `ClassGraph.toList_build` — the classes of the graph that is built from
  classes, and what is said about it;
* `ClassGraph.linked_build` — its links are the references;
* `ClassGraph.idOf?_eq_some_iff` — names lead to their nodes;
* `ClassGraph.holds_query_of_relations` — a question whose steps are such references.
-/

variable {table : ClassTable} {names : ClassDecl → List String} {decl : ClassDecl}
  {source target : NodeId}

/-! ### Names in a table -/

/-- No two classes of the table have the same name. -/
def ClassTable.Distinct (table : ClassTable) : Prop :=
  ∀ ⦃id other : NodeId⦄ ⦃decl sibling : ClassDecl⦄, table[id]? = some decl →
    table[other]? = some sibling → decl.name = sibling.name → id = other

theorem ClassTable.idOf?_eq_some_iff (hdistinct : table.Distinct) {name : String} {id : NodeId} :
    table.idOf? name = some id ↔ ∃ decl, table[id]? = some decl ∧ decl.name = name := by
  have hfound : ∀ {id}, table.idOf? name = some id →
      ∃ decl, table[id]? = some decl ∧ decl.name = name := by
    intro id h
    have hname := List.find?_some h
    rw [decide_eq_true_eq, Option.map_eq_some_iff] at hname
    exact hname
  constructor
  · exact hfound
  · rintro ⟨decl, hdecl, hname⟩
    -- Some class of the name is found, and by distinctness it is this one.
    have hsome : (table.idOf? name).isSome := by
      rw [idOf?, List.find?_isSome]
      refine ⟨id, ?_, ?_⟩
      · obtain ⟨hlt, -⟩ := Array.getElem?_eq_some_iff.mp hdecl
        rw [List.mem_reverse, List.mem_range]
        exact hlt
      · rw [hdecl, Option.map_some, hname, decide_eq_true_eq]
    obtain ⟨other, hother⟩ := Option.isSome_iff_exists.mp hsome
    obtain ⟨sibling, hsibling, hsame⟩ := hfound hother
    rw [hother, hdistinct hdecl hsibling (hname.trans hsame.symm)]

/-- A class of the table names another one. -/
def ClassTable.Refers (table : ClassTable) (names : ClassDecl → List String)
    (source target : NodeId) : Prop :=
  ∃ decl other, table[source]? = some decl ∧ table[target]? = some other
    ∧ other.name ∈ names decl

theorem ClassTable.refers_iff (hdistinct : table.Distinct) (hdecl : table[source]? = some decl) :
    table.Refers names source target ↔ ∃ name ∈ names decl, table.idOf? name = some target := by
  simp only [idOf?_eq_some_iff hdistinct]
  constructor
  · rintro ⟨_, other, hsource, hother, hname⟩
    obtain rfl : decl = _ := Option.some.inj (hdecl.symm.trans hsource)
    exact ⟨other.name, hname, other, hother, rfl⟩
  · rintro ⟨_, hname, other, hother, rfl⟩
    exact ⟨decl, other, hdecl, hother, hname⟩

theorem ClassTable.mem_resolve_iff (names : ClassDecl → List String) (hdistinct : table.Distinct)
    (hdecl : table[source]? = some decl) :
    target ∈ table.resolve (names decl) ↔ table.Refers names source target := by
  rw [resolve, List.mem_eraseDups, List.mem_filterMap, refers_iff hdistinct hdecl]

theorem ClassTable.superclass_links_iff (hdistinct : table.Distinct)
    (hdecl : table[source]? = some decl) :
    (table.links decl).superclass = some target
      ↔ table.Refers (fun decl => decl.superclass.toList) source target := by
  show decl.superclass.bind table.idOf? = some target ↔ _
  rw [refers_iff hdistinct hdecl, Option.bind_eq_some_iff]
  simp only [Option.mem_toList]

theorem ClassTable.mem_interfaces_links_iff (hdistinct : table.Distinct)
    (hdecl : table[source]? = some decl) :
    target ∈ (table.links decl).interfaces ↔ table.Refers (·.interfaces) source target :=
  mem_resolve_iff (·.interfaces) hdistinct hdecl

theorem ClassTable.mem_annotations_links_iff (hdistinct : table.Distinct)
    (hdecl : table[source]? = some decl) :
    target ∈ (table.links decl).annotations
      ↔ table.Refers (fun decl => decl.annotations.map (·.name)) source target :=
  mem_resolve_iff (fun decl => decl.annotations.map (·.name)) hdistinct hdecl

theorem Node.links_ofLinks (links : Array Links) (id : NodeId) (decl : ClassDecl) :
    (Node.ofLinks links id decl).links = links[id]?.getD Links.none := rfl

theorem Node.subclasses_ofLinks (links : Array Links) (id : NodeId) (decl : ClassDecl) :
    (Node.ofLinks links id decl).subclasses = linkedFrom links (·.superclass = some id) := rfl

theorem Node.implementors_ofLinks (links : Array Links) (id : NodeId) (decl : ClassDecl) :
    (Node.ofLinks links id decl).implementors = linkedFrom links (id ∈ ·.interfaces) := rfl

theorem Node.annotated_ofLinks (links : Array Links) (id : NodeId) (decl : ClassDecl) :
    (Node.ofLinks links id decl).annotated = linkedFrom links (id ∈ ·.annotations) := rfl

/-- The nodes that link to another one, found by their links. -/
theorem mem_linkedFrom {condition : Links → Bool} :
    source ∈ linkedFrom (table.map table.links) condition
      ↔ ∃ decl, table[source]? = some decl ∧ condition (table.links decl) = true := by
  rw [linkedFrom, List.mem_filter, List.mem_range, Array.size_map, Array.getElem?_map]
  constructor
  · rintro ⟨hlt, hcondition⟩
    rw [Array.getElem?_eq_getElem hlt] at hcondition
    exact ⟨table[source], Array.getElem?_eq_getElem hlt, hcondition⟩
  · rintro ⟨decl, hdecl, hcondition⟩
    obtain ⟨hlt, -⟩ := Array.getElem?_eq_some_iff.mp hdecl
    rw [hdecl]
    exact ⟨hlt, hcondition⟩

/-- So the references lead back. -/
theorem mem_linkedFrom_iff {condition : Links → Bool}
    (hcondition : ∀ ⦃source : NodeId⦄ ⦃decl : ClassDecl⦄, table[source]? = some decl →
      (condition (table.links decl) = true ↔ table.Refers names source target)) :
    source ∈ linkedFrom (table.map table.links) condition
      ↔ table.Refers names source target := by
  rw [mem_linkedFrom]
  constructor
  · rintro ⟨decl, hdecl, h⟩
    exact (hcondition hdecl).mp h
  · rintro ⟨decl, other, hdecl, hother⟩
    exact ⟨decl, hdecl, (hcondition hdecl).mpr ⟨decl, other, hdecl, hother⟩⟩

namespace ClassGraph

variable {graph : ClassGraph} {node : Node} {id : NodeId}

/-! ### References in a graph -/

/-- A class of the graph names another one. -/
def Refers (graph : ClassGraph) (names : ClassDecl → List String) (source target : NodeId) :
    Prop :=
  ∃ node other, graph.nodes[source]? = some node ∧ graph.nodes[target]? = some other
    ∧ other.decl.name ∈ names node.decl

/-- The class of one node has that of the other as its superclass. -/
def Extends (graph : ClassGraph) : NodeId → NodeId → Prop :=
  graph.Refers fun decl => decl.superclass.toList

/-- It lists it as an interface. -/
def Implements (graph : ClassGraph) : NodeId → NodeId → Prop :=
  graph.Refers (·.interfaces)

/-- It has an annotation of this type. -/
def AnnotatedWith (graph : ClassGraph) : NodeId → NodeId → Prop :=
  graph.Refers fun decl => decl.annotations.map (·.name)

/-- The links of the hierarchy and of the annotations on classes are the references, and lead to
    distinct classes. -/
structure Linked (graph : ClassGraph) : Prop where
  /-- A name has one class. -/
  distinct : graph.Distinct
  superclass_iff : ∀ ⦃source : NodeId⦄ ⦃node : Node⦄, graph.nodes[source]? = some node →
    ∀ target, node.links.superclass = some target ↔ graph.Extends source target
  interfaces_iff : ∀ ⦃source : NodeId⦄ ⦃node : Node⦄, graph.nodes[source]? = some node →
    ∀ target, target ∈ node.links.interfaces ↔ graph.Implements source target
  annotations_iff : ∀ ⦃source : NodeId⦄ ⦃node : Node⦄, graph.nodes[source]? = some node →
    ∀ target, target ∈ node.links.annotations ↔ graph.AnnotatedWith source target
  subclasses_iff : ∀ ⦃target : NodeId⦄ ⦃node : Node⦄, graph.nodes[target]? = some node →
    ∀ source, source ∈ node.subclasses ↔ graph.Extends source target
  implementors_iff : ∀ ⦃target : NodeId⦄ ⦃node : Node⦄, graph.nodes[target]? = some node →
    ∀ source, source ∈ node.implementors ↔ graph.Implements source target
  annotated_iff : ∀ ⦃target : NodeId⦄ ⦃node : Node⦄, graph.nodes[target]? = some node →
    ∀ source, source ∈ node.annotated ↔ graph.AnnotatedWith source target

/-- They start and end at nodes of the graph. -/
theorem Refers.exists_nodes (h : graph.Refers names source target) :
    (∃ node, graph.nodes[source]? = some node) ∧ ∃ node, graph.nodes[target]? = some node := by
  obtain ⟨node, other, hsource, htarget, -⟩ := h
  exact ⟨⟨node, hsource⟩, other, htarget⟩

theorem Refers.lt_size (h : graph.Refers names source target) :
    source < graph.size ∧ target < graph.size := by
  obtain ⟨⟨_, hsource⟩, _, htarget⟩ := h.exists_nodes
  exact ⟨(Array.getElem?_eq_some_iff.mp hsource).1, (Array.getElem?_eq_some_iff.mp htarget).1⟩

/-- A reference is between the classes of two nodes. -/
theorem refers_iff {other : Node} (hnode : graph.nodes[source]? = some node)
    (hother : graph.nodes[target]? = some other) :
    graph.Refers names source target ↔ other.decl.name ∈ names node.decl := by
  constructor
  · rintro ⟨node', other', hnode', hother', hname⟩
    obtain rfl : node = node' := Option.some.inj (hnode.symm.trans hnode')
    obtain rfl : other = other' := Option.some.inj (hother.symm.trans hother')
    exact hname
  · exact fun hname => ⟨node, other, hnode, hother, hname⟩

theorem idOf?_eq_some_iff (hdistinct : graph.Distinct) {name : String} :
    graph.idOf? name = some id ↔ ∃ node, graph.nodes[id]? = some node ∧ node.decl.name = name := by
  have htable : ClassTable.Distinct (graph.nodes.map (·.decl)) := by
    intro id other decl sibling hdecl hsibling hname
    rw [Array.getElem?_map, Option.map_eq_some_iff] at hdecl hsibling
    obtain ⟨node, hnode, rfl⟩ := hdecl
    obtain ⟨node', hnode', rfl⟩ := hsibling
    exact hdistinct hnode hnode' hname
  rw [idOf?, ClassTable.idOf?_eq_some_iff htable]
  simp only [Array.getElem?_map, Option.map_eq_some_iff]
  constructor
  · rintro ⟨_, ⟨node, hnode, rfl⟩, hname⟩
    exact ⟨node, hnode, hname⟩
  · rintro ⟨node, hnode, hname⟩
    exact ⟨node.decl, ⟨node, hnode, rfl⟩, hname⟩

theorem get?_eq_some_iff (hdistinct : graph.Distinct) {name : String} {decl : ClassDecl} :
    graph.get? name = some decl
      ↔ ∃ (id : NodeId) (node : Node), graph.nodes[id]? = some node ∧ node.decl.name = name
        ∧ node.decl = decl := by
  rw [get?, Option.bind_eq_some_iff]
  simp only [idOf?_eq_some_iff hdistinct, declOf?, Option.map_eq_some_iff]
  constructor
  · rintro ⟨id, ⟨node, hnode, hname⟩, node', hnode', hdecl⟩
    obtain rfl : node = node' := Option.some.inj (hnode.symm.trans hnode')
    exact ⟨id, node, hnode, hname, hdecl⟩
  · rintro ⟨id, node, hnode, hname, hdecl⟩
    exact ⟨id, ⟨node, hnode, hname⟩, node, hnode, hdecl⟩

/-! ### The graph of some classes -/

variable {decls : List ClassDecl} {diagnostics : Diagnostics} {report : Bool}

/-- The classes in graph order. -/
def tableOf (decls : List ClassDecl) : ClassTable := (graphOrder decls).toArray

theorem mem_tableOf : (∃ id : NodeId, (tableOf decls)[id]? = some decl) ↔ decl ∈ decls := by
  have horder : decl ∈ graphOrder decls ↔ decl ∈ decls :=
    (List.mergeSort_perm decls graphBefore).mem_iff
  rw [← horder, List.mem_iff_getElem?]
  simp only [tableOf, List.getElem?_toArray]

theorem distinct_tableOf (h : (decls.map (·.name)).Nodup) : (tableOf decls).Distinct := by
  have hnames : ((graphOrder decls).map (·.name)).Nodup :=
    ((List.mergeSort_perm decls graphBefore).map _).nodup_iff.mpr h
  intro id other decl sibling hdecl hsibling hname
  rw [tableOf, List.getElem?_toArray] at hdecl hsibling
  refine (List.getElem?_inj ?_ hnames).mp ?_
  · rw [List.length_map]
    exact (List.getElem?_eq_some_iff.mp hdecl).1
  · rw [List.getElem?_map, List.getElem?_map, hdecl, hsibling, Option.map_some, Option.map_some,
      hname]

theorem nodes_build (id : NodeId) :
    (build decls diagnostics report).1.nodes[id]?
      = (tableOf decls)[id]?.map
          (Node.ofLinks ((tableOf decls).map (tableOf decls).links) id) :=
  Array.getElem?_mapIdx

/-- The classes of the graph are those it is made of, in graph order. -/
theorem decls_build : (build decls diagnostics report).1.decls = graphOrder decls := by
  refine List.ext_getElem? fun id => ?_
  rw [ClassGraph.decls, List.getElem?_map, Array.getElem?_toList, nodes_build, tableOf,
    List.getElem?_toArray, Option.map_map]
  exact Option.map_id' ..

/-- What is said when a graph is made comes last, and does not depend on what was said before. -/
theorem toList_build : (build decls diagnostics report).2.toList
    = diagnostics.toList ++ (build decls .empty report).2.toList := by
  rw [build, Diagnostics.toList_append]
  show _ = _ ++ (Diagnostics.empty.append _).toList
  rw [Diagnostics.toList_append]
  rfl

/-- It is about references. -/
theorem category_of_build :
    ∀ entry ∈ (build decls .empty report).2.toList, entry.category = .reference := by
  intro entry hentry
  rw [build, Diagnostics.toList_append] at hentry
  split at hentry
  · simp only [Diagnostics.empty, Diagnostics.toList, List.nil_append, List.mem_flatMap,
      ClassTable.unresolved, List.mem_map] at hentry
    obtain ⟨decl, -, reference, -, rfl⟩ := hentry
    rfl
  · cases hentry

theorem refers_build :
    (build decls diagnostics report).1.Refers names source target
      ↔ (tableOf decls).Refers names source target := by
  unfold Refers ClassTable.Refers
  simp only [nodes_build, Option.map_eq_some_iff]
  constructor
  · rintro ⟨_, _, ⟨decl, hdecl, rfl⟩, ⟨other, hother, rfl⟩, hname⟩
    exact ⟨decl, other, hdecl, hother, hname⟩
  · rintro ⟨decl, other, hdecl, hother, hname⟩
    exact ⟨_, _, ⟨decl, hdecl, rfl⟩, ⟨other, hother, rfl⟩, hname⟩

/-- **Building.** The links of the graph of classes with distinct names are their references. -/
theorem linked_build (h : (decls.map (·.name)).Nodup) :
    (build decls diagnostics report).1.Linked := by
  have htable := distinct_tableOf h
  have hlinks : ∀ ⦃id : NodeId⦄ ⦃decl : ClassDecl⦄, (tableOf decls)[id]? = some decl →
      (Node.ofLinks ((tableOf decls).map (tableOf decls).links) id decl).links
        = (tableOf decls).links decl := by
    intro id decl hdecl
    rw [Node.links_ofLinks, Array.getElem?_map, hdecl, Option.map_some, Option.getD_some]
  -- Every node is made from a class of the table, whose references are those of the node.
  have hnode : ∀ ⦃id : NodeId⦄ ⦃node : Node⦄,
      (build decls diagnostics report).1.nodes[id]? = some node →
      ∃ decl, (tableOf decls)[id]? = some decl
        ∧ Node.ofLinks ((tableOf decls).map (tableOf decls).links) id decl = node := by
    intro id node hid
    rwa [nodes_build, Option.map_eq_some_iff] at hid
  constructor
  case distinct =>
    intro id other node sibling hid hother hname
    obtain ⟨decl, hdecl, rfl⟩ := hnode hid
    obtain ⟨decl', hdecl', rfl⟩ := hnode hother
    exact htable hdecl hdecl' hname
  case superclass_iff =>
    intro source node hid target
    obtain ⟨decl, hdecl, rfl⟩ := hnode hid
    rw [hlinks hdecl, Extends, refers_build]
    exact ClassTable.superclass_links_iff htable hdecl
  case interfaces_iff =>
    intro source node hid target
    obtain ⟨decl, hdecl, rfl⟩ := hnode hid
    rw [hlinks hdecl, Implements, refers_build]
    exact ClassTable.mem_interfaces_links_iff htable hdecl
  case annotations_iff =>
    intro source node hid target
    obtain ⟨decl, hdecl, rfl⟩ := hnode hid
    rw [hlinks hdecl, AnnotatedWith, refers_build]
    exact ClassTable.mem_annotations_links_iff htable hdecl
  case subclasses_iff =>
    intro target node hid source
    obtain ⟨decl, hdecl, rfl⟩ := hnode hid
    rw [Extends, refers_build, Node.subclasses_ofLinks]
    refine mem_linkedFrom_iff fun source decl hdecl => ?_
    rw [decide_eq_true_eq]
    exact ClassTable.superclass_links_iff htable hdecl
  case implementors_iff =>
    intro target node hid source
    obtain ⟨decl, hdecl, rfl⟩ := hnode hid
    rw [Implements, refers_build, Node.implementors_ofLinks]
    refine mem_linkedFrom_iff fun source decl hdecl => ?_
    rw [decide_eq_true_eq]
    exact ClassTable.mem_interfaces_links_iff htable hdecl
  case annotated_iff =>
    intro target node hid source
    obtain ⟨decl, hdecl, rfl⟩ := hnode hid
    rw [AnnotatedWith, refers_build, Node.annotated_ofLinks]
    refine mem_linkedFrom_iff fun source decl hdecl => ?_
    rw [decide_eq_true_eq]
    exact ClassTable.mem_annotations_links_iff htable hdecl

/-! ### Nodes and classes -/

/-- Every class has a node. -/
theorem exists_node (hdecl : decl ∈ decls) (diagnostics : Diagnostics) (report : Bool) :
    ∃ (id : NodeId) (node : Node), (build decls diagnostics report).1.nodes[id]? = some node
      ∧ node.decl = decl := by
  obtain ⟨id, hid⟩ := mem_tableOf.mpr hdecl
  refine ⟨id, Node.ofLinks ((tableOf decls).map (tableOf decls).links) id decl, ?_, rfl⟩
  rw [nodes_build, hid, Option.map_some]

theorem mem_of_node (hnode : (build decls diagnostics report).1.nodes[id]? = some node) :
    node.decl ∈ decls := by
  rw [nodes_build, Option.map_eq_some_iff] at hnode
  obtain ⟨decl, hdecl, rfl⟩ := hnode
  exact mem_tableOf.mp ⟨id, hdecl⟩

/-- Every class is found by its name. -/
theorem get?_build (h : (decls.map (·.name)).Nodup) (hdecl : decl ∈ decls) :
    (build decls diagnostics report).1.get? decl.name = some decl := by
  obtain ⟨id, node, hnode, rfl⟩ := exists_node hdecl diagnostics report
  exact (get?_eq_some_iff (linked_build h).distinct).mpr ⟨id, node, hnode, rfl, rfl⟩

theorem declSatisfies_eq (hnode : graph.nodes[id]? = some node) (condition : ClassDecl → Bool) :
    graph.declSatisfies condition id = condition node.decl := by
  rw [declSatisfies, declOf?_eq_some hnode]
  rfl

/-! ### Steps along relations -/

/-- What the node of a reference's source satisfies, said of the reference. -/
theorem exists_node_and_iff {P : Node → Prop} {R : Prop}
    (hiff : ∀ node, graph.nodes[source]? = some node → (P node ↔ R))
    (hnode : R → ∃ node, graph.nodes[source]? = some node) :
    (∃ node, graph.nodes[source]? = some node ∧ P node) ↔ R := by
  constructor
  · rintro ⟨node, hsource, h⟩
    exact (hiff node hsource).mp h
  · intro h
    obtain ⟨node, hsource⟩ := hnode h
    exact ⟨node, hsource, (hiff node hsource).mpr h⟩

theorem leads_stepsFrom {steps : NodeId → Node → List Step} :
    Leads (fun id => graph.stepsFrom (steps id) id) source target
      ↔ ∃ node, graph.nodes[source]? = some node
        ∧ (Step.report target ∈ steps source node ∨ Step.traverse target ∈ steps source node) := by
  rw [leads_iff, mem_stepsFrom, mem_stepsFrom, ← exists_or]
  simp only [and_or_left]

/-! ### Steps along a list -/

/-- The nodes that are reported along a list of each node. -/
theorem report_stepsFrom_list {list : Node → List NodeId} {Rel : NodeId → NodeId → Prop}
    (hlist : ∀ ⦃source : NodeId⦄ ⦃node : Node⦄, graph.nodes[source]? = some node →
      ∀ target, target ∈ list node ↔ Rel source target)
    (hnode : Rel source target → ∃ node, graph.nodes[source]? = some node) :
    Step.report target ∈ graph.stepsFrom (fun node => (list node).map .report) source
      ↔ Rel source target := by
  rw [mem_stepsFrom]
  refine exists_node_and_iff (fun node hsource => ?_) hnode
  rw [report_mem_map_report, hlist hsource]

/-- No node is passed through without a report. -/
theorem leads_stepsFrom_list {list : Node → List NodeId} {Rel : NodeId → NodeId → Prop}
    (hlist : ∀ ⦃source : NodeId⦄ ⦃node : Node⦄, graph.nodes[source]? = some node →
      ∀ target, target ∈ list node ↔ Rel source target)
    (hnode : Rel source target → ∃ node, graph.nodes[source]? = some node) :
    Leads (graph.stepsFrom fun node => (list node).map .report) source target
      ↔ Rel source target := by
  rw [leads_iff, report_stepsFrom_list hlist hnode]
  refine or_iff_left fun htraverse => ?_
  obtain ⟨_, -, htraverse⟩ := mem_stepsFrom.mp htraverse
  exact traverse_not_mem_map_report htraverse

/-! ### Questions along relations -/

/-- A question whose steps follow one relation and report along another. -/
theorem holds_query_of_relations (hdistinct : graph.Distinct) {seed : NodeId}
    (hseed : graph.nodes[seed]? = some node) {steps : NodeId → Node → List Step}
    {Follows Reports : NodeId → NodeId → Prop}
    (hfollows : ∀ source target,
      Leads (fun id => graph.stepsFrom (steps id) id) source target ↔ Follows source target)
    (hreports : ∀ source target,
      Step.report target ∈ graph.stepsFrom (steps source) source ↔ Reports source target)
    (hbound : ∀ source target, Follows source target → target < graph.size) :
    graph.Holds (graph.query node.decl.name steps)
      (fun id => ∃ source, ReflTransGen Follows seed source ∧ Reports source id)
      (Reports seed) := by
  have hname := (idOf?_eq_some_iff hdistinct).mpr ⟨node, hseed, rfl⟩
  have hlt := (Array.getElem?_eq_some_iff.mp hseed).1
  have hbelow : StaysBelow graph.size fun id => graph.stepsFrom (steps id) id :=
    fun source target h => hbound source target ((hfollows source target).mp h)
  exact (holds_query hdistinct hname hlt hbelow).congr
    (fun id => reported_iff hfollows hreports) fun id => hreports seed id

end ClassGraph

end ClassAtlas
