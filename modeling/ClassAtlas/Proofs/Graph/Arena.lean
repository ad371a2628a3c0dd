import ClassAtlas.Proofs.Graph.Hierarchy
import ClassAtlas.Proofs.Graph.Linking

namespace ClassAtlas

/-!
# What the nodes of a graph hold

In a graph of classes with distinct names the links from a node are the references of its class,
and the links to it are the same links read backwards.

* `FirstOccurrences` — a list without its repetitions, in the order of the first occurrences;
* `Node.lists`, `Node.stored` — all that a node holds;
* `ClassGraph.Arena` — what the nodes of a graph hold;
* `ClassGraph.arena_build` — the graph of some classes holds it, in whichever way it is made.
-/

/-! ### First occurrences -/

/-- The nodes of a list, each once, in the order in which they first occur in it. -/
def FirstOccurrences (all first : List NodeId) : Prop :=
  (∀ id, id ∈ first ↔ id ∈ all)
    ∧ first.Pairwise fun id other => all.idxOf id < all.idxOf other

theorem FirstOccurrences.concat {all first : List NodeId} (h : FirstOccurrences all first)
    (id : NodeId) : FirstOccurrences (all ++ [id]) (pushUnique first id) := by
  obtain ⟨hmem, hpairwise⟩ := h
  have hindex : ∀ known ∈ all, (all ++ [id]).idxOf known = all.idxOf known := fun known hknown =>
    List.idxOf_append_of_mem hknown
  have hbefore : first.Pairwise fun id' other =>
      (all ++ [id]).idxOf id' < (all ++ [id]).idxOf other := by
    refine hpairwise.imp_of_mem fun hid hother hlt => ?_
    rw [hindex _ ((hmem _).mp hid), hindex _ ((hmem _).mp hother)]
    exact hlt
  refine ⟨fun other => ?_, ?_⟩
  · rw [mem_pushUnique, hmem, List.mem_append, List.mem_singleton]
  · by_cases hknown : id ∈ first
    · rwa [pushUnique_of_mem hknown]
    · -- What is new comes behind all that was there.
      rw [pushUnique_of_notMem hknown]
      refine List.pairwise_append.mpr ⟨hbefore, List.pairwise_singleton .., ?_⟩
      intro known hfirst other hother
      have hall := (hmem known).mp hfirst
      have hlast : id ∉ all := fun h => hknown ((hmem id).mpr h)
      rw [List.mem_singleton.mp hother, hindex known hall, List.idxOf_append_of_notMem hlast]
      exact Nat.lt_add_right _ (List.idxOf_lt_length_iff.mpr hall)

theorem firstOccurrences_eraseDups (all : List NodeId) : FirstOccurrences all all.eraseDups := by
  induction all using List.reverseRecOn with
  | nil => exact ⟨fun id => Iff.rfl, List.Pairwise.nil⟩
  | append_singleton all id ih =>
    rw [eraseDups_concat]
    exact ih.concat id

/-! ### Nodes -/

/-- The lists of a node. -/
def Node.lists (node : Node) : List (List NodeId) :=
  [node.links.interfaces, node.links.annotations, node.links.inner, node.links.dependencies,
    node.links.onMethods, node.links.onFields, node.inner, node.subclasses, node.implementors,
    node.annotated, node.methodAnnotated, node.fieldAnnotated]

/-- All nodes that a node holds. -/
def Node.stored (node : Node) : List NodeId :=
  node.links.superclass.toList ++ node.links.outer.toList ++ node.lists.flatten

variable {table : ClassTable} {decl other : ClassDecl} {id source : NodeId}

/-- A list of nodes of a table, none of them twice. -/
structure ClassTable.Lists (table : ClassTable) (list : List NodeId) : Prop where
  nodup : list.Nodup
  lt_size : ∀ id ∈ list, id < table.size

theorem ClassTable.lt_size_of_idOf? {name : String} (h : table.idOf? name = some id) :
    id < table.size := by
  have hmem := List.mem_of_find?_eq_some h
  rw [List.mem_reverse, List.mem_range] at hmem
  exact hmem

theorem ClassTable.lt_size_of_mem_bind {name : Option String}
    (h : id ∈ (name.bind table.idOf?).toList) : id < table.size := by
  rw [Option.mem_toList, Option.bind_eq_some_iff] at h
  obtain ⟨name, -, hid⟩ := h
  exact lt_size_of_idOf? hid

theorem ClassTable.lists_resolve (table : ClassTable) (names : List String) :
    table.Lists (table.resolve names) where
  nodup := nodup_eraseDups _
  lt_size id hid := by
    rw [resolve, List.mem_eraseDups, List.mem_filterMap] at hid
    obtain ⟨name, -, hid⟩ := hid
    exact lt_size_of_idOf? hid

theorem ClassTable.lists_linkedFrom (table : ClassTable) (condition : Links → Bool) :
    table.Lists (linkedFrom (table.map table.links) condition) where
  nodup := List.nodup_range.filter _
  lt_size id hid := by
    rw [linkedFrom, List.mem_filter, List.mem_range, Array.size_map] at hid
    exact hid.1

theorem mem_inner_ofLinks {links : Array Links} :
    source ∈ (Node.ofLinks links id decl).inner
      ↔ source ∈ linkedFrom links (·.outer = some id)
        ∨ source ∈ (links[id]?.getD Links.none).inner := by
  show source ∈ List.eraseDups _ ↔ _
  rw [List.mem_eraseDups, List.mem_append, List.mem_append, List.mem_filter, List.mem_filter,
    decide_eq_true_eq, decide_eq_true_eq]
  have htotal : source ≤ id ∨ id < source := Nat.lt_or_ge id source |>.symm
  tauto

theorem Node.methodAnnotated_ofLinks (links : Array Links) (id : NodeId) (decl : ClassDecl) :
    (Node.ofLinks links id decl).methodAnnotated = linkedFrom links (id ∈ ·.onMethods) := rfl

theorem Node.fieldAnnotated_ofLinks (links : Array Links) (id : NodeId) (decl : ClassDecl) :
    (Node.ofLinks links id decl).fieldAnnotated = linkedFrom links (id ∈ ·.onFields) := rfl

theorem links_ofLinks_of_getElem? (hdecl : table[id]? = some decl) :
    (Node.ofLinks (table.map table.links) id decl).links = table.links decl := by
  rw [Node.links_ofLinks, Array.getElem?_map, hdecl]
  rfl

theorem lists_ofLinks (hdecl : table[id]? = some decl) :
    ∀ list ∈ (Node.ofLinks (table.map table.links) id decl).lists, table.Lists list := by
  have hinner : table.Lists (Node.ofLinks (table.map table.links) id decl).inner := by
    refine ⟨nodup_eraseDups _, fun source hsource => ?_⟩
    rw [mem_inner_ofLinks, ← Node.links_ofLinks, links_ofLinks_of_getElem? hdecl] at hsource
    obtain hmember | hlisted := hsource
    · exact (table.lists_linkedFrom _).lt_size source hmember
    · exact (table.lists_resolve _).lt_size source hlisted
  rw [Node.lists, links_ofLinks_of_getElem? hdecl, Node.subclasses_ofLinks,
    Node.implementors_ofLinks, Node.annotated_ofLinks, Node.methodAnnotated_ofLinks,
    Node.fieldAnnotated_ofLinks]
  simp only [List.forall_mem_cons]
  -- First what the class refers to, then what refers to it.
  refine ⟨table.lists_resolve _, table.lists_resolve _, table.lists_resolve _,
    table.lists_resolve _, table.lists_resolve _, table.lists_resolve _, hinner,
    table.lists_linkedFrom _, table.lists_linkedFrom _, table.lists_linkedFrom _,
    table.lists_linkedFrom _, table.lists_linkedFrom _,
    fun _ hnone => absurd hnone List.not_mem_nil⟩

theorem lt_size_of_mem_stored_ofLinks (hdecl : table[id]? = some decl) {target : NodeId}
    (htarget : target ∈ (Node.ofLinks (table.map table.links) id decl).stored) :
    target < table.size := by
  rw [Node.stored, links_ofLinks_of_getElem? hdecl, List.mem_append, List.mem_append,
    List.mem_flatten] at htarget
  obtain (hsuperclass | houter) | ⟨list, hlist, hmem⟩ := htarget
  · exact ClassTable.lt_size_of_mem_bind hsuperclass
  · exact ClassTable.lt_size_of_mem_bind houter
  · exact (lists_ofLinks hdecl list hlist).lt_size target hmem

/-- A link leads from a node if the links of its class satisfy the condition. -/
theorem mem_linkedFrom_of_getElem? (hother : table[source]? = some other)
    (condition : Links → Bool) :
    source ∈ linkedFrom (table.map table.links) condition
      ↔ condition (table.links other) = true := by
  rw [mem_linkedFrom, hother]
  exact ⟨fun ⟨_, heq, h⟩ => Option.some.inj heq ▸ h, fun h => ⟨other, rfl, h⟩⟩

theorem mem_resolve_iff_name_mem (hdistinct : table.Distinct) (hdecl : table[id]? = some decl)
    (names : List String) : id ∈ table.resolve names ↔ decl.name ∈ names := by
  rw [ClassTable.resolve, List.mem_eraseDups, List.mem_filterMap]
  constructor
  · rintro ⟨name, hname, hid⟩
    obtain ⟨found, hfound, rfl⟩ := (ClassTable.idOf?_eq_some_iff hdistinct).mp hid
    obtain rfl : decl = found := Option.some.inj (hdecl.symm.trans hfound)
    exact hname
  · intro hname
    exact ⟨decl.name, hname, (ClassTable.idOf?_eq_some_iff hdistinct).mpr ⟨decl, hdecl, rfl⟩⟩

/-! ### Graphs -/

/-- What a node of a graph holds are the references of its class, as far as they are in the
    graph. -/
structure Node.Resolved (graph : ClassGraph) (node : Node) : Prop where
  superclass_eq : node.links.superclass = node.decl.superclass.bind graph.idOf?
  outer_eq : node.links.outer = node.decl.outerClass.bind graph.idOf?
  interfaces_eq :
    FirstOccurrences (node.decl.interfaces.filterMap graph.idOf?) node.links.interfaces
  annotations_eq :
    FirstOccurrences (node.decl.annotations.filterMap fun note => graph.idOf? note.name)
      node.links.annotations
  dependencies_eq :
    FirstOccurrences (node.decl.referenced.filterMap graph.idOf?) node.links.dependencies
  /-- All of them are nodes of the graph. -/
  stored_lt : ∀ target ∈ node.stored, target < graph.size
  /-- None of them is listed twice. -/
  lists_nodup : ∀ list ∈ node.lists, list.Nodup

/-- What the node `node` at the place `i` holds about the node `other` at the place `j`: the links
    of that node, and the annotations of its members, read backwards. -/
structure Node.ReadsBack (i j : NodeId) (node other : Node) : Prop where
  subclasses_iff : j ∈ node.subclasses ↔ other.links.superclass = some i
  implementors_iff : j ∈ node.implementors ↔ i ∈ other.links.interfaces
  annotated_iff : j ∈ node.annotated ↔ i ∈ other.links.annotations
  methodAnnotated_iff : j ∈ node.methodAnnotated
    ↔ ∃ method ∈ other.decl.methods, ∃ note ∈ method.annotations, note.name = node.decl.name
  fieldAnnotated_iff : j ∈ node.fieldAnnotated
    ↔ ∃ field ∈ other.decl.fields, ∃ note ∈ field.annotations, note.name = node.decl.name
  /-- Member classes are told by either of the two. -/
  inner_iff : j ∈ node.inner
    ↔ other.decl.name ∈ node.decl.innerClasses ∨ other.links.outer = some i

namespace ClassGraph

/-- What a graph of some classes holds. -/
structure Arena (graph : ClassGraph) (decls : List ClassDecl) : Prop where
  /-- Each class has one node. -/
  decls_perm : graph.decls.Perm decls
  /-- The names of the classes are the names that lead to a node. -/
  contains_iff : ∀ name, graph.contains name = true ↔ name ∈ decls.map (·.name)
  /-- They lead to the node of the class that has the name. -/
  idOf?_iff : ∀ name (id : NodeId),
    graph.idOf? name = some id ↔ ∃ node, graph.nodes[id]? = some node ∧ node.decl.name = name
  resolved : ∀ ⦃id : NodeId⦄ ⦃node⦄, graph.nodes[id]? = some node → node.Resolved graph
  readsBack : ∀ ⦃i j : NodeId⦄ ⦃node other⦄, graph.nodes[i]? = some node →
    graph.nodes[j]? = some other → node.ReadsBack i j other

variable {decls : List ClassDecl} {diagnostics : Diagnostics} {report : Bool}

theorem idOf?_build (name : String) :
    (build decls diagnostics report).1.idOf? name = (tableOf decls).idOf? name := by
  have htable : (build decls diagnostics report).1.nodes.map (·.decl) = tableOf decls := by
    refine Array.ext_getElem? fun id => ?_
    rw [Array.getElem?_map, nodes_build, Option.map_map]
    exact Option.map_id' ..
  rw [idOf?, htable]

theorem size_build : (build decls diagnostics report).1.size = (tableOf decls).size := by
  show Array.size (Array.mapIdx _ _) = _
  rw [Array.size_mapIdx]
  rfl

theorem resolved_build {id : NodeId} {node : Node}
    (hnode : (build decls diagnostics report).1.nodes[id]? = some node) :
    node.Resolved (build decls diagnostics report).1 := by
  have hids : (build decls diagnostics report).1.idOf? = (tableOf decls).idOf? :=
    funext idOf?_build
  rw [nodes_build, Option.map_eq_some_iff] at hnode
  obtain ⟨decl, hdecl, rfl⟩ := hnode
  have hlinks := links_ofLinks_of_getElem? hdecl
  constructor
  case superclass_eq => rw [hlinks, hids]; rfl
  case outer_eq => rw [hlinks, hids]; rfl
  case interfaces_eq =>
    rw [hlinks, hids]
    exact firstOccurrences_eraseDups _
  case annotations_eq =>
    rw [hlinks, hids]
    have hnames := firstOccurrences_eraseDups
      ((decl.annotations.map (·.name)).filterMap (tableOf decls).idOf?)
    rw [List.filterMap_map] at hnames
    show FirstOccurrences _ ((decl.annotations.map (·.name)).filterMap _).eraseDups
    rw [List.filterMap_map]
    exact hnames
  case dependencies_eq =>
    rw [hlinks, hids]
    exact firstOccurrences_eraseDups _
  case stored_lt =>
    intro target htarget
    rw [size_build]
    exact lt_size_of_mem_stored_ofLinks hdecl htarget
  case lists_nodup =>
    intro list hlist
    exact (lists_ofLinks hdecl list hlist).nodup

theorem readsBack_build (hdistinct : (decls.map (·.name)).Nodup) {i j : NodeId}
    {node other : Node} (hnode : (build decls diagnostics report).1.nodes[i]? = some node)
    (hother : (build decls diagnostics report).1.nodes[j]? = some other) :
    node.ReadsBack i j other := by
  have htable := distinct_tableOf hdistinct
  rw [nodes_build, Option.map_eq_some_iff] at hnode hother
  obtain ⟨decl, hdecl, rfl⟩ := hnode
  obtain ⟨sibling, hsibling, rfl⟩ := hother
  have hlinks := links_ofLinks_of_getElem? hsibling
  constructor
  case subclasses_iff =>
    rw [hlinks, Node.subclasses_ofLinks, mem_linkedFrom_of_getElem? hsibling, decide_eq_true_eq]
  case implementors_iff =>
    rw [hlinks, Node.implementors_ofLinks, mem_linkedFrom_of_getElem? hsibling, decide_eq_true_eq]
  case annotated_iff =>
    rw [hlinks, Node.annotated_ofLinks, mem_linkedFrom_of_getElem? hsibling, decide_eq_true_eq]
  case methodAnnotated_iff =>
    rw [Node.methodAnnotated_ofLinks, mem_linkedFrom_of_getElem? hsibling, decide_eq_true_eq]
    have hresolve := mem_resolve_iff_name_mem htable hdecl
      (sibling.methods.flatMap fun method => method.annotations.map (·.name))
    simp only [List.mem_flatMap, List.mem_map] at hresolve
    exact hresolve
  case fieldAnnotated_iff =>
    rw [Node.fieldAnnotated_ofLinks, mem_linkedFrom_of_getElem? hsibling, decide_eq_true_eq]
    have hresolve := mem_resolve_iff_name_mem htable hdecl
      (sibling.fields.flatMap fun field => field.annotations.map (·.name))
    simp only [List.mem_flatMap, List.mem_map] at hresolve
    exact hresolve
  case inner_iff =>
    have hlisted := mem_resolve_iff_name_mem htable hsibling decl.innerClasses
    rw [mem_inner_ofLinks, mem_linkedFrom_of_getElem? hsibling, decide_eq_true_eq, hlinks,
      ← Node.links_ofLinks _ _ decl, links_ofLinks_of_getElem? hdecl, or_comm]
    exact or_congr_left hlisted

/-- **Arena.** The graph of classes with distinct names holds their references in both directions,
    and linking the nodes one by one makes this graph. -/
theorem arena_build (hdistinct : (decls.map (·.name)).Nodup) (diagnostics : Diagnostics)
    (report : Bool) :
    (build decls diagnostics report).1.Arena decls
      ∧ assemble decls diagnostics report = build decls diagnostics report := by
  have hlinked : (build decls diagnostics report).1.Linked := linked_build hdistinct
  refine ⟨⟨?perm, fun name => ?contains, fun name id => idOf?_eq_some_iff hlinked.distinct,
    fun _ _ => resolved_build, fun _ _ _ _ => readsBack_build hdistinct⟩,
    assemble_eq_build decls diagnostics report⟩
  case perm =>
    rw [decls_build]
    exact List.mergeSort_perm decls graphBefore
  case contains =>
    rw [contains, Option.isSome_iff_exists, List.mem_map]
    simp only [idOf?_eq_some_iff hlinked.distinct]
    constructor
    · rintro ⟨id, node, hnode, rfl⟩
      exact ⟨node.decl, mem_of_node hnode, rfl⟩
    · rintro ⟨decl, hdecl, rfl⟩
      obtain ⟨id, node, hnode, rfl⟩ := exists_node hdecl diagnostics report
      exact ⟨id, node, hnode, rfl⟩

/-- Two classes that are each other's superclass, the first of which is its own outer class and a
    member class that it lists twice, and an annotation type that is on itself and on the second. -/
theorem arena_build_cycle :
    let base : ClassDecl :=
      { ClassDecl.outline "a.Base" .ordinary (some "a.Sub") [] ["a.Missing"] with
        outerClass := some "a.Base"
        innerClasses := ["a.Base", "a.Sub", "a.Base"] }
    let sub := ClassDecl.outline "a.Sub" .ordinary (some "a.Base") [] ["a.Note", "a.Note"]
    let note := ClassDecl.outline "a.Note" .annotationType none [] ["a.Note"]
    (build [base, sub, note] .empty true).1.Arena [base, sub, note]
      ∧ assemble [base, sub, note] .empty true = build [base, sub, note] .empty true := by
  intro base sub note
  have hdistinct : ([base, sub, note].map (·.name)).Nodup := by decide
  exact arena_build hdistinct .empty true

end ClassGraph

end ClassAtlas
