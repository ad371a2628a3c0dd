import ClassAtlas.Proofs.Graph.Links
import Mathlib.Data.List.Permutation

namespace ClassAtlas

open Relation

/-!
# Interfaces and implementors

The interfaces of a class and the implementors of an interface are found by separate searches, one
along the references and one against them.  Where superclasses are classes, the two agree.

* `WellKinded` — interfaces have no superclass and are none;
* `ClassGraph.Supertype` — one class is the superclass or a listed interface of the other;
* `ClassGraph.holds_interfaces`, `ClassGraph.holds_implementors` — the two questions, answered by
  chains of supertypes;
* `contains_implementors_iff` — they are converse to each other.
-/

/-- Classes as they are declared: names are distinct, interfaces have no superclass, and no class
    has an interface as its superclass. -/
structure WellKinded (decls : List ClassDecl) : Prop where
  /-- No two classes have the same name. -/
  distinct : (decls.map (·.name)).Nodup
  /-- Interfaces have no superclass. -/
  superclass_of_interface : ∀ decl ∈ decls, decl.isInterface = true → decl.superclass = none
  /-- Superclasses that are there are not interfaces. -/
  superclass_ordinary : ∀ decl ∈ decls, ∀ other ∈ decls, decl.superclass = some other.name →
    other.isInterface = false

namespace ClassGraph

variable {graph : ClassGraph} {id seed source target : NodeId} {node : Node}

/-! ### Kinds -/

/-- Only classes that are not interfaces have or are superclasses. -/
def ExtendsOrdinary (graph : ClassGraph) : Prop :=
  ∀ ⦃source target⦄, graph.Extends source target →
    graph.declSatisfies (·.isInterface) source = false
      ∧ graph.declSatisfies (·.isInterface) target = false

theorem extendsOrdinary_build {decls : List ClassDecl} (h : WellKinded decls)
    (diagnostics : Diagnostics) (report : Bool) :
    (build decls diagnostics report).1.ExtendsOrdinary := by
  intro source target hextends
  obtain ⟨node, other, hnode, hother, hname⟩ := hextends
  rw [Option.mem_toList] at hname
  have hmem := mem_of_node hnode
  rw [declSatisfies_eq hnode, declSatisfies_eq hother]
  refine ⟨?_, h.superclass_ordinary _ hmem _ (mem_of_node hother) hname⟩
  -- An interface that extends would have the superclass it must not have.
  by_contra hinterface
  rw [Bool.not_eq_false] at hinterface
  rw [h.superclass_of_interface _ hmem hinterface] at hname
  cases hname

/-! ### Chains of supertypes -/

/-- One class is the superclass or a listed interface of the other. -/
def Supertype (graph : ClassGraph) (source target : NodeId) : Prop :=
  graph.Extends source target ∨ graph.Implements source target

theorem Supertype.exists_nodes (h : graph.Supertype source target) :
    (∃ node, graph.nodes[source]? = some node) ∧ ∃ node, graph.nodes[target]? = some node :=
  h.elim Refers.exists_nodes Refers.exists_nodes

theorem Supertype.lt_size (h : graph.Supertype source target) :
    source < graph.size ∧ target < graph.size :=
  h.elim Refers.lt_size Refers.lt_size

/-! ### Interfaces -/

/-- The steps to the interfaces of a class. -/
def stepsToInterfaces (_ : NodeId) (node : Node) : List Step :=
  node.links.interfaces.map .report ++ node.links.superclass.toList.map .traverse

theorem leads_stepsToInterfaces (hlinked : graph.Linked) :
    Leads (fun id => graph.stepsFrom (stepsToInterfaces id) id) source target
      ↔ graph.Supertype source target := by
  rw [leads_stepsFrom]
  refine exists_node_and_iff (fun node hnode => ?_) fun h => h.exists_nodes.1
  rw [Supertype, ← hlinked.interfaces_iff hnode, ← hlinked.superclass_iff hnode]
  simp [stepsToInterfaces, or_comm]

theorem report_stepsToInterfaces (hlinked : graph.Linked) :
    Step.report target ∈ graph.stepsFrom (stepsToInterfaces source) source
      ↔ graph.Implements source target := by
  rw [mem_stepsFrom]
  refine exists_node_and_iff (fun node hnode => ?_) fun h => h.exists_nodes.1
  rw [stepsToInterfaces, List.mem_append, report_mem_map_report, hlinked.interfaces_iff hnode]
  exact or_iff_left report_not_mem_map_traverse

/-- The interfaces of a class end the chains of supertypes that an interface listing ends. -/
theorem holds_interfaces (hlinked : graph.Linked) (hseed : graph.nodes[seed]? = some node) :
    graph.Holds (graph.interfaces node.decl.name)
      (fun id => ∃ source, ReflTransGen graph.Supertype seed source ∧ graph.Implements source id)
      (graph.Implements seed) :=
  holds_query_of_relations hlinked.distinct hseed (fun _ _ => leads_stepsToInterfaces hlinked)
    (fun _ _ => report_stepsToInterfaces hlinked) fun _ _ h => h.lt_size.2

/-! ### Implementors -/

/-- The steps to the implementors of an interface. -/
def stepsToImplementors (graph : ClassGraph) (_ : NodeId) (node : Node) : List Step :=
  node.implementors.map (fun id => ⟨id, !graph.declSatisfies (·.isInterface) id⟩)
    ++ node.subclasses.map .report

theorem leads_stepsToImplementors (hlinked : graph.Linked) :
    Leads (fun id => graph.stepsFrom (graph.stepsToImplementors id) id) target source
      ↔ graph.Supertype source target := by
  rw [leads_stepsFrom]
  refine exists_node_and_iff (fun node hnode => ?_) fun h => h.exists_nodes.2
  rw [Supertype, ← hlinked.implementors_iff hnode, ← hlinked.subclasses_iff hnode]
  cases hkind : graph.declSatisfies (·.isInterface) source <;>
    simp [stepsToImplementors, Step.report, Step.traverse, hkind, or_comm]

/-- Subclasses are reported without a look at their kind, which is that of classes. -/
theorem report_stepsToImplementors (hlinked : graph.Linked) (hordinary : graph.ExtendsOrdinary) :
    Step.report source ∈ graph.stepsFrom (graph.stepsToImplementors target) target
      ↔ graph.declSatisfies (·.isInterface) source = false ∧ graph.Supertype source target := by
  rw [mem_stepsFrom]
  refine exists_node_and_iff (fun node hnode => ?_) fun h => h.2.exists_nodes.2
  -- Among the listed ones, only classes are reported; interfaces are passed through.
  have hlisted : Step.report source
      ∈ node.implementors.map (fun id => ⟨id, !graph.declSatisfies (·.isInterface) id⟩)
        ↔ graph.declSatisfies (·.isInterface) source = false ∧ graph.Implements source target := by
    rw [← hlinked.implementors_iff hnode]
    simp [Step.report, and_comm]
  rw [stepsToImplementors, List.mem_append, report_mem_map_report, hlinked.subclasses_iff hnode,
    hlisted, Supertype]
  constructor
  · rintro (⟨hkind, himplements⟩ | hextends)
    · exact ⟨hkind, .inr himplements⟩
    · exact ⟨(hordinary hextends).1, .inl hextends⟩
  · rintro ⟨hkind, hextends | himplements⟩
    · exact .inr hextends
    · exact .inl ⟨hkind, himplements⟩

/-- The implementors of an interface are the classes that begin a chain of supertypes to it. -/
theorem holds_implementors (hlinked : graph.Linked) (hordinary : graph.ExtendsOrdinary)
    (hseed : graph.nodes[seed]? = some node) :
    graph.Holds (graph.implementors node.decl.name)
      (fun id => graph.declSatisfies (·.isInterface) id = false
        ∧ TransGen graph.Supertype id seed)
      (fun id => graph.declSatisfies (·.isInterface) id = false ∧ graph.Supertype id seed) := by
  refine (holds_query_of_relations hlinked.distinct hseed
    (fun _ _ => leads_stepsToImplementors hlinked)
    (fun _ _ => report_stepsToImplementors hlinked hordinary) fun _ _ h => h.lt_size.1).congr
      (fun id => ?_) fun id => Iff.rfl
  rw [TransGen.head'_iff]
  constructor
  · rintro ⟨source, hreach, hkind, hstep⟩
    exact ⟨hkind, source, hstep, reflTransGen_swap.mp hreach⟩
  · rintro ⟨hkind, source, hstep, hreach⟩
    exact ⟨source, reflTransGen_swap.mpr hreach, hkind, hstep⟩

/-! ### The converse -/

/-- Only by being listed an interface is a supertype. -/
theorem ExtendsOrdinary.implements_of_supertype (h : graph.ExtendsOrdinary)
    (hinterface : graph.declSatisfies (·.isInterface) target = true)
    (hstep : graph.Supertype source target) : graph.Implements source target := by
  rcases hstep with hextends | himplements
  · rw [(h hextends).2] at hinterface
    cases hinterface
  · exact himplements

end ClassGraph

/-- **Implementors.** A class is among the implementors of an interface iff it is not an interface
    itself and the interface is among its interfaces, and then both sets mark it alike. -/
theorem contains_implementors_iff {decls : List ClassDecl} (hkinds : WellKinded decls)
    (diagnostics : Diagnostics) (report : Bool) (interface decl : ClassDecl)
    (hinterface : interface ∈ decls) (hkind : interface.isInterface = true)
    (hdecl : decl ∈ decls) :
    let graph := (ClassGraph.build decls diagnostics report).1
    ((graph.implementors interface.name).contains decl.name = true
        ↔ decl.isInterface = false
          ∧ (graph.interfaces decl.name).contains interface.name = true)
      ∧ ((graph.implementors interface.name).contains decl.name = true →
        (graph.implementors interface.name).isDirect? decl.name
          = (graph.interfaces decl.name).isDirect? interface.name) := by
  intro graph
  have hlinked : graph.Linked := ClassGraph.linked_build hkinds.distinct
  have hordinary : graph.ExtendsOrdinary :=
    ClassGraph.extendsOrdinary_build hkinds diagnostics report
  obtain ⟨target, node, hnode, rfl⟩ := ClassGraph.exists_node hinterface diagnostics report
  obtain ⟨source, other, hother, rfl⟩ := ClassGraph.exists_node hdecl diagnostics report
  have himplementors := ClassGraph.holds_implementors hlinked hordinary hnode
  have hinterfaces := ClassGraph.holds_interfaces hlinked hother
  have htarget : graph.declSatisfies (·.isInterface) target = true :=
    (ClassGraph.declSatisfies_eq hnode _).trans hkind
  -- A chain that ends at an interface ends with a listing, which is what both searches look for.
  have hchain : TransGen graph.Supertype source target
      ↔ ∃ last, ReflTransGen graph.Supertype source last ∧ graph.Implements last target := by
    rw [TransGen.tail'_iff]
    constructor
    · rintro ⟨last, hreach, hstep⟩
      exact ⟨last, hreach, hordinary.implements_of_supertype htarget hstep⟩
    · rintro ⟨last, hreach, himplements⟩
      exact ⟨last, hreach, .inr himplements⟩
  refine ⟨?_, fun hcontains => ?_⟩
  · rw [himplementors.contains_iff hother, hinterfaces.contains_iff hnode, hchain,
      ClassGraph.declSatisfies_eq hother]
  · have hrelated := (himplementors.contains_iff hother).mp hcontains
    refine himplementors.isDirect?_eq hinterfaces hother hnode hrelated
      (hchain.mp hrelated.2) ⟨fun h => ?_, fun h => ⟨hrelated.1, .inr h⟩⟩
    exact hordinary.implements_of_supertype htarget h.2

/-- A class of which only the references to other classes matter. -/
def ClassDecl.outline (name : String) (kind : ClassKind) (superclass : Option String)
    (interfaces annotations : List String) : ClassDecl where
  name := name
  kind := kind
  modifiers := ⟨0⟩
  version := ⟨0, 0⟩
  superclass := superclass
  interfaces := interfaces
  signature := none
  annotations := annotations.map (⟨·, []⟩)
  outerClass := none
  innerClasses := []
  enclosingMethod := none
  sourceFile := none
  fields := []
  methods := []
  referenced := []
  origin := ⟨"", 0⟩

/-- Two interfaces, one listing the other, and two classes that are each other's superclass, one of
    which lists the interface below.  Both classes have the interface above; the interface below is
    not reported as an implementor of it. -/
theorem contains_implementors_iff_subinterface :
    let root := ClassDecl.outline "a.Root" .interface none [] []
    let child := ClassDecl.outline "a.Child" .interface none ["a.Root"] []
    let base := ClassDecl.outline "a.Base" .ordinary (some "a.Sub") ["a.Child"] []
    let sub := ClassDecl.outline "a.Sub" .ordinary (some "a.Base") [] []
    let graph := (ClassGraph.build [root, child, base, sub] .empty false).1
    (graph.implementors "a.Root").contains "a.Child" = false
      ∧ ((graph.implementors "a.Root").contains "a.Sub" = true
        ↔ (graph.interfaces "a.Sub").contains "a.Root" = true)
      ∧ (graph.implementors "a.Root").names = ["a.Base", "a.Sub"]
      ∧ (graph.interfaces "a.Sub").contains "a.Root" = true
      ∧ (graph.implementors "a.Root").isDirect? "a.Sub"
        = (graph.interfaces "a.Sub").isDirect? "a.Root" := by
  intro root child base sub graph
  have hkinds : WellKinded [root, child, base, sub] := ⟨by decide, by decide, by decide⟩
  have hroot : root ∈ [root, child, base, sub] := List.mem_cons_self ..
  have hchild := contains_implementors_iff hkinds .empty false root child hroot rfl (by simp)
  obtain ⟨hsub, hmarks⟩ :=
    contains_implementors_iff hkinds .empty false root sub hroot rfl (by simp)
  have hfound : (graph.implementors "a.Root").names = ["a.Base", "a.Sub"] := by cbv
  have himplements : (graph.implementors "a.Root").contains "a.Sub" = true := by cbv
  refine ⟨?_, hsub.trans (and_iff_right rfl), hfound, (hsub.mp himplements).2, hmarks himplements⟩
  by_contra hcontains
  rw [Bool.not_eq_false] at hcontains
  cases (hchild.1.mp hcontains).1

end ClassAtlas
