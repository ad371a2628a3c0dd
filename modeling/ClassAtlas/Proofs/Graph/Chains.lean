import ClassAtlas.Proofs.Graph.Converse
import ClassAtlas.Proofs.Graph.Growth
import ClassAtlas.Proofs.Graph.Search

namespace ClassAtlas

open Relation

/-!
# Chains of single references

A class has one superclass and one outer class, so what a question finds along such a reference is a
chain.  It may end, come back to its start, or run into a cycle that avoids the start.  The answer
follows it to its first repetition in each of these cases.

* `chain`, `Unrepeated` — a chain, and how much of it has no repetition;
* `closure_eq_chain` — the closure along single references is the longest such part of the chain;
* `ClassGraph.members_query` — in a graph with distinct names an answer has all that is found;
* `FollowsChain` — a set that follows a chain to its first repetition;
* `chains_build` — superclasses and outer classes do.
-/

/-! ### Chains -/

section Chain

variable {β γ : Type} {next : β → Option β} {start member : β} {count length : Nat}

/-- What so many references in a row lead to, as far as they lead anywhere. -/
def chain (next : β → Option β) (start : β) : Nat → Option β
  | 0 => some start
  | count + 1 => (chain next start count).bind next

/-- So many members of a chain are there behind its start, and no two of them are the same. -/
structure Unrepeated (next : β → Option β) (start : β) (length : Nat) : Prop where
  isSome : ∀ place < length, (chain next start (place + 1)).isSome
  injective : ∀ place < length, ∀ other < length,
    chain next start (place + 1) = chain next start (other + 1) → place = other

theorem unrepeated_zero (next : β → Option β) (start : β) : Unrepeated next start 0 where
  isSome := by simp
  injective := by simp

/-- One member more, if it is there and was not met before. -/
theorem Unrepeated.succ (h : Unrepeated next start length)
    (hmember : chain next start (length + 1) = some member)
    (hnew : ∀ place < length, chain next start (place + 1) ≠ some member) :
    Unrepeated next start (length + 1) where
  isSome := by
    intro place hplace
    obtain hold | rfl : place < length ∨ place = length := by omega
    · exact h.isSome place hold
    · exact Option.isSome_of_eq_some hmember
  injective := by
    intro place hplace other hother heq
    obtain hold | rfl : place < length ∨ place = length := by omega
    · obtain hold' | hlast : other < length ∨ other = length := by omega
      · exact h.injective place hold other hold' heq
      · rw [hlast] at heq
        exact absurd (heq.trans hmember) (hnew place hold)
    · obtain hold' | hlast : other < place ∨ other = place := by omega
      · exact absurd (heq.symm.trans hmember) (hnew other hold')
      · exact hlast.symm

/-- Where the longest part without a repetition ends, the chain ends or goes on with a member of
    this part. -/
theorem exists_place_of_isGreatest
    (h : IsGreatest {length | Unrepeated next start length} length)
    (hmember : chain next start (length + 1) = some member) :
    ∃ place < length, chain next start (place + 1) = some member := by
  by_contra hnew
  have hlonger := h.1.succ hmember fun place hplace heq => hnew ⟨place, hplace, heq⟩
  exact absurd (h.2 hlonger) (Nat.not_succ_le_self length)

/-- So every member of the chain is in that part. -/
theorem mem_chain_iff (h : IsGreatest {length | Unrepeated next start length} length) :
    (∃ count, chain next start (count + 1) = some member)
      ↔ ∃ place < length, chain next start (place + 1) = some member := by
  refine ⟨?_, fun ⟨place, _, hmember⟩ => ⟨place, hmember⟩⟩
  rintro ⟨count, hmember⟩
  induction count generalizing member with
  | zero =>
    by_cases hlength : 0 < length
    · exact ⟨0, hlength, hmember⟩
    · obtain rfl : length = 0 := by omega
      exact exists_place_of_isGreatest h hmember
  | succ count ih =>
    obtain ⟨before, hbefore, hnext⟩ := Option.bind_eq_some_iff.mp hmember
    obtain ⟨place, hplace, heq⟩ := ih hbefore
    -- What follows the earlier occurrence of the member before is the same one.
    have hsame : chain next start (place + 1 + 1) = some member := by
      rw [chain, heq]
      exact hnext
    obtain hinside | rfl : place + 1 < length ∨ place + 1 = length := by omega
    · exact ⟨place + 1, hinside, hsame⟩
    · exact exists_place_of_isGreatest h hsame

/-- Members that can be told apart by numbers below a bound repeat before it. -/
theorem exists_isGreatest_unrepeated {size : Nat} {next : Nat → Option Nat}
    (hbelow : ∀ source target, next source = some target → target < size) (start : Nat) :
    ∃ length, IsGreatest {length | Unrepeated next start length} length := by
  have hbounded : ∀ length, Unrepeated next start length → length ≤ size := by
    intro length h
    choose! member hmember using fun place hplace =>
      Option.isSome_iff_exists.mp (h.isSome place hplace)
    have hmaps : ∀ place ∈ Finset.range length, member place ∈ Finset.range size := by
      intro place hplace
      obtain ⟨before, -, hnext⟩ :=
        Option.bind_eq_some_iff.mp (hmember place (Finset.mem_range.mp hplace))
      exact Finset.mem_range.mpr (hbelow before _ hnext)
    have hcard := Finset.card_le_card_of_injOn member hmaps fun place hplace other hother heq => by
      have hplace' := Finset.mem_range.mp (Finset.mem_coe.mp hplace)
      have hother' := Finset.mem_range.mp (Finset.mem_coe.mp hother)
      refine h.injective place hplace' other hother' ?_
      rw [hmember place hplace', hmember other hother', heq]
    simpa using hcard
  have hbdd : BddAbove {length | Unrepeated next start length} := ⟨size, hbounded⟩
  exact ⟨_, Nat.sSup_mem ⟨0, unrepeated_zero next start⟩ hbdd, fun length h => le_csSup hbdd h⟩

end Chain

/-! ### The closure along single references -/

section Along

variable {next : NodeId → Option NodeId} {size count length : Nat} {seed source target : NodeId}

/-- The step along the only reference of a node. -/
def stepsAlong (next : NodeId → Option NodeId) (id : NodeId) : List Step :=
  (next id).toList.map .report

theorem report_mem_stepsAlong :
    Step.report target ∈ stepsAlong next source ↔ next source = some target := by
  rw [stepsAlong, report_mem_map_report, Option.mem_toList]

theorem leads_stepsAlong : Leads (stepsAlong next) source target ↔ next source = some target := by
  rw [leads_iff, report_mem_stepsAlong]
  exact or_iff_left traverse_not_mem_map_report

theorem leadsIn_stepsAlong :
    LeadsIn (stepsAlong next) seed count target ↔ chain next seed count = some target := by
  induction count generalizing target with
  | zero => simp [LeadsIn, chain, eq_comm]
  | succ count ih => simp only [LeadsIn, chain, ih, leads_stepsAlong, Option.bind_eq_some_iff]

theorem reportedIn_stepsAlong :
    ReportedIn (stepsAlong next) seed count target
      ↔ chain next seed (count + 1) = some target := by
  simp only [ReportedIn, leadsIn_stepsAlong, report_mem_stepsAlong, chain, Option.bind_eq_some_iff]

/-- What is reported is the chain. -/
theorem reported_stepsAlong :
    Reported (stepsAlong next) seed target
      ↔ ∃ count, chain next seed (count + 1) = some target := by
  simp only [Reported, reflTransGen_leads_iff, ← reportedIn_stepsAlong, ReportedIn]
  exact ⟨fun ⟨source, ⟨count, hleads⟩, hreport⟩ => ⟨count, source, hleads, hreport⟩,
    fun ⟨count, source, hleads, hreport⟩ => ⟨source, ⟨count, hleads⟩, hreport⟩⟩

/-- A member of the part without repetitions is reported at its place first. -/
theorem reportDistance_stepsAlong (h : Unrepeated next seed length) (hcount : count < length)
    (hmember : chain next seed (count + 1) = some target) :
    reportDistance (stepsAlong next) seed target = count := by
  refine reportDistance_eq (reportedIn_stepsAlong.mpr hmember) fun earlier hearlier hreported => ?_
  have hsame := (reportedIn_stepsAlong.mp hreported).trans hmember.symm
  exact absurd (h.injective earlier (by omega) count hcount hsame) (Nat.ne_of_lt hearlier)

/-- The beginning of a chain behind its start, its first member marked. -/
def markedChain {β : Type} (next : β → Option β) (start : β) (length : Nat) : List (β × Bool) :=
  (List.range length).filterMap fun place =>
    (chain next start (place + 1)).map (·, decide (place = 0))

theorem mem_markedChain {β : Type} {next : β → Option β} {start member : β} {direct : Bool} :
    (member, direct) ∈ markedChain next start length
      ↔ ∃ place < length, chain next start (place + 1) = some member
        ∧ direct = decide (place = 0) := by
  simp only [markedChain, List.mem_filterMap, List.mem_range, Option.map_eq_some_iff,
    Prod.mk.injEq]
  constructor
  · rintro ⟨place, hplace, _, hmember, rfl, rfl⟩
    exact ⟨place, hplace, hmember, rfl⟩
  · rintro ⟨place, hplace, hmember, rfl⟩
    exact ⟨place, hplace, member, hmember, rfl, rfl⟩

/-- Its members are at growing distances. -/
theorem pairwise_markedChain (h : Unrepeated next seed length) :
    (markedChain next seed length).Pairwise fun first second =>
      reportDistance (stepsAlong next) seed first.1
        < reportDistance (stepsAlong next) seed second.1 := by
  rw [markedChain, List.pairwise_filterMap]
  refine List.pairwise_lt_range.imp_of_mem fun {place other} hplace hother hlt => ?_
  rw [List.mem_range] at hplace hother
  intro _ hentry _ hentry'
  obtain ⟨first, hfirst, rfl⟩ := Option.map_eq_some_iff.mp hentry
  obtain ⟨second, hsecond, rfl⟩ := Option.map_eq_some_iff.mp hentry'
  rwa [reportDistance_stepsAlong h hplace hfirst, reportDistance_stepsAlong h hother hsecond]

/-- **A chain to its first repetition.** Along single references the closure is the longest part of
    the chain that has no repetition, in the order of the chain. -/
theorem closure_eq_chain (hbelow : ∀ source target, next source = some target → target < size)
    (hseed : seed < size) (h : IsGreatest {length | Unrepeated next seed length} length) :
    closure size seed (stepsAlong next) = markedChain next seed length := by
  have hsteps : StaysBelow size (stepsAlong next) :=
    fun source target hleads => hbelow source target (leads_stepsAlong.mp hleads)
  have hchain := pairwise_markedChain h.1
  have hnodup : (markedChain next seed length).Nodup :=
    hchain.imp fun hlt heq => absurd (congrArg Prod.fst heq ▸ hlt) (Nat.lt_irrefl _)
  have hmem : ∀ entry, entry ∈ closure size seed (stepsAlong next)
      ↔ entry ∈ markedChain next seed length := by
    rintro ⟨target, direct⟩
    rw [mem_closure_pair_iff hsteps hseed, reported_stepsAlong, mem_chain_iff h, mem_markedChain]
    -- The seed reports the first member only, because no later one is the same.
    have hfirst : ∀ place < length, chain next seed (place + 1) = some target →
        (Step.report target ∈ stepsAlong next seed ↔ place = 0) := by
      intro place hplace hmember
      rw [report_mem_stepsAlong]
      constructor
      · intro hdirect
        exact h.1.injective place hplace 0 (by omega) (hmember.trans hdirect.symm)
      · rintro rfl
        exact hmember
    constructor
    · rintro ⟨⟨place, hplace, hmember⟩, hdirect⟩
      rw [hfirst place hplace hmember] at hdirect
      exact ⟨place, hplace, hmember, by simp [← hdirect]⟩
    · rintro ⟨place, hplace, hmember, rfl⟩
      refine ⟨⟨place, hplace, hmember⟩, ?_⟩
      rw [hfirst place hplace hmember, decide_eq_true_eq]
  -- Both are in the order of the distances, which the chain does not have twice.
  have hperm := (List.perm_ext_iff_of_nodup (.of_map _ (nodup_map_fst_closure hseed)) hnodup).mpr
    hmem
  refine hperm.eq_of_pairwise (fun first second hfirst hsecond hle hge => ?_)
    (pairwise_closure hseed) (hchain.imp Nat.le_of_lt)
  obtain ⟨first, direct⟩ := first
  obtain ⟨second, direct'⟩ := second
  obtain ⟨place, hplace, hmember, rfl⟩ := mem_markedChain.mp ((hmem _).mp hfirst)
  obtain ⟨other, hother, hmember', rfl⟩ := mem_markedChain.mp hsecond
  dsimp only at hle hge
  rw [reportDistance_stepsAlong h.1 hplace hmember,
    reportDistance_stepsAlong h.1 hother hmember'] at hle hge
  obtain rfl : place = other := Nat.le_antisymm hle hge
  rw [Option.some.inj (hmember.symm.trans hmember')]

end Along

/-! ### Sets of distinct names -/

namespace ClassGraph

variable {graph : ClassGraph} {seed source target : NodeId} {node : Node} {count length : Nat}

/-- In a graph with distinct names, all nodes that are found are in the set. -/
theorem members_setOf (hdistinct : graph.Distinct) {found : List (NodeId × Bool)}
    (hnodup : (found.map (·.1)).Nodup) :
    (graph.setOf found).members = found.filterMap fun entry => graph.member? entry.1 entry.2 := by
  refine ClassSet.members_ofMembers ?_
  rw [List.Nodup, List.pairwise_map, List.pairwise_filterMap]
  refine (List.pairwise_map.mp hnodup).imp fun {entry other} hne => ?_
  intro member hmember member' hmember' hname
  -- Two members of one name would be at one node.
  obtain ⟨decl, hdecl, rfl⟩ := Option.map_eq_some_iff.mp hmember
  obtain ⟨decl', hdecl', rfl⟩ := Option.map_eq_some_iff.mp hmember'
  obtain ⟨node, hnode, rfl⟩ := Option.map_eq_some_iff.mp hdecl
  obtain ⟨node', hnode', rfl⟩ := Option.map_eq_some_iff.mp hdecl'
  exact hne (hdistinct hnode hnode' hname)

/-- So an answer is the closure, node by node. -/
theorem members_query (hdistinct : graph.Distinct) (hseed : graph.nodes[seed]? = some node)
    (steps : NodeId → Node → List Step) :
    (graph.query node.decl.name steps).members
      = (closure graph.size seed fun id => graph.stepsFrom (steps id) id).filterMap
        fun entry => graph.member? entry.1 entry.2 := by
  rw [query, (idOf?_eq_some_iff hdistinct).mpr ⟨node, hseed, rfl⟩]
  exact members_setOf hdistinct (nodup_map_fst_closure (Array.getElem?_eq_some_iff.mp hseed).1)

/-- The index of an answer names its members, -/
theorem indexed_query (graph : ClassGraph) (name : String) (steps : NodeId → Node → List Step) :
    (graph.query name steps).Indexed := by
  unfold query
  split
  · exact ClassSet.indexed_empty
  · exact ClassSet.indexed_ofMembers _

/-- and no name is there twice. -/
theorem nodup_names_query (graph : ClassGraph) (name : String)
    (steps : NodeId → Node → List Step) : (graph.query name steps).names.Nodup := by
  unfold query
  split
  · exact List.nodup_nil
  · exact ClassSet.nodup_names_insertAll ClassSet.indexed_empty List.nodup_nil _

/-! ### Chains of classes and of nodes -/

/-- The class that a reference of a class leads to. -/
def named (graph : ClassGraph) (name : ClassDecl → Option String) (decl : ClassDecl) :
    Option ClassDecl :=
  (name decl).bind graph.get?

/-- The node that a link of a node leads to. -/
def linked (graph : ClassGraph) (link : Node → Option NodeId) (id : NodeId) : Option NodeId :=
  (graph.nodes[id]?).bind link

/-- A link of the nodes is a reference of their classes. -/
def Resolves (graph : ClassGraph) (link : Node → Option NodeId) (name : ClassDecl → Option String) :
    Prop :=
  ∀ ⦃id : NodeId⦄ ⦃node : Node⦄, graph.nodes[id]? = some node →
    link node = (name node.decl).bind graph.idOf?

variable {name : ClassDecl → Option String} {link : Node → Option NodeId}

theorem Resolves.exists_node (h : graph.Resolves link name) (hdistinct : graph.Distinct)
    (hlinked : graph.linked link source = some target) :
    ∃ node, graph.nodes[target]? = some node := by
  obtain ⟨node, hnode, hlink⟩ := Option.bind_eq_some_iff.mp hlinked
  rw [h hnode] at hlink
  obtain ⟨_, -, htarget⟩ := Option.bind_eq_some_iff.mp hlink
  obtain ⟨other, hother, -⟩ := (idOf?_eq_some_iff hdistinct).mp htarget
  exact ⟨other, hother⟩

/-- The chain of the classes is the chain of their nodes. -/
theorem Resolves.chain_named (h : graph.Resolves link name) (hseed : graph.nodes[seed]? = some node)
    (count : Nat) :
    chain (graph.named name) node.decl count
      = (chain (graph.linked link) seed count).bind graph.declOf? := by
  induction count with
  | zero => exact (declOf?_eq_some hseed).symm
  | succ count ih =>
    rw [chain, ih, chain, Option.bind_assoc, Option.bind_assoc]
    refine congrArg _ (funext fun id => ?_)
    unfold linked declOf?
    cases hid : graph.nodes[id]? with
    | none => rfl
    | some other =>
      show (name other.decl).bind graph.get? = (link other).bind _
      rw [h hid, Option.bind_assoc]
      rfl

/-- Behind the start the two chains end together, or have a node and its class. -/
theorem Resolves.chain_cases (h : graph.Resolves link name) (hdistinct : graph.Distinct)
    (hseed : graph.nodes[seed]? = some node) (count : Nat) :
    (chain (graph.linked link) seed (count + 1) = none
        ∧ chain (graph.named name) node.decl (count + 1) = none)
      ∨ ∃ id other, graph.nodes[id]? = some other
        ∧ chain (graph.linked link) seed (count + 1) = some id
        ∧ chain (graph.named name) node.decl (count + 1) = some other.decl := by
  rw [h.chain_named hseed]
  cases hid : chain (graph.linked link) seed (count + 1) with
  | none => exact .inl ⟨rfl, rfl⟩
  | some id =>
    obtain ⟨before, -, hlinked⟩ := Option.bind_eq_some_iff.mp hid
    obtain ⟨other, hother⟩ := h.exists_node hdistinct hlinked
    exact .inr ⟨id, other, hother, rfl, declOf?_eq_some hother⟩

/-- So they repeat together. -/
theorem Resolves.unrepeated_iff (h : graph.Resolves link name) (hdistinct : graph.Distinct)
    (hseed : graph.nodes[seed]? = some node) (length : Nat) :
    Unrepeated (graph.named name) node.decl length
      ↔ Unrepeated (graph.linked link) seed length := by
  have hsome : ∀ count, (chain (graph.named name) node.decl (count + 1)).isSome
      = (chain (graph.linked link) seed (count + 1)).isSome := by
    intro count
    obtain ⟨hid, hdecl⟩ | ⟨id, other, -, hid, hdecl⟩ := h.chain_cases hdistinct hseed count <;>
      rw [hid, hdecl] <;> rfl
  have heq : ∀ count count', chain (graph.named name) node.decl (count + 1)
        = chain (graph.named name) node.decl (count' + 1)
      ↔ chain (graph.linked link) seed (count + 1)
        = chain (graph.linked link) seed (count' + 1) := by
    intro count count'
    refine ⟨fun hdecls => ?_, fun hids => by rw [h.chain_named hseed, h.chain_named hseed, hids]⟩
    obtain ⟨hid, hdecl⟩ | ⟨id, other, hother, hid, hdecl⟩ := h.chain_cases hdistinct hseed count <;>
      obtain ⟨hid', hdecl'⟩ | ⟨id', other', hother', hid', hdecl'⟩ :=
        h.chain_cases hdistinct hseed count' <;>
      rw [hdecl, hdecl'] at hdecls
    · rw [hid, hid']
    · cases hdecls
    · cases hdecls
    · have hname := congrArg ClassDecl.name (Option.some.inj hdecls)
      rw [hid, hid', hdistinct hother hother' hname]
  constructor
  · rintro ⟨hisSome, hinjective⟩
    exact ⟨fun place hplace => hsome place ▸ hisSome place hplace,
      fun place hplace other hother h => hinjective place hplace other hother ((heq _ _).mpr h)⟩
  · rintro ⟨hisSome, hinjective⟩
    exact ⟨fun place hplace => (hsome place).symm ▸ hisSome place hplace,
      fun place hplace other hother h => hinjective place hplace other hother ((heq _ _).mp h)⟩

end ClassGraph

/-! ### Answers that follow a chain -/

/-- A set has the classes of a chain behind its start, up to the first repetition. -/
structure FollowsChain (set : ClassSet) (next : ClassDecl → Option ClassDecl) (start : ClassDecl) :
    Prop where
  /-- They are in the order of the chain, as many as there are without a repetition, and the first
      of them is the only direct one. -/
  members_eq : ∃ length, IsGreatest {length | Unrepeated next start length} length
    ∧ set.members = (markedChain next start length).map fun entry => ⟨entry.1, entry.2⟩
  /-- The start is one of them iff the chain returns to it. -/
  contains_start : set.contains start.name = true
    ↔ ∃ count, chain next start (count + 1) = some start
  /-- Each class that the chain meets is there once, however often it meets the class. -/
  count_eq_one : ∀ count member, chain next start (count + 1) = some member →
    set.names.count member.name = 1

/-- The names tell whether the start is there, if no other class of the chain has its name. -/
theorem FollowsChain.of_members_eq {set : ClassSet} {next : ClassDecl → Option ClassDecl}
    {start : ClassDecl} {length : Nat} (hindexed : set.Indexed) (hnames : set.names.Nodup)
    (hgreatest : IsGreatest {length | Unrepeated next start length} length)
    (hmembers : set.members = (markedChain next start length).map fun entry => ⟨entry.1, entry.2⟩)
    (hstart : ∀ count member, chain next start (count + 1) = some member →
      member.name = start.name → member = start) : FollowsChain set next start where
  members_eq := ⟨length, hgreatest, hmembers⟩
  contains_start := by
    rw [hindexed, hmembers]
    constructor
    · rintro ⟨_, hmember, hname⟩
      obtain ⟨⟨decl, direct⟩, hentry, rfl⟩ := List.mem_map.mp hmember
      obtain ⟨place, -, hplace, -⟩ := mem_markedChain.mp hentry
      obtain rfl : decl = start := hstart place decl hplace hname
      exact ⟨place, hplace⟩
    · intro hreturns
      obtain ⟨place, hplace, hmember⟩ := (mem_chain_iff hgreatest).mp hreturns
      exact ⟨_, List.mem_map_of_mem (mem_markedChain.mpr ⟨place, hplace, hmember, rfl⟩), rfl⟩
  count_eq_one := by
    intro count member hcount
    obtain ⟨place, hplace, hmember⟩ := (mem_chain_iff hgreatest).mp ⟨count, hcount⟩
    refine List.count_eq_one_of_mem hnames ?_
    rw [ClassSet.names, hmembers, List.map_map]
    exact List.mem_map.mpr ⟨_, mem_markedChain.mpr ⟨place, hplace, hmember, rfl⟩, rfl⟩

namespace ClassGraph

variable {graph : ClassGraph} {seed : NodeId} {node : Node} {name : ClassDecl → Option String}
  {link : Node → Option NodeId}

/-- A question along a single reference follows the chain of the classes. -/
theorem Resolves.followsChain (h : graph.Resolves link name) (hdistinct : graph.Distinct)
    (hseed : graph.nodes[seed]? = some node) :
    FollowsChain (graph.query node.decl.name fun _ node => (link node).toList.map .report)
      (graph.named name) node.decl := by
  have hbelow : ∀ source target, graph.linked link source = some target → target < graph.size := by
    intro source target hlinked
    obtain ⟨other, hother⟩ := h.exists_node hdistinct hlinked
    exact (Array.getElem?_eq_some_iff.mp hother).1
  have hsteps : (fun id => graph.stepsFrom (fun node => (link node).toList.map .report) id)
      = stepsAlong (graph.linked link) := by
    funext id
    unfold stepsFrom stepsAlong linked
    cases graph.nodes[id]? <;> rfl
  obtain ⟨length, hgreatest⟩ := exists_isGreatest_unrepeated hbelow seed
  have hlongest : IsGreatest {length | Unrepeated (graph.named name) node.decl length} length := by
    simpa only [h.unrepeated_iff hdistinct hseed] using hgreatest
  refine .of_members_eq (indexed_query _ _ _) (nodup_names_query _ _ _) hlongest ?_ ?_
  · rw [members_query hdistinct hseed, hsteps,
      closure_eq_chain hbelow (Array.getElem?_eq_some_iff.mp hseed).1 hgreatest]
    unfold markedChain
    rw [List.filterMap_filterMap, List.map_filterMap]
    refine List.filterMap_congr fun place _ => ?_
    rw [h.chain_named hseed, Option.map_map, Option.map_bind, Option.bind_map]
    rfl
  · intro count member hmember hname
    obtain ⟨-, hnone⟩ | ⟨id, other, hother, -, hdecl⟩ := h.chain_cases hdistinct hseed count
    · rw [hnone] at hmember
      cases hmember
    · obtain rfl : other.decl = member := Option.some.inj (hdecl.symm.trans hmember)
      obtain rfl := hdistinct hother hseed hname
      rw [Option.some.inj (hother.symm.trans hseed)]

end ClassGraph

/-- **Superclasses and outer classes.** The superclasses of a class are what its superclass, the
    superclass of that one and so on are, as far as they are in the graph, in this order and up to
    the first repetition; and so are its outer classes. -/
theorem chains_build {decls : List ClassDecl} (hdistinct : (decls.map (·.name)).Nodup)
    (diagnostics : Diagnostics) (report : Bool) (decl : ClassDecl) (hdecl : decl ∈ decls) :
    let graph := (ClassGraph.build decls diagnostics report).1
    FollowsChain (graph.ancestors decl.name) (graph.named (·.superclass)) decl
      ∧ FollowsChain (graph.outerClasses decl.name) (graph.named (·.outerClass)) decl := by
  intro graph
  have hlinked : graph.Linked := ClassGraph.linked_build hdistinct
  obtain ⟨seed, node, hnode, rfl⟩ := ClassGraph.exists_node hdecl diagnostics report
  have hsuperclass : graph.Resolves (·.links.superclass) (·.superclass) :=
    fun _ _ h => (ClassGraph.resolved_build h).superclass_eq
  have houter : graph.Resolves (·.links.outer) (·.outerClass) :=
    fun _ _ h => (ClassGraph.resolved_build h).outer_eq
  exact ⟨hsuperclass.followsChain hlinked.distinct hnode,
    houter.followsChain hlinked.distinct hnode⟩

/-- A class whose superclasses run into a cycle of two that avoids it, and which is declared in a
    class that is declared in it. -/
theorem chains_build_cycles :
    let leaf : ClassDecl :=
      { ClassDecl.outline "a.Leaf" .ordinary (some "a.Left") [] [] with
        outerClass := some "a.Right" }
    let left := ClassDecl.outline "a.Left" .ordinary (some "a.Right") [] []
    let right : ClassDecl :=
      { ClassDecl.outline "a.Right" .ordinary (some "a.Left") [] [] with
        outerClass := some "a.Leaf" }
    let graph := (ClassGraph.build [leaf, left, right] .empty false).1
    (graph.ancestors "a.Leaf").names.count "a.Left" = 1
      ∧ (graph.outerClasses "a.Leaf").contains "a.Leaf" = true := by
  intro leaf left right graph
  have hdistinct : ([leaf, left, right].map (·.name)).Nodup := by decide
  obtain ⟨hancestors, houter⟩ :=
    chains_build hdistinct .empty false leaf List.mem_cons_self
  have hget : ∀ decl ∈ [leaf, left, right], graph.get? decl.name = some decl :=
    fun decl hdecl => ClassGraph.get?_build hdistinct hdecl
  have hleft : chain (graph.named (·.superclass)) leaf 1 = some left := hget left (by simp)
  have hback : chain (graph.named (·.outerClass)) leaf 2 = some leaf := by
    show (graph.get? right.name).bind (graph.named (·.outerClass)) = some leaf
    rw [hget right (by simp)]
    exact hget leaf List.mem_cons_self
  exact ⟨hancestors.count_eq_one 0 left hleft, houter.contains_start.mpr ⟨1, hback⟩⟩

end ClassAtlas
