import ClassAtlas.Graph.Query
import ClassAtlas.Proofs.Graph.Closure
import Mathlib.Data.List.Nodup

namespace ClassAtlas

/-!
# What a set of classes holds

Of the classes that are put into a set, the first one of each name stays, with its mark.

* `ClassSet.Indexed` — the index of a set names its members;
* `ClassSet.get?_ofMembers` — the first member of a name is the one that is found;
* `ClassSet.members_insertAll` — what an insertion of members with distinct names adds;
* `ClassGraph.Holds` — which classes of a graph a set holds, and which of them as directly
  related;
* `ClassGraph.holds_setOf_markedNodes`, `ClassGraph.holds_query` — the sets that questions give.
-/

/-! ### Sets -/

namespace ClassSet

/-- The index has exactly the names of the members. -/
def Indexed (set : ClassSet) : Prop :=
  ∀ name, set.contains name = true ↔ ∃ member ∈ set.members, member.name = name

theorem indexed_empty : empty.Indexed := by
  intro name
  simp [empty, contains]

theorem Indexed.insert {set : ClassSet} (h : set.Indexed) (decl : ClassDecl) (direct : Bool) :
    (set.insert decl direct).Indexed := by
  intro name
  cases hknown : set.contains decl.name with
  | true =>
    rw [insert_of_contains direct hknown]
    exact h name
  | false =>
    rw [contains_insert, members_insert_of_not_contains direct hknown, Bool.or_eq_true, beq_iff_eq,
      h name]
    simp only [List.mem_append, List.mem_singleton, or_and_right, exists_or, exists_eq_left]
    exact or_comm

/-- A member is found by its name among the members. -/
theorem Indexed.get?_eq {set : ClassSet} (h : set.Indexed) (name : String) :
    set.get? name = set.members.find? (·.name = name) := by
  unfold get?
  split
  · rfl
  · rename_i hunknown
    rw [h name] at hunknown
    refine (List.find?_eq_none.mpr fun member hmember hname => hunknown ?_).symm
    exact ⟨member, hmember, by simpa using hname⟩

theorem Indexed.contains_eq {set : ClassSet} (h : set.Indexed) (name : String) :
    set.contains name = (set.get? name).isSome := by
  rw [h.get?_eq, Bool.eq_iff_iff, h name, List.find?_isSome]
  simp

/-- What is found after an insertion. -/
theorem Indexed.get?_insert {set : ClassSet} (h : set.Indexed) (member : ClassMember)
    (name : String) :
    (set.insert member.decl member.direct).get? name
      = (set.members ++ [member]).find? (·.name = name) := by
  rw [(h.insert _ _).get?_eq]
  cases hknown : set.contains member.decl.name with
  | false => rw [members_insert_of_not_contains _ hknown]
  | true =>
    rw [insert_of_contains _ hknown, List.find?_append]
    by_cases hname : member.name = name
    · -- The name was there before, so the look-up does not get to the new member.
      subst hname
      have hfound := h.contains_eq member.name
      rw [h.get?_eq, show set.contains member.name = true from hknown] at hfound
      obtain ⟨found, hfound⟩ := Option.isSome_iff_exists.mp hfound.symm
      rw [hfound, Option.some_or]
    · rw [List.find?_cons_of_neg (by simpa using hname), List.find?_nil, Option.or_none]

theorem Indexed.insertAll {set : ClassSet} (h : set.Indexed) (members : List ClassMember) :
    (set.insertAll members).Indexed := by
  induction members generalizing set with
  | nil => exact h
  | cons member rest ih => exact ih (h.insert member.decl member.direct)

/-- The members of the set come first, then those that are put into it. -/
theorem Indexed.get?_insertAll {set : ClassSet} (h : set.Indexed) (members : List ClassMember)
    (name : String) :
    (set.insertAll members).get? name = (set.members ++ members).find? (·.name = name) := by
  induction members generalizing set with
  | nil => rw [List.append_nil, ← h.get?_eq]; rfl
  | cons member rest ih =>
    have hinsert := h.insert member.decl member.direct
    show ((set.insert member.decl member.direct).insertAll rest).get? name = _
    rw [ih hinsert, List.find?_append, ← hinsert.get?_eq, h.get?_insert, ← List.find?_append,
      List.append_assoc, List.singleton_append]

theorem indexed_ofMembers (members : List ClassMember) : (ofMembers members).Indexed :=
  indexed_empty.insertAll members

/-- No two members have the same name. -/
theorem nodup_names_insertAll {set : ClassSet} (hindexed : set.Indexed)
    (hnodup : set.names.Nodup) (members : List ClassMember) :
    (set.insertAll members).names.Nodup := by
  induction members generalizing set with
  | nil => exact hnodup
  | cons member rest ih =>
    refine ih (hindexed.insert member.decl member.direct) ?_
    show (set.insert member.decl member.direct).names.Nodup
    cases hknown : set.contains member.decl.name with
    | true => rwa [insert_of_contains _ hknown]
    | false =>
      rw [names, members_insert_of_not_contains _ hknown, List.map_append, List.map_singleton,
        ← List.concat_eq_append]
      refine List.Nodup.concat (fun hmem => ?_) hnodup
      obtain ⟨other, hother, hname⟩ := List.mem_map.mp hmem
      have hcontains := (hindexed member.decl.name).mpr ⟨other, hother, hname⟩
      rw [hknown] at hcontains
      cases hcontains

/-- Of members with distinct names, those with new ones come last, in their order. -/
theorem members_insertAll {set : ClassSet} (hindexed : set.Indexed) {members : List ClassMember}
    (hnodup : (members.map (·.name)).Nodup) :
    (set.insertAll members).members
      = set.members ++ members.filter fun member => !set.contains member.name := by
  induction members generalizing set with
  | nil => exact (List.append_nil _).symm
  | cons member rest ih =>
    obtain ⟨hfirst, hrest⟩ := List.nodup_cons.mp hnodup
    show ((set.insert member.decl member.direct).insertAll rest).members = _
    rw [ih (hindexed.insert _ _) hrest]
    cases hknown : set.contains member.decl.name with
    | true =>
      have hskip : ¬(!set.contains member.name) = true := by simpa [ClassMember.name] using hknown
      rw [insert_of_contains _ hknown, List.filter_cons, if_neg hskip]
    | false =>
      have hkeep : (!set.contains member.name) = true := by simpa [ClassMember.name] using hknown
      -- The name that was new is not in the way of the others.
      have hsame : ∀ other ∈ rest, (!(set.insert member.decl member.direct).contains other.name)
          = !set.contains other.name := by
        intro other hother
        have hne : (member.decl.name == other.name) = false :=
          beq_false_of_ne fun h => hfirst (List.mem_map.mpr ⟨other, hother, h.symm⟩)
        rw [contains_insert, hne, Bool.false_or]
      rw [members_insert_of_not_contains _ hknown, List.filter_cons, if_pos hkeep,
        List.filter_congr hsame, List.append_assoc, List.singleton_append]

/-- Members with distinct names are all kept. -/
theorem members_ofMembers {members : List ClassMember} (hnodup : (members.map (·.name)).Nodup) :
    (ofMembers members).members = members := by
  have hnew : ∀ member ∈ members, (!empty.contains member.name) = true := by
    simp [empty, contains]
  rw [ofMembers, members_insertAll indexed_empty hnodup, members_empty, List.nil_append,
    List.filter_eq_self.mpr hnew]

theorem get?_ofMembers (members : List ClassMember) (name : String) :
    (ofMembers members).get? name = members.find? (·.name = name) :=
  indexed_empty.get?_insertAll members name

end ClassSet

/-! ### Classes of a graph -/

namespace ClassGraph

variable {graph : ClassGraph} {id seed : NodeId} {node : Node}

/-- No two nodes have classes of one name. -/
def Distinct (graph : ClassGraph) : Prop :=
  ∀ ⦃id other : NodeId⦄ ⦃node sibling : Node⦄, graph.nodes[id]? = some node →
    graph.nodes[other]? = some sibling → node.decl.name = sibling.decl.name → id = other

theorem declOf?_eq_some (hnode : graph.nodes[id]? = some node) :
    graph.declOf? id = some node.decl := by
  rw [declOf?, hnode, Option.map_some]

/-- The class of a node is found among the classes of some nodes iff the node is one of them. -/
theorem find?_members (hdistinct : graph.Distinct) (hnode : graph.nodes[id]? = some node)
    (ids : List NodeId) (direct : Bool) :
    ((ids.map (·, direct)).filterMap fun answer => graph.member? answer.1 answer.2).find?
        (·.name = node.decl.name)
      = if id ∈ ids then some ⟨node.decl, direct⟩ else none := by
  -- Other nodes are passed over: their names are others, or they have no class at all.
  induction ids with
  | nil => rfl
  | cons first rest ih =>
    rw [List.map_cons, List.filterMap_cons]
    by_cases hfirst : first = id
    · subst hfirst
      rw [member?, declOf?_eq_some hnode, Option.map_some, if_pos (List.mem_cons_self ..)]
      exact List.find?_cons_of_pos (by simp [ClassMember.name])
    · have hmem : id ∈ first :: rest ↔ id ∈ rest := by
        rw [List.mem_cons]
        exact or_iff_right (Ne.symm hfirst)
      simp only [hmem]
      cases hother : graph.nodes[first]? with
      | none =>
        rw [member?, declOf?, hother]
        exact ih
      | some other =>
        have hname : other.decl.name ≠ node.decl.name :=
          fun h => hfirst (hdistinct hother hnode h)
        rw [member?, declOf?_eq_some hother, Option.map_some]
        dsimp only
        rw [List.find?_cons_of_neg (by rw [decide_eq_true_eq]; exact hname)]
        exact ih

/-- Which classes of a graph a set holds, and which of these it marks as directly related. -/
structure Holds (graph : ClassGraph) (set : ClassSet) (Related Direct : NodeId → Prop) : Prop where
  /-- It holds the related ones. -/
  contains_iff : ∀ ⦃id : NodeId⦄ ⦃node : Node⦄, graph.nodes[id]? = some node →
    (set.contains node.decl.name = true ↔ Related id)
  /-- Their marks say whether they are directly related. -/
  isDirect?_iff : ∀ ⦃id : NodeId⦄ ⦃node : Node⦄, graph.nodes[id]? = some node → ∀ direct,
    set.isDirect? node.decl.name = some direct ↔ Related id ∧ (direct = true ↔ Direct id)

theorem Holds.congr {set : ClassSet} {Related Related' Direct Direct' : NodeId → Prop}
    (h : graph.Holds set Related Direct) (hrelated : ∀ id, Related id ↔ Related' id)
    (hdirect : ∀ id, Direct id ↔ Direct' id) : graph.Holds set Related' Direct' where
  contains_iff := fun id _ hnode => (h.contains_iff hnode).trans (hrelated id)
  isDirect?_iff := fun id _ hnode direct => by
    rw [h.isDirect?_iff hnode, hrelated, hdirect]

/-- What is directly related and so is related is marked as such. -/
theorem Holds.isDirect?_true_iff {set : ClassSet} {Related Direct : NodeId → Prop}
    (h : graph.Holds set Related Direct) (hnode : graph.nodes[id]? = some node)
    (hrelated : ∀ id, Direct id → Related id) :
    set.isDirect? node.decl.name = some true ↔ Direct id := by
  rw [h.isDirect?_iff hnode, iff_true_left rfl]
  exact and_iff_right_of_imp (hrelated id)

/-- Two sets mark a class each in the same way if it is directly related in both or in neither. -/
theorem Holds.isDirect?_eq {set other : ClassSet} {Related Related' Direct Direct' : NodeId → Prop}
    (h : graph.Holds set Related Direct) (h' : graph.Holds other Related' Direct')
    {id' : NodeId} {node' : Node} (hnode : graph.nodes[id]? = some node)
    (hnode' : graph.nodes[id']? = some node') (hrelated : Related id) (hrelated' : Related' id')
    (hdirect : Direct id ↔ Direct' id') :
    set.isDirect? node.decl.name = other.isDirect? node'.decl.name := by
  by_cases hd : Direct id
  · rw [(h.isDirect?_iff hnode true).mpr ⟨hrelated, by simpa using hd⟩,
      (h'.isDirect?_iff hnode' true).mpr ⟨hrelated', by simpa using hdirect.mp hd⟩]
  · rw [(h.isDirect?_iff hnode false).mpr ⟨hrelated, by simpa using hd⟩,
      (h'.isDirect?_iff hnode' false).mpr ⟨hrelated', by simpa using mt hdirect.mpr hd⟩]

/-- A node that is in both lists is found in the first one. -/
theorem holds_setOf_markedNodes (hdistinct : graph.Distinct) (direct indirect : List NodeId) :
    graph.Holds (graph.setOf (markedNodes direct indirect)) (fun id => id ∈ direct ∨ id ∈ indirect)
      (· ∈ direct) := by
  have hget : ∀ ⦃id : NodeId⦄ ⦃node : Node⦄, graph.nodes[id]? = some node →
      (graph.setOf (markedNodes direct indirect)).get? node.decl.name
        = if id ∈ direct then some ⟨node.decl, true⟩
          else if id ∈ indirect then some ⟨node.decl, false⟩ else none := by
    intro id node hnode
    rw [setOf, ClassSet.get?_ofMembers, markedNodes, List.filterMap_append, List.find?_append,
      find?_members hdistinct hnode, find?_members hdistinct hnode]
    by_cases hdirect : id ∈ direct
    · rw [if_pos hdirect, if_pos hdirect, Option.some_or]
    · rw [if_neg hdirect, if_neg hdirect, Option.none_or]
  refine ⟨fun id node hnode => ?_, fun id node hnode flag => ?_⟩
  · have hcontains := (ClassSet.indexed_ofMembers ((markedNodes direct indirect).filterMap
      fun answer => graph.member? answer.1 answer.2)).contains_eq node.decl.name
    show (graph.setOf (markedNodes direct indirect)).contains node.decl.name = true ↔ _
    rw [setOf, hcontains, ← setOf, hget hnode]
    by_cases hdirect : id ∈ direct <;> by_cases hindirect : id ∈ indirect <;>
      simp [hdirect, hindirect]
  · rw [ClassSet.isDirect?, hget hnode]
    by_cases hdirect : id ∈ direct <;> by_cases hindirect : id ∈ indirect <;>
      cases flag <;> simp [hdirect, hindirect]

/-! ### Questions -/

theorem mem_stepsFrom {steps : Node → List Step} {step : Step} :
    step ∈ graph.stepsFrom steps id
      ↔ ∃ node, graph.nodes[id]? = some node ∧ step ∈ steps node := by
  unfold stepsFrom
  cases graph.nodes[id]? <;> simp

/-- A question gives what is reported on the way from the class it is about, and marks what that
    class itself reports. -/
theorem holds_query (hdistinct : graph.Distinct) {name : String}
    (hseed : graph.idOf? name = some seed) (hbound : seed < graph.size)
    {steps : NodeId → Node → List Step}
    (hsteps : StaysBelow graph.size fun id => graph.stepsFrom (steps id) id) :
    graph.Holds (graph.query name steps)
      (Reported (fun id => graph.stepsFrom (steps id) id) seed)
      (fun id => Step.report id ∈ graph.stepsFrom (steps seed) seed) := by
  obtain ⟨direct, indirect, hclosure, hdirect, hall⟩ := exists_closure_eq hsteps hbound
  have hquery : graph.query name steps = graph.setOf (markedNodes direct indirect) := by
    rw [query, hseed]
    show graph.setOf (closure _ _ _) = _
    rw [hclosure]
  rw [hquery]
  exact (holds_setOf_markedNodes hdistinct direct indirect).congr hall hdirect

end ClassGraph

end ClassAtlas
