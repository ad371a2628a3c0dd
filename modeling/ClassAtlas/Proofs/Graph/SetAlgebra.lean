import ClassAtlas.Proofs.Graph.Hierarchy

namespace ClassAtlas.ClassSet

/-!
# The algebra of sets of classes

A set keeps its members in order and their names in an index of their own.  Every operation has to
keep the two in agreement, and once they are, each operation is one on lists: it takes from the
first set what satisfies a condition, and a union puts what is missing behind it.  The laws of the
algebra are laws of these lists, so they hold with order and marks where the sides take their
members from the same set.

* `Built` — the sets that insertions and the algebra make;
* `Consistent`, `Built.consistent` — the index has the names of the members, each of them once;
* `Consistent.members_union`, `Consistent.members_intersect` and so on — the members of each result;
* `representation_of_built` — what a set is after any operations;
* `Consistent.contains_union`, `Consistent.contains_intersect` — the names of each result;
* `algebra_of_built` — the laws of the algebra.
-/

variable {set other a b c : ClassSet} {member : ClassMember} {name : String}

/-! ### Sets that can be made -/

/-- The sets that can be made: from the empty one by insertions, and from others by the algebra. -/
inductive Built : ClassSet → Prop where
  /-- The empty set. -/
  | empty : Built .empty
  /-- A set with a class more, or the same if it has one of that name. -/
  | add {set : ClassSet} (h : Built set) (decl : ClassDecl) (direct : Bool) :
    Built (set.add decl direct).1
  /-- The union of two sets. -/
  | union {set other : ClassSet} (h : Built set) (h' : Built other) : Built (set.union other)
  /-- What a set shares with another. -/
  | intersect {set other : ClassSet} (h : Built set) (h' : Built other) :
    Built (set.intersect other)
  /-- What a set does not share with another. -/
  | exclude {set other : ClassSet} (h : Built set) (h' : Built other) : Built (set.exclude other)
  /-- The part of a set that satisfies a condition. -/
  | filter {set : ClassSet} (h : Built set) (keep : ClassDecl → Bool) : Built (set.filter keep)
  /-- The directly related part of a set. -/
  | directOnly {set : ClassSet} (h : Built set) : Built set.directOnly

/-- The index has exactly the names of the members, and no two members have the same name. -/
structure Consistent (set : ClassSet) : Prop where
  /-- The index has exactly the names of the members. -/
  indexed : set.Indexed
  /-- No two members have the same name. -/
  nodup : set.names.Nodup

theorem consistent_empty : empty.Consistent := ⟨indexed_empty, List.nodup_nil⟩

theorem Consistent.insertAll (h : set.Consistent) (members : List ClassMember) :
    (set.insertAll members).Consistent :=
  ⟨h.indexed.insertAll members, nodup_names_insertAll h.indexed h.nodup members⟩

theorem Consistent.add (h : set.Consistent) (decl : ClassDecl) (direct : Bool) :
    (set.add decl direct).1.Consistent :=
  h.insertAll [⟨decl, direct⟩]

theorem consistent_ofMembers (members : List ClassMember) : (ofMembers members).Consistent :=
  consistent_empty.insertAll members

theorem Consistent.union (h : set.Consistent) (other : ClassSet) : (set.union other).Consistent :=
  h.insertAll other.members

theorem consistent_filterMembers (keep : ClassMember → Bool) (set : ClassSet) :
    (set.filterMembers keep).Consistent :=
  consistent_ofMembers _

theorem consistent_intersect (set other : ClassSet) : (set.intersect other).Consistent :=
  consistent_filterMembers _ set

theorem consistent_exclude (set other : ClassSet) : (set.exclude other).Consistent :=
  consistent_filterMembers _ set

theorem consistent_directOnly (set : ClassSet) : set.directOnly.Consistent :=
  consistent_filterMembers _ set

/-- Every operation leaves the index in agreement with the members. -/
theorem Built.consistent (h : set.Built) : set.Consistent := by
  induction h with
  | empty => exact consistent_empty
  | add _ decl direct ih => exact ih.add decl direct
  | @union _ other _ _ ih _ => exact ih.union other
  | intersect => exact consistent_intersect ..
  | exclude => exact consistent_exclude ..
  | filter => exact consistent_filterMembers ..
  | directOnly => exact consistent_directOnly ..

/-- Some classes make a set that can be made, as the answer to a question does. -/
theorem built_ofMembers (members : List ClassMember) : (ofMembers members).Built := by
  have hall : ∀ {set : ClassSet}, set.Built → (set.insertAll members).Built := by
    induction members with
    | nil => exact id
    | cons member rest ih => exact fun h => ih (h.add member.decl member.direct)
  exact hall .empty

/-! ### Names -/

namespace Consistent

theorem contains_iff (h : set.Consistent) (name : String) :
    set.contains name = true ↔ name ∈ set.names := by
  rw [h.indexed name, names, List.mem_map]

theorem contains_eq_decide (h : set.Consistent) (name : String) :
    set.contains name = decide (name ∈ set.names) := by
  rw [Bool.eq_iff_iff, h.contains_iff, decide_eq_true_eq]

theorem contains_of_mem (h : set.Consistent) (hmember : member ∈ set.members) :
    set.contains member.name = true :=
  (h.indexed member.name).mpr ⟨member, hmember, rfl⟩

/-- A member is what is found by its name. -/
theorem get?_eq_some_iff (h : set.Consistent) :
    set.get? name = some member ↔ member ∈ set.members ∧ member.name = name := by
  rw [h.indexed.get?_eq]
  constructor
  · intro hfound
    exact ⟨List.mem_of_find?_eq_some hfound, by simpa using List.find?_some hfound⟩
  · rintro ⟨hmem, rfl⟩
    have hsome : (set.members.find? (·.name = member.name)).isSome := by
      rw [List.find?_isSome]
      exact ⟨member, hmem, by simp⟩
    obtain ⟨found, hfound⟩ := Option.isSome_iff_exists.mp hsome
    have hname : found.name = member.name := by simpa using List.find?_some hfound
    rw [hfound, List.inj_on_of_nodup_map h.nodup (List.mem_of_find?_eq_some hfound) hmem hname]

/-! ### Members -/

/-- A part of a set has the members that satisfy the condition, in their order. -/
theorem members_filterMembers (h : set.Consistent) (keep : ClassMember → Bool) :
    (set.filterMembers keep).members = set.members.filter keep :=
  members_ofMembers (h.nodup.sublist (List.filter_sublist.map _))

/-- A union has the first set in front of what is missing there. -/
theorem members_union (h : set.Consistent) (h' : other.Consistent) :
    (set.union other).members
      = set.members ++ other.members.filter fun member => !set.contains member.name :=
  members_insertAll h.indexed h'.nodup

theorem members_intersect (h : set.Consistent) (other : ClassSet) :
    (set.intersect other).members
      = set.members.filter fun member => other.contains member.name :=
  h.members_filterMembers _

theorem members_exclude (h : set.Consistent) (other : ClassSet) :
    (set.exclude other).members
      = set.members.filter fun member => !other.contains member.name :=
  h.members_filterMembers _

theorem members_filter (h : set.Consistent) (keep : ClassDecl → Bool) :
    (set.filter keep).members = set.members.filter fun member => keep member.decl :=
  h.members_filterMembers _

theorem members_directOnly (h : set.Consistent) :
    set.directOnly.members = set.members.filter (·.direct) :=
  h.members_filterMembers _

end Consistent

/-- What is inserted is new exactly if no member has its name. -/
theorem add_snd (set : ClassSet) (decl : ClassDecl) (direct : Bool) :
    (set.add decl direct).2 = !set.contains decl.name := by
  unfold add
  split
  case isTrue hknown => rw [hknown, Bool.not_true]
  case isFalse hfresh => rw [Bool.of_not_eq_true hfresh, Bool.not_false]

/-- **Representation.** However a set is made, its index has the names of its members and no name is
    there twice, so all ways to ask for a name agree.  An insertion appends a class with a new name
    and otherwise changes nothing.  A union is the first set and then what is missing there; the
    other operations give the members of the first set that satisfy their condition. -/
theorem representation_of_built (h : set.Built) :
    set.names.Nodup
      ∧ (∀ name, name ∈ set.index ↔ name ∈ set.names)
      ∧ (∀ name, (set.contains name = true ↔ name ∈ set.names)
        ∧ ((set.get? name).isSome = true ↔ name ∈ set.names)
        ∧ ((set.isDirect? name).isSome = true ↔ name ∈ set.names))
      ∧ (∀ name member, set.get? name = some member ↔ member ∈ set.members ∧ member.name = name)
      ∧ (∀ decl direct,
        ((set.add decl direct).2 = true ↔ decl.name ∉ set.names)
        ∧ (decl.name ∉ set.names →
          (set.add decl direct).1.members = set.members ++ [⟨decl, direct⟩])
        ∧ (decl.name ∈ set.names → (set.add decl direct).1 = set))
      ∧ (∀ other, Built other →
        (set.union other).members = set.members ++ other.members.filter (·.name ∉ set.names)
        ∧ (set.intersect other).members = set.members.filter (·.name ∈ other.names)
        ∧ (set.exclude other).members = set.members.filter (·.name ∉ other.names))
      ∧ (∀ keep, (set.filter keep).members = set.members.filter fun member => keep member.decl)
      ∧ set.directOnly.members = set.members.filter (·.direct) := by
  have hset := h.consistent
  have hget : ∀ name, (set.get? name).isSome = true ↔ name ∈ set.names := fun name => by
    rw [← hset.indexed.contains_eq, hset.contains_iff]
  refine ⟨hset.nodup, fun name => ?index, fun name => ⟨hset.contains_iff name, hget name, ?mark⟩,
    fun name member => hset.get?_eq_some_iff, fun decl direct => ⟨?new, ?append, ?same⟩,
    fun other hother => ?algebra, hset.members_filter, hset.members_directOnly⟩
  case index => exact hset.contains_iff name
  case mark => rw [isDirect?, Option.isSome_map, hget]
  case new => rw [add_snd, Bool.not_eq_true', ← Bool.not_eq_true, hset.contains_iff]
  case append =>
    intro hnew
    rw [← hset.contains_iff, Bool.not_eq_true] at hnew
    exact members_insert_of_not_contains direct hnew
  case same =>
    intro hknown
    exact insert_of_contains direct ((hset.contains_iff _).mpr hknown)
  case algebra =>
    have hother := hother.consistent
    rw [hset.members_union hother, hset.members_intersect, hset.members_exclude]
    simp only [hset.contains_eq_decide, hother.contains_eq_decide, decide_not, and_self]

/-- A set with a class that a union would mark otherwise, a union, and a class that is there
    already. -/
theorem representation_of_built_union :
    let first := ClassDecl.outline "a.First" .ordinary none [] []
    let second := ClassDecl.outline "a.Second" .ordinary none [] []
    let third := ClassDecl.outline "a.Third" .ordinary none [] []
    let set := ofMembers [⟨first, true⟩, ⟨second, false⟩]
    let other := (ofMembers [⟨third, true⟩, ⟨second, true⟩]).union set
    (set.union other).names = ["a.First", "a.Second", "a.Third"]
      ∧ (set.union other).get? "a.Second" = some ⟨second, false⟩
      ∧ (set.union other).add second true = (set.union other, false) := by
  intro first second third set other
  have hset : set.Built := built_ofMembers _
  have hother : other.Built := (built_ofMembers _).union hset
  have hmembers : set.members = [⟨first, true⟩, ⟨second, false⟩] := members_ofMembers (by decide)
  have hmembers' : (ofMembers [⟨third, true⟩, ⟨second, true⟩]).members
      = [⟨third, true⟩, ⟨second, true⟩] := members_ofMembers (by decide)
  obtain ⟨-, -, -, -, -, hunionSet, -⟩ := representation_of_built (built_ofMembers _)
  obtain ⟨-, -, -, -, -, hunion, -⟩ := representation_of_built hset
  obtain ⟨-, -, -, hget, hadd, -⟩ := representation_of_built (hset.union hother)
  have hotherMembers : other.members = [⟨third, true⟩, ⟨second, true⟩, ⟨first, true⟩] := by
    rw [(hunionSet set hset).1, names, hmembers, hmembers']
    rfl
  have hall : (set.union other).members = [⟨first, true⟩, ⟨second, false⟩, ⟨third, true⟩] := by
    rw [(hunion other hother).1, names, hmembers, hotherMembers]
    rfl
  have hnames : (set.union other).names = ["a.First", "a.Second", "a.Third"] := by
    rw [names, hall]
    rfl
  have hknown : second.name ∈ (set.union other).names := by
    rw [hnames]
    decide
  obtain ⟨hnew, -, hsame⟩ := hadd second true
  refine ⟨hnames, (hget _ _).mpr ⟨by rw [hall]; simp, rfl⟩, Prod.ext (hsame hknown) ?_⟩
  rw [← Bool.not_eq_true, hnew]
  exact not_not_intro hknown

/-! ### Names of results -/

namespace Consistent

/-- A union has the names of both sets. -/
theorem contains_union (ha : a.Consistent) (hb : b.Consistent) (name : String) :
    (a.union b).contains name = (a.contains name || b.contains name) := by
  rw [Bool.eq_iff_iff, Bool.or_eq_true, (ha.union b).indexed, ha.members_union hb, ha.indexed,
    hb.indexed]
  constructor
  · rintro ⟨member, hmember, hname⟩
    obtain hfirst | hsecond := List.mem_append.mp hmember
    · exact .inl ⟨member, hfirst, hname⟩
    · exact .inr ⟨member, List.mem_of_mem_filter hsecond, hname⟩
  · rintro (⟨member, hmember, hname⟩ | ⟨member, hmember, rfl⟩)
    · exact ⟨member, List.mem_append_left _ hmember, hname⟩
    · -- A name of the second set is there by way of the first one if both have it.
      by_cases hknown : a.contains member.name = true
      · obtain ⟨known, hmem, hname⟩ := (ha.indexed _).mp hknown
        exact ⟨known, List.mem_append_left _ hmem, hname⟩
      · have hnew : member ∈ b.members.filter fun member => !a.contains member.name :=
          List.mem_filter.mpr ⟨hmember, by simpa using hknown⟩
        exact ⟨member, List.mem_append_right _ hnew, rfl⟩

/-- A part of a set has no other names, -/
theorem contains_of_contains_filterMembers (ha : a.Consistent) {keep : ClassMember → Bool}
    (h : (a.filterMembers keep).contains name = true) : a.contains name = true := by
  rw [(consistent_filterMembers keep a).indexed, ha.members_filterMembers] at h
  obtain ⟨member, hmember, rfl⟩ := h
  exact ha.contains_of_mem (List.mem_of_mem_filter hmember)

/-- and if the condition is one on names, it has those that satisfy it. -/
theorem contains_filterMembers_name (ha : a.Consistent) (keep : String → Bool) (name : String) :
    (a.filterMembers fun member => keep member.name).contains name
      = (a.contains name && keep name) := by
  rw [Bool.eq_iff_iff, Bool.and_eq_true, (consistent_filterMembers _ a).indexed,
    ha.members_filterMembers, ha.indexed]
  constructor
  · rintro ⟨member, hmember, rfl⟩
    exact ⟨⟨member, List.mem_of_mem_filter hmember, rfl⟩, (List.mem_filter.mp hmember).2⟩
  · rintro ⟨⟨member, hmember, rfl⟩, hkeep⟩
    exact ⟨member, List.mem_filter.mpr ⟨hmember, hkeep⟩, rfl⟩

theorem contains_intersect (ha : a.Consistent) (b : ClassSet) (name : String) :
    (a.intersect b).contains name = (a.contains name && b.contains name) :=
  ha.contains_filterMembers_name b.contains name

/-! ### Parts of parts and parts of unions -/

/-- The part of a part satisfies both conditions. -/
theorem members_filterMembers_filterMembers (ha : a.Consistent) (keep keep' : ClassMember → Bool) :
    ((a.filterMembers keep).filterMembers keep').members
      = a.members.filter fun member => keep member && keep' member := by
  rw [(consistent_filterMembers keep a).members_filterMembers, ha.members_filterMembers,
    List.filter_filter]
  exact List.filter_congr fun member _ => Bool.and_comm ..

/-- So it does not matter which condition comes first. -/
theorem filterMembers_comm (ha : a.Consistent) (keep keep' : ClassMember → Bool) :
    ((a.filterMembers keep).filterMembers keep').members
      = ((a.filterMembers keep').filterMembers keep).members := by
  rw [ha.members_filterMembers_filterMembers, ha.members_filterMembers_filterMembers]
  exact List.filter_congr fun member _ => Bool.and_comm ..

/-- The part of a union has the part of the first set and that of what the second one adds. -/
theorem union_filterMembers (ha : a.Consistent) (hb : b.Consistent) (keep : ClassMember → Bool) :
    ((a.union b).filterMembers keep).members
      = ((a.filterMembers keep).union ((b.exclude a).filterMembers keep)).members := by
  have hadded := hb.members_filterMembers_filterMembers (fun member => !a.contains member.name) keep
  have hnew : ∀ member ∈ ((b.exclude a).filterMembers keep).members,
      (!(a.filterMembers keep).contains member.name) = true := by
    intro member hmember
    rw [exclude, hadded, List.mem_filter, Bool.and_eq_true, Bool.not_eq_true'] at hmember
    rw [Bool.not_eq_true']
    by_contra hknown
    rw [Bool.not_eq_false] at hknown
    rw [ha.contains_of_contains_filterMembers hknown] at hmember
    exact absurd hmember.2.1 (by decide)
  rw [(consistent_filterMembers keep a).members_union (consistent_filterMembers keep _),
    List.filter_eq_self.mpr hnew, (ha.union b).members_filterMembers, ha.members_union hb,
    List.filter_append, List.filter_filter, ha.members_filterMembers, exclude, hadded]
  simp only [Bool.and_comm]

/-- If the condition is one on names, what the second set has twice does no harm: its part can be
    taken as it is. -/
theorem union_filterMembers_name (ha : a.Consistent) (hb : b.Consistent) (keep : String → Bool) :
    ((a.union b).filterMembers fun member => keep member.name).members
      = ((a.filterMembers fun member => keep member.name).union
          (b.filterMembers fun member => keep member.name)).members := by
  have hmissing : ∀ known kept : Bool, (kept && !known) = (!(known && kept) && kept) := by decide
  rw [(ha.union b).members_filterMembers, ha.members_union hb,
    (consistent_filterMembers _ a).members_union (consistent_filterMembers _ b),
    ha.members_filterMembers, hb.members_filterMembers, List.filter_append, List.filter_filter,
    List.filter_filter]
  simp only [ha.contains_filterMembers_name, hmissing]

/-! ### Laws -/

theorem members_union_assoc (ha : a.Consistent) (hb : b.Consistent) (hc : c.Consistent) :
    ((a.union b).union c).members = (a.union (b.union c)).members := by
  rw [(ha.union b).members_union hc, ha.members_union hb, ha.members_union (hb.union c),
    hb.members_union hc, List.filter_append, List.filter_filter, List.append_assoc]
  simp only [ha.contains_union hb, Bool.not_or]

theorem members_intersect_assoc (ha : a.Consistent) (hb : b.Consistent) (c : ClassSet) :
    ((a.intersect b).intersect c).members = (a.intersect (b.intersect c)).members := by
  have hparts := ha.members_filterMembers_filterMembers (b.contains ·.name) (c.contains ·.name)
  rw [ha.members_intersect]
  simp only [hb.contains_intersect]
  exact hparts

theorem members_union_intersect_self (ha : a.Consistent) (b : ClassSet) :
    (a.union (a.intersect b)).members = a.members := by
  rw [ha.members_union (consistent_intersect a b), ha.members_intersect,
    List.append_right_eq_self, List.filter_eq_nil_iff]
  intro member hmember
  rw [ha.contains_of_mem (List.mem_of_mem_filter hmember)]
  decide

theorem members_intersect_union_self (ha : a.Consistent) (hb : b.Consistent) :
    (a.intersect (a.union b)).members = a.members := by
  rw [ha.members_intersect]
  refine List.filter_eq_self.mpr fun member hmember => ?_
  rw [ha.contains_union hb, ha.contains_of_mem hmember, Bool.true_or]

theorem members_exclude_union (ha : a.Consistent) (hb : b.Consistent) (hc : c.Consistent) :
    (a.exclude (b.union c)).members = ((a.exclude b).exclude c).members := by
  have hparts := ha.members_filterMembers_filterMembers (!b.contains ·.name) (!c.contains ·.name)
  rw [ha.members_exclude]
  simp only [hb.contains_union hc, Bool.not_or]
  exact hparts.symm

theorem names_perm_iff (ha : a.Consistent) (hb : b.Consistent) :
    a.names.Perm b.names ↔ ∀ name, a.contains name = b.contains name := by
  rw [List.perm_ext_iff_of_nodup ha.nodup hb.nodup]
  refine forall_congr' fun name => ?_
  rw [Bool.eq_iff_iff, ha.contains_iff, hb.contains_iff]

theorem names_union_comm (ha : a.Consistent) (hb : b.Consistent) :
    (a.union b).names.Perm (b.union a).names := by
  refine ((ha.union b).names_perm_iff (hb.union a)).mpr fun name => ?_
  rw [ha.contains_union hb, hb.contains_union ha, Bool.or_comm]

theorem names_intersect_comm (ha : a.Consistent) (hb : b.Consistent) :
    (a.intersect b).names.Perm (b.intersect a).names := by
  refine ((consistent_intersect a b).names_perm_iff (consistent_intersect b a)).mpr fun name => ?_
  rw [ha.contains_intersect, hb.contains_intersect, Bool.and_comm]

/-- What a set shares with another and what it does not share make up the set. -/
theorem names_intersect_append_exclude (ha : a.Consistent) (b : ClassSet) :
    ((a.intersect b).names ++ (a.exclude b).names).Perm a.names := by
  rw [names, names, ha.members_intersect, ha.members_exclude, ← List.map_append]
  exact (List.filter_append_perm _ a.members).map _

end Consistent

theorem sameMembers_of_members_eq (h : a.members = b.members) : a.sameMembers b = true := by
  rw [sameMembers, h, beq_self_eq_true]

/-- **Algebra.** Sets that insertions and the algebra make obey the laws of sets, with the order and
    the marks of the members, where both sides take them from the same set.  The directly related
    classes of a union are those of the first set and those of what the second one adds, not those
    of the second one.  Where the sides take members from different sets, they have the same
    names. -/
theorem algebra_of_built (ha : a.Built) (hb : b.Built) (hc : c.Built) :
    ((a.union b).union c).sameMembers (a.union (b.union c)) = true
      ∧ ((a.intersect b).intersect c).sameMembers (a.intersect (b.intersect c)) = true
      ∧ (a.union (a.intersect b)).sameMembers a = true
      ∧ (a.intersect (a.union b)).sameMembers a = true
      ∧ ((a.union b).intersect c).sameMembers ((a.intersect c).union (b.intersect c)) = true
      ∧ ((a.union b).exclude c).sameMembers ((a.exclude c).union (b.exclude c)) = true
      ∧ (a.exclude (b.union c)).sameMembers ((a.exclude b).exclude c) = true
      ∧ (a.intersect b).directOnly.sameMembers (a.directOnly.intersect b) = true
      ∧ (a.exclude b).directOnly.sameMembers (a.directOnly.exclude b) = true
      ∧ (a.union b).directOnly.sameMembers (a.directOnly.union (b.exclude a).directOnly) = true
      ∧ (a.union b).names.Perm (b.union a).names
      ∧ (a.intersect b).names.Perm (b.intersect a).names
      ∧ ((a.intersect b).names ++ (a.exclude b).names).Perm a.names := by
  replace ha := ha.consistent
  replace hb := hb.consistent
  replace hc := hc.consistent
  refine ⟨?unionAssoc, ?intersectAssoc, ?unionSelf, ?intersectSelf, ?unionIntersect, ?unionExclude,
    ?excludeUnion, ?directIntersect, ?directExclude, ?directUnion, ha.names_union_comm hb,
    ha.names_intersect_comm hb, ha.names_intersect_append_exclude b⟩
  all_goals apply sameMembers_of_members_eq
  case unionAssoc => exact ha.members_union_assoc hb hc
  case intersectAssoc => exact ha.members_intersect_assoc hb c
  case unionSelf => exact ha.members_union_intersect_self b
  case intersectSelf => exact ha.members_intersect_union_self hb
  case unionIntersect => exact ha.union_filterMembers_name hb c.contains
  case unionExclude => exact ha.union_filterMembers_name hb fun name => !c.contains name
  case excludeUnion => exact ha.members_exclude_union hb hc
  case directIntersect => exact ha.filterMembers_comm _ _
  case directExclude => exact ha.filterMembers_comm _ _
  case directUnion => exact ha.union_filterMembers hb (·.direct)

/-- A class that two sets mark differently: taken from the second set as it is, it would be among
    the directly related ones. -/
theorem algebra_of_built_conflict :
    let first := ClassDecl.outline "a.First" .ordinary none [] []
    let second := ClassDecl.outline "a.Second" .ordinary none [] []
    let set := ofMembers [⟨first, false⟩, ⟨second, true⟩]
    let other := ofMembers [⟨first, true⟩]
    (set.union other).directOnly.sameMembers
        (set.directOnly.union (other.exclude set).directOnly) = true
      ∧ (set.union other).directOnly.names = ["a.Second"]
      ∧ (set.directOnly.union other.directOnly).names = ["a.Second", "a.First"] := by
  intro first second set other
  have hset : set.Built := built_ofMembers _
  have hother : other.Built := built_ofMembers _
  have hmembers : set.members = [⟨first, false⟩, ⟨second, true⟩] := members_ofMembers (by decide)
  have hmembers' : other.members = [⟨first, true⟩] := members_ofMembers (by decide)
  obtain ⟨-, -, -, -, -, -, -, -, -, hdirect, -⟩ := algebra_of_built hset hother .empty
  refine ⟨hdirect, ?_, ?_⟩
  · rw [names, (hset.consistent.union other).members_directOnly,
      hset.consistent.members_union hother.consistent, hmembers, hmembers']
    simp only [hset.consistent.contains_eq_decide, names, hmembers]
    decide
  · rw [names, (consistent_directOnly set).members_union (consistent_directOnly other),
      hset.consistent.members_directOnly, hother.consistent.members_directOnly, hmembers, hmembers']
    simp only [(consistent_directOnly set).contains_eq_decide, names,
      hset.consistent.members_directOnly, hmembers]
    decide

end ClassAtlas.ClassSet
