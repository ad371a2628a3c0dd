import ClassAtlas.ClassFile.Declaration
import Std.Data.HashSet

namespace ClassAtlas

/-!
# Sets of classes

The answer to a question about a class: classes in the order they were found, no name twice,
each marked as directly related or not.

* `ClassSet` — the set, with `add`, `insert`, `contains`, `get?` and `isDirect?`;
* `union`, `intersect`, `exclude`, `filter`, `directOnly` — the algebra, which keeps the order
  and the marks of the first set;
* `sameMembers` — equality of names, order and marks.
-/

/-- A member of a set. -/
structure ClassMember where
  /-- The class. -/
  decl : ClassDecl
  /-- Whether it is directly related. -/
  direct : Bool

/-- The name of a member. -/
def ClassMember.name (member : ClassMember) : String := member.decl.name

/-- Classes in the order they were found, and their names for look-up. -/
structure ClassSet where
  /-- The members. -/
  members : List ClassMember
  /-- The names of the members. -/
  index : Std.HashSet String

namespace ClassSet

/-- No classes. -/
def empty : ClassSet := ⟨[], ∅⟩

/-- Whether there is a class of a name. -/
def contains (set : ClassSet) (name : String) : Bool := set.index.contains name

/-- One class more, at the end, and whether its name is new; nothing changes if it is not. -/
def add (set : ClassSet) (decl : ClassDecl) (direct : Bool) : ClassSet × Bool :=
  if set.contains decl.name then (set, false)
  else (⟨set.members ++ [⟨decl, direct⟩], set.index.insert decl.name⟩, true)

/-- One class more, unless its name is there already. -/
def insert (set : ClassSet) (decl : ClassDecl) (direct : Bool) : ClassSet :=
  (set.add decl direct).1

/-- Some classes more. -/
def insertAll (set : ClassSet) (members : List ClassMember) : ClassSet :=
  members.foldl (fun set member => set.insert member.decl member.direct) set

/-- The set of some classes. -/
def ofMembers (members : List ClassMember) : ClassSet := empty.insertAll members

/-- The member of a name. -/
def get? (set : ClassSet) (name : String) : Option ClassMember :=
  if set.contains name then set.members.find? (·.name = name) else none

/-- Whether the class of a name is directly related. -/
def isDirect? (set : ClassSet) (name : String) : Option Bool := (set.get? name).map (·.direct)

/-- The names, in order. -/
def names (set : ClassSet) : List String := set.members.map (·.name)

/-- The classes, in order. -/
def decls (set : ClassSet) : List ClassDecl := set.members.map (·.decl)

/-! ### Algebra -/

/-- The first set, then what only the second has. -/
def union (set other : ClassSet) : ClassSet := set.insertAll other.members

/-- The members that satisfy a condition. -/
def filterMembers (keep : ClassMember → Bool) (set : ClassSet) : ClassSet :=
  ofMembers (set.members.filter keep)

/-- What the second set has too. -/
def intersect (set other : ClassSet) : ClassSet :=
  set.filterMembers fun member => other.contains member.name

/-- What the second set does not have. -/
def exclude (set other : ClassSet) : ClassSet :=
  set.filterMembers fun member => !other.contains member.name

/-- The classes that satisfy a condition. -/
def filter (keep : ClassDecl → Bool) (set : ClassSet) : ClassSet :=
  set.filterMembers fun member => keep member.decl

/-- The directly related ones. -/
def directOnly (set : ClassSet) : ClassSet := set.filterMembers (·.direct)

/-! ### The members as a list -/

@[simp] theorem members_empty : empty.members = [] := rfl

/-- A name that is there already changes nothing, not even its mark. -/
theorem insert_of_contains {set : ClassSet} {decl : ClassDecl} (direct : Bool)
    (known : set.contains decl.name = true) : set.insert decl direct = set := by
  simp [insert, add, known]

/-- A new name comes last. -/
theorem members_insert_of_not_contains {set : ClassSet} {decl : ClassDecl} (direct : Bool)
    (fresh : set.contains decl.name = false) :
    (set.insert decl direct).members = set.members ++ [⟨decl, direct⟩] := by
  simp [insert, add, fresh]

/-- The names known after an insertion. -/
theorem contains_insert (set : ClassSet) (decl : ClassDecl) (direct : Bool) (name : String) :
    (set.insert decl direct).contains name = (decl.name == name || set.contains name) := by
  unfold insert add
  split
  · rename_i known
    by_cases same : decl.name = name
    · simp [← same, known]
    · simp [same]
  · simp [contains, Std.HashSet.contains_insert]

/-! ### Comparison and text -/

/-- Whether two sets have the same names in the same order with the same marks. -/
def sameMembers (set other : ClassSet) : Bool :=
  (set.members.map fun member => (member.name, member.direct))
    == other.members.map fun member => (member.name, member.direct)

/-- The names in brackets, the directly related ones with a star. -/
def render (set : ClassSet) : String :=
  "[" ++ String.intercalate ", "
    (set.members.map fun member => member.name ++ if member.direct then "*" else "") ++ "]"

end ClassSet

end ClassAtlas
