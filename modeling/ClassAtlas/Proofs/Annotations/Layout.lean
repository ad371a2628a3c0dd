import ClassAtlas.Annotations.Read
import ClassAtlas.Proofs.Reading.Spelling
import ClassAtlas.Proofs.Signature.RoundTrip

namespace ClassAtlas

open Reader

/-!
# The layout of annotations

Annotations as the records a class file has of them, and what the records mean where a constant
pool says what their indices stand for.

* `AnnotationRecord`, `ElementRecord`, `ValueRecord` — the records, with `encode` for their bytes;
* `AnnotationRecord.Counted` and its like — the records whose lists two bytes can count;
* `AnnotationRecord.levels` and its like — how many levels are open at once while one is read;
* `Pool.Holds`, `Pool.HoldsClass`, `Pool.HoldsConstant`, `Pool.HoldsResult` — what a slot holds;
* `AnnotationRecord.Means` and its like — what a record means.
-/

/-! ### Records -/

/-- The types whose values are constants of the pool. -/
inductive ConstantTag where
  | byte | char | double | float | int | long | short | boolean
  deriving DecidableEq, Repr

/-- The descriptor of the type. -/
def ConstantTag.mark : ConstantTag → Char
  | .byte => 'B'
  | .char => 'C'
  | .double => 'D'
  | .float => 'F'
  | .int => 'I'
  | .long => 'J'
  | .short => 'S'
  | .boolean => 'Z'

mutual

/-- An annotation in a class file. -/
structure AnnotationRecord where
  /-- The index of the descriptor of its type. -/
  type : UInt16
  /-- The elements. -/
  elements : List ElementRecord

/-- An element of an annotation. -/
structure ElementRecord where
  /-- The index of its name. -/
  name : UInt16
  /-- Its value. -/
  value : ValueRecord

/-- A value of an element, with the indices of what it is made of. -/
inductive ValueRecord where
  /-- A primitive value. -/
  | constant (tag : ConstantTag) (index : UInt16)
  /-- A string. -/
  | text (index : UInt16)
  /-- A constant of an enum class. -/
  | enumConstant (type name : UInt16)
  /-- A class literal. -/
  | classLiteral (descriptor : UInt16)
  /-- An annotation. -/
  | nested (note : AnnotationRecord)
  /-- An array of values. -/
  | array (values : List ValueRecord)

end

/-! ### Bytes -/

/-- The byte of a mark. -/
def markByte (mark : Char) : UInt8 := .ofNat mark.toNat

mutual

/-- The type, the number of the elements, and the elements. -/
def AnnotationRecord.encode : AnnotationRecord → List UInt8
  | ⟨type, elements⟩ =>
    spell 2 type.toNat ++ (spell 2 elements.length ++ encodeElements elements)
termination_by structural record => record

/-- Some elements. -/
def encodeElements : List ElementRecord → List UInt8
  | [] => []
  | element :: rest => element.encode ++ encodeElements rest
termination_by structural elements => elements

/-- The name and the value. -/
def ElementRecord.encode : ElementRecord → List UInt8
  | ⟨name, value⟩ => spell 2 name.toNat ++ value.encode
termination_by structural element => element

/-- The tag, and what stands behind it. -/
def ValueRecord.encode : ValueRecord → List UInt8
  | .constant tag index => markByte tag.mark :: spell 2 index.toNat
  | .text index => markByte 's' :: spell 2 index.toNat
  | .enumConstant type name => markByte 'e' :: (spell 2 type.toNat ++ spell 2 name.toNat)
  | .classLiteral descriptor => markByte 'c' :: spell 2 descriptor.toNat
  | .nested note => markByte '@' :: note.encode
  | .array values => markByte '[' :: (spell 2 values.length ++ encodeValues values)
termination_by structural record => record

/-- Some values. -/
def encodeValues : List ValueRecord → List UInt8
  | [] => []
  | value :: rest => value.encode ++ encodeValues rest
termination_by structural values => values

end

theorem encodeElements_eq_flatMap (elements : List ElementRecord) :
    encodeElements elements = elements.flatMap (·.encode) := by
  induction elements with
  | nil => rfl
  | cons element rest ih => rw [encodeElements, ih, List.flatMap_cons]

theorem encodeValues_eq_flatMap (values : List ValueRecord) :
    encodeValues values = values.flatMap (·.encode) := by
  induction values with
  | nil => rfl
  | cons value rest ih => rw [encodeValues, ih, List.flatMap_cons]

mutual

/-- Whether two bytes can count the elements of the annotation and of those inside it, and the
    values of the arrays inside it. -/
def AnnotationRecord.Counted : AnnotationRecord → Prop
  | ⟨_, elements⟩ => elements.length < 65536 ∧ ElementsCounted elements
termination_by structural record => record

/-- The same of all the elements. -/
def ElementsCounted : List ElementRecord → Prop
  | [] => True
  | element :: rest => element.Counted ∧ ElementsCounted rest
termination_by structural elements => elements

/-- The same of an element. -/
def ElementRecord.Counted : ElementRecord → Prop
  | ⟨_, value⟩ => value.Counted
termination_by structural element => element

/-- The same of a value. -/
def ValueRecord.Counted : ValueRecord → Prop
  | .nested note => note.Counted
  | .array values => values.length < 65536 ∧ ValuesCounted values
  | _ => True
termination_by structural record => record

/-- The same of all the values. -/
def ValuesCounted : List ValueRecord → Prop
  | [] => True
  | value :: rest => value.Counted ∧ ValuesCounted rest
termination_by structural values => values

end

theorem elementsCounted_iff (elements : List ElementRecord) :
    ElementsCounted elements ↔ ∀ element ∈ elements, element.Counted := by
  induction elements with
  | nil => simp [ElementsCounted]
  | cons element rest ih => rw [ElementsCounted, ih, List.forall_mem_cons]

theorem valuesCounted_iff (values : List ValueRecord) :
    ValuesCounted values ↔ ∀ value ∈ values, value.Counted := by
  induction values with
  | nil => simp [ValuesCounted]
  | cons value rest ih => rw [ValuesCounted, ih, List.forall_mem_cons]

/-! ### Levels -/

mutual

/-- How many levels are open at once while the annotation is read: one for the annotation, and
    those of its values. -/
def AnnotationRecord.levels : AnnotationRecord → Nat
  | ⟨_, elements⟩ => levelsOfElements elements + 1
termination_by structural record => record

/-- The levels of the element with the most. -/
def levelsOfElements : List ElementRecord → Nat
  | [] => 0
  | element :: rest => max element.levels (levelsOfElements rest)
termination_by structural elements => elements

/-- The levels of the value of the element. -/
def ElementRecord.levels : ElementRecord → Nat
  | ⟨_, value⟩ => value.levels
termination_by structural element => element

/-- The same of a value: one for the value, and those of what is inside it. -/
def ValueRecord.levels : ValueRecord → Nat
  | .nested note => note.levels + 1
  | .array values => levelsOfValues values + 1
  | _ => 1
termination_by structural record => record

/-- The levels of the value with the most. -/
def levelsOfValues : List ValueRecord → Nat
  | [] => 0
  | value :: rest => max value.levels (levelsOfValues rest)
termination_by structural values => values

end

theorem levelsOfElements_le_iff (elements : List ElementRecord) (room : Nat) :
    levelsOfElements elements ≤ room ↔ ∀ element ∈ elements, element.levels ≤ room := by
  induction elements with
  | nil => simp [levelsOfElements]
  | cons element rest ih => rw [levelsOfElements, Nat.max_le, ih, List.forall_mem_cons]

theorem levelsOfValues_le_iff (values : List ValueRecord) (room : Nat) :
    levelsOfValues values ≤ room ↔ ∀ value ∈ values, value.levels ≤ room := by
  induction values with
  | nil => simp [levelsOfValues]
  | cons value rest ih => rw [levelsOfValues, Nat.max_le, ih, List.forall_mem_cons]

theorem AnnotationRecord.levels_pos (record : AnnotationRecord) : 0 < record.levels := by
  cases record with
  | mk type elements => exact Nat.succ_pos _

theorem ValueRecord.levels_pos (record : ValueRecord) : 0 < record.levels := by
  cases record with
  | nested note => exact Nat.succ_pos _
  | array values => exact Nat.succ_pos _
  | _ => exact Nat.one_pos

/-! ### What an index stands for -/

section

variable {pool : Pool} {index : UInt16}

/-- The slot holds the entry. -/
def Pool.Holds (pool : Pool) (index : UInt16) (entry : Entry) : Prop :=
  pool.entries[index.toNat]? = some entry

instance {entry : Entry} : Decidable (pool.Holds index entry) :=
  inferInstanceAs (Decidable (_ = _))

/-- The slot holds the descriptor of the class of this binary name: its internal name, which is not
    empty, between `L` and a semicolon. -/
def Pool.HoldsClass (pool : Pool) (index : UInt16) (name : String) : Prop :=
  ∃ internal, internal ≠ "" ∧ pool.Holds index (.utf8 ("L" ++ internal ++ ";"))
    ∧ Text.dotted internal = name

/-- The slot holds the text of this type, which may be the result of a method. -/
def Pool.HoldsResult (pool : Pool) (index : UInt16) (type : BareType) : Prop :=
  pool.Holds index (.utf8 type.encode) ∧ type.bare = type ∧ type.WellFormedAt .result
    ∧ type.levels < nestingLimit

/-- The constant of the type that an entry gives, if the entry is for that type. -/
def ConstantTag.value? : ConstantTag → Entry → Option Constant
  | .byte, .integer value => some (.byte value.toInt8)
  | .char, .integer value => some (.ofUnit value.toUInt32.toUInt16)
  | .double, .double bits => some (.double bits)
  | .float, .float bits => some (.float bits)
  | .int, .integer value => some (.int value)
  | .long, .long value => some (.long value)
  | .short, .integer value => some (.short value.toInt16)
  | .boolean, .integer value => some (.boolean (value ≠ 0))
  | _, _ => none

/-- The slot holds a constant of the type. -/
def Pool.HoldsConstant (pool : Pool) (tag : ConstantTag) (index : UInt16) (constant : Constant) :
    Prop :=
  ∃ entry, pool.Holds index entry ∧ tag.value? entry = some constant

theorem Pool.get_eq_ok {entry : Entry} :
    pool.get index = .ok entry ↔ pool.Holds index entry ∧ entry ≠ .reserved := by
  unfold get Holds
  split
  -- A slot that is reserved is refused like one that there is not.
  · rename_i hslot
    simp only [hslot, Option.some.injEq, reduceCtorEq, false_iff]
    rintro ⟨rfl, hne⟩
    exact hne rfl
  · rename_i hslot
    simp [hslot]
  · rename_i found hother hslot
    simp only [hslot, Except.ok.injEq, Option.some.injEq]
    constructor
    · rintro rfl
      exact ⟨rfl, hother⟩
    · exact And.left

theorem Pool.utf8_eq_ok {text : String} :
    pool.utf8 index = .ok text ↔ pool.Holds index (.utf8 text) := by
  unfold utf8
  rw [except_bind_eq_ok]
  constructor
  · rintro ⟨entry, hentry, htext⟩
    split at htext
    · cases htext
      exact (get_eq_ok.mp hentry).1
    · cases htext
  · intro hslot
    exact ⟨.utf8 text, get_eq_ok.mpr ⟨hslot, by simp⟩, rfl⟩

/-- A class descriptor is the name it has inside, between `L` and a semicolon. -/
theorem Pool.describedClass?_eq_some {descriptor internal : String} :
    Pool.describedClass? descriptor.toList = some internal
      ↔ descriptor = "L" ++ internal ++ ";" := by
  have hform : descriptor = "L" ++ internal ++ ";"
      ↔ descriptor.toList = 'L' :: (internal.toList ++ [';']) := by
    rw [← String.toList_inj, String.toList_append, String.toList_append]
    rfl
  rw [hform]
  unfold describedClass?
  split
  · rename_i rest hrest
    rw [hrest]
    constructor
    · intro hsome
      split at hsome
      · rename_i hlast
        obtain ⟨front, rfl⟩ := List.getLast?_eq_some_iff.mp hlast
        cases hsome
        simp
      · cases hsome
    · intro hrest
      obtain rfl := List.tail_eq_of_cons_eq hrest
      simp
  · rename_i hother
    refine iff_of_false (by simp) fun h => ?_
    exact hother _ h

theorem Pool.describedClass_eq_ok {name : String} :
    pool.describedClass index = .ok name ↔ pool.HoldsClass index name := by
  unfold describedClass HoldsClass
  simp only [except_bind_eq_ok, utf8_eq_ok]
  constructor
  · rintro ⟨descriptor, hslot, hname⟩
    split at hname
    · rename_i internal hinternal
      split at hname
      · cases hname
      · rename_i hne
        cases hname
        rw [describedClass?_eq_some] at hinternal
        subst hinternal
        refine ⟨internal, ?_, hslot, rfl⟩
        simpa using hne
    · cases hname
  · rintro ⟨internal, hne, hslot, rfl⟩
    refine ⟨_, hslot, ?_⟩
    rw [describedClass?_eq_some.mpr rfl]
    have hsome : ¬ internal.isEmpty = true := by simpa using hne
    dsimp only
    rw [if_neg hsome]
    rfl

theorem Pool.holdsResult_iff {type : BareType} :
    pool.HoldsResult index type
      ↔ ∃ text, pool.utf8 index = .ok text ∧ JavaType.parseReturn text = .ok type := by
  unfold JavaType.parseReturn
  simp only [utf8_eq_ok, JavaType.readsExactly_readReturn.ok_iff]
  constructor
  · rintro ⟨hslot, htype⟩
    exact ⟨_, hslot, rfl, htype⟩
  · rintro ⟨text, hslot, htext, htype⟩
    obtain rfl := Text.utf8_injective htext
    exact ⟨hslot, htype⟩

/-- The constant of a type is worked out from the entry. -/
theorem Pool.constant_mark (tag : ConstantTag) :
    pool.constant index tag.mark.toString = (do
      let entry ← pool.get index
      match tag.value? entry with
      | some constant => return constant
      | none => throw (.malformed (.badConstant index entry.kind tag.mark.toString))) := by
  refine bind_congr fun entry => ?_
  -- Both sides are tables of the types and the sorts of entries, with the same places filled.
  cases tag <;> cases entry <;> rfl

theorem Pool.constant_eq_ok (tag : ConstantTag) {constant : Constant} :
    pool.constant index tag.mark.toString = .ok constant
      ↔ pool.HoldsConstant tag index constant := by
  unfold HoldsConstant
  simp only [constant_mark, except_bind_eq_ok, get_eq_ok]
  constructor
  · rintro ⟨entry, ⟨hslot, -⟩, hvalue⟩
    split at hvalue
    · rename_i found hfound
      cases hvalue
      exact ⟨entry, hslot, hfound⟩
    · cases hvalue
  · rintro ⟨entry, hslot, hvalue⟩
    have hsome : entry ≠ .reserved := by
      rintro rfl
      cases tag <;> cases hvalue
    refine ⟨entry, ⟨hslot, hsome⟩, ?_⟩
    rw [hvalue]
    rfl

end

/-! ### Meaning -/

section

variable (pool : Pool)

mutual

/-- The annotation is the one that the record means. -/
def AnnotationRecord.Means : AnnotationRecord → AnnotationUse → Prop
  | ⟨type, elements⟩, note =>
    pool.HoldsClass type note.name ∧ ElementsMean elements note.elements
termination_by structural record => record

/-- Each element in its turn. -/
def ElementsMean : List ElementRecord → List AnnotationElement → Prop
  | [], elements => elements = []
  | record :: rest, elements =>
    ∃ element later, record.Means element ∧ ElementsMean rest later ∧ elements = element :: later
termination_by structural records => records

/-- An element: its name and its value. -/
def ElementRecord.Means : ElementRecord → AnnotationElement → Prop
  | ⟨name, value⟩, element => pool.Holds name (.utf8 element.name) ∧ value.Means element.value
termination_by structural record => record

/-- A value: what its indices stand for, and the values inside it. -/
def ValueRecord.Means : ValueRecord → AnnotationValue → Prop
  | .constant tag index, value =>
    ∃ constant, pool.HoldsConstant tag index constant ∧ .constant constant = value
  | .text index, value => ∃ text, pool.Holds index (.utf8 text) ∧ .constant (.string text) = value
  | .enumConstant type name, value =>
    ∃ typeName, pool.HoldsClass type typeName ∧ ∃ constantName,
      pool.Holds name (.utf8 constantName) ∧ .enumConstant typeName constantName = value
  | .classLiteral descriptor, value =>
    ∃ type, pool.HoldsResult descriptor type ∧ .classLiteral type = value
  | .nested record, value => ∃ note, record.Means note ∧ .nested note = value
  | .array records, value => ∃ values, ValuesMean records values ∧ .array values = value
termination_by structural record => record

/-- Each value in its turn. -/
def ValuesMean : List ValueRecord → List AnnotationValue → Prop
  | [], values => values = []
  | record :: rest, values =>
    ∃ value later, record.Means value ∧ ValuesMean rest later ∧ values = value :: later
termination_by structural records => records

end

theorem elementsMean_iff (records : List ElementRecord) (elements : List AnnotationElement) :
    ElementsMean pool records elements
      ↔ List.Forall₂ (ElementRecord.Means pool) records elements := by
  induction records generalizing elements with
  | nil => rw [ElementsMean, List.forall₂_nil_left_iff]
  | cons record rest ih => simp only [ElementsMean, ih, List.forall₂_cons_left_iff]

theorem valuesMean_iff (records : List ValueRecord) (values : List AnnotationValue) :
    ValuesMean pool records values ↔ List.Forall₂ (ValueRecord.Means pool) records values := by
  induction records generalizing values with
  | nil => rw [ValuesMean, List.forall₂_nil_left_iff]
  | cons record rest ih => simp only [ValuesMean, ih, List.forall₂_cons_left_iff]

end

end ClassAtlas
