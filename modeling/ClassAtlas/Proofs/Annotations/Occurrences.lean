import ClassAtlas.Annotations.Basic
import ClassAtlas.Proofs.Signature.Occurrences

namespace ClassAtlas

/-!
# Values inside annotations

The class names that are listed of an annotation are its type and what the values anywhere in it
name: an enum class, the class types in a class literal, the type of another annotation.

* `AnnotationValue.Within` — one value is, or is somewhere inside, another one;
* `AnnotationValue.Names` — what a value names, the values inside it apart;
* `AnnotationUse.Mentions` — an annotation is of this type, or has a value in it that names it;
* `AnnotationUse.mem_classNames_iff` — these names are listed.
-/

variable {name : String}

/-- The first value is the second one, or stands somewhere inside it. -/
inductive AnnotationValue.Within : AnnotationValue → AnnotationValue → Prop
  | here (value : AnnotationValue) : Within value value
  | item {value item : AnnotationValue} {values : List AnnotationValue} (hitem : item ∈ values)
      (h : Within value item) : Within value (.array values)
  | element {value : AnnotationValue} {note : AnnotationUse} {element : AnnotationElement}
      (helement : element ∈ note.elements) (h : Within value element.value) :
      Within value (.nested note)

/-- The value names a class, whatever the values inside it name. -/
inductive AnnotationValue.Names : AnnotationValue → String → Prop
  | enumConstant (typeName constantName : String) :
      Names (.enumConstant typeName constantName) typeName
  | classLiteral {type : BareType} {name : String} (h : type.Mentions name) :
      Names (.classLiteral type) name
  | nested (note : AnnotationUse) : Names (.nested note) note.name

/-- The value has a value in it that names the class. -/
def AnnotationValue.Mentions (value : AnnotationValue) (name : String) : Prop :=
  ∃ inner : AnnotationValue, inner.Within value ∧ inner.Names name

/-- The annotation is of this type, or it has a value in it that names the class. -/
def AnnotationUse.Mentions (note : AnnotationUse) (name : String) : Prop :=
  name = note.name ∨ ∃ element ∈ note.elements, element.value.Mentions name

namespace AnnotationValue

theorem mentions_array_iff {values : List AnnotationValue} :
    (AnnotationValue.array values).Mentions name ↔ ∃ value ∈ values, value.Mentions name := by
  constructor
  · rintro ⟨inner, hwithin, hnames⟩
    cases hwithin with
    | here => cases hnames
    | item hitem h => exact ⟨_, hitem, inner, h, hnames⟩
  · rintro ⟨value, hvalue, inner, h, hnames⟩
    exact ⟨inner, .item hvalue h, hnames⟩

/-- A nested annotation mentions what it would mention by itself. -/
theorem mentions_nested_iff {note : AnnotationUse} :
    (AnnotationValue.nested note).Mentions name ↔ note.Mentions name := by
  constructor
  · rintro ⟨inner, hwithin, hnames⟩
    cases hwithin with
    | here =>
      cases hnames
      exact .inl rfl
    | element helement h => exact .inr ⟨_, helement, inner, h, hnames⟩
  · rintro (rfl | ⟨element, helement, inner, h, hnames⟩)
    · exact ⟨.nested note, .here _, .nested note⟩
    · exact ⟨inner, .element helement h, hnames⟩

theorem mentions_enumConstant_iff (typeName constantName : String) :
    (AnnotationValue.enumConstant typeName constantName).Mentions name ↔ name = typeName := by
  constructor
  · rintro ⟨inner, ⟨⟩, ⟨⟩⟩
    rfl
  · rintro rfl
    exact ⟨_, .here _, .enumConstant ..⟩

theorem mentions_classLiteral_iff {type : BareType} :
    (AnnotationValue.classLiteral type).Mentions name ↔ type.Mentions name := by
  constructor
  · rintro ⟨inner, ⟨⟩, hnames⟩
    cases hnames with
    | classLiteral h => exact h
  · exact fun h => ⟨_, .here _, .classLiteral h⟩

end AnnotationValue

mutual

/-- The names listed of an annotation are its type and what the values in it name. -/
theorem AnnotationUse.mem_classNames_iff :
    (note : AnnotationUse) → (name ∈ note.classNames ↔ note.Mentions name)
  | ⟨type, elements⟩ => by
    rw [AnnotationUse.classNames, List.mem_cons, mem_classNamesOfElements_iff elements]
    rfl
termination_by structural note => note

theorem mem_classNamesOfElements_iff : (elements : List AnnotationElement) →
    (name ∈ classNamesOfElements elements ↔ ∃ element ∈ elements, element.value.Mentions name)
  | [] => by simp [classNamesOfElements]
  | ⟨_, value⟩ :: rest => by
    rw [classNamesOfElements, AnnotationElement.classNames, List.mem_append,
      value.mem_classNames_iff, mem_classNamesOfElements_iff rest, List.exists_mem_cons_iff]
termination_by structural elements => elements

/-- The names listed of a value are what the values in it name. -/
theorem AnnotationValue.mem_classNames_iff :
    (value : AnnotationValue) → (name ∈ value.classNames ↔ value.Mentions name)
  | .constant _ => iff_of_false List.not_mem_nil (by rintro ⟨_, ⟨⟩, ⟨⟩⟩)
  | .enumConstant typeName constantName => by
    rw [AnnotationValue.classNames, List.mem_singleton, AnnotationValue.mentions_enumConstant_iff]
  | .classLiteral type => by
    rw [AnnotationValue.classNames, type.mem_classNames_iff,
      AnnotationValue.mentions_classLiteral_iff]
  | .nested note => by
    rw [AnnotationValue.classNames, note.mem_classNames_iff, AnnotationValue.mentions_nested_iff]
  | .array values => by
    rw [AnnotationValue.classNames, mem_classNamesOfValues_iff values,
      AnnotationValue.mentions_array_iff]
termination_by structural value => value

theorem mem_classNamesOfValues_iff : (values : List AnnotationValue) →
    (name ∈ classNamesOfValues values ↔ ∃ value ∈ values, value.Mentions name)
  | [] => by simp [classNamesOfValues]
  | value :: rest => by
    rw [classNamesOfValues, List.mem_append, value.mem_classNames_iff,
      mem_classNamesOfValues_iff rest, List.exists_mem_cons_iff]
termination_by structural values => values

end

end ClassAtlas
