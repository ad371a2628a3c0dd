import ClassAtlas.Signature.Basic
import Mathlib.Data.List.Basic

namespace ClassAtlas

/-!
# Types inside types

The class names that are listed of a type are those of the class types anywhere in it: in the
arguments of each of its classes, not of the innermost one only, in bounds and in the elements of
arrays.

* `JavaType.Within` — one type is, or is somewhere inside, another one;
* `JavaType.Mentions` — a type has a class type of this name in it;
* `JavaType.mem_classNames_iff` — these names are listed;
* `MethodSignature.types`, `ClassSignature.types` — the outermost types of a signature, for which
  the same holds.
-/

variable {α : Type} {name : String}

/-! ### In a type -/

/-- The first type is the second one, or stands somewhere inside it. -/
inductive JavaType.Within : JavaType α → JavaType α → Prop
  | here (type : JavaType α) : Within type type
  | argument {type argument : JavaType α} {segments : ClassType α} {segment : ClassSegment α}
      (hsegment : segment ∈ segments) (hargument : argument ∈ segment.arguments)
      (h : Within type argument) : Within type (.ofClass segments)
  | element {type element : JavaType α} (dimensions : List (List α)) (h : Within type element) :
      Within type (.array element dimensions)
  | bound {type bound : JavaType α} (side : BoundSide) (annotations : List α)
      (h : Within type bound) : Within type (.bounded side bound annotations)

namespace JavaType

variable {element bound : JavaType α} {segments : ClassType α}

/-- The type has a class type of this binary name in it. -/
def Mentions (type : JavaType α) (name : String) : Prop :=
  ∃ segments : ClassType α, Within (.ofClass segments) type ∧ name = segments.name

theorem mentions_ofClass_iff : (JavaType.ofClass segments).Mentions name
    ↔ name = segments.name
      ∨ ∃ segment ∈ segments, ∃ argument ∈ segment.arguments, argument.Mentions name := by
  constructor
  · rintro ⟨inner, hwithin, rfl⟩
    cases hwithin with
    | here => exact .inl rfl
    | argument hsegment hargument h =>
      exact .inr ⟨_, hsegment, _, hargument, inner, h, rfl⟩
  · rintro (rfl | ⟨segment, hsegment, argument, hargument, inner, h, rfl⟩)
    · exact ⟨segments, .here _, rfl⟩
    · exact ⟨inner, .argument hsegment hargument h, rfl⟩

theorem mentions_array_iff (dimensions : List (List α)) :
    (JavaType.array element dimensions).Mentions name ↔ element.Mentions name := by
  constructor
  · rintro ⟨inner, hwithin, rfl⟩
    cases hwithin with
    | element _ h => exact ⟨inner, h, rfl⟩
  · rintro ⟨inner, h, rfl⟩
    exact ⟨inner, .element dimensions h, rfl⟩

theorem mentions_bounded_iff (side : BoundSide) (annotations : List α) :
    (JavaType.bounded side bound annotations).Mentions name ↔ bound.Mentions name := by
  constructor
  · rintro ⟨inner, hwithin, rfl⟩
    cases hwithin with
    | bound _ _ h => exact ⟨inner, h, rfl⟩
  · rintro ⟨inner, h, rfl⟩
    exact ⟨inner, .bound side annotations h, rfl⟩

end JavaType

mutual

/-- The names listed of a type are those of the class types in it. -/
theorem JavaType.mem_classNames_iff :
    (type : JavaType α) → (name ∈ type.classNames ↔ type.Mentions name)
  | .primitive _ _ => iff_of_false List.not_mem_nil (by rintro ⟨_, ⟨⟩, -⟩)
  | .ofClass segments => by
    -- The name of the whole type, then those in the arguments of all its classes.
    rw [JavaType.classNames, List.mem_cons, mem_argumentNamesOfSegments_iff segments,
      JavaType.mentions_ofClass_iff]
  | .array element dimensions => by
    rw [JavaType.classNames, element.mem_classNames_iff, JavaType.mentions_array_iff]
  | .typeVariable _ _ => iff_of_false List.not_mem_nil (by rintro ⟨_, ⟨⟩, -⟩)
  | .wildcard _ => iff_of_false List.not_mem_nil (by rintro ⟨_, ⟨⟩, -⟩)
  | .bounded side bound annotations => by
    rw [JavaType.classNames, bound.mem_classNames_iff, JavaType.mentions_bounded_iff]
termination_by structural type => type

theorem mem_argumentNamesOfSegments_iff : (segments : List (ClassSegment α)) →
    (name ∈ argumentNamesOfSegments segments
      ↔ ∃ segment ∈ segments, ∃ argument ∈ segment.arguments, argument.Mentions name)
  | [] => by simp [argumentNamesOfSegments]
  | ⟨_, arguments, _⟩ :: rest => by
    rw [argumentNamesOfSegments, argumentNames, List.mem_append,
      mem_classNamesOfTypes_iff arguments, mem_argumentNamesOfSegments_iff rest,
      List.exists_mem_cons_iff]
termination_by structural segments => segments

theorem mem_classNamesOfTypes_iff : (types : List (JavaType α)) →
    (name ∈ classNamesOfTypes types ↔ ∃ type ∈ types, type.Mentions name)
  | [] => by simp [classNamesOfTypes]
  | type :: rest => by
    rw [classNamesOfTypes, List.mem_append, type.mem_classNames_iff,
      mem_classNamesOfTypes_iff rest, List.exists_mem_cons_iff]
termination_by structural types => types

end

/-! ### In a signature -/

/-- The outermost types of a method: the bounds of its type variables, the parameters, the result
    and what it throws. -/
def MethodSignature.types (signature : MethodSignature α) : List (JavaType α) :=
  signature.typeParameters.flatMap (·.bounds) ++ signature.parameters ++ [signature.result]
    ++ signature.throws

/-- Those of a class: the bounds of its type variables, the superclass and the interfaces. -/
def ClassSignature.types (signature : ClassSignature α) : List (JavaType α) :=
  signature.typeParameters.flatMap (·.bounds)
    ++ (signature.superclass.toList ++ signature.interfaces).map .ofClass

theorem mem_flatMap_classNames_iff {types : List (JavaType α)} :
    name ∈ types.flatMap (·.classNames) ↔ ∃ type ∈ types, type.Mentions name := by
  simp only [List.mem_flatMap, JavaType.mem_classNames_iff]

theorem flatMap_classNames_bounds (parameters : List (TypeParameter α)) :
    parameters.flatMap (·.classNames)
      = (parameters.flatMap (·.bounds)).flatMap (·.classNames) := by
  rw [List.flatMap_assoc]
  rfl

theorem MethodSignature.mem_classNames_iff (signature : MethodSignature α) :
    name ∈ signature.classNames ↔ ∃ type ∈ signature.types, type.Mentions name := by
  rw [← mem_flatMap_classNames_iff, types, classNames, flatMap_classNames_bounds]
  -- The result is listed behind what is thrown.
  simp only [List.flatMap_append, List.flatMap_singleton, List.mem_append]
  rw [← or_assoc, or_right_comm]

theorem ClassSignature.mem_classNames_iff (signature : ClassSignature α) :
    name ∈ signature.classNames ↔ ∃ type ∈ signature.types, type.Mentions name := by
  rw [← mem_flatMap_classNames_iff, types, classNames, flatMap_classNames_bounds]
  simp only [List.flatMap_append, List.map_append, List.flatMap_map]
  rfl

end ClassAtlas
