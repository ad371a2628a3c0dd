import ClassAtlas.Annotations.Basic
import ClassAtlas.Pool.Table
import ClassAtlas.Reading.Repetition
import ClassAtlas.Signature.Parse

namespace ClassAtlas

/-!
# Reading annotations

An annotation names its type, its elements and its constants by pool indices.  An annotation in
a value and a value in an array are one level deeper; at most `Reader.nestingLimit - 1` levels
can be open.

* `Pool.describedClass` — the class that a descriptor in the pool names;
* `AnnotationUse.readWith`, `AnnotationValue.readWith` — one level, given the readers of what is
  inside;
* `AnnotationUse.readAt`, `AnnotationValue.readAt` — all levels, given how many can be opened;
* `AnnotationUse.read`, `AnnotationUse.readList`, `AnnotationUse.readParameters`,
  `AnnotationValue.read` — the structures of the annotation attributes.
-/

open Reader

/-- The class whose descriptor is in a slot. -/
def Pool.describedClass (pool : Pool) (index : UInt16) : Except Error String := do
  let descriptor ← pool.utf8 index
  match Pool.describedClass? descriptor.toList with
  | some name =>
    if name.isEmpty then throw (.malformed (.notClassDescriptor index descriptor))
    else return Text.dotted name
  | none => throw (.malformed (.notClassDescriptor index descriptor))

/-- The fields of an annotation: its type, and as many elements as it says, each with its name
    and its value. -/
def AnnotationUse.readWith (pool : Pool) (value : Reader AnnotationValue) :
    Reader AnnotationUse := do
  let name ← pool.describedClass (← u16)
  let count ← u16
  let elements ← times count.toNat do
    let name ← pool.utf8 (← u16)
    return ⟨name, ← value⟩
  return ⟨name, elements⟩

/-- The descriptors of the types whose values are constants of the pool. -/
def constantTags : List Char := ['B', 'C', 'D', 'F', 'I', 'J', 'S', 'Z']

/-- The tag of a value and what follows it, given the readers of the annotations and the values
    inside. -/
def AnnotationValue.readWith (pool : Pool) (note : Reader AnnotationUse)
    (value : Reader AnnotationValue) : Reader AnnotationValue := do
  let offset ← position
  let tag ← u8
  if Text.latin1 tag ∈ constantTags then
    return .constant (← pool.constant (← u16) (Text.latin1 tag).toString)
  else
    match Text.latin1 tag with
    | 's' => return .constant (.string (← pool.utf8 (← u16)))
    | 'e' =>
      let typeIndex ← u16
      let nameIndex ← u16
      let typeName ← pool.describedClass typeIndex
      return .enumConstant typeName (← pool.utf8 nameIndex)
    | 'c' =>
      let descriptor ← pool.utf8 (← u16)
      let type : BareType ← JavaType.parseReturn descriptor
      return .classLiteral type
    | '@' => return .nested (← note)
    | '[' => return .array (← times (← u16).toNat value)
    | _ => malformed (.badElementTag tag offset)

mutual

/-- An annotation, when `room` more levels can be opened. -/
def AnnotationUse.readAt (pool : Pool) : (room : Nat) → Reader AnnotationUse
  | 0 => tooDeep
  | room + 1 => framed (AnnotationUse.readWith pool (AnnotationValue.readAt pool room))
termination_by structural room => room

/-- A value, when `room` more levels can be opened. -/
def AnnotationValue.readAt (pool : Pool) : (room : Nat) → Reader AnnotationValue
  | 0 => tooDeep
  | room + 1 =>
    framed
      (AnnotationValue.readWith pool (AnnotationUse.readAt pool room)
        (AnnotationValue.readAt pool room))
termination_by structural room => room

end

/-- An annotation at the present level. -/
def AnnotationUse.read (pool : Pool) : Reader AnnotationUse := do
  AnnotationUse.readAt pool (← room)

/-- A value at the present level. -/
def AnnotationValue.read (pool : Pool) : Reader AnnotationValue := do
  AnnotationValue.readAt pool (← room)

/-- Annotations behind their count. -/
def AnnotationUse.readList (pool : Pool) : Reader (List AnnotationUse) := do
  times (← u16).toNat (AnnotationUse.read pool)

/-- The annotations of each parameter, behind the number of parameters. -/
def AnnotationUse.readParameters (pool : Pool) : Reader (List (List AnnotationUse)) := do
  times (← u8).toNat (AnnotationUse.readList pool)

end ClassAtlas
