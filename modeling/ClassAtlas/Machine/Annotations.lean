import ClassAtlas.Annotations.TypeUse
import ClassAtlas.Machine.Signature

namespace ClassAtlas.Machine

/-!
# Reading annotations by a position

* `readAnnotationAt`, `readValueAt` — with a bound on the levels behind which the recursion is
  endless;
* `readAnnotations`, `readParameterAnnotations`, `readValue`, `readTypeUses` — the structures of the
  annotation attributes.
-/

/-! ### Annotations and values -/

/-- The fields of an annotation, given the step for the values inside. -/
def readAnnotationWith (pool : Pool) (value : Step AnnotationValue) : Step AnnotationUse := do
  let name ← pool.describedClass (← u16)
  let count ← u16
  let elements ← times count.toNat do
    let name ← pool.utf8 (← u16)
    return ⟨name, ← value⟩
  return ⟨name, elements⟩

/-- What stands behind the tag of a value, given the steps for the annotations and the values
    inside; the mark is the character of the tag. -/
def readBehindMark (pool : Pool) (note : Step AnnotationUse) (value : Step AnnotationValue)
    (tag : UInt8) (mark : Char) : Step AnnotationValue := do
  match mark with
  | 's' => return .constant (.string (← pool.utf8 (← u16)))
  | 'e' =>
    let typeIndex ← u16
    let nameIndex ← u16
    let typeName ← pool.describedClass typeIndex
    return .enumConstant typeName (← pool.utf8 nameIndex)
  | 'c' =>
    let descriptor ← pool.utf8 (← u16)
    let type : BareType ← parseReturnType descriptor
    return .classLiteral type
  | '@' => return .nested (← note)
  | '[' => return .array (← times (← u16).toNat value)
  | _ => malformed (.badElementTag tag (← lastPosition))

/-- The tag of a value and what follows it. -/
def readValueWith (pool : Pool) (note : Step AnnotationUse) (value : Step AnnotationValue) :
    Step AnnotationValue := do
  let tag ← u8
  if Text.latin1 tag ∈ constantTags then
    return .constant (← pool.constant (← u16) (Text.latin1 tag).toString)
  else readBehindMark pool note value tag (Text.latin1 tag)

mutual

/-- An annotation, with as many levels inside it as are left. -/
def readAnnotationAt (pool : Pool) : (levels : Nat) → Step AnnotationUse
  | 0 => faulty .endless
  | levels + 1 => framed (readAnnotationWith pool (readValueAt pool levels))
termination_by structural levels => levels

/-- A value, with as many levels inside it as are left. -/
def readValueAt (pool : Pool) : (levels : Nat) → Step AnnotationValue
  | 0 => faulty .endless
  | levels + 1 =>
    framed (readValueWith pool (readAnnotationAt pool levels) (readValueAt pool levels))
termination_by structural levels => levels

end

/-- An annotation at the present level. -/
def readAnnotationUse (pool : Pool) : Step AnnotationUse :=
  readAnnotationAt pool Reader.nestingLimit

/-- A value at the present level. -/
def readValue (pool : Pool) : Step AnnotationValue := readValueAt pool Reader.nestingLimit

/-- Annotations behind their count. -/
def readAnnotations (pool : Pool) : Step (List AnnotationUse) := do
  times (← u16).toNat (readAnnotationUse pool)

/-- The annotations of each parameter, behind the number of parameters. -/
def readParameterAnnotations (pool : Pool) : Step (List (List AnnotationUse)) := do
  times (← u8).toNat (readAnnotations pool)

/-! ### Annotations on uses of types -/

/-- A target, behind its type byte. -/
def readTarget : Step AnnotationTarget := do
  let byte ← u8
  if byte = 0x00 then return .classTypeParameter (← u8)
  else if byte = 0x01 then return .methodTypeParameter (← u8)
  else if byte = 0x10 then return .supertype (← u16)
  else if byte = 0x11 then return .classTypeParameterBound (← u8) (← u8)
  else if byte = 0x12 then return .methodTypeParameterBound (← u8) (← u8)
  else if byte = 0x13 then return .field
  else if byte = 0x14 then return .result
  else if byte = 0x15 then return .receiver
  else if byte = 0x16 then return .formalParameter (← u8)
  else if byte = 0x17 then return .throws (← u16)
  else if 0x40 ≤ byte ∧ byte ≤ 0x41 then
    let rows ← u16
    skip (← multiply rows.toNat 6)
    return .code
  else if 0x42 ≤ byte ∧ byte ≤ 0x46 then
    skip 2
    return .code
  else if 0x47 ≤ byte ∧ byte ≤ 0x4B then
    skip 3
    return .code
  else malformed (.badTargetType byte)

/-- A step of a path: its kind and its argument. -/
def readPathStep : Step PathStep := do
  let kind ← u8
  let argument ← u8
  PathStep.ofRaw kind argument

/-- A path, behind its length. -/
def readPath : Step TypePath := do
  times (← u8).toNat readPathStep

/-- A target, a path and an annotation.  The nesting of each annotation is counted anew. -/
def readTypeUse (pool : Pool) : Step TypeUse := do
  let target ← readTarget
  let path ← readPath
  surface
  let note ← readAnnotationUse pool
  return ⟨target, path, note⟩

/-- Annotated uses behind their count. -/
def readTypeUses (pool : Pool) : Step (List TypeUse) := do
  times (← u16).toNat (readTypeUse pool)

end ClassAtlas.Machine
