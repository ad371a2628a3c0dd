import ClassAtlas.Annotations.Read

namespace ClassAtlas

/-!
# Annotations on uses of types

* `TypeUse` — an annotation, the declaration part it is on and the path into the type there;
* `AnnotationTarget.read` — the target, by its type byte;
* `PathStep.read` — a step of a path;
* `TypeUse.readList` — the table of an attribute.

The places inside method bodies are read over and all count as `code`.
-/

open Reader

/-- An annotated use of a type. -/
structure TypeUse where
  /-- The part of the declaration. -/
  target : AnnotationTarget
  /-- The path into the type there. -/
  path : TypePath
  /-- The annotation. -/
  note : AnnotationUse

/-- A target, behind its type byte.  Local variables come with a table of three numbers a row. -/
def AnnotationTarget.read : Reader AnnotationTarget := do
  let byte ← u8
  if byte = 0x00 then return .classTypeParameter (← u8)
  else if byte = 0x01 then return .methodTypeParameter (← u8)
  else if byte = 0x10 then return .supertype (← u16)
  else if byte = 0x11 then return .classTypeParameterBound (← u8) (← u8)
  else if byte = 0x12 then return .methodTypeParameterBound (← u8) (← u8)
  else if byte = 0x13 then return .field
  else if byte = 0x14 then return .result
  else if byte = 0x15 then return .receiver
  else if byte = 0x16 then return .formalParameter (← u8)
  else if byte = 0x17 then return .throws (← u16)
  else if 0x40 ≤ byte ∧ byte ≤ 0x41 then
    let rows ← u16
    skip (rows.toNat * 6)
    return .code
  else if 0x42 ≤ byte ∧ byte ≤ 0x46 then
    skip 2
    return .code
  else if 0x47 ≤ byte ∧ byte ≤ 0x4B then
    skip 3
    return .code
  else malformed (.badTargetType byte)

/-- A step of a kind and with an argument. -/
def PathStep.ofRaw (kind argument : UInt8) : Except Error PathStep :=
  match PathStep.ofRaw? kind argument with
  | some step => .ok step
  | none => .error (.malformed (.badPathStep kind argument))

/-- A step: its kind and its argument. -/
def PathStep.read : Reader PathStep := do
  let kind ← u8
  let argument ← u8
  PathStep.ofRaw kind argument

/-- A path, behind its length. -/
def TypePath.read : Reader TypePath := do
  times (← u8).toNat PathStep.read

/-- A target, a path and an annotation.  The nesting of each annotation is counted anew. -/
def TypeUse.read (pool : Pool) : Reader TypeUse := do
  let target ← AnnotationTarget.read
  let path ← TypePath.read
  surface
  let note ← AnnotationUse.read pool
  return ⟨target, path, note⟩

/-- Annotated uses behind their count. -/
def TypeUse.readList (pool : Pool) : Reader (List TypeUse) := do
  times (← u16).toNat (TypeUse.read pool)

end ClassAtlas
