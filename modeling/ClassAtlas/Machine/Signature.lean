import ClassAtlas.Machine.Reading
import ClassAtlas.Signature.Parse

namespace ClassAtlas.Machine

/-!
# Reading signatures by a position

The grammar of signatures, one step for each of its rules, over the text as it is.

* `readTypeAt` — a type, with a bound on the levels behind which the recursion is endless;
* `readFieldType`, `readReturnType`, `readMethodSignature`, `readClassSignature` — whole texts;
* `parseFieldType` and its like — the same from a text.
-/

variable {α : Type}

/-! ### Names -/

/-- A name up to one of the bytes that end it.  It cannot be empty. -/
def readIdentifier (ends : Char → Bool) : Step String := do
  let start ← position
  let bytes ← takeUntil fun byte => ends (Text.latin1 byte)
  if bytes.isEmpty then malformed (.emptyIdentifier start)
  else
    match Text.ofUtf8? bytes with
    | some name => return name
    | none => malformed (.invalidIdentifier start)

/-- A type variable: `T`, its name and a semicolon. -/
def readTypeVariable : Step (JavaType α) := do
  expect 'T'
  let name ← readIdentifier (· = ';')
  expect ';'
  return .typeVariable name []

/-! ### Types, given the step for the types inside -/

/-- A type that is not primitive: a class type, a type variable or an array. -/
def readReferenceWith (type : Step (JavaType α)) : Step (JavaType α) := do
  let next ← peek
  if Text.latin1 next ∈ ['L', 'T', '['] then type
  else malformed (.expectedReference next (← position))

/-- A type argument: a wildcard, or a type that is not primitive. -/
def readArgumentWith (type : Step (JavaType α)) : Step (JavaType α) := do
  let next ← peek
  if Text.latin1 next = '*' then
    skip 1
    return .wildcard []
  else if Text.latin1 next = '+' then
    skip 1
    return .bounded .upper (← readReferenceWith type) []
  else if Text.latin1 next = '-' then
    skip 1
    return .bounded .lower (← readReferenceWith type) []
  else readReferenceWith type

/-- Type arguments in angle brackets.  There has to be one. -/
def readArgumentsWith (type : Step (JavaType α)) : Step (List (JavaType α)) := do
  expect '<'
  let arguments ← untilByte '>' (readArgumentWith type)
  if arguments.isEmpty then malformed .noTypeArguments
  return arguments

/-- One class of a class type: its name, and its arguments if there are any. -/
def readSegmentWith (type : Step (JavaType α)) : Step (ClassSegment α) := do
  let name ← readIdentifier (· ∈ [';', '<', '.'])
  let arguments ← if Text.latin1 (← peek) = '<' then readArgumentsWith type else pure []
  return ⟨name, arguments, []⟩

/-- The classes behind those already read, which are given last first.  A dot leads to the next
    class, a semicolon ends the type. -/
def readSegmentsWith (type : Step (JavaType α)) :
    (bound : Nat) → (read : ClassType α) → Step (ClassType α)
  | 0, _ => faulty .endless
  | bound + 1, read => do
    let segment ← readSegmentWith type
    let segment :=
      if read.isEmpty then { segment with name := Text.dotted segment.name } else segment
    let found ← u8
    if Text.latin1 found = ';' then return (segment :: read).reverse
    else if Text.latin1 found = '.' then readSegmentsWith type bound (segment :: read)
    else malformed (.badSegmentEnd found (← lastPosition))

/-- A class type. -/
def readClassTypeWith (type : Step (JavaType α)) : Step (ClassType α) := do
  expect 'L'
  readSegmentsWith type ((← remaining) + 1) []

/-! ### Types -/

/-- Counts the opening brackets of an array behind those already counted. -/
def readBracketsAfter : (bound : Nat) → (dimensions : Nat) → Step Nat
  | 0, _ => faulty .endless
  | bound + 1, dimensions => do
    if Text.latin1 (← peek) = '[' then
      skip 1
      readBracketsAfter bound (← add dimensions 1)
    else return dimensions

/-- The opening brackets of an array, and how many there are. -/
def readBrackets : Step Nat := do
  readBracketsAfter ((← remaining) + 1) 0

/-- A type, with as many levels inside it as are left; `void` only where it is allowed. -/
def readTypeAt : (levels : Nat) → (allowVoid : Bool) → Step (JavaType α)
  | 0, _ => faulty .endless
  | levels + 1, allowVoid => nested do
    let next ← peek
    if Text.latin1 next = 'L' then
      return .ofClass (← readClassTypeWith (readTypeAt levels false))
    else if Text.latin1 next = 'T' then readTypeVariable
    else if Text.latin1 next = '[' then
      let dimensions ← readBrackets
      return .arrayOf (← readTypeAt levels false) dimensions
    else
      match Primitive.ofDescriptor? (Text.latin1 next) with
      | some kind =>
        if kind = .void ∧ !allowVoid then malformed (.misplacedVoid (← position))
        else
          skip 1
          return .primitive kind []
      | none => malformed (.unexpectedType next (← position))

/-- A type at the present level. -/
def readType (allowVoid : Bool) : Step (JavaType α) := readTypeAt Reader.nestingLimit allowVoid

/-- A class type at the present level. -/
def readClassType : Step (ClassType α) := readClassTypeWith (readType false)

/-! ### Declarations -/

/-- A declared type variable: its name, a colon, the class bound if there is one, and the interface
    bounds, each behind a colon. -/
def readTypeParameter : Step (TypeParameter α) := do
  let type := readReferenceWith (readType false)
  let name ← readIdentifier (· = ':')
  expect ':'
  let classBound ←
    if Text.latin1 (← peek) ∈ ['L', 'T', '['] then some <$> type else pure none
  let interfaceBounds ← marked ':' type
  return ⟨name, classBound, interfaceBounds, []⟩

/-- Declared type variables in angle brackets; nothing at all if there are none. -/
def readTypeParameters : Step (List (TypeParameter α)) := do
  if ← hasMore then
    let next ← peek
    if Text.latin1 next ≠ '<' then return []
    else
      skip 1
      let parameters ← untilByte '>' readTypeParameter
      if parameters.isEmpty then malformed .noTypeParameters
      return parameters
  else return []

/-- A thrown type: a class type or a type variable, behind a caret. -/
def readThrown : Step (JavaType α) := do
  expect '^'
  let next ← peek
  if Text.latin1 next = 'L' then return .ofClass (← readClassType)
  else if Text.latin1 next = 'T' then readTypeVariable
  else malformed (.badThrows next)

/-! ### Whole texts -/

/-- Nothing may follow. -/
def readEnd : Step Unit := do
  if ← hasMore then malformed (.trailingSignature (← position))

/-- The type of a field. -/
def readFieldType : Step (JavaType α) := do
  let type ← readType false
  readEnd
  return type

/-- The result type of a method. -/
def readReturnType : Step (JavaType α) := do
  let type ← readType true
  readEnd
  return type

/-- The types of a method. -/
def readMethodSignature : Step (MethodSignature α) := do
  let typeParameters ← readTypeParameters
  expect '('
  let parameters ← untilByte ')' (readType false)
  let result ← readType true
  let throws ← untilEnd readThrown
  return ⟨typeParameters, parameters, result, throws, none⟩

/-- The type variables and supertypes of a class. -/
def readClassSignature : Step (ClassSignature α) := do
  let typeParameters ← readTypeParameters
  let superclass ← readClassType
  let interfaces ← untilEnd readClassType
  return ⟨typeParameters, some superclass, interfaces⟩

/-- The type of a field, from its text. -/
def parseFieldType (text : String) : Checked (JavaType α) := readFieldType.value (Text.utf8 text)

/-- The result type of a method, from its text. -/
def parseReturnType (text : String) : Checked (JavaType α) := readReturnType.value (Text.utf8 text)

/-- The types of a method, from their text. -/
def parseMethodSignature (text : String) : Checked (MethodSignature α) :=
  readMethodSignature.value (Text.utf8 text)

/-- The type variables and supertypes of a class, from their text. -/
def parseClassSignature (text : String) : Checked (ClassSignature α) :=
  readClassSignature.value (Text.utf8 text)

end ClassAtlas.Machine
