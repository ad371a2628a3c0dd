import ClassAtlas.Reading.Repetition
import ClassAtlas.Signature.Basic
import ClassAtlas.Text.ClassName

namespace ClassAtlas

/-!
# Reading signatures

The grammar of signatures, one reader for each of its rules.  A type inside a type is one level
deeper, and at most `Reader.nestingLimit - 1` levels can be open.

* `JavaType.readAt` — a type, given how many more levels can be opened;
* `ClassType.readWith` — a class type, given the reader of the types inside it;
* `JavaType.readField`, `JavaType.readReturn`, `MethodSignature.read`, `ClassSignature.read` —
  the whole texts;
* `JavaType.parseField` and its like — the same from a text;
* `readArgumentWith_eq`, `readSegmentsWith_eq`, `JavaType.readAt_succ`, `readThrown_eq` — the
  rules that depend on the next character, as tests on it.
-/

open Reader

variable {α : Type}

/-! ### Names -/

/-- A name up to one of the bytes that end it.  It cannot be empty. -/
def readIdentifier (ends : Char → Bool) : Reader String := do
  let start ← position
  let bytes ← takeUntil fun byte => ends (Text.latin1 byte)
  if bytes.isEmpty then malformed (.emptyIdentifier start)
  else
    match Text.ofUtf8? bytes with
    | some name => return name
    | none => malformed (.invalidIdentifier start)

/-- A type variable: `T`, its name and a semicolon. -/
def readTypeVariable : Reader (JavaType α) := do
  expect 'T'
  let name ← readIdentifier (· = ';')
  expect ';'
  return .typeVariable name []

/-! ### Types, given the reader of the types inside -/

/-- A type that is not primitive: a class type, a type variable or an array. -/
def readReferenceWith (type : Reader (JavaType α)) : Reader (JavaType α) := do
  let next ← peek
  if Text.latin1 next ∈ ['L', 'T', '['] then type
  else malformed (.expectedReference next (← position))

/-- A type argument: a wildcard, or a type that is not primitive. -/
def readArgumentWith (type : Reader (JavaType α)) : Reader (JavaType α) := do
  match Text.latin1 (← peek) with
  | '*' =>
    skip 1
    return .wildcard []
  | '+' =>
    skip 1
    return .bounded .upper (← readReferenceWith type) []
  | '-' =>
    skip 1
    return .bounded .lower (← readReferenceWith type) []
  | _ => readReferenceWith type

/-- Type arguments in angle brackets.  There has to be one. -/
def readArgumentsWith (type : Reader (JavaType α)) : Reader (List (JavaType α)) := do
  expect '<'
  let arguments ← untilByte '>' (readArgumentWith type)
  if arguments.isEmpty then malformed .noTypeArguments
  return arguments

/-- One class of a class type: its name, and its arguments if there are any. -/
def readSegmentWith (type : Reader (JavaType α)) : Reader (ClassSegment α) := do
  let name ← readIdentifier (· ∈ [';', '<', '.'])
  let arguments ← if Text.latin1 (← peek) = '<' then readArgumentsWith type else pure []
  return ⟨name, arguments, []⟩

/-- The classes behind those already read, which are given last first, at most `bound` of them.
    A dot leads to the next class, a semicolon ends the type. -/
def readSegmentsWith (type : Reader (JavaType α)) :
    (bound : Nat) → (read : ClassType α) → Reader (ClassType α)
  | 0, _ => throw .outOfBounds
  | bound + 1, read => do
    let segment ← readSegmentWith type
    let segment :=
      if read.isEmpty then { segment with name := Text.dotted segment.name } else segment
    let offset ← position
    let found ← u8
    match Text.latin1 found with
    | ';' => return (segment :: read).reverse
    | '.' => readSegmentsWith type bound (segment :: read)
    | _ => malformed (.badSegmentEnd found offset)

/-- A class type.  Every class has at least one byte, so there are at most as many as there are
    bytes. -/
def ClassType.readWith (type : Reader (JavaType α)) : Reader (ClassType α) := do
  expect 'L'
  readSegmentsWith type (← get).rest.length []

/-! ### Types -/

/-- The opening brackets of an array, and how many there are.  Something has to follow. -/
def readBrackets : Reader Nat := do
  let dimensions := ((← get).rest.takeWhile (Text.latin1 · = '[')).length
  skip dimensions
  let _ ← peek
  return dimensions

/-- A type, when `room` more levels can be opened; `void` only where it is allowed. -/
def JavaType.readAt : (room : Nat) → (allowVoid : Bool) → Reader (JavaType α)
  | 0, _ => tooDeep
  | room + 1, allowVoid => nested do
    let next ← peek
    match Text.latin1 next with
    | 'L' => return .ofClass (← ClassType.readWith (readAt room false))
    | 'T' => readTypeVariable
    | '[' =>
      let dimensions ← readBrackets
      return .arrayOf (← readAt room false) dimensions
    | c =>
      match Primitive.ofDescriptor? c with
      | some kind =>
        if kind = .void ∧ !allowVoid then malformed (.misplacedVoid (← position))
        else
          skip 1
          return .primitive kind []
      | none => malformed (.unexpectedType next (← position))

/-- A type at the present level. -/
def JavaType.read (allowVoid : Bool) : Reader (JavaType α) := do
  JavaType.readAt (← room) allowVoid

/-- A class type at the present level.  Only the types inside it are a level deeper. -/
def ClassType.read : Reader (ClassType α) := ClassType.readWith (JavaType.read false)

/-! ### Declarations -/

/-- A declared type variable: its name, a colon, the class bound if there is one, and the
    interface bounds, each behind a colon. -/
def TypeParameter.read : Reader (TypeParameter α) := do
  let type := readReferenceWith (JavaType.read false)
  let name ← readIdentifier (· = ':')
  expect ':'
  let classBound ←
    if Text.latin1 (← peek) ∈ ['L', 'T', '['] then some <$> type else pure none
  let interfaceBounds ← marked ':' type
  return ⟨name, classBound, interfaceBounds, []⟩

/-- Declared type variables in angle brackets; nothing at all if there are none. -/
def readTypeParameters : Reader (List (TypeParameter α)) := do
  match (← get).rest with
  | [] => return []
  | next :: _ =>
    if Text.latin1 next ≠ '<' then return []
    skip 1
    let parameters ← untilByte '>' TypeParameter.read
    if parameters.isEmpty then malformed .noTypeParameters
    return parameters

/-- A thrown type: a class type or a type variable, behind a caret. -/
def readThrown : Reader (JavaType α) := do
  expect '^'
  let next ← peek
  match Text.latin1 next with
  | 'L' => return .ofClass (← ClassType.read)
  | 'T' => readTypeVariable
  | _ => malformed (.badThrows next)

/-! ### Whole texts -/

/-- Nothing may follow. -/
def readEnd : Reader Unit := do
  if ← hasMore then malformed (.trailingSignature (← position))

/-- The type of a field. -/
def JavaType.readField : Reader (JavaType α) := do
  let type ← JavaType.read false
  readEnd
  return type

/-- The result type of a method. -/
def JavaType.readReturn : Reader (JavaType α) := do
  let type ← JavaType.read true
  readEnd
  return type

/-- The types of a method. -/
def MethodSignature.read : Reader (MethodSignature α) := do
  let typeParameters ← readTypeParameters
  expect '('
  let parameters ← untilByte ')' (JavaType.read false)
  let result ← JavaType.read true
  let throws ← untilEnd readThrown
  return ⟨typeParameters, parameters, result, throws, none⟩

/-- The type variables and supertypes of a class. -/
def ClassSignature.read : Reader (ClassSignature α) := do
  let typeParameters ← readTypeParameters
  let superclass ← ClassType.read
  let interfaces ← untilEnd ClassType.read
  return ⟨typeParameters, some superclass, interfaces⟩

/-- The type of a field, from its text. -/
def JavaType.parseField (text : String) : Except Error (JavaType α) :=
  JavaType.readField.value (Text.utf8 text)

/-- The result type of a method, from its text. -/
def JavaType.parseReturn (text : String) : Except Error (JavaType α) :=
  JavaType.readReturn.value (Text.utf8 text)

/-- The types of a method, from their text. -/
def MethodSignature.parse (text : String) : Except Error (MethodSignature α) :=
  MethodSignature.read.value (Text.utf8 text)

/-- The type variables and supertypes of a class, from their text. -/
def ClassSignature.parse (text : String) : Except Error (ClassSignature α) :=
  ClassSignature.read.value (Text.utf8 text)

/-! ### The rules, told apart by the next character -/

theorem readArgumentWith_eq (type : Reader (JavaType α)) :
    readArgumentWith type = (do
      let next ← peek
      if Text.latin1 next = '*' then
        skip 1
        return .wildcard []
      else if Text.latin1 next = '+' then
        skip 1
        return .bounded .upper (← readReferenceWith type) []
      else if Text.latin1 next = '-' then
        skip 1
        return .bounded .lower (← readReferenceWith type) []
      else readReferenceWith type) := by
  unfold readArgumentWith
  refine bind_congr fun next => ?_
  generalize Text.latin1 next = c
  split
  case h_4 h1 h2 h3 => rw [if_neg h1, if_neg h2, if_neg h3]
  all_goals rfl

theorem readSegmentsWith_eq (type : Reader (JavaType α)) (bound : Nat) (read : ClassType α) :
    readSegmentsWith type (bound + 1) read = (do
      let segment ← readSegmentWith type
      let segment :=
        if read.isEmpty then { segment with name := Text.dotted segment.name } else segment
      let offset ← position
      let found ← u8
      if Text.latin1 found = ';' then return (segment :: read).reverse
      else if Text.latin1 found = '.' then readSegmentsWith type bound (segment :: read)
      else malformed (.badSegmentEnd found offset)) := by
  rw [readSegmentsWith]
  refine bind_congr fun segment => bind_congr fun offset => bind_congr fun found => ?_
  generalize Text.latin1 found = c
  split
  case h_3 h1 h2 => rw [if_neg h1, if_neg h2]
  all_goals rfl

theorem JavaType.readAt_succ (room : Nat) (allowVoid : Bool) :
    (readAt (room + 1) allowVoid : Reader (JavaType α)) = nested (do
      let next ← peek
      if Text.latin1 next = 'L' then
        return .ofClass (← ClassType.readWith (readAt room false))
      else if Text.latin1 next = 'T' then readTypeVariable
      else if Text.latin1 next = '[' then
        let dimensions ← readBrackets
        return .arrayOf (← readAt room false) dimensions
      else match Primitive.ofDescriptor? (Text.latin1 next) with
        | some kind =>
          if kind = .void ∧ !allowVoid then malformed (.misplacedVoid (← position))
          else
            skip 1
            return .primitive kind []
        | none => malformed (.unexpectedType next (← position))) := by
  rw [readAt]
  refine congrArg nested (bind_congr fun next => ?_)
  generalize Text.latin1 next = c
  split
  case h_4 h1 h2 h3 => rw [if_neg h1, if_neg h2, if_neg h3]
  all_goals rfl

theorem readThrown_eq : (readThrown : Reader (JavaType α)) = (do
    expect '^'
    let next ← peek
    if Text.latin1 next = 'L' then return .ofClass (← ClassType.read)
    else if Text.latin1 next = 'T' then readTypeVariable
    else malformed (.badThrows next)) := by
  unfold readThrown
  refine bind_congr fun _ => bind_congr fun next => ?_
  generalize Text.latin1 next = c
  split
  case h_3 h1 h2 => rw [if_neg h1, if_neg h2]
  all_goals rfl

end ClassAtlas
