import ClassAtlas.Error

namespace ClassAtlas

/-!
# Reading bytes from front to back

* `Cursor` — the bytes not yet read, how many were read, and how deeply the structure being
  read is nested;
* `Reader` — a step that reads: it moves the cursor and gives a value or an error.  The cursor
  of a failed step is kept, so what was read before the failure stays read;
* `Reader.bytes`, `Reader.u16` and their like — the fields of a fixed width, high byte first;
* `Reader.peek`, `Reader.expect`, `Reader.takeUntil` — text read byte by byte.
-/

/-- A place in some bytes. -/
structure Cursor where
  /-- The bytes not yet read. -/
  rest : List UInt8
  /-- How many bytes were read. -/
  position : Nat
  /-- How many nested structures are being read. -/
  depth : Nat
  deriving DecidableEq

namespace Cursor

/-- The start of some bytes. -/
def ofBytes (bytes : List UInt8) : Cursor := ⟨bytes, 0, 0⟩

/-- A place inside some bytes; behind their end there is nothing left to read. -/
def ofBytesAt (bytes : List UInt8) (offset : Nat) : Cursor := ⟨bytes.drop offset, offset, 0⟩

/-- How many bytes there are, read or not. -/
def size (cursor : Cursor) : Nat := cursor.position + cursor.rest.length

end Cursor

/-- A step that reads. -/
abbrev Reader := EStateM Error Cursor

instance : MonadLift (Except Error) Reader where
  monadLift
    | .ok value => pure value
    | .error error => throw error

namespace Reader

/-- Fails because of malformed bytes. -/
def malformed {α : Type} (cause : Malformation) : Reader α := throw (.malformed cause)

/-- How many bytes were read. -/
def position : Reader Nat := return (← get).position

/-- Whether bytes are left. -/
def hasMore : Reader Bool := return !(← get).rest.isEmpty

/-- The next `count` bytes.  Where fewer are left, none is read. -/
def bytes (count : Nat) : Reader (List UInt8) := do
  let cursor ← get
  let chunk := cursor.rest.take count
  if chunk.length = count then
    set { cursor with rest := cursor.rest.drop count, position := cursor.position + count }
    return chunk
  else throw .outOfBounds

/-- Passes over `count` bytes.  Where fewer are left, none is passed over. -/
def skip (count : Nat) : Reader Unit := do
  let _ ← bytes count

/-! ### Fields of a fixed width -/

/-- The number that some bytes stand for, high byte first. -/
def bigEndian (bytes : List UInt8) : Nat :=
  bytes.foldl (fun number byte => number * 256 + byte.toNat) 0

/-- A number of so many bytes. -/
def number (width : Nat) : Reader Nat := return bigEndian (← bytes width)

/-- One byte. -/
def u8 : Reader UInt8 := return .ofNat (← number 1)

/-- Two bytes. -/
def u16 : Reader UInt16 := return .ofNat (← number 2)

/-- Four bytes. -/
def u32 : Reader UInt32 := return .ofNat (← number 4)

/-- Eight bytes. -/
def u64 : Reader UInt64 := return .ofNat (← number 8)

/-- One byte with a sign. -/
def i8 : Reader Int8 := return (← u8).toInt8

/-- Two bytes with a sign. -/
def i16 : Reader Int16 := return (← u16).toInt16

/-- Four bytes with a sign. -/
def i32 : Reader Int32 := return (← u32).toInt32

/-- Eight bytes with a sign. -/
def i64 : Reader Int64 := return (← u64).toInt64

/-! ### Text byte by byte -/

/-- The next byte, which stays unread. -/
def peek : Reader UInt8 := do
  match (← get).rest with
  | byte :: _ => return byte
  | [] => throw .outOfBounds

/-- Reads the next byte, which has to be `expected`.  Another byte is read too before the step
    fails. -/
def expectByte (expected : UInt8) : Reader Unit := do
  let offset ← position
  let found ← u8
  if found ≠ expected then malformed (.unexpectedByte expected found offset)

/-- Reads the next byte, which has to be the one of an ASCII character. -/
def expect (expected : Char) : Reader Unit := expectByte (.ofNat expected.toNat)

/-- The bytes in front of the first one that stops the run; without such a byte none is read. -/
def takeUntil (stops : UInt8 → Bool) : Reader (List UInt8) := do
  let cursor ← get
  let run := cursor.rest.takeWhile (fun byte => !stops byte)
  match cursor.rest.drop run.length with
  | [] => throw .outOfBounds
  | after => do
    set { cursor with rest := after, position := cursor.position + run.length }
    return run

/-! ### From start to end -/

/-- The value that a step reads from the start of some bytes. -/
def value {α : Type} (reader : Reader α) (bytes : List UInt8) : Except Error α :=
  match reader (.ofBytes bytes) with
  | .ok value _ => .ok value
  | .error error _ => .error error

end Reader

end ClassAtlas
