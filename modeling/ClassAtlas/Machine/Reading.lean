import ClassAtlas.Machine.Fault
import ClassAtlas.Reading.Repetition

namespace ClassAtlas.Machine

/-!
# Reading by a position

A machine reads bytes that stay where they are, by the position of the next one.

* `Place`, `Step` — the bytes with the position, and a step that reads;
* `Checked` — what is worked out from what was read;
* `bytes`, `u16`, `peek`, `takeUntil` and their like — single steps;
* `times`, `untilByte`, `marked`, `untilEnd` — loops, each with a bound behind which it is endless;
* `enter`, `leave`, `nested`, `framed` — levels.
-/

/-- A place in some bytes. -/
structure Place where
  /-- All the bytes. -/
  data : List UInt8
  /-- The position of the next one. -/
  position : Nat
  /-- How many nested structures are being read. -/
  depth : Nat
  deriving DecidableEq

/-- The start of some bytes. -/
def Place.ofBytes (data : List UInt8) : Place := ⟨data, 0, 0⟩

/-- A step that reads. -/
abbrev Step := ExceptT Error (StateT Place Guarded)

/-- A value or an error, unless there is a fault. -/
abbrev Checked := ExceptT Error Guarded

instance : MonadLift Checked Step where
  monadLift outcome := ExceptT.mk (liftM outcome.run)

variable {α β : Type}

/-- The fault as a step. -/
def faulty (fault : Fault) : Step α := liftM (.error fault : Guarded α)

/-- Fails because of malformed bytes. -/
def malformed (cause : Malformation) : Step α := throw (.malformed cause)

/-! ### Single steps -/

/-- The position of the next byte. -/
def position : Step Nat := return (← get).position

/-- How many bytes are left. -/
def remaining : Step Nat := do
  let place ← get
  return place.data.length - place.position

/-- Whether bytes are left. -/
def hasMore : Step Bool := do
  let place ← get
  return place.position < place.data.length

/-- Goes on at a position. -/
def moveTo (position : Nat) : Step Unit := modify fun place => { place with position }

/-- The next `count` bytes.  Where fewer are left, none is read. -/
def bytes (count : Nat) : Step (List UInt8) := do
  if (← remaining) < count then throw .outOfBounds
  else
    let place ← get
    let chunk ← slice place.data place.position (← add place.position count)
    moveTo (← add place.position count)
    return chunk

/-- Passes over `count` bytes.  Where fewer are left, none is passed over. -/
def skip (count : Nat) : Step Unit := do
  if (← remaining) < count then throw .outOfBounds
  else moveTo (← add (← position) count)

/-- A number of so many bytes.  That its end is not a word is found out before it is used. -/
def number (width : Nat) : Step Nat := do
  let place ← get
  match add place.position width with
  | .ok stop =>
    if place.data.length < stop then throw .outOfBounds
    else
      let chunk ← slice place.data place.position stop
      moveTo stop
      return Reader.bigEndian chunk
  | .error _ => throw .outOfBounds

/-- One byte. -/
def u8 : Step UInt8 := return .ofNat (← number 1)

/-- Two bytes. -/
def u16 : Step UInt16 := return .ofNat (← number 2)

/-- Four bytes. -/
def u32 : Step UInt32 := return .ofNat (← number 4)

/-- Eight bytes. -/
def u64 : Step UInt64 := return .ofNat (← number 8)

/-- Four bytes with a sign. -/
def i32 : Step Int32 := return (← u32).toInt32

/-- Eight bytes with a sign. -/
def i64 : Step Int64 := return (← u64).toInt64

/-- The next byte, which stays unread. -/
def peek : Step UInt8 := do
  let place ← get
  match place.data[place.position]? with
  | some byte => return byte
  | none => throw .outOfBounds

/-- The position of the byte that was read last. -/
def lastPosition : Step Nat := do
  subtract (← position) 1

/-- Reads the next byte, which has to be `expected`. -/
def expectByte (expected : UInt8) : Step Unit := do
  let found ← u8
  if found ≠ expected then malformed (.unexpectedByte expected found (← lastPosition))
  else return ()

/-- Reads the next byte, which has to be the one of an ASCII character. -/
def expect (expected : Char) : Step Unit := expectByte (.ofNat expected.toNat)

/-- The bytes in front of the first one that stops the run; without such a byte none is read. -/
def takeUntil (stops : UInt8 → Bool) : Step (List UInt8) := do
  let place ← get
  let rest ← tailFrom place.data place.position
  match rest.findIdx? stops with
  | some length =>
    moveTo (← add place.position length)
    slice rest 0 length
  | none => throw .outOfBounds

/-! ### Loops -/

/-- Reads `count` more items behind those already read, which are given last first. -/
def timesAfter (item : Step α) : (count : Nat) → (read : List α) → Step (List α)
  | 0, read => return read.reverse
  | count + 1, read => do
    let value ← item
    timesAfter item count (value :: read)

/-- Reads `count` items. -/
def times (count : Nat) (item : Step α) : Step (List α) := timesAfter item count []

/-- Reads items up to a closing byte, and that byte. -/
def untilByteAfter (closing : Char) (item : Step α) :
    (bound : Nat) → (read : List α) → Step (List α)
  | 0, _ => faulty .endless
  | bound + 1, read => do
    if Text.latin1 (← peek) = closing then
      skip 1
      return read.reverse
    else
      let value ← item
      untilByteAfter closing item bound (value :: read)

/-- Reads items up to a closing byte, and that byte. -/
def untilByte (closing : Char) (item : Step α) : Step (List α) := do
  untilByteAfter closing item ((← remaining) + 1) []

/-- Reads the items that have a mark in front of them. -/
def markedAfter (mark : Char) (item : Step α) :
    (bound : Nat) → (read : List α) → Step (List α)
  | 0, _ => faulty .endless
  | bound + 1, read => do
    if Text.latin1 (← peek) = mark then
      skip 1
      let value ← item
      markedAfter mark item bound (value :: read)
    else return read.reverse

/-- Reads the items that have a mark in front of them. -/
def marked (mark : Char) (item : Step α) : Step (List α) := do
  markedAfter mark item ((← remaining) + 1) []

/-- Reads items up to the end. -/
def untilEndAfter (item : Step α) : (bound : Nat) → (read : List α) → Step (List α)
  | 0, _ => faulty .endless
  | bound + 1, read => do
    if ← hasMore then
      let value ← item
      untilEndAfter item bound (value :: read)
    else return read.reverse

/-- Reads items up to the end. -/
def untilEnd (item : Step α) : Step (List α) := do
  untilEndAfter item ((← remaining) + 1) []

/-! ### Levels -/

/-- Opens a level.  One that is too many is counted before it is refused. -/
def enter : Step Unit := do
  let depth ← add (← get).depth 1
  modify fun place => { place with depth }
  if Reader.nestingLimit ≤ depth then throw (.recursionLimit Reader.nestingLimit)
  else return ()

/-- Closes a level. -/
def leave : Step Unit := do
  let depth ← subtract (← get).depth 1
  modify fun place => { place with depth }

/-- Counts levels from the present one on. -/
def surface : Step Unit := modify fun place => { place with depth := 0 }

/-- How a step ends, to go on behind an error too. -/
def observe (step : Step α) : Step (Except Error α) := ExceptT.mk do
  return .ok (← step.run)

/-- Reads in a level, which is closed whether the reading succeeds or fails. -/
def nested (body : Step α) : Step α := do
  enter
  let outcome ← observe body
  leave
  outcome

/-- Reads in a level, which is closed only if the reading succeeds. -/
def framed (body : Step α) : Step α := do
  enter
  let value ← body
  leave
  return value

/-! ### From start to end -/

/-- The value that a step reads from the start of some bytes. -/
def Step.value (step : Step α) (data : List UInt8) : Checked α :=
  ExceptT.mk ((·.1) <$> step.run.run (.ofBytes data))

end ClassAtlas.Machine
