import ClassAtlas.Reading.Cursor

namespace ClassAtlas.Reader

/-!
# Repetition and nesting

* `times` — as many items as a count says;
* `untilByte` — items up to a closing byte;
* `marked` — items with a mark in front of each;
* `untilEnd` — items up to the end;
* `nested`, `framed`, `tooDeep`, `surface` — the levels of nested structures.
-/

variable {α : Type}

/-! ### Repetition -/

/-- Reads `count` more items behind those already read, which are given last first. -/
def timesAfter (item : Reader α) : (count : Nat) → (read : List α) → Reader (List α)
  | 0, read => return read.reverse
  | count + 1, read => do
    let value ← item
    timesAfter item count (value :: read)

/-- Reads `count` items. -/
def times (count : Nat) (item : Reader α) : Reader (List α) := timesAfter item count []

/-- Reads items up to a closing byte, at most `bound` of them. -/
def untilByteAfter (closing : Char) (item : Reader α) :
    (bound : Nat) → (read : List α) → Reader (List α)
  | 0, _ => throw .outOfBounds
  | bound + 1, read => do
    if Text.latin1 (← peek) = closing then
      skip 1
      return read.reverse
    else
      let value ← item
      untilByteAfter closing item bound (value :: read)

/-- Reads items up to a closing byte, and that byte.  Every item has at least one byte, so
    there are at most as many as there are bytes, and once they are used up the closing byte is
    missing. -/
def untilByte (closing : Char) (item : Reader α) : Reader (List α) := do
  untilByteAfter closing item (← get).rest.length []

/-- Reads the items that have a mark in front of them, at most `bound` of them. -/
def markedAfter (mark : Char) (item : Reader α) :
    (bound : Nat) → (read : List α) → Reader (List α)
  | 0, _ => throw .outOfBounds
  | bound + 1, read => do
    if Text.latin1 (← peek) = mark then
      skip 1
      let value ← item
      markedAfter mark item bound (value :: read)
    else return read.reverse

/-- Reads the items that have a mark in front of them.  Another byte has to follow the last
    one. -/
def marked (mark : Char) (item : Reader α) : Reader (List α) := do
  markedAfter mark item (← get).rest.length []

/-- Reads items up to the end, at most `bound` of them. -/
def untilEndAfter (item : Reader α) : (bound : Nat) → (read : List α) → Reader (List α)
  | 0, read => return read.reverse
  | bound + 1, read => do
    if ← hasMore then
      let value ← item
      untilEndAfter item bound (value :: read)
    else return read.reverse

/-- Reads items up to the end.  Every item has at least one byte, so there are at most as many
    as there are bytes. -/
def untilEnd (item : Reader α) : Reader (List α) := do
  untilEndAfter item (← get).rest.length []

/-! ### Nesting -/

/-- So many levels may not be open at once. -/
def nestingLimit : Nat := 50

/-- How many more levels can be opened. -/
def room : Reader Nat := return nestingLimit - 1 - (← get).depth

/-- One level deeper. -/
def deeper : Reader Unit := modify fun cursor => { cursor with depth := cursor.depth + 1 }

/-- One level back. -/
def shallower : Reader Unit := modify fun cursor => { cursor with depth := cursor.depth - 1 }

/-- Counts levels from the present one on. -/
def surface : Reader Unit := modify fun cursor => { cursor with depth := 0 }

/-- Opens a level that is one too many.  The level is counted all the same. -/
def tooDeep : Reader α := do
  deeper
  throw (.recursionLimit nestingLimit)

/-- Reads one level deeper and comes back, whether the reading succeeds or fails. -/
def nested (body : Reader α) : Reader α := do
  deeper
  try
    let value ← body
    shallower
    return value
  catch error =>
    shallower
    throw error

/-- Reads one level deeper, and comes back only if the reading succeeds. -/
def framed (body : Reader α) : Reader α := do
  deeper
  let value ← body
  shallower
  return value

end ClassAtlas.Reader
