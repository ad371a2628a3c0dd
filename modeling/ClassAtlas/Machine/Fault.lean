import ClassAtlas.Text.ClassName
import Mathlib.Algebra.GroupWithZero.Nat

namespace ClassAtlas.Machine

/-!
# What a machine cannot work out

On a machine a number is a word, and an index, a slice or the place of a cut has to lie inside what
it is taken of.  An operation that asks for more gives no value, and neither an error: it is a fault
of the program.

* `Fault`, `Guarded` — the faults, and what may end in one;
* `add`, `subtract`, `multiply` — numbers that are words;
* `entryAt`, `slice`, `tailFrom` — parts of a sequence;
* `cutAt`, `offsetOfLast?` — a text cut behind so many of its bytes, and where a character is last.
-/

/-- A way to ask for what is not there. -/
inductive Fault where
  /-- A number is too large for a word. -/
  | overflow
  /-- A number would be less than zero. -/
  | underflow
  /-- An index is behind the end. -/
  | badIndex
  /-- A slice begins behind its end, or ends behind the end. -/
  | badSlice
  /-- A cut goes through a character or is behind the end. -/
  | badCut
  /-- A loop or a recursion goes on when it should have ended. -/
  | endless
  deriving DecidableEq, Repr

/-- A value, unless there is a fault. -/
abbrev Guarded := Except Fault

variable {α : Type}

/-! ### Words -/

/-- Words are less than this. -/
def wordLimit : Nat := 2 ^ 64

/-- The sum, if it is a word. -/
def add (first second : Nat) : Guarded Nat :=
  if first + second < wordLimit then .ok (first + second) else .error .overflow

/-- The difference, if it is a word. -/
def subtract (first second : Nat) : Guarded Nat :=
  if second ≤ first then .ok (first - second) else .error .underflow

/-- The product, if it is a word. -/
def multiply (first second : Nat) : Guarded Nat :=
  if first * second < wordLimit then .ok (first * second) else .error .overflow

theorem add_eq {first second : Nat} (h : first + second < wordLimit) :
    add first second = .ok (first + second) := if_pos h

theorem subtract_eq {first second : Nat} (h : second ≤ first) :
    subtract first second = .ok (first - second) := if_pos h

theorem multiply_eq {first second : Nat} (h : first * second < wordLimit) :
    multiply first second = .ok (first * second) := if_pos h

/-! ### Sequences -/

/-- The item at an index. -/
def entryAt (items : List α) (index : Nat) : Guarded α :=
  match items[index]? with
  | some item => .ok item
  | none => .error .badIndex

/-- The items from one index up to another one. -/
def slice (items : List α) (start stop : Nat) : Guarded (List α) :=
  if start ≤ stop ∧ stop ≤ items.length then .ok ((items.take stop).drop start)
  else .error .badSlice

/-- The items from an index on. -/
def tailFrom (items : List α) (start : Nat) : Guarded (List α) := slice items start items.length

theorem entryAt_eq {items : List α} {index : Nat} {item : α} (h : items[index]? = some item) :
    entryAt items index = .ok item := by
  rw [entryAt, h]

theorem slice_eq {items : List α} {start stop : Nat} (hstart : start ≤ stop)
    (hstop : stop ≤ items.length) : slice items start stop = .ok ((items.take stop).drop start) :=
  if_pos ⟨hstart, hstop⟩

theorem tailFrom_eq {items : List α} {start : Nat} (h : start ≤ items.length) :
    tailFrom items start = .ok (items.drop start) := by
  rw [tailFrom, slice_eq h (Nat.le_refl _), List.take_length]

/-- What is left is no more than there was. -/
theorem length_of_tailFrom {items rest : List α} {start : Nat} (h : tailFrom items start = .ok rest) :
    rest.length + start = items.length := by
  unfold tailFrom slice at h
  split at h
  · rename_i hinside
    cases h
    rw [List.take_length, List.length_drop, Nat.sub_add_cancel hinside.1]
  · cases h

/-! ### Text -/

/-- How many bytes some characters have. -/
def byteLength (characters : List Char) : Nat := (characters.map Char.utf8Size).sum

/-- Characters in two, the first of them with so many bytes. -/
def cutAt : (offset : Nat) → List Char → Guarded (List Char × List Char)
  | 0, characters => .ok ([], characters)
  | _ + 1, [] => .error .badCut
  | offset + 1, c :: rest =>
    if c.utf8Size ≤ offset + 1 then
      return (← cutAt (offset + 1 - c.utf8Size) rest).map (c :: ·) id
    else .error .badCut

/-- The bytes in front of the last mark. -/
def offsetOfLast? (mark : Char) : List Char → Option Nat
  | [] => none
  | c :: rest =>
    match offsetOfLast? mark rest with
    | some offset => some (c.utf8Size + offset)
    | none => if c = mark then some 0 else none

end ClassAtlas.Machine
