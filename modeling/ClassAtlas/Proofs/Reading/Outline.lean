import ClassAtlas.Proofs.Reading.Steps

namespace ClassAtlas.Reader

/-!
# Where a reader opens levels

A reader counts the levels that are open.  Its outline says where in it a level is opened, and is
put together as the reader itself is.  The reader is an index of its outline, so there is no copy of
it that would have to be kept in step.

* `Closing` — whether a level is closed behind a failure too;
* `Flat` — steps that neither look at the counter nor change it;
* `Outline` — the steps and the levels of a reader that starts with the counter at some number;
* `flat_bytes`, `flat_takeUntil`, `flat_expect` and their like — the single steps;
* `Outline.times`, `Outline.untilByte`, `Outline.marked`, `Outline.untilEnd` — repetitions.
-/

variable {α β : Type}

/-! ### Steps on one level -/

/-- How a level is closed. -/
inductive Closing where
  /-- Whether the reading succeeds or fails. -/
  | always
  /-- Only behind a value. -/
  | behindValue

/-- A level around a body. -/
def Closing.around : Closing → Reader α → Reader α
  | .always => nested
  | .behindValue => framed

/-- The same end with another counter. -/
def recounted (depth : Nat) : EStateM.Result Error Cursor α → EStateM.Result Error Cursor α
  | .ok value stop => .ok value { stop with depth }
  | .error error stop => .error error { stop with depth }

/-- Where a reader stopped. -/
def stopOf : EStateM.Result Error Cursor α → Cursor
  | .ok _ stop => stop
  | .error _ stop => stop

/-- A step that neither looks at the counter nor changes it.  Where levels are always closed, it
    does not fail for want of levels either. -/
structure Flat (closing : Closing) (reader : Reader α) : Prop where
  /-- With another counter the end is the same, but for the counter. -/
  recounted_eq : ∀ start depth, reader { start with depth } = recounted depth (reader start)
  /-- A failure has another reason than the levels. -/
  unlimited : closing = .always → ∀ ⦃start limit stop⦄,
    reader start ≠ .error (.recursionLimit limit) stop

variable {closing : Closing} {reader : Reader α}

theorem Flat.depth_eq (h : Flat closing reader) (start : Cursor) :
    (stopOf (reader start)).depth = start.depth := by
  have hsame : reader start = recounted start.depth (reader start) :=
    h.recounted_eq start start.depth
  rw [hsame]
  cases reader start <;> rfl

theorem flat_pure (value : α) : Flat closing (pure value : Reader α) where
  recounted_eq _ _ := rfl
  unlimited := by rintro - _ _ _ ⟨⟩

theorem flat_throw {error : Error} (h : ∀ limit, error ≠ .recursionLimit limit) :
    Flat closing (throw error : Reader α) where
  recounted_eq _ _ := rfl
  unlimited := by
    rintro - _ limit _ ⟨⟩
    exact h limit rfl

theorem flat_malformed (cause : Malformation) : Flat closing (malformed cause : Reader α) :=
  flat_throw nofun

theorem flat_outOfBounds : Flat closing (throw .outOfBounds : Reader α) := flat_throw nofun

theorem Flat.bind {next : α → Reader β} (first : Flat closing reader)
    (second : ∀ value, Flat closing (next value)) : Flat closing (reader >>= next) where
  recounted_eq start depth := by
    rw [bind_apply, bind_apply, first.recounted_eq]
    cases reader start with
    | ok value middle => exact (second value).recounted_eq middle depth
    | error error middle => rfl
  unlimited hclosing start limit stop hread := by
    rw [bind_apply] at hread
    cases hfirst : reader start with
    | ok value middle =>
      rw [hfirst] at hread
      exact (second value).unlimited hclosing hread
    | error error middle =>
      rw [hfirst] at hread
      cases hread
      exact first.unlimited hclosing hfirst

theorem flat_ite {condition : Prop} [Decidable condition] {yes no : Reader α}
    (hyes : Flat closing yes) (hno : Flat closing no) :
    Flat closing (if condition then yes else no) := by
  split
  · exact hyes
  · exact hno

/-- A step that looks where it is, but not at the counter. -/
theorem flat_look {next : Cursor → Reader α} (h : ∀ cursor, Flat closing (next cursor))
    (hsame : ∀ cursor depth, next { cursor with depth } = next cursor) :
    Flat closing (get >>= next) where
  recounted_eq start depth := by
    rw [bind_apply, bind_apply, get_apply, get_apply]
    dsimp only
    rw [hsame]
    exact (h start).recounted_eq start depth
  unlimited hclosing start limit stop hread := (h start).unlimited hclosing hread

theorem flat_position : Flat closing position :=
  flat_look (fun _ => flat_pure _) fun _ _ => rfl

theorem flat_hasMore : Flat closing hasMore :=
  flat_look (fun _ => flat_pure _) fun _ _ => rfl

theorem flat_bytes (count : Nat) : Flat closing (bytes count) where
  recounted_eq start depth := by
    show (if (start.rest.take count).length = count then _ else _ : Reader _) _
      = recounted depth ((if (start.rest.take count).length = count then _ else _ : Reader _) start)
    split <;> rfl
  unlimited _ start limit stop := by
    show (if (start.rest.take count).length = count then _ else _ : Reader _) start ≠ _
    split <;> rintro ⟨⟩

theorem flat_takeUntil (stops : UInt8 → Bool) : Flat closing (takeUntil stops) where
  recounted_eq start depth := by
    rw [takeUntil, bind_apply, bind_apply, get_apply, get_apply]
    dsimp only
    generalize List.drop _ start.rest = after
    cases after <;> rfl
  unlimited _ start limit stop := by
    rw [takeUntil, bind_apply, get_apply]
    dsimp only
    generalize List.drop _ start.rest = after
    cases after <;> rintro ⟨⟩

theorem flat_skip (count : Nat) : Flat closing (skip count) :=
  (flat_bytes count).bind fun _ => flat_pure _

theorem flat_skip_one : Flat closing (skip 1) := flat_skip 1

theorem flat_number (width : Nat) : Flat closing (number width) :=
  (flat_bytes width).bind fun _ => flat_pure _

theorem flat_u8 : Flat closing u8 := (flat_number 1).bind fun _ => flat_pure _

theorem flat_u16 : Flat closing u16 := (flat_number 2).bind fun _ => flat_pure _

theorem flat_peek : Flat closing peek := by
  refine flat_look (fun cursor => ?_) fun _ _ => rfl
  split
  · exact flat_pure _
  · exact flat_outOfBounds

theorem flat_expect (expected : Char) : Flat closing (expect expected) :=
  flat_position.bind fun _ => flat_u8.bind fun _ => flat_ite (flat_malformed _) (flat_pure _)

/-! ### Outlines -/

/-- Where the levels of a reader are that starts with the counter at `depth`. -/
inductive Outline (closing : Closing) : (depth : Nat) → {α : Type} → Reader α → Type 1 where
  /-- A step that leaves the counter alone. -/
  | flat {depth : Nat} {α : Type} {reader : Reader α} (h : Flat closing reader) :
    Outline closing depth reader
  /-- One step after another. -/
  | bind {depth : Nat} {α β : Type} {reader : Reader α} {next : α → Reader β}
      (first : Outline closing depth reader)
      (second : (value : α) → Outline closing depth (next value)) :
    Outline closing depth (reader >>= next)
  /-- A look at the place, and what depends on it. -/
  | look {depth : Nat} {α : Type} {next : Cursor → Reader α}
      (second : (rest : List UInt8) → (position : Nat) →
        Outline closing depth (next ⟨rest, position, depth⟩)) :
    Outline closing depth (get >>= next)
  /-- A level that can be opened. -/
  | level {depth : Nat} {α : Type} {body : Reader α} (fits : depth + 1 < nestingLimit)
      (inside : Outline closing (depth + 1) body) :
    Outline closing depth (closing.around body)
  /-- A level that is one too many. -/
  | refused {depth : Nat} {α : Type} (full : nestingLimit ≤ depth + 1) :
    Outline closing depth (tooDeep : Reader α)
  /-- The same reader, written in another way. -/
  | congr {depth : Nat} {α : Type} {reader reader' : Reader α} (h : reader = reader')
      (same : Outline closing depth reader') : Outline closing depth reader

/-! ### Outlines of repetitions -/

namespace Outline

variable {depth : Nat} {item : Reader α}

/-- One of two readers. -/
def ite {condition : Prop} [Decidable condition] {yes no : Reader α}
    (outlineYes : Outline closing depth yes) (outlineNo : Outline closing depth no) :
    Outline closing depth (if condition then yes else no) :=
  if h : condition then .congr (if_pos h) outlineYes else .congr (if_neg h) outlineNo

/-- A reader, and a step behind it that makes something of the value. -/
def map (outline : Outline closing depth reader) (f : α → β) :
    Outline closing depth (f <$> reader) :=
  .congr (map_eq_pure_bind f reader) (.bind outline fun _ => .flat (flat_pure _))

/-- Items, as many as a count says. -/
def times (outline : Outline closing depth item) (count : Nat) :
    Outline closing depth (Reader.times count item) :=
  after count []
where
  after : (count : Nat) → (read : List α) → Outline closing depth (timesAfter item count read)
    | 0, _ => .flat (flat_pure _)
    | count + 1, read => .bind outline fun value => after count (value :: read)

/-- Items up to a closing byte. -/
def untilByte (outline : Outline closing depth item) (last : Char) :
    Outline closing depth (Reader.untilByte last item) :=
  .look fun rest _ => after rest.length []
where
  after : (bound : Nat) → (read : List α) →
      Outline closing depth (untilByteAfter last item bound read)
    | 0, _ => .flat flat_outOfBounds
    | bound + 1, read => .bind (.flat flat_peek) fun _ => .ite
      (.flat (flat_skip_one.bind fun _ => flat_pure _))
      (.bind outline fun value => after bound (value :: read))

/-- Items with a mark in front of each. -/
def marked (outline : Outline closing depth item) (mark : Char) :
    Outline closing depth (Reader.marked mark item) :=
  .look fun rest _ => after rest.length []
where
  after : (bound : Nat) → (read : List α) →
      Outline closing depth (markedAfter mark item bound read)
    | 0, _ => .flat flat_outOfBounds
    | bound + 1, read => .bind (.flat flat_peek) fun _ => .ite
      (.bind (.flat flat_skip_one) fun _ => .bind outline fun value => after bound (value :: read))
      (.flat (flat_pure _))

/-- Items up to the end. -/
def untilEnd (outline : Outline closing depth item) :
    Outline closing depth (Reader.untilEnd item) :=
  .look fun rest _ => after rest.length []
where
  after : (bound : Nat) → (read : List α) → Outline closing depth (untilEndAfter item bound read)
    | 0, _ => .flat (flat_pure _)
    | bound + 1, read => .bind (.flat flat_hasMore) fun _ => .ite
      (.bind outline fun value => after bound (value :: read))
      (.flat (flat_pure _))

end Outline

end ClassAtlas.Reader
