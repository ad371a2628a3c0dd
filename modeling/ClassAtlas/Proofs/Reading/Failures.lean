import ClassAtlas.Proofs.Reading.Repetition
import ClassAtlas.Proofs.Reading.Steps

namespace ClassAtlas

/-!
# Failures that the bytes are to blame for

Whatever is wrong with the bytes of a class, the failure says that they are to blame, so it ends
this class and nothing else.  This holds of the single steps, and it is kept when steps are put
together.

* `Outcome.Contained`, `Reader.Contained` — outcomes and readers that fail in no other way;
* `Outcome.Contained.bind`, `Reader.Contained.bind` — one step after another;
* `Reader.contained_times`, `Reader.contained_nested` and their like — repetition and nesting.
-/

variable {β γ : Type}

/-! ### Outcomes -/

namespace Outcome

/-- If the outcome is a failure, the bytes are to blame for it. -/
def Contained (outcome : Except Error β) : Prop :=
  ∀ error, outcome = .error error → error.isFormatError = true

theorem contained_pure (value : β) : Contained (pure value) := by
  rintro error ⟨⟩

theorem contained_malformed (cause : Malformation) :
    Contained (.error (.malformed cause) : Except Error β) := by
  rintro error ⟨⟩
  rfl

theorem Contained.bind {outcome : Except Error β} {next : β → Except Error γ}
    (first : Contained outcome) (second : ∀ value, Contained (next value)) :
    Contained (outcome >>= next) := by
  cases outcome with
  | error error =>
    rintro error' ⟨⟩
    exact first error rfl
  | ok value => exact second value

theorem Contained.map {outcome : Except Error β} (h : Contained outcome) (f : β → γ) :
    Contained (f <$> outcome) := by
  cases outcome with
  | error error =>
    rintro error' ⟨⟩
    exact h error rfl
  | ok value => exact contained_pure (f value)

theorem contained_foldlM {step : γ → β → Except Error γ}
    (hstep : ∀ state item, Contained (step state item)) (items : List β) (state : γ) :
    Contained (items.foldlM step state) := by
  induction items generalizing state with
  | nil => exact contained_pure _
  | cons first later ih =>
    rw [List.foldlM_cons]
    exact (hstep state first).bind ih

end Outcome

namespace Reader

/-! ### Single steps -/

/-- Wherever the reader fails, the bytes are to blame for it. -/
def Contained (reader : Reader β) : Prop :=
  ∀ ⦃start error stop⦄, reader start = .error error stop → error.isFormatError = true

theorem value_eq_error {reader : Reader β} {bytes : List UInt8} {error : Error} :
    reader.value bytes = .error error ↔ ∃ stop, reader (.ofBytes bytes) = .error error stop := by
  unfold Reader.value
  cases reader (.ofBytes bytes) <;> simp

theorem Contained.value {reader : Reader β} (h : reader.Contained) (bytes : List UInt8) :
    Outcome.Contained (reader.value bytes) := by
  intro error hvalue
  obtain ⟨stop, hread⟩ := value_eq_error.mp hvalue
  exact h hread

theorem contained_pure (value : β) : (pure value : Reader β).Contained := by
  rintro start error stop ⟨⟩

theorem contained_throw {error : Error} (h : error.isFormatError = true) :
    (throw error : Reader β).Contained := by
  rintro start error' stop ⟨⟩
  exact h

theorem contained_malformed (cause : Malformation) : (malformed cause : Reader β).Contained :=
  contained_throw rfl

theorem contained_lift {outcome : Except Error β} (h : Outcome.Contained outcome) :
    (liftM outcome : Reader β).Contained := by
  intro start error stop hread
  cases outcome with
  | error _ =>
    cases hread
    exact h error rfl
  | ok value => cases hread

theorem Contained.bind {reader : Reader β} {next : β → Reader γ} (first : reader.Contained)
    (second : ∀ value, (next value).Contained) : (reader >>= next).Contained := by
  intro start error stop hread
  rw [bind_apply] at hread
  cases hvalue : reader start with
  | ok value middle =>
    rw [hvalue] at hread
    exact second value hread
  | error cause middle =>
    rw [hvalue] at hread
    cases hread
    exact first hvalue

theorem Contained.map {reader : Reader β} (h : reader.Contained) (f : β → γ) :
    (f <$> reader).Contained := by
  rw [map_eq_pure_bind]
  exact h.bind fun _ => contained_pure _

theorem contained_ite {condition : Prop} [Decidable condition] {yes no : Reader β}
    (hyes : yes.Contained) (hno : no.Contained) :
    (if condition then yes else no).Contained := by
  split
  · exact hyes
  · exact hno

theorem contained_get : (get : Reader Cursor).Contained := by
  rintro start error stop ⟨⟩

theorem contained_modify (f : Cursor → Cursor) : (modify f : Reader Unit).Contained := by
  rintro start error stop ⟨⟩

theorem contained_set (cursor : Cursor) : (set cursor : Reader Unit).Contained := by
  rintro start error stop ⟨⟩

theorem contained_outOfBounds : (throw .outOfBounds : Reader β).Contained :=
  contained_throw rfl

theorem contained_position : position.Contained :=
  contained_get.bind fun _ => contained_pure _

theorem contained_hasMore : hasMore.Contained :=
  contained_get.bind fun _ => contained_pure _

theorem contained_bytes (count : Nat) : (Reader.bytes count).Contained :=
  contained_get.bind fun _ => contained_ite
    ((contained_set _).bind fun _ => contained_pure _) contained_outOfBounds

theorem contained_skip (count : Nat) : (skip count).Contained :=
  (contained_bytes count).bind fun _ => contained_pure _

theorem contained_number (width : Nat) : (number width).Contained :=
  (contained_bytes width).bind fun _ => contained_pure _

theorem contained_u8 : u8.Contained := (contained_number 1).bind fun _ => contained_pure _

theorem contained_u16 : u16.Contained := (contained_number 2).bind fun _ => contained_pure _

theorem contained_u32 : u32.Contained := (contained_number 4).bind fun _ => contained_pure _

theorem contained_u64 : u64.Contained := (contained_number 8).bind fun _ => contained_pure _

theorem contained_i32 : i32.Contained := contained_u32.bind fun _ => contained_pure _

theorem contained_i64 : i64.Contained := contained_u64.bind fun _ => contained_pure _

theorem contained_peek : peek.Contained := by
  refine contained_get.bind fun cursor => ?_
  split
  · exact contained_pure _
  · exact contained_outOfBounds

theorem contained_expect (expected : Char) : (expect expected).Contained :=
  contained_position.bind fun _ => contained_u8.bind fun _ =>
    contained_ite (contained_malformed _) (contained_pure _)

theorem contained_takeUntil (stops : UInt8 → Bool) : (takeUntil stops).Contained := by
  refine contained_get.bind fun cursor => ?_
  dsimp only
  split
  · exact contained_outOfBounds
  · exact (contained_set _).bind fun _ => contained_pure _

/-! ### Repetition -/

theorem contained_times {item : Reader β} (hitem : item.Contained) (count : Nat) :
    (times count item).Contained := by
  suffices ∀ read, (timesAfter item count read).Contained from this []
  induction count with
  | zero => exact fun _ => contained_pure _
  | succ count ih => exact fun read => hitem.bind fun value => ih (value :: read)

theorem contained_mapM {step : γ → Reader β} (hstep : ∀ item, (step item).Contained)
    (items : List γ) : (items.mapM step).Contained := by
  induction items with
  | nil => exact contained_pure _
  | cons first later ih =>
    rw [List.mapM_cons]
    exact (hstep first).bind fun _ => ih.bind fun _ => contained_pure _

theorem contained_untilByte {item : Reader β} (hitem : item.Contained) (closing : Char) :
    (untilByte closing item).Contained := by
  have hafter : ∀ bound read, (untilByteAfter closing item bound read).Contained := by
    intro bound
    induction bound with
    | zero => exact fun _ => contained_outOfBounds
    | succ bound ih =>
      exact fun read => contained_peek.bind fun _ => contained_ite
        ((contained_skip 1).bind fun _ => contained_pure _)
        (hitem.bind fun value => ih (value :: read))
  exact contained_get.bind fun cursor => hafter _ _

theorem contained_marked {item : Reader β} (hitem : item.Contained) (mark : Char) :
    (marked mark item).Contained := by
  have hafter : ∀ bound read, (markedAfter mark item bound read).Contained := by
    intro bound
    induction bound with
    | zero => exact fun _ => contained_outOfBounds
    | succ bound ih =>
      exact fun read => contained_peek.bind fun _ => contained_ite
        ((contained_skip 1).bind fun _ => hitem.bind fun value => ih (value :: read))
        (contained_pure _)
  exact contained_get.bind fun cursor => hafter _ _

theorem contained_untilEnd {item : Reader β} (hitem : item.Contained) :
    (untilEnd item).Contained := by
  have hafter : ∀ bound read, (untilEndAfter item bound read).Contained := by
    intro bound
    induction bound with
    | zero => exact fun _ => contained_pure _
    | succ bound ih =>
      exact fun read => contained_hasMore.bind fun _ => contained_ite
        (hitem.bind fun value => ih (value :: read)) (contained_pure _)
  exact contained_get.bind fun cursor => hafter _ _

/-! ### Nesting -/

theorem contained_room : room.Contained := contained_get.bind fun _ => contained_pure _

theorem contained_tooDeep : (tooDeep : Reader β).Contained :=
  (contained_modify _).bind fun _ => contained_throw rfl

theorem contained_nested {body : Reader β} (h : body.Contained) : (nested body).Contained := by
  intro start error stop hread
  rw [nested_apply] at hread
  split at hread
  · cases hread
  · rename_i hbody
    cases hread
    exact h hbody

theorem contained_framed {body : Reader β} (h : body.Contained) : (framed body).Contained :=
  (contained_modify _).bind fun _ => h.bind fun _ => (contained_modify _).bind fun _ =>
    contained_pure _

end Reader

end ClassAtlas
