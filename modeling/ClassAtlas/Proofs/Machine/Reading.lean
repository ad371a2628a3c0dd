import ClassAtlas.Machine.Reading
import ClassAtlas.Proofs.Reading.Repetition
import ClassAtlas.Proofs.Reading.Sequential

namespace ClassAtlas.Machine

/-!
# Steps of a machine follow a reader

A step of a machine reads by the position in the bytes, a reader uses the bytes up.  The two go
together where the position is inside the bytes and the levels are counted, and then no operation of
the step asks for what is not there.

* `Place.cursor`, `Place.Inside` — what a reader would see at a place, and the places that count;
* `FollowsAt`, `Follows` — a step ends without a fault and as the reader does;
* `Follows.bind` — one step after another;
* `follows_bytes`, `follows_peek`, `follows_takeUntil` and their like — the single steps;
* `follows_untilByte`, `follows_marked`, `follows_untilEnd` — loops, which end before their bound;
* `follows_nested`, `follows_framed` — levels, of which there is one to close.
-/

variable {α β : Type}

/-! ### Places and cursors -/

namespace Place

/-- The cursor of a place. -/
def cursor (place : Place) : Cursor :=
  ⟨place.data.drop place.position, place.position, place.depth⟩

/-- The position is inside the bytes or at their end, and all positions are words. -/
structure Inside (place : Place) : Prop where
  /-- The position is not behind the end. -/
  position_le : place.position ≤ place.data.length
  /-- The bytes can be addressed. -/
  length_lt : place.data.length < wordLimit

/-- A place in the same bytes and on the same level, not in front of the first one. -/
structure Reaches (start stop : Place) : Prop where
  /-- The bytes are the same. -/
  data_eq : stop.data = start.data
  /-- No byte is read twice. -/
  position_le : start.position ≤ stop.position
  /-- The position is not behind the end. -/
  le_length : stop.position ≤ start.data.length
  /-- All levels that were opened are closed. -/
  depth_eq : stop.depth = start.depth

variable {place start middle stop : Place}

theorem Inside.reaches (inside : place.Inside) : place.Reaches place :=
  ⟨rfl, Nat.le_refl _, inside.position_le, rfl⟩

theorem Reaches.trans (first : start.Reaches middle) (second : middle.Reaches stop) :
    start.Reaches stop where
  data_eq := second.data_eq.trans first.data_eq
  position_le := Nat.le_trans first.position_le second.position_le
  le_length := first.data_eq ▸ second.le_length
  depth_eq := second.depth_eq.trans first.depth_eq

theorem Reaches.inside (h : start.Reaches stop) (inside : start.Inside) : stop.Inside where
  position_le := h.data_eq ▸ h.le_length
  length_lt := h.data_eq ▸ inside.length_lt

/-- The bytes that are left. -/
theorem length_rest (place : Place) :
    place.cursor.rest.length = place.data.length - place.position := List.length_drop ..

theorem Reaches.length_rest_le (h : start.Reaches stop) :
    stop.cursor.rest.length ≤ start.cursor.rest.length := by
  have hposition := h.position_le
  rw [length_rest, length_rest, h.data_eq]
  omega

/-- The place so many bytes further on. -/
def advance (place : Place) (count : Nat) : Place :=
  { place with position := place.position + count }

theorem reaches_advance {count : Nat} (h : place.position + count ≤ place.data.length) :
    place.Reaches (place.advance count) := ⟨rfl, Nat.le_add_right .., h, rfl⟩

/-- Bytes that are there are passed. -/
theorem passes_advance {count : Nat} (h : place.position + count ≤ place.data.length) :
    place.cursor.Passes ((place.data.take (place.position + count)).drop place.position)
        (place.advance count).cursor
      ∧ ((place.data.take (place.position + count)).drop place.position).length = count := by
  have hlength :
      ((place.data.take (place.position + count)).drop place.position).length = count := by
    rw [List.length_drop, List.length_take]
    omega
  refine ⟨⟨?_, ?_, rfl⟩, hlength⟩
  · show place.data.drop place.position = _ ++ place.data.drop (place.position + count)
    rw [← List.take_append_drop (place.position + count) place.data, List.drop_append_of_le_length]
    · simp
    · rw [List.length_take]
      omega
  · rw [hlength]
    rfl

end Place

/-! ### Following -/

/-- How a step ends that began at a place, and how a reader ends: with the same value and at the
    same place, or with the same error.  An error may leave levels open. -/
inductive Alike (start : Place) :
    Except Error α × Place → EStateM.Result Error Cursor α → Prop
  | ok {value : α} {stop : Place} (reaches : start.Reaches stop) :
      Alike start (.ok value, stop) (.ok value stop.cursor)
  | error {error : Error} {stop : Place} {cursor : Cursor} (depth_le : start.depth ≤ stop.depth) :
      Alike start (.error error, stop) (.error error cursor)

theorem Alike.of_reaches {start middle : Place} {outcome : Except Error α × Place}
    {result : EStateM.Result Error Cursor α} (hreaches : start.Reaches middle)
    (h : Alike middle outcome result) : Alike start outcome result := by
  cases h with
  | ok hrest => exact .ok (hreaches.trans hrest)
  | error hdepth => exact .error (hreaches.depth_eq ▸ hdepth)

/-- From the place the step ends without a fault, and as the reader does. -/
def FollowsAt (place : Place) (step : Step α) (reader : Reader α) : Prop :=
  ∃ outcome, step.run.run place = .ok outcome ∧ Alike place outcome (reader place.cursor)

/-- So many levels can still be opened. -/
def Place.HasRoom (place : Place) (room : Nat) : Prop :=
  place.depth + room + 1 = Reader.nestingLimit

/-- From every place with so many levels left the step ends without a fault, and as the reader
    does. -/
def Follows (room : Nat) (step : Step α) (reader : Reader α) : Prop :=
  ∀ place : Place, place.Inside → place.HasRoom room → FollowsAt place step reader

variable {room : Nat} {place stop : Place} {step : Step α} {reader : Reader α}

theorem Place.Reaches.hasRoom (h : place.Reaches stop) (hroom : place.HasRoom room) :
    stop.HasRoom room := by
  rw [HasRoom, h.depth_eq]
  exact hroom

theorem FollowsAt.of_ok {value : α} (hstep : step.run.run place = .ok (.ok value, stop))
    (hreader : reader place.cursor = .ok value stop.cursor) (hreaches : place.Reaches stop) :
    FollowsAt place step reader :=
  ⟨_, hstep, hreader ▸ .ok hreaches⟩

theorem FollowsAt.of_error {error : Error} {cursor : Cursor}
    (hstep : step.run.run place = .ok (.error error, place))
    (hreader : reader place.cursor = .error error cursor) : FollowsAt place step reader :=
  ⟨_, hstep, hreader ▸ .error (Nat.le_refl _)⟩

/-! ### One step after another -/

theorem run_get : (get : Step Place).run.run place = .ok (.ok place, place) := rfl

theorem run_position : position.run.run place = .ok (.ok place.position, place) := rfl

theorem run_remaining :
    remaining.run.run place = .ok (.ok (place.data.length - place.position), place) := rfl

theorem run_moveTo (position : Nat) :
    (moveTo position).run.run place = .ok (.ok (), { place with position }) := rfl

theorem run_lift {guarded : Guarded α} {value : α} (h : guarded = .ok value) :
    (liftM guarded : Step α).run.run place = .ok (.ok value, place) := by
  rw [h]
  rfl

theorem run_bind_of_ok {next : α → Step β} {value : α}
    (h : step.run.run place = .ok (.ok value, stop)) :
    (step >>= next).run.run place = (next value).run.run stop := by
  simp only [ExceptT.run_bind, StateT.run_bind, h]
  rfl

theorem run_bind_of_error {next : α → Step β} {error : Error}
    (h : step.run.run place = .ok (.error error, stop)) :
    (step >>= next).run.run place = .ok (.error error, stop) := by
  simp only [ExceptT.run_bind, StateT.run_bind, h]
  rfl

theorem FollowsAt.bind {next : α → Step β} {nextReader : α → Reader β}
    (first : FollowsAt place step reader)
    (second : ∀ value stop, place.Reaches stop → reader place.cursor = .ok value stop.cursor →
      FollowsAt stop (next value) (nextReader value)) :
    FollowsAt place (step >>= next) (reader >>= nextReader) := by
  obtain ⟨outcome, hrun, halike⟩ := first
  generalize hread : reader place.cursor = result at halike
  cases halike with
  | @ok value middle hreaches =>
    obtain ⟨outcome, hnext, halike⟩ := second value middle hreaches hread
    refine ⟨outcome, (run_bind_of_ok hrun).trans hnext, ?_⟩
    rw [Reader.bind_apply, hread]
    exact halike.of_reaches hreaches
  | error hdepth =>
    refine ⟨_, run_bind_of_error hrun, ?_⟩
    rw [Reader.bind_apply, hread]
    exact .error hdepth

/-- Of the values that the first step may give, only those count that the reader reads. -/
theorem Follows.bindRead {next : α → Step β} {nextReader : α → Reader β}
    (first : Follows room step reader)
    (second : ∀ value start stop, reader start = .ok value stop →
      Follows room (next value) (nextReader value)) :
    Follows room (step >>= next) (reader >>= nextReader) :=
  fun place inside hroom => (first place inside hroom).bind fun value stop hreaches hread =>
    second value _ _ hread stop (hreaches.inside inside) (hreaches.hasRoom hroom)

theorem Follows.bind {next : α → Step β} {nextReader : α → Reader β}
    (first : Follows room step reader)
    (second : ∀ value, Follows room (next value) (nextReader value)) :
    Follows room (step >>= next) (reader >>= nextReader) :=
  first.bindRead fun value _ _ _ => second value

theorem follows_pure (value : α) : Follows room (pure value) (pure value : Reader α) :=
  fun _ inside _ => .of_ok rfl rfl inside.reaches

theorem follows_throw (error : Error) : Follows room (throw error) (throw error : Reader α) :=
  fun _ _ _ => .of_error rfl rfl

theorem follows_malformed (cause : Malformation) :
    Follows room (malformed cause) (Reader.malformed cause : Reader α) :=
  follows_throw _

theorem Follows.map (h : Follows room step reader) (f : α → β) :
    Follows room (f <$> step) (f <$> reader) := by
  rw [map_eq_pure_bind, map_eq_pure_bind]
  exact h.bind fun _ => follows_pure _

theorem follows_ite {condition : Prop} [Decidable condition] {yes no : Step α}
    {yesReader noReader : Reader α} (hyes : Follows room yes yesReader)
    (hno : Follows room no noReader) :
    Follows room (if condition then yes else no) (if condition then yesReader else noReader) := by
  split
  · exact hyes
  · exact hno

/-- What is worked out without a fault. -/
theorem follows_lift {checked : Checked α} {outcome : Except Error α}
    (h : checked.run = .ok outcome) : Follows room (liftM checked) (liftM outcome) := by
  intro place inside _
  have hrun : (liftM checked : Step α).run.run place = .ok (outcome, place) := by
    show (do return (← (liftM checked.run : StateT Place Guarded _)) : StateT Place Guarded _).run
      place = _
    rw [h]
    rfl
  cases outcome with
  | ok value => exact .of_ok hrun rfl inside.reaches
  | error error => exact .of_error hrun rfl

/-- Behind an operation that does not fail, the next step decides. -/
theorem Follows.afterGuarded {guarded : Guarded α} {value : α} (h : guarded = .ok value)
    {next : α → Step β} {nextReader : Reader β} (hnext : Follows room (next value) nextReader) :
    Follows room (liftM guarded >>= next) nextReader := by
  intro place inside hroom
  obtain ⟨outcome, hrun, halike⟩ := hnext place inside hroom
  exact ⟨outcome, (run_bind_of_ok (run_lift h)).trans hrun, halike⟩

/-- What is worked out by operations that are defined everywhere. -/
theorem follows_outcome (outcome : Except Error α) :
    Follows room (liftM outcome) (liftM outcome : Reader α) := by
  cases outcome with
  | ok value => exact follows_pure value
  | error error => exact follows_throw error

/-! ### Numbers -/

theorem follows_position : Follows room position Reader.position :=
  fun _ inside _ => .of_ok rfl rfl inside.reaches

theorem follows_hasMore : Follows room hasMore Reader.hasMore := by
  intro place inside _
  have hmore : (!place.cursor.rest.isEmpty) = decide (place.position < place.data.length) := by
    rw [Bool.eq_iff_iff]
    simp [Place.cursor]
  exact .of_ok rfl (congrArg (EStateM.Result.ok · _) hmore) inside.reaches

/-- Where too few bytes are left the position stays, whatever it would be behind so many. -/
theorem run_bytes_short {count : Nat} (h : place.data.length - place.position < count) :
    (bytes count).run.run place = .ok (.error .outOfBounds, place) := by
  rw [bytes, run_bind_of_ok run_remaining, if_pos h]
  rfl

theorem follows_bytes (count : Nat) : Follows room (bytes count) (Reader.bytes count) := by
  intro place inside _
  have hle := inside.position_le
  by_cases h : place.data.length - place.position < count
  · exact .of_error (run_bytes_short h) (Reader.bytes_eq_error (place.length_rest ▸ h))
  · have hfits : place.position + count ≤ place.data.length := by omega
    have hword := Nat.lt_of_le_of_lt hfits inside.length_lt
    refine .of_ok ?_ (Reader.bytes_eq_ok.mpr (Place.passes_advance hfits))
      (Place.reaches_advance hfits)
    rw [bytes, run_bind_of_ok run_remaining, if_neg h, run_bind_of_ok run_get,
      run_bind_of_ok (run_lift (add_eq hword)),
      run_bind_of_ok (run_lift (slice_eq (Nat.le_add_right ..) hfits)),
      run_bind_of_ok (run_lift (add_eq hword)), run_bind_of_ok (run_moveTo _)]
    rfl

theorem run_skip {count : Nat} (inside : place.Inside)
    (h : place.position + count ≤ place.data.length) :
    (skip count).run.run place = .ok (.ok (), place.advance count) := by
  have hword := Nat.lt_of_le_of_lt h inside.length_lt
  rw [skip, run_bind_of_ok run_remaining, if_neg (by omega), run_bind_of_ok run_position,
    run_bind_of_ok (run_lift (add_eq hword)), run_moveTo]
  rfl

theorem run_skip_short {count : Nat} (h : place.data.length - place.position < count) :
    (skip count).run.run place = .ok (.error .outOfBounds, place) := by
  rw [skip, run_bind_of_ok run_remaining, if_pos h]
  rfl

theorem follows_skip (count : Nat) : Follows room (skip count) (Reader.skip count) := by
  intro place inside _
  have hle := inside.position_le
  by_cases h : place.data.length - place.position < count
  · exact .of_error (run_skip_short h) (Reader.skip_eq_error (place.length_rest ▸ h))
  · have hfits : place.position + count ≤ place.data.length := by omega
    have hskip : Reader.skip count place.cursor = .ok () (place.advance count).cursor :=
      Reader.skip_eq_ok.mpr ⟨_, Place.passes_advance hfits⟩
    exact .of_ok (run_skip inside hfits) hskip (Place.reaches_advance hfits)

theorem run_number {width : Nat} (hlength : place.data.length < wordLimit)
    (h : place.position + width ≤ place.data.length) :
    (number width).run.run place = .ok (.ok (Reader.bigEndian
      ((place.data.take (place.position + width)).drop place.position)), place.advance width) := by
  rw [number, run_bind_of_ok run_get, add_eq (Nat.lt_of_le_of_lt h hlength)]
  dsimp only
  rw [if_neg (Nat.not_lt.mpr h), run_bind_of_ok (run_lift (slice_eq (Nat.le_add_right ..) h)),
    run_bind_of_ok (run_moveTo _)]
  rfl

theorem run_number_short {width : Nat} (h : ¬ place.position + width ≤ place.data.length) :
    (number width).run.run place = .ok (.error .outOfBounds, place) := by
  rw [number, run_bind_of_ok run_get, add]
  -- Whether the end would be a word or not, it is not used.
  split
  · rename_i end' hend
    split at hend
    · cases hend
      rw [if_pos (Nat.not_le.mp h)]
      rfl
    · cases hend
  · rfl

theorem followsAt_number (inside : place.Inside) (width : Nat) :
    FollowsAt place (number width) (Reader.number width) := by
  have hle := inside.position_le
  by_cases h : place.position + width ≤ place.data.length
  · exact .of_ok (run_number inside.length_lt h)
      (Reader.map_eq_ok.mpr ⟨_, Reader.bytes_eq_ok.mpr (Place.passes_advance h), rfl⟩)
      (Place.reaches_advance h)
  · have hshort : place.cursor.rest.length < width := by
      rw [place.length_rest]
      omega
    exact .of_error (run_number_short h) (Reader.number_eq_error hshort)

theorem follows_number (width : Nat) : Follows room (number width) (Reader.number width) :=
  fun _ inside _ => followsAt_number inside width

theorem followsAt_u8 (inside : place.Inside) : FollowsAt place u8 Reader.u8 :=
  (followsAt_number inside 1).bind fun _ _ hreaches _ =>
    .of_ok rfl rfl (hreaches.inside inside).reaches

theorem follows_u8 : Follows room u8 Reader.u8 := fun _ inside _ => followsAt_u8 inside

theorem follows_u16 : Follows room u16 Reader.u16 :=
  (follows_number 2).bind fun _ => follows_pure _

theorem follows_u32 : Follows room u32 Reader.u32 :=
  (follows_number 4).bind fun _ => follows_pure _

theorem follows_u64 : Follows room u64 Reader.u64 :=
  (follows_number 8).bind fun _ => follows_pure _

theorem follows_i32 : Follows room i32 Reader.i32 := follows_u32.bind fun _ => follows_pure _

theorem follows_i64 : Follows room i64 Reader.i64 := follows_u64.bind fun _ => follows_pure _

/-! ### Text byte by byte -/

/-- The byte at the position is the first one that a reader would see. -/
theorem Place.head?_rest (place : Place) :
    place.cursor.rest.head? = place.data[place.position]? := List.head?_drop

theorem run_peek {byte : UInt8} (h : place.cursor.rest.head? = some byte) :
    peek.run.run place = .ok (.ok byte, place) := by
  rw [peek, run_bind_of_ok run_get, ← place.head?_rest, h]
  rfl

theorem run_peek_end (h : place.cursor.rest = []) :
    peek.run.run place = .ok (.error .outOfBounds, place) := by
  rw [peek, run_bind_of_ok run_get, ← place.head?_rest, h]
  rfl

theorem followsAt_peek (inside : place.Inside) : FollowsAt place peek Reader.peek := by
  cases hrest : place.cursor.rest with
  | nil => exact .of_error (run_peek_end hrest) (Reader.peek_eq_error hrest)
  | cons byte more =>
    have hhead : place.cursor.rest.head? = some byte := congrArg List.head? hrest
    exact .of_ok (run_peek hhead) (Reader.peek_eq_ok.mpr ⟨hhead, rfl⟩) inside.reaches

theorem follows_peek : Follows room peek Reader.peek := fun _ inside _ => followsAt_peek inside

/-- A look at the next byte leaves the place as it is. -/
theorem FollowsAt.peekBind {next : UInt8 → Step β} {nextReader : UInt8 → Reader β}
    (inside : place.Inside)
    (h : ∀ byte, place.cursor.rest.head? = some byte →
      FollowsAt place (next byte) (nextReader byte)) :
    FollowsAt place (peek >>= next) (Reader.peek >>= nextReader) := by
  refine (followsAt_peek inside).bind fun byte stop hreaches hread => ?_
  obtain ⟨hhead, hcursor⟩ := Reader.peek_eq_ok.mp hread
  have hsame : stop = place := by
    obtain ⟨data, position, depth⟩ := stop
    have hposition : position = place.position := (congrArg Cursor.position hcursor).symm
    have hdata : data = place.data := hreaches.data_eq
    have hdepth : depth = place.depth := hreaches.depth_eq
    rw [hdata, hdepth, hposition]
  exact hsame ▸ h byte hhead

/-- A count of the bytes that are left leaves the place as it is. -/
theorem FollowsAt.remainingBind {next : Nat → Step β} {nextReader : Cursor → Reader β}
    (h : FollowsAt place (next place.cursor.rest.length) (nextReader place.cursor)) :
    FollowsAt place (remaining >>= next) (get >>= nextReader) := by
  obtain ⟨outcome, hrun, halike⟩ := h
  refine ⟨outcome, ?_, halike⟩
  rw [run_bind_of_ok run_remaining, ← place.length_rest]
  exact hrun

/-- At the end there is no next byte. -/
theorem followsAt_end {next : UInt8 → Step β} (h : place.cursor.rest.length ≤ 0) :
    FollowsAt place (peek >>= next) (throw .outOfBounds : Reader β) :=
  .of_error (run_bind_of_error (run_peek_end (List.eq_nil_of_length_eq_zero (Nat.le_zero.mp h))))
    rfl

/-- A byte, and behind it what may need its position. -/
theorem FollowsAt.tagged {next : UInt8 → Step β} {nextReader : Nat → UInt8 → Reader β}
    (inside : place.Inside)
    (h : ∀ tag stop, place.Reaches stop → stop.position = place.position + 1 →
      FollowsAt stop (next tag) (nextReader place.position tag)) :
    FollowsAt place (u8 >>= next) (do
      let offset ← Reader.position
      let tag ← Reader.u8
      nextReader offset tag) := by
  show FollowsAt place (u8 >>= next) (Reader.u8 >>= nextReader place.position)
  refine (followsAt_u8 inside).bind fun tag stop hreaches hread => ?_
  exact h tag stop hreaches (Reader.u8_eq_ok.mp hread).position_eq

theorem run_lastPosition {offset : Nat} (h : place.position = offset + 1) :
    lastPosition.run.run place = .ok (.ok offset, place) := by
  rw [lastPosition, run_bind_of_ok run_position, h]
  exact run_lift (subtract_eq (Nat.le_add_left ..))

/-- The position of a byte that turns out to be wrong. -/
theorem followsAt_lastPosition {offset : Nat} (h : place.position = offset + 1)
    (cause : Nat → Malformation) :
    FollowsAt place (do malformed (cause (← lastPosition)))
      (Reader.malformed (cause offset) : Reader α) := by
  have hfailed : (do malformed (cause (← lastPosition)) : Step α).run.run place
      = .ok (.error (.malformed (cause offset)), place) := by
    rw [run_bind_of_ok (run_lastPosition h)]
    rfl
  exact .of_error hfailed rfl

theorem follows_expectByte (expected : UInt8) :
    Follows room (expectByte expected) (Reader.expectByte expected) := by
  refine fun place inside _ => .tagged inside fun found stop hreaches hposition => ?_
  split
  · exact followsAt_lastPosition hposition _
  · exact .of_ok rfl rfl (hreaches.inside inside).reaches

theorem follows_expect (expected : Char) :
    Follows room (expect expected) (Reader.expect expected) :=
  follows_expectByte _

theorem run_takeUntil_none {stops : UInt8 → Bool} (inside : place.Inside)
    (h : place.cursor.rest.findIdx? stops = none) :
    (takeUntil stops).run.run place = .ok (.error .outOfBounds, place) := by
  have hrest : tailFrom place.data place.position = .ok place.cursor.rest :=
    tailFrom_eq inside.position_le
  rw [takeUntil, run_bind_of_ok run_get, run_bind_of_ok (run_lift hrest), h]
  rfl

theorem follows_takeUntil (stops : UInt8 → Bool) :
    Follows room (takeUntil stops) (Reader.takeUntil stops) := by
  intro place inside _
  have hrest : tailFrom place.data place.position = .ok place.cursor.rest :=
    tailFrom_eq inside.position_le
  have hlength := place.length_rest
  cases hfind : place.cursor.rest.findIdx? stops with
  | none =>
    exact .of_error (run_takeUntil_none inside hfind)
      (Reader.takeUntil_eq_error (List.findIdx?_eq_none_iff.mp hfind))
  | some count =>
    obtain ⟨hcount, hstop, hgo⟩ := List.findIdx?_eq_some_iff_getElem.mp hfind
    have hfits : place.position + count ≤ place.data.length := by omega
    have hword := Nat.lt_of_le_of_lt hfits inside.length_lt
    have hrun : (place.data.take (place.position + count)).drop place.position
        = place.cursor.rest.take count := by
      rw [List.drop_take, Nat.add_sub_cancel_left]
      rfl
    have hpasses := (Place.passes_advance hfits).1
    rw [hrun] at hpasses
    have hread : Reader.takeUntil stops place.cursor
        = .ok (place.cursor.rest.take count) (place.advance count).cursor := by
      refine Reader.takeUntil_eq_ok.mpr ⟨hpasses, fun byte hbyte => ?_, place.cursor.rest[count],
        ?_, hstop⟩
      · obtain ⟨index, hindex, rfl⟩ := List.mem_take_iff_getElem.mp hbyte
        simpa using hgo index (by omega)
      · have hafter : (place.advance count).cursor.rest = place.cursor.rest.drop count :=
          (List.drop_drop ..).symm
        rw [hafter, List.head?_drop, List.getElem?_eq_getElem hcount]
    refine .of_ok ?_ hread (Place.reaches_advance hfits)
    rw [takeUntil, run_bind_of_ok run_get, run_bind_of_ok (run_lift hrest), hfind]
    dsimp only
    rw [run_bind_of_ok (run_lift (add_eq hword)), run_bind_of_ok (run_moveTo _)]
    exact run_lift (slice_eq (Nat.zero_le _) (Nat.le_of_lt hcount))

/-! ### Loops -/

theorem follows_times {item : Step α} {itemReader : Reader α}
    (hitem : Follows room item itemReader) (count : Nat) :
    Follows room (times count item) (Reader.times count itemReader) := by
  suffices ∀ read, Follows room (timesAfter item count read)
      (Reader.timesAfter itemReader count read) from this []
  induction count with
  | zero => exact fun _ => follows_pure _
  | succ count ih => exact fun read => hitem.bind fun value => ih (value :: read)

/-- Whatever the reader gives with so many levels left, it has used up a byte for it. -/
def Consumes (room : Nat) (reader : Reader α) : Prop :=
  ∀ ⦃place : Place⦄ ⦃value stop⦄, place.HasRoom room → reader place.cursor = .ok value stop →
    stop.rest.length < place.cursor.rest.length

/-- A reader whose values have a written form that is not empty. -/
theorem consumes_of_accounts {write : α → List UInt8} {Legal : α → List UInt8 → Prop}
    (h : ∀ depth, depth + room + 1 = Reader.nestingLimit →
      Reader.Accounts reader depth write Legal)
    (hne : ∀ value after, Legal value after → write value ≠ []) : Consumes room reader := by
  intro place value stop hroom hread
  obtain ⟨hpasses, hlegal⟩ := h place.depth hroom rfl hread
  have hlength := congrArg List.length hpasses.rest_eq
  have hwrite := List.length_pos_iff.mpr (hne _ _ hlegal)
  rw [List.length_append] at hlength
  omega

section

variable {item : Step α} {itemReader : Reader α} (hitem : Follows room item itemReader)

include hitem

/-- Every item uses up a byte, so the loop ends before its bound. -/
theorem followsAt_untilByteAfter (hconsumes : Consumes room itemReader) (closing : Char) (bound : Nat)
    (read : List α) (inside : place.Inside) (hroom : place.HasRoom room)
    (hbound : place.cursor.rest.length ≤ bound) :
    FollowsAt place (untilByteAfter closing item (bound + 1) read)
      (Reader.untilByteAfter closing itemReader bound read) := by
  induction bound generalizing place read with
  | zero => exact followsAt_end hbound
  | succ bound ih =>
    refine FollowsAt.peekBind inside fun byte _ => ?_
    split
    · exact (follows_skip 1).bind (fun _ => follows_pure _) place inside hroom
    · refine (hitem place inside hroom).bind fun value stop hreaches hread => ?_
      have hless := hconsumes hroom hread
      exact ih _ (hreaches.inside inside) (hreaches.hasRoom hroom) (by omega)

theorem follows_untilByte (hconsumes : Consumes room itemReader) (closing : Char) :
    Follows room (untilByte closing item) (Reader.untilByte closing itemReader) := by
  intro place inside hroom
  rw [untilByte, Reader.untilByte]
  refine FollowsAt.remainingBind ?_
  exact followsAt_untilByteAfter hitem hconsumes closing _ [] inside hroom (Nat.le_refl _)

/-- The mark in front of an item is a byte that it uses up. -/
theorem followsAt_markedAfter (mark : Char) (bound : Nat) (read : List α) (inside : place.Inside)
    (hroom : place.HasRoom room) (hbound : place.cursor.rest.length ≤ bound) :
    FollowsAt place (markedAfter mark item (bound + 1) read)
      (Reader.markedAfter mark itemReader bound read) := by
  induction bound generalizing place read with
  | zero => exact followsAt_end hbound
  | succ bound ih =>
    refine FollowsAt.peekBind inside fun byte hhead => ?_
    split
    · refine (follows_skip 1 place inside hroom).bind fun _ middle hreaches hskip => ?_
      have hmark : place.cursor.rest.length = middle.cursor.rest.length + 1 :=
        congrArg List.length (Reader.passes_of_skip_one hhead hskip).rest_eq
      refine (hitem middle (hreaches.inside inside) (hreaches.hasRoom hroom)).bind
        fun value stop hitems _ => ?_
      have hle := hitems.length_rest_le
      have hboth := hreaches.trans hitems
      exact ih _ (hboth.inside inside) (hboth.hasRoom hroom) (by omega)
    · exact follows_pure _ place inside hroom

theorem follows_marked (mark : Char) :
    Follows room (marked mark item) (Reader.marked mark itemReader) := by
  intro place inside hroom
  rw [marked, Reader.marked]
  refine FollowsAt.remainingBind ?_
  exact followsAt_markedAfter hitem mark _ [] inside hroom (Nat.le_refl _)

theorem followsAt_untilEndAfter (hconsumes : Consumes room itemReader) (bound : Nat) (read : List α)
    (inside : place.Inside) (hroom : place.HasRoom room)
    (hbound : place.cursor.rest.length ≤ bound) :
    FollowsAt place (untilEndAfter item (bound + 1) read)
      (Reader.untilEndAfter itemReader bound read) := by
  induction bound generalizing place read with
  | zero =>
    rw [place.length_rest] at hbound
    have hmore : hasMore.run.run place = .ok (.ok false, place) := by
      show Except.ok (Except.ok (decide (place.position < place.data.length)), place) = _
      rw [decide_eq_false (by omega)]
    refine .of_ok ?_ rfl inside.reaches
    rw [untilEndAfter, run_bind_of_ok hmore]
    rfl
  | succ bound ih =>
    refine (follows_hasMore place inside hroom).bind fun more middle hreaches _ => ?_
    have hinside := hreaches.inside inside
    have hmiddle := hreaches.hasRoom hroom
    have hle := hreaches.length_rest_le
    split
    · refine (hitem middle hinside hmiddle).bind fun value stop hitems hread => ?_
      have hless := hconsumes hmiddle hread
      exact ih _ (hitems.inside hinside) (hitems.hasRoom hmiddle) (by omega)
    · exact follows_pure _ middle hinside hmiddle

theorem follows_untilEnd (hconsumes : Consumes room itemReader) :
    Follows room (untilEnd item) (Reader.untilEnd itemReader) := by
  intro place inside hroom
  rw [untilEnd, Reader.untilEnd]
  refine FollowsAt.remainingBind ?_
  exact followsAt_untilEndAfter hitem hconsumes _ [] inside hroom (Nat.le_refl _)

end

/-! ### Levels -/

/-- The place one level deeper. -/
def Place.deeper (place : Place) : Place := { place with depth := place.depth + 1 }

/-- The place one level back. -/
def Place.shallower (place : Place) : Place := { place with depth := place.depth - 1 }

theorem run_enter (h : place.depth + 1 ≤ Reader.nestingLimit) :
    enter.run.run place
      = if Reader.nestingLimit ≤ place.depth + 1
          then .ok (.error (.recursionLimit Reader.nestingLimit), place.deeper)
          else .ok (.ok (), place.deeper) := by
  have hword : place.depth + 1 < wordLimit := Nat.lt_of_le_of_lt h (by decide)
  rw [enter, run_bind_of_ok run_get, run_bind_of_ok (run_lift (add_eq hword)),
    run_bind_of_ok (show (modify fun place' : Place => { place' with depth := place.depth + 1 }
      : Step Unit).run.run place = .ok (.ok (), place.deeper) from rfl)]
  split <;> rfl

theorem Place.Reaches.closed (h : place.deeper.Reaches stop) : place.Reaches stop.shallower where
  data_eq := h.data_eq
  position_le := h.position_le
  le_length := h.le_length
  depth_eq := by
    show stop.depth - 1 = place.depth
    rw [h.depth_eq]
    rfl

theorem run_leave (h : 0 < place.depth) :
    leave.run.run place = .ok (.ok (), place.shallower) := by
  rw [leave, run_bind_of_ok run_get, run_bind_of_ok (run_lift (subtract_eq h))]
  rfl

/-- A reader that asks how many levels are left. -/
theorem follows_room {readerAt : Nat → Reader α} (h : Follows room step (readerAt room)) :
    Follows room step (do readerAt (← Reader.room)) := by
  intro place inside hroom
  have hleft : Reader.nestingLimit - 1 - place.depth = room := by
    have hlimit : place.depth + room + 1 = Reader.nestingLimit := hroom
    omega
  show FollowsAt place step (readerAt (Reader.nestingLimit - 1 - place.depth))
  rw [hleft]
  exact h place inside hroom

/-- A level that is one too many is refused. -/
theorem follows_tooDeep {next : Unit → Step α} :
    Follows 0 (enter >>= next) (Reader.tooDeep : Reader α) := by
  intro place _ hroom
  have hlimit : place.depth + 1 = Reader.nestingLimit := hroom
  refine ⟨(.error (.recursionLimit Reader.nestingLimit), place.deeper), ?_, ?_⟩
  · refine run_bind_of_error ?_
    rw [run_enter (Nat.le_of_eq hlimit), if_pos (Nat.le_of_eq hlimit.symm)]
  · exact .error (Nat.le_succ _)

theorem run_enter_of_hasRoom (hroom : place.HasRoom (room + 1)) :
    enter.run.run place = .ok (.ok (), place.deeper) ∧ place.deeper.HasRoom room := by
  have hlimit : place.depth + (room + 1) + 1 = Reader.nestingLimit := hroom
  refine ⟨?_, ?_⟩
  · rw [run_enter (by omega), if_neg (by omega)]
  · show place.depth + 1 + room + 1 = _
    omega

theorem run_observe {outcome : Except Error α} (h : step.run.run place = .ok (outcome, stop)) :
    (observe step).run.run place = .ok (.ok outcome, stop) := by
  show (step.run >>= fun outcome => pure (.ok outcome)
    : StateT Place Guarded (Except Error (Except Error α))).run place = _
  rw [StateT.run_bind, h]
  rfl

/-- In a level there is one to close, behind an error too. -/
theorem follows_nested {body : Step α} {bodyReader : Reader α}
    (hbody : Follows room body bodyReader) :
    Follows (room + 1) (nested body) (Reader.nested bodyReader) := by
  intro place inside hroom
  obtain ⟨henter, hdeeper⟩ := run_enter_of_hasRoom hroom
  obtain ⟨outcome, hrun, halike⟩ := hbody place.deeper ⟨inside.position_le, inside.length_lt⟩ hdeeper
  have hread := Reader.nested_apply bodyReader place.cursor
  have hcursor : { place.cursor with depth := place.cursor.depth + 1 } = place.deeper.cursor := rfl
  rw [hcursor] at hread
  generalize bodyReader place.deeper.cursor = result at halike hread
  cases halike with
  | @ok value stop hreaches =>
    have hdepth : stop.depth = place.depth + 1 := hreaches.depth_eq
    have hstop : Reader.nested bodyReader place.cursor = .ok value stop.shallower.cursor := hread
    refine .of_ok ?_ hstop hreaches.closed
    rw [nested, run_bind_of_ok henter, run_bind_of_ok (run_observe hrun),
      run_bind_of_ok (run_leave (by omega))]
    rfl
  | @error error stop cursor hdepth =>
    have hdepth : place.depth + 1 ≤ stop.depth := hdepth
    refine ⟨(.error error, stop.shallower), ?_, hread ▸ .error ?_⟩
    · rw [nested, run_bind_of_ok henter, run_bind_of_ok (run_observe hrun),
        run_bind_of_ok (run_leave (by omega))]
      rfl
    · show place.depth ≤ stop.depth - 1
      omega

/-- In a level that is left only behind a value there is one to close. -/
theorem follows_framed {body : Step α} {bodyReader : Reader α}
    (hbody : Follows room body bodyReader) :
    Follows (room + 1) (framed body) (Reader.framed bodyReader) := by
  intro place inside hroom
  obtain ⟨henter, hdeeper⟩ := run_enter_of_hasRoom hroom
  obtain ⟨outcome, hrun, halike⟩ := hbody place.deeper ⟨inside.position_le, inside.length_lt⟩ hdeeper
  have hread := Reader.framed_apply bodyReader place.cursor
  have hcursor : { place.cursor with depth := place.cursor.depth + 1 } = place.deeper.cursor := rfl
  rw [hcursor] at hread
  generalize bodyReader place.deeper.cursor = result at halike hread
  cases halike with
  | @ok value stop hreaches =>
    have hdepth : stop.depth = place.depth + 1 := hreaches.depth_eq
    have hstop : Reader.framed bodyReader place.cursor = .ok value stop.shallower.cursor := hread
    refine .of_ok ?_ hstop hreaches.closed
    rw [framed, run_bind_of_ok henter, run_bind_of_ok hrun,
      run_bind_of_ok (run_leave (by omega))]
    rfl
  | @error error stop cursor hdepth =>
    have hdepth : place.depth + 1 ≤ stop.depth := hdepth
    refine ⟨(.error error, stop), ?_, hread ▸ .error (by omega)⟩
    rw [framed, run_bind_of_ok henter, run_bind_of_error hrun]

/-- Where all levels are left none is open. -/
theorem follows_surface : Follows (Reader.nestingLimit - 1) surface Reader.surface := by
  intro place inside hroom
  have hdepth : place.depth = 0 := by
    have hlimit : place.depth + (Reader.nestingLimit - 1) + 1 = Reader.nestingLimit := hroom
    omega
  have hrun : surface.run.run place = .ok (.ok (), { place with depth := 0 }) := rfl
  exact .of_ok hrun rfl ⟨rfl, Nat.le_refl _, inside.position_le, hdepth.symm⟩

/-! ### From start to end -/

/-- What a step reads from the start of bytes that can be addressed. -/
theorem value_of_follows (h : Follows (Reader.nestingLimit - 1) step reader) {data : List UInt8}
    (hdata : data.length < wordLimit) : (step.value data).run = .ok (reader.value data) := by
  obtain ⟨outcome, hrun, halike⟩ := h (.ofBytes data) ⟨Nat.zero_le _, hdata⟩ rfl
  have hcursor : (Place.ofBytes data).cursor = .ofBytes data := rfl
  rw [hcursor] at halike
  show (·.1) <$> step.run.run (.ofBytes data) = _
  rw [hrun, Reader.value]
  generalize reader (.ofBytes data) = result at halike
  cases halike <;> rfl

end ClassAtlas.Machine
