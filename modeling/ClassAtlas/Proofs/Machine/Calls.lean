import ClassAtlas.Proofs.Machine.Reading
import ClassAtlas.Proofs.Reading.Calls

namespace ClassAtlas.Machine

/-!
# Calls by a position

Of the bytes that are read by a position no call skips one and none reads one twice, whatever the
calls are, whichever of them fail, and however large the counts and offsets are.

* `Place.performAll` — calls one after the other, from a place in some bytes;
* `Place.perform_of_ends` — a call comes to the end that is possible, and without a fault;
* `Place.Takes` — what a call has to do with the bytes in front of it;
* `Place.Trail`, `Place.trail_performAll` — each of the calls takes the bytes behind those that were
  taken before it.
-/

open Cursor (Call Reply Ends)

/-! ### Calls -/

/-- A number of any format. -/
def readNumber (format : NumberFormat) : Step Number := format.number <$> number format.width

/-- The step that answers a call. -/
def answer : Call → Step Reply
  | .number format => .number <$> readNumber format
  | .bytes count => .bytes <$> bytes count
  | .advance => do skip 1; return .done
  | .advanceBy count => do skip count; return .done
  | .takeUntil stops => .bytes <$> takeUntil stops
  | .expectByte expected => do expectByte expected; return .done
  | .peek => .byte <$> peek

/-- The place behind a call, and how the call ended. -/
def Place.perform (place : Place) (call : Call) : Guarded (Place × Except Error Reply) := do
  let (outcome, stop) ← (answer call).run.run place
  return (stop, outcome)

/-- The place behind calls one after the other, and how they ended in their order. -/
def Place.performAll (place : Place) : List Call → Guarded (Place × List (Except Error Reply))
  | [] => return (place, [])
  | call :: later => do
    let (next, outcome) ← place.perform call
    let (last, outcomes) ← next.performAll later
    return (last, outcome :: outcomes)

variable {α : Type} {room : Nat} {place : Place}

theorem run_map_of_error {step : Step α} {β : Type} {f : α → β} {error : Error} {stop : Place}
    (h : step.run.run place = .ok (.error error, stop)) :
    (f <$> step).run.run place = .ok (.error error, stop) := by
  rw [map_eq_pure_bind, run_bind_of_error h]

theorem Place.perform_of_run {call : Call} {outcome : Except Error Reply} {stop : Place}
    (h : (answer call).run.run place = .ok (outcome, stop)) :
    place.perform call = .ok (stop, outcome) := by
  rw [perform, h]
  rfl

/-! ### The ends of a call -/

theorem follows_answer (call : Call) : Follows room (answer call) call.read := by
  cases call with
  | number format =>
    rw [Call.read, NumberFormat.read_eq]
    exact ((follows_number _).map _).map _
  | bytes count => exact (follows_bytes count).map _
  | advance => exact (follows_skip 1).bind fun _ => follows_pure _
  | advanceBy count => exact (follows_skip count).bind fun _ => follows_pure _
  | takeUntil stops => exact (follows_takeUntil stops).map _
  | expectByte expected => exact (follows_expectByte expected).bind fun _ => follows_pure _
  | peek => exact follows_peek.map _

/-- A step gives what the reader gives, and stops at the same place. -/
theorem FollowsAt.run_of_ok {step : Step α} {reader : Reader α} {value : α} {stop : Place}
    (h : FollowsAt place step reader) (hread : reader place.cursor = .ok value stop.cursor)
    (hdata : stop.data = place.data) : step.run.run place = .ok (.ok value, stop) := by
  obtain ⟨outcome, hrun, halike⟩ := h
  generalize hresult : reader place.cursor = result at halike
  cases halike with
  | @ok value' stop' hreaches =>
    obtain ⟨rfl, hcursor⟩ := EStateM.Result.ok.inj (hresult.symm.trans hread)
    have hsame : stop' = stop := by
      obtain ⟨data, position, depth⟩ := stop
      obtain ⟨data', position', depth'⟩ := stop'
      have hposition : position' = position := congrArg Cursor.position hcursor
      have hdepth : depth' = depth := congrArg Cursor.depth hcursor
      have hdata' : data' = data := hreaches.data_eq.trans hdata.symm
      rw [hposition, hdepth, hdata']
    rw [hrun, hsame]
  | error => cases hresult.symm.trans hread

/-- Where bytes are missing the call fails, and the place stays. -/
theorem run_answer_short {call : Call} (inside : place.Inside)
    (missing : ¬ call.FitsIn place.cursor.rest) :
    (answer call).run.run place = .ok (.error .outOfBounds, place) := by
  have hle := inside.position_le
  have hlength := place.length_rest
  have hshort {count : Nat} (h : ¬ count ≤ place.cursor.rest.length) :
      place.data.length - place.position < count := by
    omega
  have hnumber {count : Nat} (h : ¬ count ≤ place.cursor.rest.length) :
      ¬ place.position + count ≤ place.data.length := by
    omega
  cases call with
  | number format => exact run_map_of_error (run_map_of_error (run_number_short (hnumber missing)))
  | bytes count => exact run_map_of_error (run_bytes_short (hshort missing))
  | advance => exact run_bind_of_error (run_skip_short (hshort missing))
  | advanceBy count => exact run_bind_of_error (run_skip_short (hshort missing))
  | takeUntil stops =>
    refine run_map_of_error (run_takeUntil_none inside (List.findIdx?_eq_none_iff.mpr ?_))
    exact fun byte hbyte => Bool.eq_false_iff.mpr fun hstop => missing ⟨byte, hbyte, hstop⟩
  | expectByte expected =>
    exact run_bind_of_error (run_bind_of_error
      (run_bind_of_error (run_number_short (hnumber missing))))
  | peek =>
    have hnothing : place.cursor.rest = [] := by
      refine List.eq_nil_of_length_eq_zero ?_
      have hnone : ¬ 1 ≤ place.cursor.rest.length := missing
      omega
    exact run_map_of_error (run_peek_end hnothing)

/-- A byte that is not the expected one is passed all the same. -/
theorem run_answer_unexpected {expected found : UInt8} (inside : place.Inside)
    (hpass : place.cursor.Passes [found] (place.advance 1).cursor) (other : found ≠ expected) :
    (answer (.expectByte expected)).run.run place
      = .ok (.error (.malformed (.unexpectedByte expected found place.position)),
        place.advance 1) := by
  have hfound : u8.run.run place = .ok (.ok found, place.advance 1) :=
    (followsAt_u8 inside).run_of_ok (Reader.u8_eq_ok.mpr hpass) rfl
  refine run_bind_of_error ?_
  rw [expectByte, run_bind_of_ok hfound, if_pos other, run_bind_of_ok (run_lastPosition rfl)]
  rfl

section

variable {taken left : List UInt8} (hrest : place.cursor.rest = taken ++ left)

include hrest

/-- What is left behind the bytes that were taken. -/
theorem Place.rest_advance : (place.advance taken.length).cursor.rest = left := by
  have hdrop : place.data.drop place.position = taken ++ left := hrest
  show place.data.drop (place.position + taken.length) = left
  rw [← List.drop_drop, hdrop, List.drop_left]

theorem Place.passes_of_rest : place.cursor.Passes taken (place.advance taken.length).cursor :=
  ⟨(rest_advance hrest).symm ▸ hrest, rfl, rfl⟩

/-- The bytes that are taken are inside the data. -/
theorem Place.advance_le_of_rest (inside : place.Inside) :
    place.position + taken.length ≤ place.data.length := by
  have hlength := place.length_rest
  have hle := inside.position_le
  rw [hrest, List.length_append] at hlength
  omega

/-- **A call comes to the end that is possible,** and without a fault. -/
theorem Place.perform_of_ends {call : Call} {outcome : Except Error Reply}
    (inside : place.Inside) (hroom : place.HasRoom room)
    (h : Ends place.position call taken left outcome) :
    place.perform call = .ok (place.advance taken.length, outcome) := by
  have hpass := passes_of_rest hrest
  refine perform_of_run ?_
  cases outcome with
  | ok reply =>
    have hread := Cursor.perform_of_ends hpass ((rest_advance hrest).symm ▸ h)
    exact (follows_answer call place inside hroom).run_of_ok (Cursor.read_of_perform hread) rfl
  | error error =>
    have hmissing := h.outOfBounds_iff
    obtain ⟨rfl, rfl⟩ | ⟨expected, found, rfl, other, rfl, rfl⟩ := h.of_error
    · exact run_answer_short inside (hrest ▸ hmissing.mp rfl)
    · exact run_answer_unexpected inside hpass other

end

/-! ### What the calls take -/

/-- What a call has to do with the bytes in front of it. -/
structure Place.Takes (start : Place) (call : Call) (taken : List UInt8)
    (outcome : Except Error Reply) (stop : Place) : Prop where
  /-- The call ends without a fault. -/
  perform_eq : start.perform call = .ok (stop, outcome)
  /-- It changes neither the bytes nor the levels, and the position moves neither back nor behind the
      end. -/
  reaches : start.Reaches stop
  /-- It takes the bytes between the two positions. -/
  taken_eq : taken = (start.data.take stop.position).drop start.position
  /-- Its end is one that is possible with these bytes, and shows which they are. -/
  ends : Ends start.position call taken (stop.data.drop stop.position) outcome
  /-- It fails for want of bytes where some of those it asks for are not there. -/
  outOfBounds_iff :
    outcome = .error .outOfBounds ↔ ¬ call.FitsIn (start.data.drop start.position)
  /-- Where it fails the place stays, but behind a byte that was not the expected one. -/
  of_error : ∀ error, outcome = .error error → stop = start
    ∨ ∃ expected found, call = .expectByte expected ∧ start.data[start.position]? = some found
      ∧ found ≠ expected ∧ stop = start.advance 1

/-- Calls one after the other, each from the place where the one before it stopped, with the bytes
    that each of them takes. -/
inductive Place.Trail : Place → List Call → List (List UInt8) → List (Except Error Reply) → Place →
    Prop where
  /-- Without calls the place stays. -/
  | nil (place : Place) : Trail place [] [] [] place
  /-- A call, and those behind it. -/
  | cons {start middle stop : Place} {call : Call} {later : List Call} {taken : List UInt8}
      {chunks : List (List UInt8)} {outcome : Except Error Reply}
      {outcomes : List (Except Error Reply)} (takes : start.Takes call taken outcome middle)
      (trail : middle.Trail later chunks outcomes stop) :
    Trail start (call :: later) (taken :: chunks) (outcome :: outcomes) stop

/-- Whatever the call is, it takes some bytes, and a cursor comes to the same end. -/
theorem Place.exists_takes (inside : place.Inside) (hroom : place.HasRoom room) (call : Call) :
    ∃ taken outcome stop, place.Takes call taken outcome stop
      ∧ place.cursor.perform call = (stop.cursor, outcome) := by
  obtain ⟨taken, left, outcome, hrest, hends⟩ :=
    Cursor.exists_ends place.position call place.cursor.rest
  have hdrop : place.data.drop place.position = taken ++ left := hrest
  have hleft : Ends place.position call taken (place.advance taken.length).cursor.rest outcome :=
    (rest_advance hrest).symm ▸ hends
  refine ⟨taken, outcome, place.advance taken.length, ?_,
    Cursor.perform_of_ends (passes_of_rest hrest) hleft⟩
  exact {
    perform_eq := perform_of_ends hrest inside hroom hends
    reaches := reaches_advance (advance_le_of_rest hrest inside)
    taken_eq := by
      show taken = (place.data.take (place.position + taken.length)).drop place.position
      rw [List.drop_take, Nat.add_sub_cancel_left, hdrop, List.take_left]
    ends := hleft
    outOfBounds_iff := hdrop ▸ hends.outOfBounds_iff
    of_error := by
      rintro error rfl
      obtain ⟨-, rfl⟩ | ⟨expected, found, rfl, other, rfl, -⟩ := hends.of_error
      · exact .inl rfl
      · have hfound : place.data[place.position]? = some found := by
          rw [← List.head?_drop, hdrop]
          rfl
        exact .inr ⟨expected, found, rfl, hfound, other, rfl⟩ }

/-- So do calls one after the other. -/
theorem Place.exists_trail (inside : place.Inside) (hroom : place.HasRoom room)
    (calls : List Call) :
    ∃ chunks outcomes stop, place.performAll calls = .ok (stop, outcomes)
      ∧ place.cursor.performAll calls = (stop.cursor, outcomes)
      ∧ place.Trail calls chunks outcomes stop := by
  -- On the calls: a failure leaves a place where the later ones can go on.
  induction calls generalizing place with
  | nil => exact ⟨[], [], place, rfl, rfl, .nil place⟩
  | cons call later ih =>
    obtain ⟨taken, outcome, middle, htakes, hperform⟩ := exists_takes inside hroom call
    obtain ⟨chunks, outcomes, stop, hrun, hread, htrail⟩ :=
      ih (htakes.reaches.inside inside) (htakes.reaches.hasRoom hroom)
    refine ⟨taken :: chunks, outcome :: outcomes, stop, ?_, ?_, .cons htakes htrail⟩
    · show (do
        let (next, outcome) ← place.perform call
        let (last, outcomes) ← next.performAll later
        return (last, outcome :: outcomes)) = _
      rw [htakes.perform_eq]
      show (do
        let (last, outcomes) ← middle.performAll later
        return (last, outcome :: outcomes)) = _
      rw [hrun]
      rfl
    · show (((place.cursor.perform call).1.performAll later).1,
        (place.cursor.perform call).2 :: ((place.cursor.perform call).1.performAll later).2) = _
      rw [hperform, hread]

theorem Place.Takes.passes {start stop : Place} {call : Call} {taken : List UInt8}
    {outcome : Except Error Reply} (h : start.Takes call taken outcome stop) :
    start.cursor.Passes taken stop.cursor := by
  obtain ⟨count, hcount⟩ := Nat.exists_eq_add_of_le h.reaches.position_le
  have hstop : stop = start.advance count := by
    obtain ⟨data, position, depth⟩ := stop
    have hdata : data = start.data := h.reaches.data_eq
    have hposition : position = start.position + count := hcount
    have hdepth : depth = start.depth := h.reaches.depth_eq
    rw [hdata, hposition, hdepth]
    rfl
  have hpasses := (passes_advance (hcount ▸ h.reaches.le_length)).1
  rw [h.taken_eq, hstop]
  exact hpasses

/-- What calls take one after the other stands between the first place and the last one. -/
theorem Place.Trail.passes {start stop : Place} {calls : List Call} {chunks : List (List UInt8)}
    {outcomes : List (Except Error Reply)} (h : start.Trail calls chunks outcomes stop)
    (inside : start.Inside) :
    start.Reaches stop ∧ start.cursor.Passes chunks.flatten stop.cursor := by
  induction h with
  | nil place => exact ⟨inside.reaches, .refl _⟩
  | cons takes _ ih =>
    obtain ⟨hreaches, hpasses⟩ := ih (takes.reaches.inside inside)
    exact ⟨takes.reaches.trans hreaches, takes.passes.trans hpasses⟩

/-! ### Numbers at an offset -/

/-- A number at an offset of some bytes, and the offset behind it. -/
def readNumberAt (format : NumberFormat) (data : List UInt8) (offset : Nat) :
    Guarded (Nat × Except Error Number) := do
  let (outcome, stop) ← (readNumber format).run.run ⟨data, offset, 0⟩
  return (stop.position, outcome)

/-- What a number at an offset has to do with the bytes. -/
structure LiesAt (data : List UInt8) (format : NumberFormat) (offset stop : Nat)
    (outcome : Except Error Number) : Prop where
  /-- There is a number where all its bytes are inside the data. -/
  exists_ok_iff : (∃ number, outcome = .ok number) ↔ offset + format.width ≤ data.length
  /-- Its bytes are those from the offset on. -/
  of_ok : ∀ number, outcome = .ok number → number.format = format
    ∧ number.bytes = (data.take stop).drop offset ∧ stop = offset + format.width
  /-- Where there is none the offset stays. -/
  of_error : ∀ error, outcome = .error error → error = .outOfBounds ∧ stop = offset

/-- A number is read at any offset without a fault. -/
theorem exists_liesAt {data : List UInt8} (hdata : data.length < wordLimit)
    (format : NumberFormat) (offset : Nat) :
    ∃ stop outcome, readNumberAt format data offset = .ok (stop, outcome)
      ∧ format.readAt data offset = (stop, outcome) ∧ LiesAt data format offset stop outcome := by
  let place : Place := ⟨data, offset, 0⟩
  by_cases h : offset + format.width ≤ data.length
  · have hfits : place.position + format.width ≤ place.data.length := h
    obtain ⟨hpasses, hlength⟩ := Place.passes_advance hfits
    let chunk := (data.take (offset + format.width)).drop offset
    let number := format.number (Reader.bigEndian chunk)
    have hrun : (readNumber format).run.run place
        = .ok (.ok number, place.advance format.width) := by
      rw [readNumber, map_eq_pure_bind, run_bind_of_ok (run_number hdata hfits)]
      rfl
    have hread : format.read place.cursor = .ok number (place.advance format.width).cursor := by
      rw [NumberFormat.read_eq]
      exact Reader.map_eq_ok.mpr ⟨_, Reader.map_eq_ok.mpr
        ⟨chunk, Reader.bytes_eq_ok.mpr ⟨hpasses, hlength⟩, rfl⟩, rfl⟩
    refine ⟨offset + format.width, .ok number, ?_, ?_, ?_⟩
    · rw [readNumberAt, hrun]
      rfl
    · rw [NumberFormat.readAt]
      exact hread ▸ rfl
    · exact {
        exists_ok_iff := iff_of_true ⟨number, rfl⟩ h
        of_ok := by
          rintro _ ⟨⟩
          exact ⟨format.format_number _, NumberFormat.bytes_number hlength, rfl⟩
        of_error := by
          rintro _ ⟨⟩ }
  · have hmissing : ¬ place.position + format.width ≤ place.data.length := h
    -- Every number has a byte, so behind the end there is none either.
    have hshort : place.cursor.rest.length < format.width := by
      have hpos := format.width_pos
      rw [place.length_rest]
      show data.length - offset < _
      omega
    have hrun : (readNumber format).run.run place = .ok (.error .outOfBounds, place) :=
      run_map_of_error (run_number_short hmissing)
    have hread : format.read place.cursor = .error .outOfBounds place.cursor := by
      rw [NumberFormat.read_eq, map_eq_pure_bind, Reader.bind_apply,
        Reader.number_eq_error hshort]
    refine ⟨offset, .error .outOfBounds, ?_, ?_, ?_⟩
    · rw [readNumberAt, hrun]
      rfl
    · rw [NumberFormat.readAt]
      exact hread ▸ rfl
    · exact {
        exists_ok_iff := iff_of_false (by simp) h
        of_ok := by
          rintro _ ⟨⟩
        of_error := by
          rintro _ ⟨⟩
          exact ⟨rfl, rfl⟩ }

/-! ### The whole -/

/-- **No byte is skipped, and none is read twice.**  Calls one after the other, some of which may
    fail, come to their ends without a fault, and the cursor that uses the bytes up gives the same
    replies and stops at the same place.  Each call takes the bytes behind those that were taken
    before it, so that all that was taken is what is in front of the position.  Numbers at an offset
    are read where they are inside the bytes, whatever the offset is. -/
theorem Place.trail_performAll {data : List UInt8} (hdata : data.length < wordLimit)
    (calls : List Call) :
    (∃ chunks outcomes stop, (Place.ofBytes data).performAll calls = .ok (stop, outcomes)
      ∧ (Cursor.ofBytes data).performAll calls = (stop.cursor, outcomes)
      ∧ (Place.ofBytes data).Trail calls chunks outcomes stop
      ∧ stop.position ≤ data.length ∧ chunks.flatten = data.take stop.position)
    ∧ ∀ (format : NumberFormat) (offset : Nat), ∃ stop outcome,
        readNumberAt format data offset = .ok (stop, outcome)
          ∧ format.readAt data offset = (stop, outcome)
          ∧ LiesAt data format offset stop outcome := by
  refine ⟨?_, exists_liesAt hdata⟩
  have inside : (Place.ofBytes data).Inside := ⟨Nat.zero_le _, hdata⟩
  have hroom : (Place.ofBytes data).HasRoom (Reader.nestingLimit - 1) := rfl
  obtain ⟨chunks, outcomes, stop, hrun, hread, htrail⟩ := exists_trail inside hroom calls
  obtain ⟨hreaches, hrest, hposition, -⟩ := htrail.passes inside
  refine ⟨chunks, outcomes, stop, hrun, hread, htrail, hreaches.le_length, ?_⟩
  -- The bytes are those that were taken and those that are left.
  have hdata' : data = chunks.flatten ++ stop.cursor.rest := hrest
  have hlength : stop.position = chunks.flatten.length := hposition.trans (Nat.zero_add _)
  rw [hlength, hdata', List.take_left]

/-- Of five bytes four are taken by six calls, three of which fail.  At the end of them there is a
    number, and none at the last offset that can be told. -/
theorem trail_performAll_five_bytes :
    let data : List UInt8 := [0xCA, 0xFE, 0x61, 0x3B, 0x00]
    let calls : List Call := [.number .u16, .bytes (2 ^ 64 - 1), .takeUntil (· == 0x3B),
      .expectByte 0x3C, .peek, .number .u32]
    data.length < wordLimit
      ∧ (∃ chunks stop, (Place.ofBytes data).Trail calls chunks
          [.ok (.number (.u16 0xCAFE)), .error .outOfBounds, .ok (.bytes [0x61]),
            .error (.malformed (.unexpectedByte 0x3C 0x3B 3)), .ok (.byte 0x00),
            .error .outOfBounds] stop
        ∧ stop.position = 4 ∧ chunks.flatten = [0xCA, 0xFE, 0x61, 0x3B])
      ∧ LiesAt data .i16 3 5 (.ok (.i16 0x3B00))
      ∧ LiesAt data .u64 (2 ^ 64 - 1) (2 ^ 64 - 1) (.error .outOfBounds) := by
  intro data calls
  have hdata : data.length < wordLimit := by decide
  obtain ⟨⟨chunks, outcomes, stop, -, hread, htrail, -, hflatten⟩, hnumbers⟩ :=
    Place.trail_performAll hdata calls
  have hcalls : (Cursor.ofBytes data).performAll calls = (⟨[0x00], 4, 0⟩,
      [.ok (.number (.u16 0xCAFE)), .error .outOfBounds, .ok (.bytes [0x61]),
        .error (.malformed (.unexpectedByte 0x3C 0x3B 3)), .ok (.byte 0x00),
        .error .outOfBounds]) := by decide +kernel
  obtain ⟨hstop, rfl⟩ := Prod.mk.inj (hread.symm.trans hcalls)
  have hposition : stop.position = 4 := congrArg Cursor.position hstop
  rw [hposition] at hflatten
  obtain ⟨_, _, -, hnumber, hends⟩ := hnumbers .i16 3
  have hlast : NumberFormat.i16.readAt data 3 = (5, .ok (.i16 0x3B00)) := by rfl
  obtain ⟨rfl, rfl⟩ := Prod.mk.inj (hnumber.symm.trans hlast)
  obtain ⟨_, _, -, hnone, hfails⟩ := hnumbers .u64 (2 ^ 64 - 1)
  have hbehind : NumberFormat.u64.readAt data (2 ^ 64 - 1)
      = (2 ^ 64 - 1, .error .outOfBounds) := by rfl
  obtain ⟨rfl, rfl⟩ := Prod.mk.inj (hnone.symm.trans hbehind)
  exact ⟨hdata, ⟨chunks, stop, htrail, hposition, hflatten⟩, hends, hfails⟩

end ClassAtlas.Machine
