import ClassAtlas.Proofs.Reading.Spelling

namespace ClassAtlas

/-!
# Calls on one cursor

Numbers, bytes and text can be asked of one cursor in any order, and behind a call that fails there
may be others.

* `NumberFormat`, `Number` — the numbers of a fixed width, and the bytes they stand for;
* `Cursor.Call`, `Cursor.performAll` — calls one after the other, and the replies to them;
* `Cursor.Ends` — how a call ends, by the bytes it takes and those it leaves;
* `Cursor.exists_ends`, `Cursor.perform_of_ends` — some end is possible with any bytes, and a call
  comes to the end that is possible.
-/

/-! ### Numbers of a fixed width -/

/-- The ways to write a number in a fixed width. -/
inductive NumberFormat where
  | u8 | i8 | u16 | i16 | u32 | i32 | u64 | i64
  /-- A binary fraction of four bytes. -/
  | f32
  /-- A binary fraction of eight bytes. -/
  | f64
  deriving DecidableEq

/-- A number that was read.  A binary fraction is known by its bits. -/
inductive Number where
  | u8 (value : UInt8)
  | i8 (value : Int8)
  | u16 (value : UInt16)
  | i16 (value : Int16)
  | u32 (value : UInt32)
  | i32 (value : Int32)
  | u64 (value : UInt64)
  | i64 (value : Int64)
  | f32 (bits : UInt32)
  | f64 (bits : UInt64)
  deriving DecidableEq

namespace NumberFormat

/-- How many bytes the number has. -/
def width : NumberFormat → Nat
  | .u8 | .i8 => 1
  | .u16 | .i16 => 2
  | .u32 | .i32 | .f32 => 4
  | .u64 | .i64 | .f64 => 8

theorem width_pos (format : NumberFormat) : 0 < format.width := by
  cases format <;> decide

/-- The number with these bits. -/
def number : NumberFormat → (bits : Nat) → Number
  | .u8, bits => .u8 (.ofNat bits)
  | .i8, bits => .i8 (UInt8.ofNat bits).toInt8
  | .u16, bits => .u16 (.ofNat bits)
  | .i16, bits => .i16 (UInt16.ofNat bits).toInt16
  | .u32, bits => .u32 (.ofNat bits)
  | .i32, bits => .i32 (UInt32.ofNat bits).toInt32
  | .u64, bits => .u64 (.ofNat bits)
  | .i64, bits => .i64 (UInt64.ofNat bits).toInt64
  | .f32, bits => .f32 (.ofNat bits)
  | .f64, bits => .f64 (.ofNat bits)

/-- Reads a number. -/
def read : NumberFormat → Reader Number
  | .u8 => .u8 <$> Reader.u8
  | .i8 => .i8 <$> Reader.i8
  | .u16 => .u16 <$> Reader.u16
  | .i16 => .i16 <$> Reader.i16
  | .u32 => .u32 <$> Reader.u32
  | .i32 => .i32 <$> Reader.i32
  | .u64 => .u64 <$> Reader.u64
  | .i64 => .i64 <$> Reader.i64
  | .f32 => .f32 <$> Reader.u32
  | .f64 => .f64 <$> Reader.u64

/-- All numbers are read alike: so many bytes, and the number with their bits. -/
theorem read_eq (format : NumberFormat) :
    format.read = format.number <$> Reader.number format.width := by
  cases format <;>
    simp only [read, Reader.u8, Reader.i8, Reader.u16, Reader.i16, Reader.u32, Reader.i32,
      Reader.u64, Reader.i64, map_eq_pure_bind, bind_assoc, pure_bind] <;>
    rfl

/-- The offset behind a number at an offset of some bytes, and the number. -/
def readAt (format : NumberFormat) (data : List UInt8) (offset : Nat) :
    Nat × Except Error Number :=
  match format.read (.ofBytesAt data offset) with
  | .ok number stop => (stop.position, .ok number)
  | .error error stop => (stop.position, .error error)

end NumberFormat

namespace Number

/-- The format of a number. -/
def format : Number → NumberFormat
  | .u8 _ => .u8
  | .i8 _ => .i8
  | .u16 _ => .u16
  | .i16 _ => .i16
  | .u32 _ => .u32
  | .i32 _ => .i32
  | .u64 _ => .u64
  | .i64 _ => .i64
  | .f32 _ => .f32
  | .f64 _ => .f64

/-- The bits of a number. -/
def bits : Number → Nat
  | .u8 value => value.toNat
  | .i8 value => value.toUInt8.toNat
  | .u16 value => value.toNat
  | .i16 value => value.toUInt16.toNat
  | .u32 value => value.toNat
  | .i32 value => value.toUInt32.toNat
  | .u64 value => value.toNat
  | .i64 value => value.toUInt64.toNat
  | .f32 bits => bits.toNat
  | .f64 bits => bits.toNat

/-- The bytes that the number stands for, high byte first. -/
def bytes (number : Number) : List UInt8 := spell number.format.width number.bits

theorem length_bytes (number : Number) : number.bytes.length = number.format.width :=
  length_spell _ _

theorem bits_lt (number : Number) : number.bits < 256 ^ number.format.width := by
  cases number with
  | u8 value => exact value.toNat_lt
  | i8 value => exact value.toUInt8.toNat_lt
  | u16 value => exact value.toNat_lt
  | i16 value => exact value.toUInt16.toNat_lt
  | u32 value => exact value.toNat_lt
  | i32 value => exact value.toUInt32.toNat_lt
  | u64 value => exact value.toNat_lt
  | i64 value => exact value.toUInt64.toNat_lt
  | f32 bits => exact bits.toNat_lt
  | f64 bits => exact bits.toNat_lt

/-- A number is the one with its bits. -/
theorem number_bits (number : Number) : number.format.number number.bits = number := by
  cases number <;> simp [format, bits, NumberFormat.number]

end Number

@[simp] theorem NumberFormat.format_number (format : NumberFormat) (bits : Nat) :
    (format.number bits).format = format := by
  cases format <;> rfl

/-- The number with some bits has these bits. -/
theorem NumberFormat.bits_number {format : NumberFormat} {bits : Nat}
    (h : bits < 256 ^ format.width) : (format.number bits).bits = bits := by
  cases format <;> exact Nat.mod_eq_of_lt h

/-- Bytes of the right width are those of a number. -/
theorem NumberFormat.bytes_number {format : NumberFormat} {bytes : List UInt8}
    (h : bytes.length = format.width) :
    (format.number (Reader.bigEndian bytes)).bytes = bytes := by
  have hlt := Reader.bigEndian_lt bytes
  rw [h] at hlt
  rw [Number.bytes, format_number, bits_number hlt, ← h, Reader.spell_bigEndian]

namespace Cursor

/-! ### Calls -/

/-- What can be asked of a cursor. -/
inductive Call where
  /-- A number. -/
  | number (format : NumberFormat)
  /-- So many bytes. -/
  | bytes (count : Nat)
  /-- To pass over one byte. -/
  | advance
  /-- To pass over so many bytes. -/
  | advanceBy (count : Nat)
  /-- The bytes in front of the first one that stops the run. -/
  | takeUntil (stops : UInt8 → Bool)
  /-- To pass over a byte that has to be this one. -/
  | expectByte (expected : UInt8)
  /-- The next byte, which stays unread. -/
  | peek

/-- What a cursor replies. -/
inductive Reply where
  | number (value : Number)
  | bytes (chunk : List UInt8)
  | byte (value : UInt8)
  | done
  deriving DecidableEq

/-- The step that answers a call. -/
def Call.read : Call → Reader Reply
  | .number format => .number <$> format.read
  | .bytes count => .bytes <$> Reader.bytes count
  | .advance => do Reader.skip 1; return .done
  | .advanceBy count => do Reader.skip count; return .done
  | .takeUntil stops => .bytes <$> Reader.takeUntil stops
  | .expectByte expected => do Reader.expectByte expected; return .done
  | .peek => .byte <$> Reader.peek

/-- The cursor behind a call, and how the call ended. -/
def perform (cursor : Cursor) (call : Call) : Cursor × Except Error Reply :=
  match call.read cursor with
  | .ok reply stop => (stop, .ok reply)
  | .error error stop => (stop, .error error)

/-- The cursor behind calls one after the other, and how they ended in their order. -/
def performAll (cursor : Cursor) : List Call → Cursor × List (Except Error Reply)
  | [] => (cursor, [])
  | call :: later =>
    let (next, outcome) := cursor.perform call
    let (last, outcomes) := next.performAll later
    (last, outcome :: outcomes)

theorem perform_of_ok {cursor stop : Cursor} {call : Call} {reply : Reply}
    (h : call.read cursor = .ok reply stop) : cursor.perform call = (stop, .ok reply) := by
  rw [perform, h]

theorem perform_of_error {cursor stop : Cursor} {call : Call} {error : Error}
    (h : call.read cursor = .error error stop) : cursor.perform call = (stop, .error error) := by
  rw [perform, h]

theorem read_of_perform {cursor stop : Cursor} {call : Call} {reply : Reply}
    (h : cursor.perform call = (stop, .ok reply)) : call.read cursor = .ok reply stop := by
  unfold perform at h
  split at h
  · rename_i hread
    cases h
    exact hread
  · cases h

/-! ### How a call ends -/

/-- All bytes that a call asks for are there.  A run needs a byte that stops it. -/
def Call.FitsIn (rest : List UInt8) : Call → Prop
  | .number format => format.width ≤ rest.length
  | .bytes count => count ≤ rest.length
  | .advance => 1 ≤ rest.length
  | .advanceBy count => count ≤ rest.length
  | .takeUntil stops => ∃ byte ∈ rest, stops byte = true
  | .expectByte _ => 1 ≤ rest.length
  | .peek => 1 ≤ rest.length

/-- The ways in which a call can end: what it takes of the bytes in front of it, what it leaves of
    them, and what is told about this.  The position of the first one is told where it is not the
    expected one. -/
inductive Ends (position : Nat) :
    Call → (taken left : List UInt8) → Except Error Reply → Prop where
  /-- The bytes of a number. -/
  | number (value : Number) (left : List UInt8) :
    Ends position (.number value.format) value.bytes left (.ok (.number value))
  /-- As many bytes as were asked for. -/
  | bytes (chunk left : List UInt8) :
    Ends position (.bytes chunk.length) chunk left (.ok (.bytes chunk))
  /-- One byte. -/
  | advance (byte : UInt8) (left : List UInt8) :
    Ends position .advance [byte] left (.ok .done)
  /-- As many bytes as were to be passed over. -/
  | advanceBy (chunk left : List UInt8) :
    Ends position (.advanceBy chunk.length) chunk left (.ok .done)
  /-- A run of bytes, and the one that stops it is left. -/
  | takeUntil {stops : UInt8 → Bool} {run : List UInt8} (goes : ∀ byte ∈ run, stops byte = false)
      {stopper : UInt8} (stopped : stops stopper = true) (left : List UInt8) :
    Ends position (.takeUntil stops) run (stopper :: left) (.ok (.bytes run))
  /-- The byte that was expected. -/
  | expectByte (byte : UInt8) (left : List UInt8) :
    Ends position (.expectByte byte) [byte] left (.ok .done)
  /-- Another byte, which is taken all the same. -/
  | unexpected {expected found : UInt8} (other : found ≠ expected) (left : List UInt8) :
    Ends position (.expectByte expected) [found] left
      (.error (.malformed (.unexpectedByte expected found position)))
  /-- Nothing, after a look at the next byte. -/
  | peek (byte : UInt8) (left : List UInt8) :
    Ends position .peek [] (byte :: left) (.ok (.byte byte))
  /-- Nothing, where bytes are missing. -/
  | outOfBounds {call : Call} {left : List UInt8} (missing : ¬ call.FitsIn left) :
    Ends position call [] left (.error .outOfBounds)

variable {position : Nat} {call : Call} {taken left : List UInt8} {outcome : Except Error Reply}

/-- A call that ends in another way has all its bytes. -/
theorem Ends.outOfBounds_iff (h : Ends position call taken left outcome) :
    outcome = .error .outOfBounds ↔ ¬ call.FitsIn (taken ++ left) := by
  cases h with
  | outOfBounds missing => exact iff_of_true rfl missing
  | number value left =>
    refine iff_of_false (by simp) (not_not.mpr ?_)
    show value.format.width ≤ _
    rw [List.length_append, value.length_bytes]
    exact Nat.le_add_right ..
  | takeUntil goes stopped left =>
    exact iff_of_false (by simp) (not_not.mpr ⟨_, by simp, stopped⟩)
  | bytes | advance | advanceBy | expectByte | unexpected | peek =>
    exact iff_of_false (by simp) (not_not.mpr (by simp [Call.FitsIn]))

/-- A call that fails takes nothing, but for a byte that was not the expected one. -/
theorem Ends.of_error {error : Error} (h : Ends position call taken left (.error error)) :
    error = .outOfBounds ∧ taken = []
      ∨ ∃ expected found, call = .expectByte expected ∧ found ≠ expected ∧ taken = [found]
        ∧ error = .malformed (.unexpectedByte expected found position) := by
  cases h with
  | unexpected other left => exact .inr ⟨_, _, rfl, other, rfl, rfl⟩
  | outOfBounds missing => exact .inl ⟨rfl, rfl⟩

/-- A byte that stops a run is behind those that do not. -/
theorem exists_run {stops : UInt8 → Bool} {rest : List UInt8}
    (h : ∃ byte ∈ rest, stops byte = true) :
    ∃ run stopper left, rest = run ++ stopper :: left ∧ (∀ byte ∈ run, stops byte = false)
      ∧ stops stopper = true := by
  obtain ⟨byte, hbyte, hstops⟩ := h
  obtain ⟨stopper, hfind⟩ :=
    Option.isSome_iff_exists.mp (List.find?_isSome.mpr ⟨byte, hbyte, hstops⟩)
  obtain ⟨hstopper, run, left, hrest, hgo⟩ := List.find?_eq_some_iff_append.mp hfind
  exact ⟨run, stopper, left, hrest, fun byte hbyte => by simpa using hgo byte hbyte, hstopper⟩

/-- Whatever bytes there are, there is a way for the call to end. -/
theorem exists_ends (position : Nat) (call : Call) (rest : List UInt8) :
    ∃ taken left outcome, rest = taken ++ left ∧ Ends position call taken left outcome := by
  by_cases h : call.FitsIn rest
  · have hcut (count : Nat) : rest = rest.take count ++ rest.drop count :=
      (List.take_append_drop count rest).symm
    have hlength {count : Nat} (hcount : count ≤ rest.length) : (rest.take count).length = count :=
      List.length_take_of_le hcount
    have hcons (hone : 1 ≤ rest.length) : ∃ byte left, rest = byte :: left :=
      List.exists_cons_of_length_pos hone
    cases call with
    | number format =>
      have hbytes := NumberFormat.bytes_number (hlength h)
      have hends : Ends position _ _ _ _ := .number
        (format.number (Reader.bigEndian (rest.take format.width))) (rest.drop format.width)
      rw [hbytes, NumberFormat.format_number] at hends
      exact ⟨_, _, _, hcut _, hends⟩
    | bytes count =>
      have hends : Ends position _ _ _ _ := .bytes (rest.take count) (rest.drop count)
      rw [hlength h] at hends
      exact ⟨_, _, _, hcut _, hends⟩
    | advance =>
      obtain ⟨byte, left, rfl⟩ := hcons h
      exact ⟨[byte], left, _, rfl, .advance byte left⟩
    | advanceBy count =>
      have hends : Ends position _ _ _ _ := .advanceBy (rest.take count) (rest.drop count)
      rw [hlength h] at hends
      exact ⟨_, _, _, hcut _, hends⟩
    | takeUntil stops =>
      obtain ⟨run, stopper, left, rfl, hgo, hstop⟩ := exists_run h
      exact ⟨run, stopper :: left, _, rfl, .takeUntil hgo hstop left⟩
    | expectByte expected =>
      obtain ⟨found, left, rfl⟩ := hcons h
      by_cases hsame : found = expected
      · subst hsame
        exact ⟨[found], left, _, rfl, .expectByte found left⟩
      · exact ⟨[found], left, _, rfl, .unexpected hsame left⟩
    | peek =>
      obtain ⟨byte, left, rfl⟩ := hcons h
      exact ⟨[], byte :: left, _, rfl, .peek byte left⟩
  · exact ⟨[], rest, _, rfl, .outOfBounds h⟩

/-- A byte that is not the expected one is read all the same. -/
theorem expectByte_eq_error {expected found : UInt8} {start stop : Cursor}
    (other : found ≠ expected) (hpass : start.Passes [found] stop) :
    Reader.expectByte expected start
      = .error (.malformed (.unexpectedByte expected found start.position)) stop := by
  show (do
    let byte ← Reader.u8
    if byte ≠ expected then
      Reader.malformed (.unexpectedByte expected byte start.position) : Reader Unit) start = _
  rw [Reader.bind_apply, Reader.u8_eq_ok.mpr hpass]
  dsimp only
  rw [if_pos other]
  rfl

/-- Where bytes are missing the call fails, and nothing is read. -/
theorem Call.read_eq_error {start : Cursor} (missing : ¬ call.FitsIn start.rest) :
    call.read start = .error .outOfBounds start := by
  have hnothing (h : ¬ 1 ≤ start.rest.length) : start.rest = [] :=
    List.eq_nil_of_length_eq_zero (by omega)
  cases call with
  | number format =>
    rw [read, NumberFormat.read_eq, map_eq_pure_bind, map_eq_pure_bind, bind_assoc,
      Reader.bind_apply, Reader.number_eq_error (Nat.not_le.mp missing)]
  | bytes count =>
    rw [read, map_eq_pure_bind, Reader.bind_apply, Reader.bytes_eq_error (Nat.not_le.mp missing)]
  | advance => rw [read, Reader.bind_apply, Reader.skip_eq_error (Nat.not_le.mp missing)]
  | advanceBy count => rw [read, Reader.bind_apply, Reader.skip_eq_error (Nat.not_le.mp missing)]
  | takeUntil stops =>
    have hnone : ∀ byte ∈ start.rest, stops byte = false := fun byte hbyte =>
      Bool.eq_false_iff.mpr fun hstop => missing ⟨byte, hbyte, hstop⟩
    rw [read, map_eq_pure_bind, Reader.bind_apply, Reader.takeUntil_eq_error hnone]
  | expectByte expected =>
    have hread : Reader.expectByte expected start = .error .outOfBounds start := by
      show (Reader.u8 >>= _ : Reader Unit) start = _
      rw [Reader.u8, bind_assoc, Reader.bind_apply,
        Reader.number_eq_error (Nat.not_le.mp missing)]
    rw [read, Reader.bind_apply, hread]
  | peek =>
    rw [read, map_eq_pure_bind, Reader.bind_apply, Reader.peek_eq_error (hnothing missing)]

/-- **A call comes to the end that is possible.** -/
theorem perform_of_ends {start stop : Cursor} (hpass : start.Passes taken stop)
    (h : Ends start.position call taken stop.rest outcome) :
    start.perform call = (stop, outcome) := by
  generalize hleft : stop.rest = left at h
  cases h with
  | number value =>
    refine perform_of_ok (Reader.map_eq_ok.mpr ⟨value, ?_, rfl⟩)
    rw [NumberFormat.read_eq]
    exact Reader.map_eq_ok.mpr
      ⟨value.bits, Reader.number_eq_ok.mpr ⟨value.bits_lt, hpass⟩, value.number_bits⟩
  | bytes =>
    exact perform_of_ok (Reader.map_eq_ok.mpr ⟨_, Reader.bytes_eq_ok.mpr ⟨hpass, rfl⟩, rfl⟩)
  | advance | advanceBy =>
    exact perform_of_ok
      (Reader.bind_eq_ok.mpr ⟨(), stop, Reader.skip_eq_ok.mpr ⟨_, hpass, rfl⟩, rfl⟩)
  | takeUntil goes stopped =>
    exact perform_of_ok (Reader.map_eq_ok.mpr ⟨taken,
      Reader.takeUntil_eq_ok.mpr ⟨hpass, goes, _, congrArg List.head? hleft, stopped⟩, rfl⟩)
  | expectByte =>
    exact perform_of_ok
      (Reader.bind_eq_ok.mpr ⟨(), stop, Reader.expectByte_eq_ok.mpr hpass, rfl⟩)
  | unexpected other =>
    refine perform_of_error ?_
    rw [Call.read, Reader.bind_apply, expectByte_eq_error other hpass]
  | peek byte =>
    obtain rfl := passes_nil_iff.mp hpass
    have hhead : start.rest.head? = some byte := congrArg List.head? hleft
    exact perform_of_ok (Reader.map_eq_ok.mpr ⟨byte, Reader.peek_eq_ok.mpr ⟨hhead, rfl⟩, rfl⟩)
  | outOfBounds missing =>
    obtain rfl := passes_nil_iff.mp hpass
    exact perform_of_error (Call.read_eq_error (hleft ▸ missing))

end Cursor

end ClassAtlas
