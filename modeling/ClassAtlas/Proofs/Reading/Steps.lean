import ClassAtlas.Proofs.Text.Ascii
import ClassAtlas.Reading.Repetition

namespace ClassAtlas

/-!
# What a single reading step does

A reader and a writer belong together in two ways, and both are put together step by step.

* `Cursor.Passes` — a cursor is behind another one, with some bytes between them;
* `Reader.Accounts` — soundness: what was read is the written form of the value;
* `Reader.Answers` — completeness: the written form of a value is read back, or refused where it
  is nested too deeply;
* `bind_eq_ok`, `Answers.bind` — the two for one step after another;
* `expect_eq_ok`, `answers_expect` and their like — the two for the steps on single bytes.
-/

variable {β γ : Type}

/-! ### Cursors -/

/-- The bytes between two cursors of the same nesting. -/
structure Cursor.Passes (start : Cursor) (bytes : List UInt8) (stop : Cursor) : Prop where
  /-- The bytes are those in front of the later cursor. -/
  rest_eq : start.rest = bytes ++ stop.rest
  /-- They are counted. -/
  position_eq : stop.position = start.position + bytes.length
  /-- The nesting is the same. -/
  depth_eq : stop.depth = start.depth

theorem Cursor.Passes.refl (start : Cursor) : start.Passes [] start := ⟨rfl, rfl, rfl⟩

theorem Cursor.Passes.trans {start middle stop : Cursor} {bytes more : List UInt8}
    (first : start.Passes bytes middle) (second : middle.Passes more stop) :
    start.Passes (bytes ++ more) stop where
  rest_eq := by rw [first.rest_eq, second.rest_eq, List.append_assoc]
  position_eq := by
    rw [second.position_eq, first.position_eq, List.length_append, Nat.add_assoc]
  depth_eq := second.depth_eq.trans first.depth_eq

/-- The first byte that is passed is the next one at the start. -/
theorem Cursor.Passes.head?_eq {start stop : Cursor} {bytes : List UInt8} {byte : UInt8}
    (passes : start.Passes bytes stop) (h : start.rest.head? = some byte) (hne : bytes ≠ []) :
    bytes.head? = some byte := by
  rwa [passes.rest_eq, List.head?_append_of_ne_nil _ hne] at h

namespace Reader

/-! ### One step after another -/

/-- A sequence of two readers runs the second one where the first one stops. -/
theorem bind_apply (reader : Reader β) (next : β → Reader γ) (start : Cursor) :
    (reader >>= next) start = match reader start with
      | .ok value stop => next value stop
      | .error error stop => .error error stop := by
  show EStateM.bind reader next start = _
  rw [EStateM.bind]
  cases reader start <;> rfl

theorem bind_eq_ok {reader : Reader β} {next : β → Reader γ} {start stop : Cursor} {value : γ} :
    (reader >>= next) start = .ok value stop
      ↔ ∃ first middle, reader start = .ok first middle ∧ next first middle = .ok value stop := by
  rw [bind_apply]
  cases h : reader start <;> simp

theorem get_apply (start : Cursor) : (get : Reader Cursor) start = .ok start start := rfl

theorem pure_eq_ok {value result : β} {start stop : Cursor} :
    (pure value : Reader β) start = .ok result stop ↔ value = result ∧ start = stop := by
  show EStateM.Result.ok value start = _ ↔ _
  rw [EStateM.Result.ok.injEq]

theorem map_eq_ok {reader : Reader β} {f : β → γ} {start stop : Cursor} {value : γ} :
    (f <$> reader) start = .ok value stop
      ↔ ∃ first, reader start = .ok first stop ∧ f first = value := by
  show EStateM.map f reader start = _ ↔ _
  rw [EStateM.map]
  cases reader start with
  | ok first middle =>
    constructor
    · intro h
      obtain ⟨rfl, rfl⟩ := EStateM.Result.ok.inj h
      exact ⟨first, rfl, rfl⟩
    · rintro ⟨_, h, rfl⟩
      obtain ⟨rfl, rfl⟩ := EStateM.Result.ok.inj h
      rfl
  | error error middle => simp

theorem malformed_ne_ok {cause : Malformation} {start stop : Cursor} {value : β} :
    (malformed cause : Reader β) start ≠ .ok value stop := by
  intro h
  cases h

/-- What would come after the failure is not reached. -/
theorem malformed_bind_ne_ok {cause : Malformation} {next : β → Reader γ} {start stop : Cursor}
    {value : γ} : (malformed cause >>= next) start ≠ .ok value stop := by
  intro h
  obtain ⟨_, _, hfailure, -⟩ := bind_eq_ok.mp h
  exact malformed_ne_ok hfailure

/-- What comes before the failure only says where it is. -/
theorem bind_malformed_ne_ok {reader : Reader β} {cause : β → Malformation} {start stop : Cursor}
    {value : γ} :
    (reader >>= fun first => (malformed (cause first) : Reader γ)) start ≠ .ok value stop := by
  intro h
  obtain ⟨_, _, -, hfailure⟩ := bind_eq_ok.mp h
  exact malformed_ne_ok hfailure

/-! ### Soundness and completeness of a reader -/

/-- **Soundness.** Wherever the reader gives a value, the bytes it has passed are the written form
    of the value, and the value is legal in front of the bytes that follow. -/
def Accounts (reader : Reader β) (depth : Nat) (write : β → List UInt8)
    (Legal : β → List UInt8 → Prop) : Prop :=
  ∀ ⦃start value stop⦄, start.depth = depth → reader start = .ok value stop →
    start.Passes (write value) stop ∧ Legal value stop.rest

theorem value_eq_ok {reader : Reader β} {bytes : List UInt8} {value : β} :
    reader.value bytes = .ok value ↔ ∃ stop, reader (.ofBytes bytes) = .ok value stop := by
  unfold Reader.value
  cases reader (.ofBytes bytes) <;> simp

/-- A reader that reads to the end accounts for all the bytes it was given. -/
theorem Accounts.value_eq_ok {reader : Reader β} {write : β → List UInt8} {P : β → Prop}
    (h : Accounts reader 0 write fun value after => after = [] ∧ P value) {bytes : List UInt8}
    {value : β} (hread : reader.value bytes = .ok value) : write value = bytes ∧ P value := by
  obtain ⟨stop, hstop⟩ := Reader.value_eq_ok.mp hread
  obtain ⟨hpass, hend, hvalue⟩ := h rfl hstop
  have hrest := hpass.rest_eq
  rw [hend, List.append_nil] at hrest
  exact ⟨hrest.symm, hvalue⟩

/-- **Completeness.** In front of `rest`, the reader turns `bytes` into `value` if this fits into
    the levels that are left, and otherwise fails because the nesting is too deep. -/
structure Answers (reader : Reader β) (bytes rest : List UInt8) (depth : Nat) (value : β)
    (Fits : Prop) : Prop where
  /-- What fits is read, and all of it. -/
  ok : Fits → ∀ position, reader ⟨bytes ++ rest, position, depth⟩
    = .ok value ⟨rest, position + bytes.length, depth⟩
  /-- What does not fit is refused. -/
  tooDeep : ¬ Fits → ∀ position, ∃ stop, reader ⟨bytes ++ rest, position, depth⟩
    = .error (.recursionLimit nestingLimit) stop

variable {reader : Reader β} {next : β → Reader γ} {bytes more rest : List UInt8} {depth : Nat}
  {value : β} {result : γ} {Fits Fits' : Prop}

theorem Answers.congr (h : Answers reader bytes rest depth value Fits) (hiff : Fits ↔ Fits') :
    Answers reader bytes rest depth value Fits' :=
  propext hiff ▸ h

theorem answers_pure (value : β) : Answers (pure value) [] rest depth value True :=
  ⟨fun _ _ => rfl, fun h => absurd trivial h⟩

/-- The written forms of two readers stand one behind the other. -/
theorem Answers.bind (first : Answers reader bytes (more ++ rest) depth value Fits)
    (second : Answers (next value) more rest depth result Fits') :
    Answers (reader >>= next) (bytes ++ more) rest depth result (Fits ∧ Fits') := by
  constructor
  · rintro ⟨hfits, hfits'⟩ position
    rw [bind_apply, List.append_assoc, first.ok hfits]
    show next value _ = _
    rw [second.ok hfits', List.length_append, Nat.add_assoc]
  · intro hfits position
    rw [bind_apply, List.append_assoc]
    by_cases h : Fits
    · -- The first step fits, so it is the second one that is too deep.
      rw [first.ok h]
      exact second.tooDeep (fun h' => hfits ⟨h, h'⟩) _
    · obtain ⟨stop, hstop⟩ := first.tooDeep h position
      rw [hstop]
      exact ⟨stop, rfl⟩

/-- After a step that always fits. -/
theorem Answers.andThen (first : Answers reader bytes (more ++ rest) depth value True)
    (second : Answers (next value) more rest depth result Fits) :
    Answers (reader >>= next) (bytes ++ more) rest depth result Fits :=
  (first.bind second).congr (iff_of_eq (true_and _))

/-- Before a step that reads nothing. -/
theorem Answers.last (first : Answers reader bytes rest depth value True)
    (second : Answers (next value) [] rest depth result Fits) :
    Answers (reader >>= next) bytes rest depth result Fits := by
  have h : Answers (reader >>= next) (bytes ++ []) rest depth result Fits := first.andThen second
  rwa [List.append_nil] at h

/-- The value of a reader put into another form. -/
theorem Answers.map (h : Answers reader bytes rest depth value Fits) (f : β → γ) :
    Answers (reader >>= fun value => pure (f value)) bytes rest depth (f value) Fits := by
  constructor
  · intro hfits position
    rw [bind_apply, h.ok hfits]
    rfl
  · intro hfits position
    obtain ⟨stop, hstop⟩ := h.tooDeep hfits position
    rw [bind_apply, hstop]
    exact ⟨stop, rfl⟩

/-- The values of two readers put together. -/
theorem Answers.map₂ {other : Reader γ} {δ : Type}
    (first : Answers reader bytes (more ++ rest) depth value True)
    (second : Answers other more rest depth result Fits) (f : β → γ → δ) :
    Answers (reader >>= fun value => other >>= fun result => pure (f value result))
      (bytes ++ more) rest depth (f value result) Fits :=
  first.andThen (second.map (f value))

/-- The place in the bytes can be asked for, and does not matter to what is read. -/
theorem Answers.ofPosition {next : Nat → Reader γ}
    (h : ∀ position, Answers (next position) bytes rest depth result Fits) :
    Answers (position >>= next) bytes rest depth result Fits :=
  ⟨fun hfits position => (h position).ok hfits position,
   fun hfits position => (h position).tooDeep hfits position⟩

/-- So can the bytes that are left, which are those to be read and those behind them. -/
theorem Answers.ofGet {next : Cursor → Reader γ}
    (h : ∀ cursor : Cursor, cursor.rest = bytes ++ rest →
      Answers (next cursor) bytes rest depth result Fits) :
    Answers (get >>= next) bytes rest depth result Fits :=
  ⟨fun hfits position => (h ⟨bytes ++ rest, position, depth⟩ rfl).ok hfits position,
   fun hfits position => (h ⟨bytes ++ rest, position, depth⟩ rfl).tooDeep hfits position⟩

/-! ### Single bytes -/

/-- The next byte, looked at. -/
theorem peek_eq_ok {start stop : Cursor} {byte : UInt8} :
    peek start = .ok byte stop ↔ start.rest.head? = some byte ∧ start = stop := by
  obtain ⟨rest, position, depth⟩ := start
  cases rest with
  | nil =>
    constructor
    · intro h
      cases h
    · rintro ⟨h, -⟩
      cases h
  | cons first rest =>
    show EStateM.Result.ok first _ = _ ↔ _
    simp

/-- Looking at the next byte leaves everything unread. -/
theorem Answers.ofPeek {next : UInt8 → Reader γ} (byte : UInt8)
    (hhead : (bytes ++ rest).head? = some byte)
    (h : Answers (next byte) bytes rest depth result Fits) :
    Answers (peek >>= next) bytes rest depth result Fits := by
  have hpeek : ∀ position, (peek >>= next) ⟨bytes ++ rest, position, depth⟩
      = next byte ⟨bytes ++ rest, position, depth⟩ := by
    intro position
    rw [bind_apply, peek_eq_ok.mpr ⟨hhead, rfl⟩]
  constructor
  · intro hfits position
    rw [hpeek, h.ok hfits]
  · intro hfits position
    rw [hpeek]
    exact h.tooDeep hfits position

/-- A step that only passes over bytes answers to them. -/
theorem Answers.ofPasses
    (h : ∀ start stop : Cursor, start.Passes bytes stop → stop.rest = rest →
      reader start = .ok value stop) : Answers reader bytes rest depth value True :=
  ⟨fun _ _ => h _ _ ⟨rfl, rfl, rfl⟩ rfl, fun hnot => absurd trivial hnot⟩

/-- What answers to bytes gives the value wherever they are passed. -/
theorem Answers.ok_of_passes {start stop : Cursor}
    (h : Answers reader bytes stop.rest start.depth value Fits) (hfits : Fits)
    (hpass : start.Passes bytes stop) : reader start = .ok value stop := by
  obtain ⟨unread, position, depth⟩ := start
  obtain ⟨after, position', depth'⟩ := stop
  obtain ⟨hrest, hposition, hdepth⟩ := hpass
  dsimp only at hrest hposition hdepth h
  subst hrest hposition hdepth
  exact h.ok hfits position

/-- So many bytes are passed, or none. -/
theorem bytes_eq_ok {count : Nat} {chunk : List UInt8} {start stop : Cursor} :
    Reader.bytes count start = .ok chunk stop
      ↔ start.Passes chunk stop ∧ chunk.length = count := by
  obtain ⟨unread, position, depth⟩ := start
  -- The whole run as one test, so that both directions only look at its outcomes.
  have hrun : Reader.bytes count ⟨unread, position, depth⟩
      = if (unread.take count).length = count
          then .ok (unread.take count) ⟨unread.drop count, position + count, depth⟩
          else .error .outOfBounds ⟨unread, position, depth⟩ := by
    show (if (unread.take count).length = count then _ else _ : Reader _) _ = _
    split <;> rfl
  rw [hrun]
  constructor
  · intro h
    split at h
    · rename_i hlen
      obtain ⟨rfl, rfl⟩ := EStateM.Result.ok.inj h
      refine ⟨⟨(List.take_append_drop count unread).symm, ?_, rfl⟩, hlen⟩
      rw [hlen]
    · cases h
  · rintro ⟨⟨hrest, hposition, hdepth⟩, rfl⟩
    obtain ⟨after, position', depth'⟩ := stop
    dsimp only at hrest hposition hdepth
    subst hrest hposition hdepth
    simp

theorem u8_eq_ok {byte : UInt8} {start stop : Cursor} :
    u8 start = .ok byte stop ↔ start.Passes [byte] stop := by
  have hone : ∀ first : UInt8, UInt8.ofNat (bigEndian [first]) = first := by
    intro first
    simp [bigEndian]
  unfold u8 number
  simp only [bind_eq_ok, pure_eq_ok, bytes_eq_ok]
  constructor
  · rintro ⟨_, _, ⟨chunk, _, ⟨hpass, hlen⟩, rfl, rfl⟩, rfl, rfl⟩
    obtain ⟨first, rfl⟩ := List.length_eq_one_iff.mp hlen
    rwa [hone]
  · intro hpass
    exact ⟨_, _, ⟨_, _, ⟨hpass, rfl⟩, rfl, rfl⟩, hone byte, rfl⟩

theorem skip_eq_ok {count : Nat} {start stop : Cursor} {done : Unit} :
    skip count start = .ok done stop
      ↔ ∃ chunk, start.Passes chunk stop ∧ chunk.length = count := by
  unfold skip
  simp only [bind_eq_ok, pure_eq_ok, bytes_eq_ok]
  constructor
  · rintro ⟨chunk, _, hchunk, -, rfl⟩
    exact ⟨chunk, hchunk⟩
  · rintro ⟨chunk, hchunk⟩
    exact ⟨chunk, stop, hchunk, trivial, rfl⟩

/-- A single byte, passed over after it was looked at. -/
theorem passes_of_skip_one {start stop : Cursor} {byte : UInt8} {done : Unit}
    (hhead : start.rest.head? = some byte) (h : skip 1 start = .ok done stop) :
    start.Passes [byte] stop := by
  obtain ⟨chunk, hpass, hlen⟩ := skip_eq_ok.mp h
  obtain ⟨first, rfl⟩ := List.length_eq_one_iff.mp hlen
  have hfirst := hpass.head?_eq hhead (by simp)
  rw [List.head?_cons, Option.some.injEq] at hfirst
  exact hfirst ▸ hpass

theorem answers_skip {count : Nat} {chunk : List UInt8} (h : chunk.length = count) :
    Answers (skip count) chunk rest depth () True :=
  .ofPasses fun _ _ hpass _ => skip_eq_ok.mpr ⟨chunk, hpass, h⟩

theorem answers_skip_one (byte : UInt8) : Answers (skip 1) [byte] rest depth () True :=
  answers_skip rfl

theorem expectByte_eq_ok {byte : UInt8} {start stop : Cursor} {done : Unit} :
    expectByte byte start = .ok done stop ↔ start.Passes [byte] stop := by
  unfold expectByte
  rw [bind_eq_ok]
  constructor
  · rintro ⟨offset, middle, hposition, h⟩
    obtain ⟨found, after, hfound, hcheck⟩ := bind_eq_ok.mp h
    cases hposition
    split at hcheck
    · exact absurd hcheck malformed_ne_ok
    · rename_i hsame
      obtain ⟨-, rfl⟩ := pure_eq_ok.mp hcheck
      rw [u8_eq_ok, not_not.mp hsame] at hfound
      exact hfound
  · intro hpass
    refine ⟨start.position, start, rfl, bind_eq_ok.mpr ⟨byte, stop, u8_eq_ok.mpr hpass, ?_⟩⟩
    rw [if_neg (not_not.mpr rfl)]
    rfl

theorem expect_eq_ok {c : Char} {start stop : Cursor} {done : Unit} :
    expect c start = .ok done stop ↔ start.Passes [.ofNat c.toNat] stop := expectByte_eq_ok

/-- Behind a leading run stands what is left when the run is dropped. -/
theorem drop_length_takeWhile (p : β → Bool) (l : List β) :
    l.drop (l.takeWhile p).length = l.dropWhile p := by
  conv_lhs => rw [← List.takeWhile_append_dropWhile (p := p) (l := l)]
  exact List.drop_left' (by rw [List.takeWhile_append_dropWhile])

/-- A run of bytes goes up to the first one that stops it, and there is one. -/
theorem takeUntil_eq_ok {stops : UInt8 → Bool} {run : List UInt8} {start stop : Cursor} :
    takeUntil stops start = .ok run stop
      ↔ start.Passes run stop ∧ (∀ byte ∈ run, stops byte = false)
        ∧ ∃ byte, stop.rest.head? = some byte ∧ stops byte = true := by
  obtain ⟨unread, position, depth⟩ := start
  -- Again one test: whether anything is left behind the run.
  have hrun : takeUntil stops ⟨unread, position, depth⟩
      = if unread.dropWhile (fun byte => !stops byte) = []
          then .error .outOfBounds ⟨unread, position, depth⟩
          else .ok (unread.takeWhile fun byte => !stops byte)
            ⟨unread.dropWhile fun byte => !stops byte,
              position + (unread.takeWhile fun byte => !stops byte).length, depth⟩ := by
    unfold takeUntil
    rw [bind_apply, get_apply]
    dsimp only
    rw [drop_length_takeWhile]
    cases unread.dropWhile fun byte => !stops byte <;> rfl
  rw [hrun]
  constructor
  · intro h
    split at h
    · cases h
    · rename_i hmore
      obtain ⟨rfl, rfl⟩ := EStateM.Result.ok.inj h
      refine ⟨⟨List.takeWhile_append_dropWhile.symm, rfl, rfl⟩, ?_, ?_⟩
      · intro byte hbyte
        simpa using List.mem_takeWhile_imp hbyte
      · obtain ⟨byte, rest, hrest⟩ := List.exists_cons_of_ne_nil hmore
        have hnot := List.head?_dropWhile_not (fun byte => !stops byte) unread
        rw [hrest] at hnot ⊢
        exact ⟨byte, rfl, by simpa using hnot⟩
  · rintro ⟨⟨hrest, hposition, hdepth⟩, hgo, byte, hhead, hstop⟩
    obtain ⟨after, position', depth'⟩ := stop
    dsimp only at hrest hposition hdepth hhead
    obtain ⟨tail, rfl⟩ : ∃ tail, after = byte :: tail := by
      cases after with
      | nil => cases hhead
      | cons first tail => exact ⟨tail, by rw [Option.some.inj hhead]⟩
    -- No byte of the run stops it and the next one does, so exactly the run is taken.
    have hpos : ∀ b ∈ run, (!stops b) = true := fun b hb => by simp [hgo b hb]
    subst hrest hposition hdepth
    simp [List.takeWhile_append_of_pos hpos, List.dropWhile_append_of_pos hpos, hstop]

theorem answers_takeUntil {stops : UInt8 → Bool} {run : List UInt8} {byte : UInt8}
    (hgo : ∀ byte ∈ run, stops byte = false) (hhead : rest.head? = some byte)
    (hstop : stops byte = true) : Answers (takeUntil stops) run rest depth run True :=
  .ofPasses fun _ _ hpass hrest =>
    takeUntil_eq_ok.mpr ⟨hpass, hgo, byte, hrest ▸ hhead, hstop⟩

theorem answers_expect (c : Char) :
    Answers (expect c) [.ofNat c.toNat] rest depth () True :=
  .ofPasses fun _ _ hpass _ => expect_eq_ok.mpr hpass

theorem answers_u8 (byte : UInt8) : Answers u8 [byte] rest depth byte True :=
  .ofPasses fun _ _ hpass _ => u8_eq_ok.mpr hpass

end Reader

end ClassAtlas
