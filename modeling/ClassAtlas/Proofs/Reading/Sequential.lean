import ClassAtlas.Proofs.Reading.Steps

namespace ClassAtlas

/-!
# Readers that go through their bytes once

A reader of fields of known sizes looks at no byte behind those it takes, and asks for all of
them.  So what it takes means the same wherever it stands, and a part of it is not enough.

* `Reader.Takes` — some bytes give a value, and no part of them is enough;
* `Reader.Sequential` — whatever the reader gives, it takes some bytes for it;
* `Sequential.bind`, `sequential_times` — one step after another, and many;
* `Reader.UsesUp` — a reader of everything there is, which refuses both less and more.
-/

variable {β γ : Type}

/-- Cursors with nothing between them are the same. -/
theorem Cursor.passes_nil_iff {start stop : Cursor} : start.Passes [] stop ↔ start = stop := by
  constructor
  · rintro ⟨hrest, hposition, hdepth⟩
    obtain ⟨rest, position, depth⟩ := start
    obtain ⟨rest', position', depth'⟩ := stop
    simp_all
  · rintro rfl
    exact .refl _

/-- Between two cursors there is a place behind the first part of the bytes. -/
theorem Cursor.Passes.split {start stop : Cursor} {bytes more : List UInt8}
    (h : start.Passes (bytes ++ more) stop) :
    ∃ middle, start.Passes bytes middle ∧ middle.Passes more stop := by
  refine ⟨⟨more ++ stop.rest, start.position + bytes.length, start.depth⟩,
    ⟨?_, rfl, rfl⟩, ⟨rfl, ?_, h.depth_eq⟩⟩
  · rw [h.rest_eq, List.append_assoc]
  · rw [h.position_eq, List.length_append, Nat.add_assoc]

/-- A proper beginning of two lists ends inside the first one, or inside the second one. -/
theorem prefix_append_cases {cut first second : List β} (h : cut <+: first ++ second)
    (hne : cut ≠ first ++ second) :
    (cut <+: first ∧ cut ≠ first)
      ∨ ∃ part, cut = first ++ part ∧ part <+: second ∧ part ≠ second := by
  by_cases hcut : cut <+: first ∧ cut ≠ first
  · exact .inl hcut
  have hfirst : first <+: cut := by
    rcases List.prefix_or_prefix_of_prefix h (List.prefix_append first second) with hin | hin
    · have heq : cut = first := by
        by_contra hother
        exact hcut ⟨hin, hother⟩
      exact heq ▸ List.prefix_refl _
    · exact hin
  obtain ⟨part, rfl⟩ := hfirst
  refine .inr ⟨part, rfl, (List.prefix_append_right_inj first).mp h, ?_⟩
  rintro rfl
  exact hne rfl

namespace Reader

/-! ### Bytes that give a value -/

/-- The bytes give the value wherever they stand, and where they break off bytes are missing. -/
structure Takes (reader : Reader β) (bytes : List UInt8) (value : β) : Prop where
  /-- They are taken, and nothing else. -/
  ok : ∀ {start stop : Cursor}, start.Passes bytes stop → reader start = .ok value stop
  /-- A part of them is not enough. -/
  cut : ∀ {start : Cursor}, start.rest <+: bytes → start.rest ≠ bytes →
    ∃ place, reader start = .error .outOfBounds place

/-- In front of anything they are taken, and the rest is left. -/
theorem Takes.ok_of_rest_eq {reader : Reader β} {bytes more : List UInt8} {value : β}
    {start : Cursor} (h : reader.Takes bytes value) (hrest : start.rest = bytes ++ more) :
    reader start = .ok value ⟨more, start.position + bytes.length, start.depth⟩ :=
  h.ok ⟨hrest, rfl, rfl⟩

theorem Takes.bind {reader : Reader β} {next : β → Reader γ} {bytes more : List UInt8}
    {value : β} {result : γ} (first : reader.Takes bytes value)
    (second : (next value).Takes more result) :
    (reader >>= next).Takes (bytes ++ more) result := by
  constructor
  · intro start stop hpass
    obtain ⟨middle, hbytes, hmore⟩ := hpass.split
    exact bind_eq_ok.mpr ⟨value, middle, first.ok hbytes, second.ok hmore⟩
  · intro start hpre hne
    rw [bind_apply]
    rcases prefix_append_cases hpre hne with ⟨hshort, hpart⟩ | ⟨part, hrest, hshort, hpart⟩
    · obtain ⟨place, hplace⟩ := first.cut hshort hpart
      rw [hplace]
      exact ⟨place, rfl⟩
    · -- The first step has all its bytes, so it is the second one that misses some.
      rw [first.ok_of_rest_eq hrest]
      exact second.cut hshort hpart

/-- What a step gives without reading needs no bytes. -/
theorem takes_nil {reader : Reader β} {value : β} (h : ∀ start, reader start = .ok value start) :
    reader.Takes [] value := by
  constructor
  · intro start stop hpass
    rw [← Cursor.passes_nil_iff.mp hpass]
    exact h start
  · intro start hpre hne
    exact absurd (List.prefix_nil.mp hpre) hne

/-! ### Readers that take bytes for whatever they give -/

/-- Wherever the reader gives a value, it takes the bytes it has passed for it. -/
def Sequential (reader : Reader β) : Prop :=
  ∀ ⦃start value stop⦄, reader start = .ok value stop →
    ∃ bytes, start.Passes bytes stop ∧ reader.Takes bytes value

theorem Sequential.bind {reader : Reader β} {next : β → Reader γ} (first : reader.Sequential)
    (second : ∀ value, (next value).Sequential) : (reader >>= next).Sequential := by
  intro start result stop hread
  obtain ⟨value, middle, hvalue, hresult⟩ := bind_eq_ok.mp hread
  obtain ⟨bytes, hpass, htakes⟩ := first hvalue
  obtain ⟨more, hpassed, hmore⟩ := second value hresult
  exact ⟨bytes ++ more, hpass.trans hpassed, htakes.bind hmore⟩

theorem sequential_pure (value : β) : (pure value : Reader β).Sequential := by
  intro start result stop hread
  obtain ⟨rfl, rfl⟩ := pure_eq_ok.mp hread
  exact ⟨[], .refl _, takes_nil fun _ => rfl⟩

theorem sequential_malformed (cause : Malformation) :
    (malformed cause : Reader β).Sequential :=
  fun _ _ _ hread => absurd hread malformed_ne_ok

theorem lift_eq_ok {outcome : Except Error β} {start stop : Cursor} {value : β} :
    (liftM outcome : Reader β) start = .ok value stop ↔ outcome = .ok value ∧ start = stop := by
  cases outcome with
  | ok given =>
    show EStateM.Result.ok given start = _ ↔ _
    rw [EStateM.Result.ok.injEq, Except.ok.injEq]
  | error error =>
    constructor
    · intro h
      cases h
    · rintro ⟨h, -⟩
      cases h

/-- What is worked out from values already read. -/
theorem sequential_lift (outcome : Except Error β) : (liftM outcome : Reader β).Sequential := by
  intro start value stop hread
  obtain ⟨rfl, rfl⟩ := lift_eq_ok.mp hread
  exact ⟨[], .refl _, takes_nil fun _ => rfl⟩

theorem sequential_ite {condition : Prop} [Decidable condition] {yes no : Reader β}
    (hyes : yes.Sequential) (hno : no.Sequential) :
    (if condition then yes else no).Sequential := by
  split
  · exact hyes
  · exact hno

/-! ### Bytes that are missing -/

theorem bytes_eq_error {count : Nat} {start : Cursor} (h : start.rest.length < count) :
    Reader.bytes count start = .error .outOfBounds start := by
  have hshort : (start.rest.take count).length ≠ count := by
    rw [List.length_take]
    omega
  show (if (start.rest.take count).length = count then _ else _ : Reader _) _ = _
  rw [if_neg hshort]
  rfl

theorem number_eq_error {width : Nat} {start : Cursor} (h : start.rest.length < width) :
    number width start = .error .outOfBounds start := by
  rw [number, bind_apply, bytes_eq_error h]

theorem skip_eq_error {count : Nat} {start : Cursor} (h : start.rest.length < count) :
    skip count start = .error .outOfBounds start := by
  rw [skip, bind_apply, bytes_eq_error h]

theorem peek_eq_error {start : Cursor} (h : start.rest = []) :
    peek start = .error .outOfBounds start := by
  rw [peek, bind_apply, get_apply]
  dsimp only
  rw [h]
  rfl

/-- Where no byte stops the run there is none. -/
theorem takeUntil_eq_error {stops : UInt8 → Bool} {start : Cursor}
    (h : ∀ byte ∈ start.rest, stops byte = false) :
    takeUntil stops start = .error .outOfBounds start := by
  have hnone : start.rest.dropWhile (fun byte => !stops byte) = [] := by
    rw [List.dropWhile_eq_nil_iff]
    exact fun byte hbyte => by rw [h byte hbyte]; rfl
  rw [takeUntil, bind_apply, get_apply]
  dsimp only
  rw [drop_length_takeWhile, hnone]
  rfl

/-! ### Fields of a fixed width -/

theorem sequential_bytes (count : Nat) : (Reader.bytes count).Sequential := by
  intro start chunk stop hread
  obtain ⟨hpass, hlen⟩ := bytes_eq_ok.mp hread
  refine ⟨chunk, hpass, fun hpassed => bytes_eq_ok.mpr ⟨hpassed, hlen⟩, ?_⟩
  intro cut hpre hne
  have hshort : cut.rest.length < count := by
    have hle := hpre.length_le
    have hother : cut.rest.length ≠ chunk.length := fun hsame => hne (hpre.eq_of_length hsame)
    omega
  exact ⟨cut, bytes_eq_error hshort⟩

theorem sequential_number (width : Nat) : (number width).Sequential :=
  (sequential_bytes width).bind fun _ => sequential_pure _

theorem sequential_u8 : u8.Sequential := (sequential_number 1).bind fun _ => sequential_pure _

theorem sequential_u16 : u16.Sequential := (sequential_number 2).bind fun _ => sequential_pure _

theorem sequential_u32 : u32.Sequential := (sequential_number 4).bind fun _ => sequential_pure _

theorem sequential_u64 : u64.Sequential := (sequential_number 8).bind fun _ => sequential_pure _

theorem sequential_i32 : i32.Sequential := sequential_u32.bind fun _ => sequential_pure _

theorem sequential_i64 : i64.Sequential := sequential_u64.bind fun _ => sequential_pure _

/-! ### Many items -/

theorem sequential_timesAfter {item : Reader β} (hitem : item.Sequential) (count : Nat)
    (read : List β) : (timesAfter item count read).Sequential := by
  induction count generalizing read with
  | zero => exact sequential_pure _
  | succ count ih => exact hitem.bind fun value => ih (value :: read)

theorem sequential_times {item : Reader β} (hitem : item.Sequential) (count : Nat) :
    (times count item).Sequential := sequential_timesAfter hitem count []

theorem sequential_mapM {step : γ → Reader β} (hstep : ∀ item, (step item).Sequential)
    (items : List γ) : (items.mapM step).Sequential := by
  induction items with
  | nil => exact sequential_pure _
  | cons first later ih =>
    rw [List.mapM_cons]
    exact (hstep first).bind fun _ => ih.bind fun _ => sequential_pure _

/-! ### Readers of everything there is -/

/-- The reader goes on to the end.  Where the bytes it would go through break off, bytes are
    missing; where others follow them, it refuses them with a cause that says how many. -/
def UsesUp (reader : Reader β) (cause : Nat → β → Malformation) : Prop :=
  ∀ ⦃start value stop⦄, reader start = .ok value stop →
    (∀ cut : Cursor, cut.rest <+: start.rest → cut.rest ≠ start.rest →
      ∃ place, reader cut = .error .outOfBounds place)
    ∧ ∀ (longer : Cursor) (more : List UInt8), more ≠ [] → longer.rest = start.rest ++ more →
      ∃ place, reader longer = .error (.malformed (cause more.length value)) place

variable {cause : Nat → γ → Malformation}

theorem UsesUp.bind {reader : Reader β} {next : β → Reader γ} (first : reader.Sequential)
    (second : ∀ value, (next value).UsesUp cause) : (reader >>= next).UsesUp cause := by
  intro start result stop hread
  obtain ⟨value, middle, hvalue, hresult⟩ := bind_eq_ok.mp hread
  obtain ⟨bytes, hpass, htakes⟩ := first hvalue
  obtain ⟨hcut, hlonger⟩ := second value hresult
  constructor
  · intro cut hpre hne
    rw [hpass.rest_eq] at hpre hne
    rw [bind_apply]
    rcases prefix_append_cases hpre hne with ⟨hshort, hpart⟩ | ⟨part, hrest, hshort, hpart⟩
    · obtain ⟨place, hplace⟩ := htakes.cut hshort hpart
      rw [hplace]
      exact ⟨place, rfl⟩
    · rw [htakes.ok_of_rest_eq hrest]
      exact hcut _ hshort hpart
  · intro longer more hmore hrest
    rw [hpass.rest_eq, List.append_assoc] at hrest
    rw [bind_apply, htakes.ok_of_rest_eq hrest]
    exact hlonger _ more hmore rfl

/-- Where a condition holds the reader gives nothing anyway. -/
theorem UsesUp.ite {condition : Prop} [Decidable condition] {failure reader : Reader γ}
    (hfailure : ∀ start value stop, failure start ≠ .ok value stop) (h : reader.UsesUp cause) :
    (if condition then failure else reader).UsesUp cause := by
  split
  · intro start value stop hread
    exact absurd hread (hfailure start value stop)
  · exact h

end Reader

end ClassAtlas
