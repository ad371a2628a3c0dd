import ClassAtlas.Proofs.Reading.Sequential

namespace ClassAtlas

/-!
# Records and their bytes

A binary format is a set of records, each with its bytes and, where it has one, its meaning.

* `spell` — a number in a fixed number of bytes;
* `Reader.ReadsAs` — what a reader takes are the bytes of records, and it gives what they mean;
* `ReadsAs.bind`, `ReadsAs.table` — one record behind another, and records behind their count;
* `Reader.ReadsAllAs` — the same of a reader that goes on to the end;
* `Unambiguous` — bytes that say which record they are and where it ends.
-/

variable {β γ ρ σ : Type}

/-! ### Numbers -/

/-- So many bytes for a number, high byte first. -/
def spell : (width : Nat) → (number : Nat) → List UInt8
  | 0, _ => []
  | width + 1, number => spell width (number / 256) ++ [.ofNat number]

@[simp] theorem length_spell (width number : Nat) : (spell width number).length = width := by
  induction width generalizing number with
  | zero => rfl
  | succ width ih => rw [spell, List.length_append, ih, List.length_singleton]

theorem Reader.bigEndian_concat (bytes : List UInt8) (byte : UInt8) :
    bigEndian (bytes ++ [byte]) = bigEndian bytes * 256 + byte.toNat := by
  rw [bigEndian, List.foldl_append]
  rfl

theorem Reader.bigEndian_spell {width number : Nat} (h : number < 256 ^ width) :
    bigEndian (spell width number) = number := by
  induction width generalizing number with
  | zero =>
    rw [Nat.pow_zero, Nat.lt_one_iff] at h
    rw [h]
    rfl
  | succ width ih =>
    have hhigh : number / 256 < 256 ^ width := by
      rw [Nat.div_lt_iff_lt_mul (by decide), ← Nat.pow_succ]
      exact h
    rw [spell, bigEndian_concat, ih hhigh, UInt8.toNat_ofNat']
    omega

theorem Reader.bigEndian_lt (bytes : List UInt8) : bigEndian bytes < 256 ^ bytes.length := by
  induction bytes using List.reverseRecOn with
  | nil => exact Nat.one_pos
  | append_singleton bytes byte ih =>
    have hbyte := byte.toNat_lt
    rw [bigEndian_concat, List.length_append, List.length_singleton, Nat.pow_succ]
    omega

theorem Reader.spell_bigEndian (bytes : List UInt8) :
    spell bytes.length (bigEndian bytes) = bytes := by
  induction bytes using List.reverseRecOn with
  | nil => rfl
  | append_singleton bytes byte ih =>
    have hbyte := byte.toNat_lt
    rw [List.length_append, List.length_singleton, spell, bigEndian_concat]
    have hhigh : (bigEndian bytes * 256 + byte.toNat) / 256 = bigEndian bytes := by omega
    rw [hhigh, ih]
    congr 2
    rw [← UInt8.toNat_inj, UInt8.toNat_ofNat']
    omega

/-- Records behind their count, which two bytes hold. -/
structure Table (ρ : Type) where
  /-- The records. -/
  records : List ρ
  /-- There are no more than two bytes can count. -/
  length_lt : records.length < 65536

/-- No records. -/
def Table.empty : Table ρ := ⟨[], Nat.zero_lt_succ _⟩

/-- The count and the bytes of each. -/
def Table.encode (encode : ρ → List UInt8) (table : Table ρ) : List UInt8 :=
  spell 2 table.records.length ++ table.records.flatMap encode

/-! ### Readers of records -/

/-- A step that can fail gives a value if both halves of it do. -/
theorem except_bind_eq_ok {outcome : Except Error β} {next : β → Except Error γ} {value : γ} :
    outcome >>= next = .ok value ↔ ∃ middle, outcome = .ok middle ∧ next middle = .ok value := by
  cases outcome with
  | error error =>
    refine iff_of_false (fun h => ?_) (fun ⟨_, h, _⟩ => ?_)
    · cases h
    · cases h
  | ok middle =>
    refine ⟨fun h => ⟨middle, rfl, h⟩, ?_⟩
    rintro ⟨_, h, hnext⟩
    cases h
    exact hnext

theorem Cursor.passes_append_iff {start stop : Cursor} {bytes more : List UInt8} :
    start.Passes (bytes ++ more) stop
      ↔ ∃ middle, start.Passes bytes middle ∧ middle.Passes more stop :=
  ⟨Passes.split, fun ⟨_, hbytes, hmore⟩ => hbytes.trans hmore⟩

namespace Reader

/-- The reader gives a value exactly where it passes the bytes of a record that has this meaning. -/
def ReadsAs (reader : Reader β) (encode : ρ → List UInt8) (meaning : ρ → Except Error β) : Prop :=
  ∀ start stop value, reader start = .ok value stop
    ↔ ∃ record, start.Passes (encode record) stop ∧ meaning record = .ok value

variable {reader : Reader β} {next : β → Reader γ} {encode : ρ → List UInt8}
  {meaning : ρ → Except Error β} {encode' : σ → List UInt8} {meaning' : β → σ → Except Error γ}

theorem ReadsAs.bind (first : reader.ReadsAs encode meaning)
    (second : ∀ value, (next value).ReadsAs encode' (meaning' value)) :
    (reader >>= next).ReadsAs (fun record : ρ × σ => encode record.1 ++ encode' record.2)
      (fun record => do meaning' (← meaning record.1) record.2) := by
  intro start stop result
  simp only [bind_eq_ok, first _ _ _, second _ _ _ _, Prod.exists, except_bind_eq_ok,
    Cursor.passes_append_iff]
  constructor
  · rintro ⟨value, middle, ⟨record, hpass, hvalue⟩, record', hpass', hresult⟩
    exact ⟨record, record', ⟨middle, hpass, hpass'⟩, value, hvalue, hresult⟩
  · rintro ⟨record, record', ⟨middle, hpass, hpass'⟩, value, hvalue, hresult⟩
    exact ⟨value, middle, ⟨record, hpass, hvalue⟩, record', hpass', hresult⟩

/-- The same records under other names. -/
theorem ReadsAs.of_surjective (h : reader.ReadsAs encode meaning) (fields : σ → ρ)
    (hfields : Function.Surjective fields) :
    reader.ReadsAs (fun record => encode (fields record)) fun record =>
      meaning (fields record) := by
  intro start stop value
  rw [h start stop value, hfields.exists]

/-- A step that works out something first. -/
theorem ReadsAs.afterLift {outcome : Except Error β}
    (h : ∀ value, (next value).ReadsAs encode' (meaning' value)) :
    (liftM outcome >>= next).ReadsAs encode' (fun record => do meaning' (← outcome) record) := by
  intro start stop result
  simp only [bind_eq_ok, lift_eq_ok, h _ _ _ _, except_bind_eq_ok]
  constructor
  · rintro ⟨value, middle, ⟨hvalue, rfl⟩, record, hpass, hresult⟩
    exact ⟨record, hpass, value, hvalue, hresult⟩
  · rintro ⟨record, hpass, value, hvalue, hresult⟩
    exact ⟨value, start, ⟨hvalue, rfl⟩, record, hpass, hresult⟩

/-- What is worked out from values already read. -/
theorem readsAs_lift (outcome : Except Error β) :
    (liftM outcome : Reader β).ReadsAs (fun _ : Unit => []) fun _ => outcome := by
  intro start stop value
  simp only [lift_eq_ok, Cursor.passes_nil_iff, exists_const]
  exact and_comm

/-- A step that reads nothing. -/
theorem ReadsAs.finally (h : reader.ReadsAs encode meaning) {outcome : β → Except Error γ}
    (hnext : ∀ value, (next value).ReadsAs (fun _ : Unit => []) fun _ => outcome value) :
    (reader >>= next).ReadsAs encode (fun record => do outcome (← meaning record)) := by
  intro start stop result
  simp only [bind_eq_ok, h _ _ _, hnext _ _ _ _, Cursor.passes_nil_iff, exists_const,
    except_bind_eq_ok]
  constructor
  · rintro ⟨value, middle, ⟨record, hpass, hvalue⟩, rfl, hresult⟩
    exact ⟨record, hpass, value, hvalue, hresult⟩
  · rintro ⟨record, hpass, value, hvalue, hresult⟩
    exact ⟨value, stop, ⟨record, hpass, hvalue⟩, rfl, hresult⟩

/-! ### Fields of a fixed width -/

theorem number_eq_ok {width result : Nat} {start stop : Cursor} :
    number width start = .ok result stop
      ↔ result < 256 ^ width ∧ start.Passes (spell width result) stop := by
  unfold number
  simp only [bind_eq_ok, pure_eq_ok, bytes_eq_ok]
  constructor
  · rintro ⟨bytes, _, ⟨hpass, rfl⟩, rfl, rfl⟩
    rw [spell_bigEndian]
    exact ⟨bigEndian_lt bytes, hpass⟩
  · rintro ⟨hsmall, hpass⟩
    exact ⟨_, stop, ⟨hpass, length_spell _ _⟩, bigEndian_spell hsmall, rfl⟩

theorem readsAs_u16 : u16.ReadsAs (fun value => spell 2 value.toNat) pure := by
  intro start stop value
  unfold u16
  simp only [bind_eq_ok, pure_eq_ok, number_eq_ok]
  constructor
  · rintro ⟨number, _, ⟨hsmall, hpass⟩, rfl, rfl⟩
    refine ⟨.ofNat number, ?_, rfl⟩
    rwa [UInt16.toNat_ofNat_of_lt' hsmall]
  · rintro ⟨value', hpass, hvalue⟩
    cases hvalue
    exact ⟨value.toNat, stop, ⟨value.toNat_lt, hpass⟩, UInt16.ofNat_toNat, rfl⟩

theorem readsAs_u32 : u32.ReadsAs (fun value => spell 4 value.toNat) pure := by
  intro start stop value
  unfold u32
  simp only [bind_eq_ok, pure_eq_ok, number_eq_ok]
  constructor
  · rintro ⟨number, _, ⟨hsmall, hpass⟩, rfl, rfl⟩
    refine ⟨.ofNat number, ?_, rfl⟩
    rwa [UInt32.toNat_ofNat_of_lt' hsmall]
  · rintro ⟨value', hpass, hvalue⟩
    cases hvalue
    exact ⟨value.toNat, stop, ⟨value.toNat_lt, hpass⟩, UInt32.ofNat_toNat, rfl⟩

theorem readsAs_u64 : u64.ReadsAs (fun value => spell 8 value.toNat) pure := by
  intro start stop value
  unfold u64
  simp only [bind_eq_ok, pure_eq_ok, number_eq_ok]
  constructor
  · rintro ⟨number, _, ⟨hsmall, hpass⟩, rfl, rfl⟩
    refine ⟨.ofNat number, ?_, rfl⟩
    rwa [UInt64.toNat_ofNat_of_lt' hsmall]
  · rintro ⟨value', hpass, hvalue⟩
    cases hvalue
    exact ⟨value.toNat, stop, ⟨value.toNat_lt, hpass⟩, UInt64.ofNat_toNat, rfl⟩

theorem answers_u16 {rest : List UInt8} {depth : Nat} (value : UInt16) :
    Answers u16 (spell 2 value.toNat) rest depth value True :=
  .ofPasses fun _ _ hpass _ => (readsAs_u16 _ _ _).mpr ⟨value, hpass, rfl⟩

/-- A number that two bytes can hold. -/
theorem answers_u16_ofNat {rest : List UInt8} {depth number : Nat} (h : number < 2 ^ 16) :
    Answers u16 (spell 2 number) rest depth (.ofNat number) True := by
  have hnumber : Answers u16 (spell 2 (UInt16.ofNat number).toNat) rest depth (.ofNat number)
      True := answers_u16 _
  rwa [UInt16.toNat_ofNat_of_lt' h] at hnumber

theorem answers_u32 {rest : List UInt8} {depth : Nat} (value : UInt32) :
    Answers u32 (spell 4 value.toNat) rest depth value True :=
  .ofPasses fun _ _ hpass _ => (readsAs_u32 _ _ _).mpr ⟨value, hpass, rfl⟩

theorem answers_u64 {rest : List UInt8} {depth : Nat} (value : UInt64) :
    Answers u64 (spell 8 value.toNat) rest depth value True :=
  .ofPasses fun _ _ hpass _ => (readsAs_u64 _ _ _).mpr ⟨value, hpass, rfl⟩

theorem answers_i32 {rest : List UInt8} {depth : Nat} (value : Int32) :
    Answers i32 (spell 4 value.toUInt32.toNat) rest depth value True :=
  (answers_u32 value.toUInt32).map UInt32.toInt32

theorem answers_i64 {rest : List UInt8} {depth : Nat} (value : Int64) :
    Answers i64 (spell 8 value.toUInt64.toNat) rest depth value True :=
  (answers_u64 value.toUInt64).map UInt64.toInt64

theorem answers_bytes {rest : List UInt8} {depth : Nat} (chunk : List UInt8) :
    Answers (bytes chunk.length) chunk rest depth chunk True :=
  .ofPasses fun _ _ hpass _ => bytes_eq_ok.mpr ⟨hpass, rfl⟩

/-- Bytes behind their number, which four bytes hold. -/
theorem readsAs_sized (make : List UInt8 → β) :
    (do return make (← bytes (← u32).toNat) : Reader β).ReadsAs
      (fun body : { body : List UInt8 // body.length < 2 ^ 32 } =>
        spell 4 body.val.length ++ body.val)
      fun body => pure (make body.val) := by
  intro start stop value
  simp only [bind_eq_ok, readsAs_u32 _ _ _, bytes_eq_ok, pure_eq_ok]
  constructor
  · rintro ⟨length, middle, ⟨_, hpass, ⟨⟩⟩, body, _, ⟨hpass', hlength⟩, rfl, rfl⟩
    refine ⟨⟨body, hlength ▸ length.toNat_lt⟩, ?_, rfl⟩
    rw [← hlength] at hpass
    exact hpass.trans hpass'
  · rintro ⟨⟨body, hlength⟩, hpass, hvalue⟩
    cases hvalue
    obtain ⟨middle, hpass, hpass'⟩ := hpass.split
    have hback : (UInt32.ofNat body.length).toNat = body.length :=
      UInt32.toNat_ofNat_of_lt' hlength
    refine ⟨.ofNat body.length, middle, ⟨_, ?_, rfl⟩, body, stop, ⟨hpass', hback.symm⟩, rfl, rfl⟩
    rwa [hback]

/-! ### Records behind their count -/

theorem timesAfter_eq_ok {item : Reader β} (h : item.ReadsAs encode meaning) {count : Nat}
    {read values : List β} {start stop : Cursor} :
    timesAfter item count read start = .ok values stop
      ↔ ∃ records : List ρ, records.length = count ∧ start.Passes (records.flatMap encode) stop
        ∧ ∃ more, records.mapM meaning = .ok more ∧ values = read.reverse ++ more := by
  induction count generalizing read start with
  | zero =>
    rw [timesAfter, pure_eq_ok]
    constructor
    · rintro ⟨rfl, rfl⟩
      exact ⟨[], rfl, .refl _, [], rfl, (List.append_nil _).symm⟩
    · rintro ⟨records, hnone, hpass, more, hmore, rfl⟩
      rw [List.length_eq_zero_iff] at hnone
      subst hnone
      cases hmore
      exact ⟨(List.append_nil _).symm, Cursor.passes_nil_iff.mp hpass⟩
  | succ count ih =>
    simp only [timesAfter, bind_eq_ok, h _ _ _, ih]
    constructor
    · rintro ⟨value, middle, ⟨record, hpass, hvalue⟩, records, rfl, hpass', more, hmore, rfl⟩
      refine ⟨record :: records, rfl, ?_, value :: more, ?_, by simp⟩
      · rw [List.flatMap_cons]
        exact hpass.trans hpass'
      · rw [List.mapM_cons, hvalue, hmore]
        rfl
    · rintro ⟨_ | ⟨record, records⟩, hcount, hpass, more, hmore, rfl⟩
      · cases hcount
      · rw [List.flatMap_cons] at hpass
        obtain ⟨middle, hpass, hpass'⟩ := hpass.split
        simp only [List.mapM_cons, except_bind_eq_ok] at hmore
        obtain ⟨value, hvalue, rest, hrest, hmore⟩ := hmore
        cases hmore
        exact ⟨value, middle, ⟨record, hpass, hvalue⟩, records, Nat.succ.inj hcount, hpass', rest,
          hrest, by simp⟩

theorem ReadsAs.table {item : Reader β} (h : item.ReadsAs encode meaning) :
    (do times (← u16).toNat item : Reader (List β)).ReadsAs (Table.encode encode)
      fun table => table.records.mapM meaning := by
  intro start stop values
  simp only [bind_eq_ok, readsAs_u16 _ _ _, times, timesAfter_eq_ok h]
  constructor
  · rintro ⟨count, middle, ⟨_, hpass, ⟨⟩⟩, records, hcount, hpass', more, hmore, rfl⟩
    refine ⟨⟨records, hcount ▸ count.toNat_lt⟩, ?_, hmore⟩
    rw [← hcount] at hpass
    exact hpass.trans hpass'
  · -- Two bytes can hold the number of records, so it is read back as it is.
    rintro ⟨⟨records, hcount⟩, hpass, hmore⟩
    obtain ⟨middle, hpass, hpass'⟩ := hpass.split
    refine ⟨.ofNat records.length, middle, ⟨_, ?_, rfl⟩, records, ?_, hpass', values, hmore, rfl⟩
    · rwa [UInt16.toNat_ofNat_of_lt' hcount]
    · rw [UInt16.toNat_ofNat_of_lt' hcount]

/-! ### To the end -/

/-- The reader gives a value exactly where the bytes that are left are those of a record that has
    this meaning. -/
def ReadsAllAs (reader : Reader β) (encode : ρ → List UInt8) (meaning : ρ → Except Error β) :
    Prop :=
  ∀ start value, (∃ stop, reader start = .ok value stop)
    ↔ ∃ record, start.rest = encode record ∧ meaning record = .ok value

theorem ReadsAs.bindAll (first : reader.ReadsAs encode meaning)
    (second : ∀ value, (next value).ReadsAllAs encode' (meaning' value)) :
    (reader >>= next).ReadsAllAs (fun record : ρ × σ => encode record.1 ++ encode' record.2)
      (fun record => do meaning' (← meaning record.1) record.2) := by
  intro start result
  simp only [bind_eq_ok, first _ _ _, Prod.exists, except_bind_eq_ok]
  constructor
  · rintro ⟨stop, value, middle, ⟨record, hpass, hvalue⟩, hresult⟩
    obtain ⟨record', hrest, hresult⟩ := (second value middle result).mp ⟨stop, hresult⟩
    exact ⟨record, record', hrest ▸ hpass.rest_eq, value, hvalue, hresult⟩
  · rintro ⟨record, record', hrest, value, hvalue, hresult⟩
    -- The first record ends where the bytes of the second one are all that is left.
    let middle : Cursor :=
      ⟨encode' record', start.position + (encode record).length, start.depth⟩
    obtain ⟨stop, hresult⟩ := (second value middle result).mpr ⟨record', rfl, hresult⟩
    exact ⟨stop, value, middle, ⟨record, ⟨hrest, rfl, rfl⟩, hvalue⟩, hresult⟩

/-- A table, and what comes behind it. -/
theorem ReadsAs.tableAll {item : Reader β} {next : List β → Reader γ}
    {meaning' : List β → σ → Except Error γ} (h : item.ReadsAs encode meaning)
    (second : ∀ values, (next values).ReadsAllAs encode' (meaning' values)) :
    (u16 >>= fun count => times count.toNat item >>= next).ReadsAllAs
      (fun record : Table ρ × σ => record.1.encode encode ++ encode' record.2)
      (fun record => do meaning' (← record.1.records.mapM meaning) record.2) := by
  rw [← bind_assoc]
  exact h.table.bindAll second

/-- The check that nothing is left, and a step that reads nothing. -/
theorem readsAllAs_end {failure : Cursor → Reader β} {outcome : Except Error β}
    (hfailure : ∀ place start value stop, failure place start ≠ .ok value stop)
    (h : reader.ReadsAs (fun _ : Unit => []) fun _ => outcome) :
    (get >>= fun place : Cursor =>
      if place.rest.length ≠ 0 then failure place else reader).ReadsAllAs
        (fun _ : Unit => []) fun _ => outcome := by
  intro start value
  simp only [bind_apply, get_apply, exists_const]
  by_cases hend : start.rest.length ≠ 0
  · rw [if_pos hend]
    refine iff_of_false (fun ⟨stop, hread⟩ => hfailure _ start value stop hread) fun hnone => ?_
    exact hend (List.length_eq_zero_iff.mpr hnone.1)
  · rw [if_neg hend]
    simp only [h _ _ _, Cursor.passes_nil_iff, exists_const, exists_eq_left']
    exact (and_iff_right (List.length_eq_zero_iff.mp (not_not.mp hend))).symm

theorem ReadsAllAs.afterLift (outcome : Except Error β)
    (h : ∀ value, (next value).ReadsAllAs encode' (meaning' value)) :
    (liftM outcome >>= next).ReadsAllAs encode'
      (fun record => do meaning' (← outcome) record) := by
  intro start result
  simp only [bind_eq_ok, lift_eq_ok, except_bind_eq_ok]
  constructor
  · rintro ⟨stop, value, middle, ⟨hvalue, rfl⟩, hresult⟩
    obtain ⟨record, hrest, hresult⟩ := (h value start result).mp ⟨stop, hresult⟩
    exact ⟨record, hrest, value, hvalue, hresult⟩
  · rintro ⟨record, hrest, value, hvalue, hresult⟩
    obtain ⟨stop, hresult⟩ := (h value start result).mpr ⟨record, hrest, hresult⟩
    exact ⟨stop, value, start, ⟨hvalue, rfl⟩, hresult⟩

/-- A step that reads nothing but looks whether this is the end. -/
theorem ReadsAs.finallyAll (h : reader.ReadsAs encode meaning) {outcome : β → Except Error γ}
    (hnext : ∀ value, (next value).ReadsAllAs (fun _ : Unit => []) fun _ => outcome value) :
    (reader >>= next).ReadsAllAs encode (fun record => do outcome (← meaning record)) := by
  intro start result
  rw [h.bindAll hnext start result, Prod.exists]
  simp only [List.append_nil, exists_const]

/-- Where a condition holds there is no value either way. -/
theorem ReadsAllAs.guard (condition : Prop) [Decidable condition] (failure : Reader β)
    (error : Error) (hfailure : ∀ start value stop, failure start ≠ .ok value stop)
    (h : reader.ReadsAllAs encode meaning) :
    (if condition then failure else reader).ReadsAllAs encode
      (fun record => if condition then .error error else meaning record) := by
  intro start value
  split
  · refine iff_of_false (fun ⟨stop, hread⟩ => hfailure start value stop hread) ?_
    rintro ⟨record, -, hvalue⟩
    cases hvalue
  · exact h start value

theorem ReadsAllAs.of_surjective (h : reader.ReadsAllAs encode meaning) (fields : σ → ρ)
    (hfields : Function.Surjective fields) :
    reader.ReadsAllAs (fun record => encode (fields record)) fun record =>
      meaning (fields record) := by
  intro start value
  rw [h start value, hfields.exists]

theorem ReadsAllAs.value_eq_ok (h : reader.ReadsAllAs encode meaning) {bytes : List UInt8}
    {value : β} :
    reader.value bytes = .ok value ↔ ∃ record, bytes = encode record ∧ meaning record = .ok value :=
  Reader.value_eq_ok.trans (h (.ofBytes bytes) value)

end Reader

/-! ### Bytes that say what they are -/

/-- The bytes of a record say which one it is, and where it ends. -/
def Unambiguous (encode : ρ → List UInt8) : Prop :=
  ∀ ⦃record record' : ρ⦄ ⦃tail tail' : List UInt8⦄,
    encode record ++ tail = encode record' ++ tail' → record = record' ∧ tail = tail'

theorem unambiguous_spell {width : Nat} {toNat : β → Nat}
    (hbound : ∀ value, toNat value < 256 ^ width) (hinj : Function.Injective toNat) :
    Unambiguous fun value => spell width (toNat value) := by
  intro value value' tail tail' h
  obtain ⟨hsame, htail⟩ := List.append_inj h (by simp)
  have hnumbers := congrArg Reader.bigEndian hsame
  rw [Reader.bigEndian_spell (hbound value), Reader.bigEndian_spell (hbound value')] at hnumbers
  exact ⟨hinj hnumbers, htail⟩

theorem Unambiguous.pair {encode : ρ → List UInt8} {encode' : σ → List UInt8}
    (first : Unambiguous encode) (second : Unambiguous encode') :
    Unambiguous fun record : ρ × σ => encode record.1 ++ encode' record.2 := by
  rintro ⟨record₁, record₂⟩ ⟨record₁', record₂'⟩ tail tail' h
  simp only [List.append_assoc] at h
  obtain ⟨rfl, hrest⟩ := first h
  obtain ⟨rfl, htail⟩ := second hrest
  exact ⟨rfl, htail⟩

theorem Unambiguous.of_injective {encode : ρ → List UInt8} (h : Unambiguous encode)
    (fields : σ → ρ) (hfields : Function.Injective fields) :
    Unambiguous fun record => encode (fields record) := by
  intro record record' tail tail' hsame
  obtain ⟨hrecords, htail⟩ := h hsame
  exact ⟨hfields hrecords, htail⟩

theorem Unambiguous.table {encode : ρ → List UInt8} (h : Unambiguous encode) :
    Unambiguous (Table.encode encode) := by
  have hrecords : ∀ {records records' : List ρ} {tail tail' : List UInt8},
      records.length = records'.length →
      records.flatMap encode ++ tail = records'.flatMap encode ++ tail' →
      records = records' ∧ tail = tail' := by
    intro records
    induction records with
    | nil =>
      intro records' tail tail' hlength hsame
      obtain rfl := List.length_eq_zero_iff.mp hlength.symm
      exact ⟨rfl, hsame⟩
    | cons record records ih =>
      rintro (_ | ⟨record', records'⟩) tail tail' hlength hsame
      · cases hlength
      · simp only [List.flatMap_cons, List.append_assoc] at hsame
        obtain ⟨rfl, hrest⟩ := h hsame
        obtain ⟨rfl, htail⟩ := ih (Nat.succ.inj hlength) hrest
        exact ⟨rfl, htail⟩
  -- The counts are the same, so the records are told apart one after the other.
  have hcounts : Unambiguous fun count : Fin 65536 => spell 2 count.val :=
    unambiguous_spell (fun count => count.isLt) Fin.val_injective
  rintro ⟨records, hcount⟩ ⟨records', hcount'⟩ tail tail' hsame
  simp only [Table.encode, List.append_assoc] at hsame
  obtain ⟨hlength, hrest⟩ := @hcounts ⟨_, hcount⟩ ⟨_, hcount'⟩ _ _ hsame
  obtain ⟨rfl, htail⟩ := hrecords (Fin.val_eq_of_eq hlength) hrest
  exact ⟨rfl, htail⟩

end ClassAtlas
