import ClassAtlas.Proofs.ClassFile.PrefixFree
import ClassAtlas.Proofs.Reading.Spelling

namespace ClassAtlas

open Reader

/-!
# The layout of constant pools

A constant pool is a number of slots and entries with a tag each.  The tag says how many bytes the
entry has, so the pool ends where its last entry does, whatever the entries mean.

* `Reader.Spans` — readers that take a fixed number of bytes;
* `EntryRecord`, `PoolRecord` — entries and pools with their bytes;
* `Entry.passes_of_read` — reading goes from one entry to the next;
* `Pool.passes_of_read` — and to the end of the pool.
-/

variable {β γ : Type}

/-! ### Readers of a fixed number of bytes -/

namespace Reader

/-- The reader takes so many bytes for whatever it gives, and it only gives values of a sort. -/
def Spans (reader : Reader β) (width : Nat) (P : β → Prop) : Prop :=
  ∀ ⦃start value stop⦄, reader start = .ok value stop →
    (∃ bytes, start.Passes bytes stop ∧ bytes.length = width) ∧ P value

theorem Spans.bind {reader : Reader β} {next : β → Reader γ} {width more : Nat} {P : β → Prop}
    {Q : γ → Prop} (first : reader.Spans width P) (second : ∀ value, (next value).Spans more Q) :
    (reader >>= next).Spans (width + more) Q := by
  intro start result stop hread
  obtain ⟨value, middle, hvalue, hresult⟩ := bind_eq_ok.mp hread
  obtain ⟨⟨bytes, hpass, hlength⟩, -⟩ := first hvalue
  obtain ⟨⟨bytes', hpass', hlength'⟩, hQ⟩ := second value hresult
  refine ⟨⟨bytes ++ bytes', hpass.trans hpass', ?_⟩, hQ⟩
  rw [List.length_append, hlength, hlength']

theorem spans_pure {value : β} {P : β → Prop} (h : P value) :
    (pure value : Reader β).Spans 0 P := by
  intro start result stop hread
  obtain ⟨rfl, rfl⟩ := pure_eq_ok.mp hread
  exact ⟨⟨[], .refl _, rfl⟩, h⟩

theorem spans_bytes (count : Nat) : (Reader.bytes count).Spans count fun _ => True := by
  intro start chunk stop hread
  obtain ⟨hpass, hlength⟩ := bytes_eq_ok.mp hread
  exact ⟨⟨chunk, hpass, hlength⟩, trivial⟩

theorem spans_number (width : Nat) : (number width).Spans width fun _ => True :=
  (spans_bytes width).bind fun _ => spans_pure trivial

theorem spans_u8 : u8.Spans 1 fun _ => True := (spans_number 1).bind fun _ => spans_pure trivial

theorem spans_u16 : u16.Spans 2 fun _ => True := (spans_number 2).bind fun _ => spans_pure trivial

theorem spans_u32 : u32.Spans 4 fun _ => True := (spans_number 4).bind fun _ => spans_pure trivial

theorem spans_u64 : u64.Spans 8 fun _ => True := (spans_number 8).bind fun _ => spans_pure trivial

theorem spans_i32 : i32.Spans 4 fun _ => True := spans_u32.bind fun _ => spans_pure trivial

theorem spans_i64 : i64.Spans 8 fun _ => True := spans_u64.bind fun _ => spans_pure trivial

/-- Where as many bytes stand in front, these are the ones that are taken. -/
theorem Spans.passes {reader : Reader β} {P : β → Prop} {bytes more : List UInt8}
    (h : reader.Spans bytes.length P) {start stop : Cursor} {value : β}
    (hrest : start.rest = bytes ++ more) (hread : reader start = .ok value stop) :
    start.Passes bytes stop ∧ P value := by
  obtain ⟨⟨taken, hpass, hlength⟩, hP⟩ := h hread
  obtain ⟨rfl, -⟩ := List.append_inj (hpass.rest_eq.symm.trans hrest) hlength
  exact ⟨hpass, hP⟩

end Reader

/-! ### Entries -/

/-- How many bytes stand behind a tag, if the tag says it.  It does not for texts. -/
def entryWidth? : UInt8 → Option Nat
  | 7 | 8 | 16 | 19 | 20 => some 2
  | 15 => some 3
  | 3 | 4 | 9 | 10 | 11 | 12 | 17 | 18 => some 4
  | 5 | 6 => some 8
  | _ => none

/-- An entry of a constant pool, as it stands in a file. -/
inductive EntryRecord where
  /-- A text, whose bytes are counted by two bytes. -/
  | text (bytes : List UInt8) (length_lt : bytes.length < 65536)
  /-- Another tag, and as many bytes as it says. -/
  | tagged (tag : UInt8) (body : List UInt8) (width_eq : entryWidth? tag = some body.length)

namespace EntryRecord

/-- The tag and the bytes. -/
def encode : EntryRecord → List UInt8
  | text bytes _ => 1 :: (spell 2 bytes.length ++ bytes)
  | tagged tag body _ => tag :: body

/-- How many slots the entry takes. -/
def slots : EntryRecord → Nat
  | text _ _ => 1
  | tagged tag _ _ => if tag = 5 ∨ tag = 6 then 2 else 1

end EntryRecord

/-- How many slots an entry takes. -/
def Entry.slots (entry : Entry) : Nat := if entry.isWide then 2 else 1

/-- An entry of one part. -/
theorem Entry.spans_one (slots : Nat) {reader : Reader β} {make : β → Entry} {width : Nat}
    (h : reader.Spans width fun _ => True) (hmake : ∀ part, (make part).slots = slots) :
    (do return make (← reader) : Reader Entry).Spans width fun entry => entry.slots = slots :=
  h.bind fun part => spans_pure (P := fun entry : Entry => entry.slots = slots) (hmake part)

/-- An entry of two parts. -/
theorem Entry.spans_two {first : Reader β} {second : Reader γ} {make : β → γ → Entry}
    {width width' : Nat} (h : first.Spans width fun _ => True)
    (h' : second.Spans width' fun _ => True) (hmake : ∀ part part', (make part part').slots = 1) :
    (do return make (← first) (← second) : Reader Entry).Spans (width + width')
      fun entry => entry.slots = 1 :=
  h.bind fun part => h'.bind fun part' =>
    spans_pure (P := fun entry : Entry => entry.slots = 1) (hmake part part')

/-- Reading an entry goes up to the end of its bytes, and gives one that takes as many slots. -/
theorem Entry.passes_of_read {index : Nat} {record : EntryRecord} {more : List UInt8}
    {start stop : Cursor} {entry : Entry} (hrest : start.rest = record.encode ++ more)
    (h : Entry.read index start = .ok entry stop) :
    start.Passes record.encode stop ∧ entry.slots = record.slots := by
  unfold Entry.read at h
  obtain ⟨tag, middle, htag, h⟩ := bind_eq_ok.mp h
  rw [u8_eq_ok] at htag
  have hbehind := htag.rest_eq
  cases record with
  | text bytes hlength =>
    simp only [hrest, EntryRecord.encode, List.cons_append, List.nil_append, List.append_assoc,
      List.cons.injEq] at hbehind
    obtain ⟨rfl, hmiddle⟩ := hbehind
    obtain ⟨number, place, hnumber, h⟩ := bind_eq_ok.mp h
    obtain ⟨chunk, last, hchunk, h⟩ := bind_eq_ok.mp h
    -- Two bytes hold the number of bytes, so it is read back as it is.
    obtain ⟨_, hpass, ⟨⟩⟩ := (readsAs_u16 _ _ _).mp hnumber
    obtain ⟨hsame, hplace⟩ := List.append_inj (hpass.rest_eq.symm.trans hmiddle.symm) (by simp)
    have hcount := congrArg bigEndian hsame
    rw [bigEndian_spell number.toNat_lt, bigEndian_spell hlength] at hcount
    dsimp only at hpass
    rw [hcount] at hpass hchunk
    have htext := htag.trans (hpass.trans ((spans_bytes _).passes hplace hchunk).1)
    cases hdecode : ModifiedUtf8.decode chunk with
    | ok text =>
      rw [hdecode] at h
      obtain ⟨rfl, rfl⟩ := pure_eq_ok.mp h
      exact ⟨htext, rfl⟩
    | error cause =>
      rw [hdecode] at h
      exact absurd h malformed_ne_ok
  | tagged tag' body hwidth =>
    simp only [hrest, EntryRecord.encode, List.cons_append, List.nil_append,
      List.cons.injEq] at hbehind
    obtain ⟨rfl, hmiddle⟩ := hbehind
    have of_spans : ∀ {reader : Reader Entry} {width slots : Nat},
        reader.Spans width (fun entry => entry.slots = slots) → reader middle = .ok entry stop →
        entryWidth? tag' = some width → (if tag' = 5 ∨ tag' = 6 then 2 else 1) = slots →
        start.Passes (tag' :: body) stop
          ∧ entry.slots = if tag' = 5 ∨ tag' = 6 then 2 else 1 := by
      intro reader width slots hspans hread hwidth' hslots
      obtain rfl : body.length = width := Option.some.inj (hwidth.symm.trans hwidth')
      obtain ⟨hpass, hentry⟩ := hspans.passes hmiddle.symm hread
      exact ⟨htag.trans hpass, hentry.trans hslots.symm⟩
    -- By the tag, in the order of the tags.
    split at h
    · cases hwidth
    · exact of_spans (spans_one 1 spans_i32 fun _ => rfl) h rfl rfl
    · exact of_spans (spans_one 1 spans_u32 fun _ => rfl) h rfl rfl
    · exact of_spans (spans_one 2 spans_i64 fun _ => rfl) h rfl rfl
    · exact of_spans (spans_one 2 spans_u64 fun _ => rfl) h rfl rfl
    · exact of_spans (spans_one 1 spans_u16 fun _ => rfl) h rfl rfl
    · exact of_spans (spans_one 1 spans_u16 fun _ => rfl) h rfl rfl
    · exact of_spans (spans_two spans_u16 spans_u16 fun _ _ => rfl) h rfl rfl
    · exact of_spans (spans_two spans_u16 spans_u16 fun _ _ => rfl) h rfl rfl
    · exact of_spans (spans_two spans_u16 spans_u16 fun _ _ => rfl) h rfl rfl
    · exact of_spans (spans_two spans_u16 spans_u16 fun _ _ => rfl) h rfl rfl
    · exact of_spans (spans_two spans_u8 spans_u16 fun _ _ => rfl) h rfl rfl
    · exact of_spans (spans_one 1 spans_u16 fun _ => rfl) h rfl rfl
    · exact of_spans (spans_two spans_u16 spans_u16 fun _ _ => rfl) h rfl rfl
    · exact of_spans (spans_two spans_u16 spans_u16 fun _ _ => rfl) h rfl rfl
    · exact of_spans (spans_one 1 spans_u16 fun _ => rfl) h rfl rfl
    · exact of_spans (spans_one 1 spans_u16 fun _ => rfl) h rfl rfl
    · exact absurd h malformed_ne_ok

/-! ### Pools -/

/-- The slots of some entries. -/
def slotsOf (entries : List EntryRecord) : Nat := (entries.map (·.slots)).sum

/-- A constant pool, as it stands in a file. -/
structure PoolRecord where
  /-- The entries. -/
  entries : List EntryRecord
  /-- Their slots and the first one, which has no entry, are no more than two bytes can count. -/
  slots_lt : 1 + slotsOf entries < 65536

/-- The number of the slots, and the bytes of the entries. -/
def PoolRecord.encode (record : PoolRecord) : List UInt8 :=
  spell 2 (1 + slotsOf record.entries) ++ record.entries.flatMap (·.encode)

theorem EntryRecord.slots_pos (record : EntryRecord) : 0 < record.slots := by
  cases record with
  | text => exact Nat.one_pos
  | tagged tag => rw [slots]; split <;> omega

theorem length_le_slotsOf (entries : List EntryRecord) : entries.length ≤ slotsOf entries := by
  induction entries with
  | nil => exact Nat.le_refl 0
  | cons record rest ih =>
    have hpos := record.slots_pos
    simp only [slotsOf, List.map_cons, List.sum_cons, List.length_cons] at ih ⊢
    omega

theorem Entry.slots_eq_two_iff (entry : Entry) : entry.slots = 2 ↔ entry.isWide = true := by
  unfold slots
  split <;> simp_all

theorem Pool.filler_of_size {count : Nat} {entries : Array Entry} (h : entries.size = count)
    (steps : Nat) : Pool.filler count steps entries = pure ⟨entries⟩ := by
  cases steps with
  | zero => rfl
  | succ steps => rw [Pool.filler_succ, if_neg (by omega)]

/-- Filling a pool goes up to the end of the entries, if these are for the slots that are left. -/
theorem Pool.passes_of_filler {count steps : Nat} {entries : Array Entry}
    {records : List EntryRecord} {more : List UInt8} {start stop : Cursor} {pool : Pool}
    (hslots : entries.size + slotsOf records = count) (hsteps : records.length ≤ steps)
    (hrest : start.rest = records.flatMap (·.encode) ++ more)
    (h : Pool.filler count steps entries start = .ok pool stop) :
    start.Passes (records.flatMap (·.encode)) stop := by
  -- On the entries that are left: each of them has a step of its own and the slots it takes.
  induction records generalizing steps entries start with
  | nil =>
    rw [Pool.filler_of_size hslots, pure_eq_ok] at h
    exact Cursor.passes_nil_iff.mpr h.2
  | cons record rest ih =>
    obtain ⟨steps, rfl⟩ : ∃ fewer, steps = fewer + 1 := Nat.exists_eq_add_one.mpr (by
      rw [List.length_cons] at hsteps
      omega)
    rw [List.length_cons, Nat.add_le_add_iff_right] at hsteps
    rw [List.flatMap_cons, List.append_assoc] at hrest
    have hpos := record.slots_pos
    have hsum : slotsOf (record :: rest) = record.slots + slotsOf rest := by simp [slotsOf]
    rw [Pool.filler_succ, if_pos (by omega)] at h
    obtain ⟨entry, middle, hentry, h⟩ := bind_eq_ok.mp h
    obtain ⟨hpass, hsame⟩ := Entry.passes_of_read hrest hentry
    have hmiddle : middle.rest = rest.flatMap (·.encode) ++ more :=
      List.append_cancel_left (hpass.rest_eq.symm.trans hrest)
    rw [List.flatMap_cons]
    refine hpass.trans ?_
    split at h
    · rename_i hwide
      rw [← Entry.slots_eq_two_iff, hsame] at hwide
      rw [if_pos (by omega)] at h
      exact ih (by simp only [Array.size_push]; omega) hsteps hmiddle h
    · rename_i hnarrow
      have hone : record.slots = 1 := by
        rw [← hsame, Entry.slots, if_neg hnarrow]
      exact ih (by simp only [Array.size_push]; omega) hsteps hmiddle h

/-- **A pool ends where its entries do.** Reading the pool of a file goes up to the end of the
    entries that stand there, if they are read at all. -/
theorem Pool.passes_of_read {record : PoolRecord} {more : List UInt8} {start stop : Cursor}
    {pool : Pool} (hrest : start.rest = record.encode ++ more)
    (h : Pool.read start = .ok pool stop) : start.Passes record.encode stop := by
  rw [Pool.read_eq] at h
  obtain ⟨count, middle, hcount, h⟩ := bind_eq_ok.mp h
  obtain ⟨_, hpass, ⟨⟩⟩ := (readsAs_u16 _ _ _).mp hcount
  rw [PoolRecord.encode, List.append_assoc] at hrest
  obtain ⟨hsame, hmiddle⟩ := List.append_inj (hpass.rest_eq.symm.trans hrest) (by simp)
  have hnumber := congrArg bigEndian hsame
  rw [bigEndian_spell count.toNat_lt, bigEndian_spell record.slots_lt] at hnumber
  dsimp only at hpass
  split at h
  · exact absurd h malformed_ne_ok
  · rw [hnumber] at hpass h
    have hlength := length_le_slotsOf record.entries
    exact hpass.trans (Pool.passes_of_filler (by simp) (by omega) hmiddle h)

end ClassAtlas
