import ClassAtlas.Proofs.Pool.Layout
import ClassAtlas.Proofs.Pool.ModifiedUtf8

namespace ClassAtlas

open Reader

/-!
# The slots of a constant pool

Entries are written one behind the other and take one slot or two.  Reading them back gives the same
entries in the same slots, and where reading fails, the entries in front of the failure are kept.

* `Entry.encode` — the bytes of an entry, with `Entry.answers_read` to read them back;
* `Entry.withGap` — the slots of an entry;
* `Entry.ReadInTurn` — entries that are read one after the other;
* `Pool.fill_of_readInTurn`, `Pool.filled_fill` — what a pool holds when it is full, and when reading
  it stops before;
* `Pool.load_table` — the pools that are read, and what is left of those that are not.
-/

variable {entry : Entry} {entries : List Entry} {index count steps : Nat} {slots : Array Entry}
  {start middle stop : Cursor}

/-! ### Bytes -/

namespace Entry

/-- The tag of an entry and what stands behind it.  A slot without an entry has no bytes. -/
def encode : Entry → List UInt8
  | reserved => []
  | utf8 text =>
    1 :: (spell 2 (ModifiedUtf8.encode text).length ++ ModifiedUtf8.encode text)
  | integer value => 3 :: spell 4 value.toUInt32.toNat
  | float bits => 4 :: spell 4 bits.toNat
  | long value => 5 :: spell 8 value.toUInt64.toNat
  | double bits => 6 :: spell 8 bits.toNat
  | classRef name => 7 :: spell 2 name.toNat
  | string text => 8 :: spell 2 text.toNat
  | fieldRef owner member => 9 :: (spell 2 owner.toNat ++ spell 2 member.toNat)
  | methodRef owner member => 10 :: (spell 2 owner.toNat ++ spell 2 member.toNat)
  | interfaceMethodRef owner member =>
    11 :: (spell 2 owner.toNat ++ spell 2 member.toNat)
  | nameAndType name descriptor => 12 :: (spell 2 name.toNat ++ spell 2 descriptor.toNat)
  | methodHandle kind reference => 15 :: ([kind] ++ spell 2 reference.toNat)
  | methodType descriptor => 16 :: spell 2 descriptor.toNat
  | dynamic bootstrap member => 17 :: (spell 2 bootstrap.toNat ++ spell 2 member.toNat)
  | invokeDynamic bootstrap member =>
    18 :: (spell 2 bootstrap.toNat ++ spell 2 member.toNat)
  | moduleRef name => 19 :: spell 2 name.toNat
  | packageRef name => 20 :: spell 2 name.toNat

/-- The entry has a tag, and two bytes can count its text. -/
def Fits : Entry → Prop
  | reserved => False
  | utf8 text => (ModifiedUtf8.encode text).length ≤ 65535
  | _ => True

/-- What stands behind a tag is read by the tag. -/
theorem answers_tagged {next : UInt8 → Reader Entry} (tag : UInt8) {body rest : List UInt8}
    {depth : Nat} (h : Answers (next tag) body rest depth entry True) :
    Answers (u8 >>= next) (tag :: body) rest depth entry True :=
  (answers_u8 tag).andThen h

theorem answers_one {β : Type} {reader : Reader β} {bytes rest : List UInt8} {depth : Nat} {part : β}
    (h : Answers reader bytes rest depth part True) (make : β → Entry) :
    Answers (do return make (← reader)) bytes rest depth (make part) True :=
  h.map make

theorem answers_two {β : Type} {reader : Reader β} {bytes rest : List UInt8} {depth : Nat} {part : β}
    {reference : UInt16} (make : β → UInt16 → Entry)
    (h : Answers reader bytes (spell 2 reference.toNat ++ rest) depth part True) :
    Answers (do return make (← reader) (← u16)) (bytes ++ spell 2 reference.toNat) rest depth
      (make part reference) True :=
  h.map₂ (answers_u16 reference) make

/-- Two bytes hold the number of the bytes of the text, so it is read back as it is. -/
theorem answers_text {text : String} (hlength : (ModifiedUtf8.encode text).length < 2 ^ 16)
    {rest : List UInt8} {depth : Nat} :
    Answers (do
        let length ← u16
        let bytes ← Reader.bytes length.toNat
        match ModifiedUtf8.decode bytes with
        | .ok text => return .utf8 text
        | .error cause => malformed cause)
      (spell 2 (ModifiedUtf8.encode text).length ++ ModifiedUtf8.encode text) rest depth
      (utf8 text) True := by
  refine (answers_u16_ofNat hlength).andThen ?_
  rw [UInt16.toNat_ofNat_of_lt' hlength]
  refine (answers_bytes (ModifiedUtf8.encode text)).last ?_
  rw [ModifiedUtf8.decode_encode]
  exact answers_pure _

/-- An entry is read back, whatever stands behind it. -/
theorem answers_read (hfits : entry.Fits) (index : Nat) (rest : List UInt8) (depth : Nat) :
    Answers (Entry.read index) entry.encode rest depth entry True := by
  unfold Entry.read
  cases entry with
  | reserved => exact hfits.elim
  | utf8 text =>
    refine answers_tagged 1 ?_
    exact answers_text (Nat.lt_succ_of_le hfits)
  | integer value =>
    refine answers_tagged 3 ?_
    exact answers_one (answers_i32 value) .integer
  | float bits =>
    refine answers_tagged 4 ?_
    exact answers_one (answers_u32 bits) .float
  | long value =>
    refine answers_tagged 5 ?_
    exact answers_one (answers_i64 value) .long
  | double bits =>
    refine answers_tagged 6 ?_
    exact answers_one (answers_u64 bits) .double
  | classRef name =>
    refine answers_tagged 7 ?_
    exact answers_one (answers_u16 name) .classRef
  | string text =>
    refine answers_tagged 8 ?_
    exact answers_one (answers_u16 text) .string
  | fieldRef owner _ =>
    refine answers_tagged 9 ?_
    exact answers_two .fieldRef (answers_u16 owner)
  | methodRef owner _ =>
    refine answers_tagged 10 ?_
    exact answers_two .methodRef (answers_u16 owner)
  | interfaceMethodRef owner _ =>
    refine answers_tagged 11 ?_
    exact answers_two .interfaceMethodRef (answers_u16 owner)
  | nameAndType name _ =>
    refine answers_tagged 12 ?_
    exact answers_two .nameAndType (answers_u16 name)
  | methodHandle kind _ =>
    refine answers_tagged 15 ?_
    exact answers_two .methodHandle (answers_u8 kind)
  | methodType descriptor =>
    refine answers_tagged 16 ?_
    exact answers_one (answers_u16 descriptor) .methodType
  | dynamic bootstrap _ =>
    refine answers_tagged 17 ?_
    exact answers_two .dynamic (answers_u16 bootstrap)
  | invokeDynamic bootstrap _ =>
    refine answers_tagged 18 ?_
    exact answers_two .invokeDynamic (answers_u16 bootstrap)
  | moduleRef name =>
    refine answers_tagged 19 ?_
    exact answers_one (answers_u16 name) .moduleRef
  | packageRef name =>
    refine answers_tagged 20 ?_
    exact answers_one (answers_u16 name) .packageRef

/-! ### Slots -/

/-- The slots of an entry: one behind a wide entry stays free. -/
def withGap (entry : Entry) : List Entry := if entry.isWide then [entry, .reserved] else [entry]

theorem length_withGap (entry : Entry) : entry.withGap.length = entry.slots := by
  unfold withGap slots
  split <;> rfl

/-- How many slots some entries take. -/
def slotCount (entries : List Entry) : Nat := (entries.map (·.slots)).sum

theorem length_flatMap_withGap (entries : List Entry) :
    (entries.flatMap withGap).length = slotCount entries := by
  rw [List.length_flatMap, slotCount]
  simp only [length_withGap]

theorem slotCount_cons (entry : Entry) (rest : List Entry) :
    slotCount (entry :: rest) = entry.slots + slotCount rest := by
  simp [slotCount]

theorem slots_pos (entry : Entry) : 0 < entry.slots := by
  unfold slots
  split <;> decide

theorem length_le_slotCount (entries : List Entry) : entries.length ≤ slotCount entries := by
  induction entries with
  | nil => exact Nat.le_refl 0
  | cons entry rest ih =>
    have hpos := entry.slots_pos
    rw [slotCount_cons, List.length_cons]
    omega

/-- Behind a narrow entry the free slots are those behind wide ones. -/
theorem getElem?_flatMap_withGap {before : Entry} (hbefore : before.isWide = false)
    (hentries : ∀ entry ∈ entries, entry ≠ .reserved) (index : Nat) :
    (before :: entries.flatMap withGap)[index + 1]? = some .reserved
      ↔ ∃ wide, (before :: entries.flatMap withGap)[index]? = some wide ∧ wide.isWide = true := by
  -- On the entries: the last slot of each is narrow again, an entry or the free one.
  induction entries generalizing before index with
  | nil => cases index <;> simp [hbefore]
  | cons entry rest ih =>
    have hentry := hentries entry List.mem_cons_self
    have hrest := fun other hother => hentries other (List.mem_cons_of_mem _ hother)
    cases hwide : entry.isWide with
    | false =>
      simp only [List.flatMap_cons, withGap, hwide, Bool.false_eq_true, if_false,
        List.singleton_append]
      cases index with
      | zero => simp [hbefore, hentry]
      | succ index => exact ih hwide hrest index
    | true =>
      simp only [List.flatMap_cons, withGap, hwide, if_true, List.cons_append, List.nil_append]
      match index with
      | 0 => simp [hbefore, hentry]
      | 1 => simp [hwide]
      | index + 2 => exact ih rfl hrest index

/-! ### Entries in turn -/

/-- Some entries are read one after the other, the first one for a slot. -/
inductive ReadInTurn : (index : Nat) → Cursor → List Entry → Cursor → Prop
  | nil {index : Nat} {cursor : Cursor} : ReadInTurn index cursor [] cursor
  | cons {index : Nat} {start middle stop : Cursor} {entry : Entry} {rest : List Entry}
      (hread : Entry.read index start = .ok entry middle)
      (hrest : ReadInTurn (index + entry.slots) middle rest stop) :
      ReadInTurn index start (entry :: rest) stop

/-- What is read is a text of few enough bytes, or some other entry with a tag. -/
theorem of_read (Fine : Entry → Prop) (h : Entry.read index start = .ok entry stop)
    (htext : ∀ bytes text, bytes.length < 2 ^ 16 → ModifiedUtf8.decode bytes = .ok text →
      Fine (.utf8 text))
    (hother : ∀ other : Entry, other.kind ≠ .reserved → other.kind ≠ .utf8 → Fine other) :
    Fine entry := by
  have one : ∀ {β : Type} {reader : Reader β} {make : β → Entry} {place : Cursor},
      (do return make (← reader) : Reader Entry) place = .ok entry stop →
      (∀ part, (make part).kind ≠ .reserved ∧ (make part).kind ≠ .utf8) → Fine entry := by
    intro β reader make place h hmake
    obtain ⟨part, _, -, h⟩ := bind_eq_ok.mp h
    exact (pure_eq_ok.mp h).1 ▸ hother _ (hmake part).1 (hmake part).2
  have two : ∀ {β γ : Type} {first : Reader β} {second : Reader γ} {make : β → γ → Entry}
      {place : Cursor},
      (do return make (← first) (← second) : Reader Entry) place = .ok entry stop →
      (∀ part part', (make part part').kind ≠ .reserved ∧ (make part part').kind ≠ .utf8) →
        Fine entry := by
    intro β γ first second make place h hmake
    obtain ⟨part, _, -, h⟩ := bind_eq_ok.mp h
    exact one h (hmake part)
  unfold Entry.read at h
  obtain ⟨tag, middle, -, h⟩ := bind_eq_ok.mp h
  -- By the tag, in the order of the tags.
  split at h
  · obtain ⟨length, _, -, h⟩ := bind_eq_ok.mp h
    obtain ⟨bytes, _, hbytes, h⟩ := bind_eq_ok.mp h
    cases hdecode : ModifiedUtf8.decode bytes with
    | ok text =>
      rw [hdecode] at h
      refine (pure_eq_ok.mp h).1 ▸ htext bytes text ?_ hdecode
      rw [(bytes_eq_ok.mp hbytes).2]
      exact length.toNat_lt
    | error cause =>
      rw [hdecode] at h
      exact absurd h malformed_ne_ok
  · exact one h fun _ => ⟨nofun, nofun⟩
  · exact one h fun _ => ⟨nofun, nofun⟩
  · exact one h fun _ => ⟨nofun, nofun⟩
  · exact one h fun _ => ⟨nofun, nofun⟩
  · exact one h fun _ => ⟨nofun, nofun⟩
  · exact one h fun _ => ⟨nofun, nofun⟩
  · exact two h fun _ _ => ⟨nofun, nofun⟩
  · exact two h fun _ _ => ⟨nofun, nofun⟩
  · exact two h fun _ _ => ⟨nofun, nofun⟩
  · exact two h fun _ _ => ⟨nofun, nofun⟩
  · exact two h fun _ _ => ⟨nofun, nofun⟩
  · exact one h fun _ => ⟨nofun, nofun⟩
  · exact two h fun _ _ => ⟨nofun, nofun⟩
  · exact two h fun _ _ => ⟨nofun, nofun⟩
  · exact one h fun _ => ⟨nofun, nofun⟩
  · exact one h fun _ => ⟨nofun, nofun⟩
  · exact absurd h malformed_ne_ok

theorem ne_reserved_of_read (h : Entry.read index start = .ok entry stop) : entry ≠ .reserved :=
  of_read (· ≠ .reserved) h (fun _ _ _ _ => nofun) fun _ hreserved _ =>
    ne_of_apply_ne kind hreserved

theorem ReadInTurn.ne_reserved (h : ReadInTurn index start entries stop) :
    ∀ entry ∈ entries, entry ≠ .reserved := by
  induction h with
  | nil => exact fun _ hnone => absurd hnone List.not_mem_nil
  | cons hread _ ih => exact List.forall_mem_cons.mpr ⟨ne_reserved_of_read hread, ih⟩

/-- Entries that are written one behind the other are read one after the other. -/
theorem readInTurn_of_passes (hfits : ∀ entry ∈ entries, entry.Fits)
    (hpass : start.Passes (entries.flatMap encode) stop) : ReadInTurn index start entries stop := by
  induction entries generalizing index start with
  | nil =>
    rw [Cursor.passes_nil_iff.mp hpass]
    exact .nil
  | cons entry rest ih =>
    obtain ⟨middle, hentry, hrest⟩ := hpass.split
    have hread := answers_read (hfits entry List.mem_cons_self) index middle.rest start.depth
    exact .cons (hread.ok_of_passes trivial hentry)
      (ih (fun other hother => hfits other (List.mem_cons_of_mem _ hother)) hrest)

end Entry

/-! ### Pools -/

namespace Pool

open Entry

theorem fill_of_size (h : slots.size = count) (steps : Nat) (start : Cursor) :
    fill count steps slots start = ⟨⟨slots⟩, .ok () start⟩ := by
  cases steps with
  | zero => rfl
  | succ steps => rw [fill, if_neg (by omega)]

/-- An entry for which there is room takes its slots. -/
theorem fill_of_read (hroom : slots.size + entry.slots ≤ count)
    (hread : Entry.read slots.size start = .ok entry middle) :
    fill count (steps + 1) slots start
      = fill count steps (slots ++ entry.withGap.toArray) middle := by
  have hpos := entry.slots_pos
  rw [fill, if_pos (by omega), hread]
  dsimp only
  cases hwide : entry.isWide with
  | false => simp [withGap, hwide]
  | true =>
    have hgap : slots.size + 1 < count := by
      rw [entry.slots_eq_two_iff.mpr hwide] at hroom
      exact hroom
    have hpush : (slots.push entry).push .reserved = slots ++ #[entry, .reserved] := by
      rw [← Array.toList_inj]
      simp
    simp [withGap, hwide, hgap, hpush]

/-- A wide entry without room for its second slot is kept and refused. -/
theorem fill_of_overflow (hlast : slots.size + 1 = count) (hwide : entry.isWide = true)
    (hread : Entry.read slots.size start = .ok entry middle) :
    fill count (steps + 1) slots start
      = ⟨⟨slots.push entry⟩, .error (.malformed (.wideOverflow slots.size)) middle⟩ := by
  rw [fill, if_pos (by omega), hread]
  dsimp only
  rw [if_pos hwide, if_neg (by omega)]

theorem fill_of_error {error : Error} (hroom : slots.size < count)
    (hread : Entry.read slots.size start = .error error stop) :
    fill count (steps + 1) slots start = ⟨⟨slots⟩, .error error stop⟩ := by
  rw [fill, if_pos hroom, hread]

theorem size_append_withGap (slots : Array Entry) (entry : Entry) :
    (slots ++ entry.withGap.toArray).size = slots.size + entry.slots := by
  simp [length_withGap]

theorem append_flatMap_withGap (slots : Array Entry) (entry : Entry) (rest : List Entry) :
    slots ++ ((entry :: rest).flatMap withGap).toArray
      = slots ++ entry.withGap.toArray ++ (rest.flatMap withGap).toArray := by
  simp

/-- Entries for the slots that are left fill the pool. -/
theorem fill_of_readInTurn (h : ReadInTurn slots.size start entries stop)
    (hcount : slots.size + slotCount entries = count) (hsteps : entries.length ≤ steps) :
    fill count steps slots start
      = ⟨⟨slots ++ (entries.flatMap withGap).toArray⟩, .ok () stop⟩ := by
  induction entries generalizing slots start steps with
  | nil =>
    cases h
    rw [fill_of_size hcount]
    simp
  | cons entry rest ih =>
    cases h with
    | cons hread hrest =>
      rw [slotCount_cons] at hcount
      obtain ⟨steps, rfl⟩ : ∃ fewer, steps = fewer + 1 := Nat.exists_eq_add_one.mpr (by
        rw [List.length_cons] at hsteps
        omega)
      rw [List.length_cons, Nat.add_le_add_iff_right] at hsteps
      rw [← size_append_withGap] at hrest
      rw [fill_of_read (by omega) hread, append_flatMap_withGap]
      refine ih hrest ?_ hsteps
      rw [size_append_withGap]
      omega

/-- How filling a pool from some slots on ends. -/
inductive Filled (count : Nat) (slots : Array Entry) (start : Cursor) : Loaded → Prop
  /-- All slots are filled. -/
  | full {entries : List Entry} {stop : Cursor}
      (hread : ReadInTurn slots.size start entries stop)
      (hcount : slots.size + slotCount entries = count) :
      Filled count slots start ⟨⟨slots ++ (entries.flatMap withGap).toArray⟩, .ok () stop⟩
  /-- An entry is damaged; those in front of it are kept. -/
  | damaged {entries : List Entry} {place stop : Cursor} {error : Error}
      (hread : ReadInTurn slots.size start entries place)
      (hroom : slots.size + slotCount entries < count)
      (herror : Entry.read (slots.size + slotCount entries) place = .error error stop) :
      Filled count slots start ⟨⟨slots ++ (entries.flatMap withGap).toArray⟩, .error error stop⟩
  /-- A wide entry is left without its second slot; it is kept too. -/
  | overflown {entries : List Entry} {place stop : Cursor} {wide : Entry}
      (hread : ReadInTurn slots.size start entries place)
      (hlast : slots.size + slotCount entries + 1 = count) (hwide : wide.isWide = true)
      (hlastRead : Entry.read (slots.size + slotCount entries) place = .ok wide stop) :
      Filled count slots start
        ⟨⟨slots ++ (entries.flatMap withGap).toArray ++ #[wide]⟩,
          .error (.malformed (.wideOverflow (slots.size + slotCount entries))) stop⟩

/-- One entry in front. -/
theorem Filled.cons {loaded : Loaded} (hread : Entry.read slots.size start = .ok entry middle)
    (h : Filled count (slots ++ entry.withGap.toArray) middle loaded) :
    Filled count slots start loaded := by
  have hsum : ∀ entries, (slots ++ entry.withGap.toArray).size + slotCount entries
      = slots.size + slotCount (entry :: entries) := by
    intro entries
    rw [size_append_withGap, slotCount_cons, Nat.add_assoc]
  cases h with
  | full hrest hcount =>
    rw [size_append_withGap] at hrest
    rw [hsum] at hcount
    rw [← append_flatMap_withGap]
    exact .full (.cons hread hrest) hcount
  | damaged hrest hroom herror =>
    rw [size_append_withGap] at hrest
    rw [hsum] at hroom herror
    rw [← append_flatMap_withGap]
    exact .damaged (.cons hread hrest) hroom herror
  | overflown hrest hlast hwide hlastRead =>
    rw [size_append_withGap] at hrest
    rw [hsum] at hlast hlastRead
    rw [← append_flatMap_withGap, hsum]
    exact .overflown (.cons hread hrest) hlast hwide hlastRead

/-- Filling a pool ends in one of these ways.  Each entry takes a slot, so as many steps as slots are
    enough. -/
theorem filled_fill (hslots : slots.size ≤ count) (hsteps : count ≤ slots.size + steps) :
    Filled count slots start (fill count steps slots start) := by
  have hnone : ∀ slots : Array Entry, slots ++ (([] : List Entry).flatMap withGap).toArray = slots :=
    fun slots => by simp
  induction steps generalizing slots start with
  | zero =>
    have hfull : Filled count slots start _ := .full .nil (by
      simp [slotCount]
      omega)
    rwa [hnone] at hfull
  | succ steps ih =>
    by_cases hfull : slots.size = count
    · rw [fill_of_size hfull]
      have hfull : Filled count slots start _ := .full .nil hfull
      rwa [hnone] at hfull
    have hroom : slots.size < count := by omega
    cases hread : Entry.read slots.size start with
    | error error stop =>
      rw [fill_of_error hroom hread]
      have hdamaged : Filled count slots start _ := .damaged .nil hroom hread
      rwa [hnone] at hdamaged
    | ok entry middle =>
      have hpos := entry.slots_pos
      by_cases hgap : slots.size + entry.slots ≤ count
      · rw [fill_of_read hgap hread]
        refine .cons hread (ih ?_ ?_)
        · rwa [size_append_withGap]
        · rw [size_append_withGap]
          omega
      · -- Only a wide entry can be without room, and only in the last slot.
        have hwide : entry.isWide = true := by
          by_contra hnarrow
          rw [Entry.slots, if_neg hnarrow] at hgap
          omega
        rw [entry.slots_eq_two_iff.mpr hwide] at hgap
        have hlast : slots.size + 1 = count := by omega
        have hover : Filled count slots start _ := .overflown .nil hlast hwide hread
        rw [hnone, Array.append_singleton] at hover
        rw [fill_of_overflow hlast hwide hread]
        exact hover

/-- What was in the pool before does not matter. -/
theorem load_of_count {count : UInt16} (hcount : u16 start = .ok count middle) (hne : count ≠ 0)
    (pool : Pool) :
    pool.load start = fill count.toNat count.toNat #[.reserved] middle := by
  rw [load, hcount]
  dsimp only
  rw [if_neg hne]
  rfl

theorem filled_fill_start {count : UInt16} (start : Cursor) (hne : count ≠ 0) :
    Filled count.toNat #[.reserved] start (fill count.toNat count.toNat #[.reserved] start) := by
  have hpos : count.toNat ≠ 0 := fun hzero => hne (UInt16.toNat_inj.mp hzero)
  exact filled_fill (Nat.one_le_iff_ne_zero.mpr hpos) (Nat.le_add_left _ _)

theorem exists_count_of_load {pool loaded : Pool} (h : pool.load start = ⟨loaded, .ok () stop⟩) :
    ∃ count middle, u16 start = .ok count middle ∧ count ≠ 0 := by
  unfold load at h
  cases hcount : u16 start with
  | error error place =>
    rw [hcount] at h
    cases h
  | ok count middle =>
    rw [hcount] at h
    refine ⟨count, middle, rfl, fun hzero => ?_⟩
    dsimp only at h
    rw [if_pos hzero] at h
    cases h

/-- A pool of some entries: slot 0 is free, and so are the slots behind wide entries. -/
def ofEntries (entries : List Entry) : Pool := ⟨(.reserved :: entries.flatMap withGap).toArray⟩

theorem mk_append_flatMap (entries : List Entry) :
    (⟨#[.reserved] ++ (entries.flatMap withGap).toArray⟩ : Pool) = ofEntries entries := by
  simp [ofEntries]

theorem load_of_passes {suffix : Cursor} (hfits : ∀ entry ∈ entries, entry.Fits)
    (hcount : 1 + slotCount entries ≤ 65535)
    (hpass : start.Passes (spell 2 (1 + slotCount entries) ++ entries.flatMap encode) suffix)
    (pool : Pool) : pool.load start = ⟨ofEntries entries, .ok () suffix⟩ := by
  obtain ⟨middle, hnumber, hentries⟩ := hpass.split
  have hback : (UInt16.ofNat (1 + slotCount entries)).toNat = 1 + slotCount entries :=
    UInt16.toNat_ofNat_of_lt' (Nat.lt_succ_of_le hcount)
  rw [← hback] at hnumber
  have hread := (readsAs_u16 start middle _).mpr ⟨_, hnumber, rfl⟩
  have hne : UInt16.ofNat (1 + slotCount entries) ≠ 0 := by
    intro hzero
    rw [hzero] at hback
    exact absurd hback (by simp; omega)
  have hlength : entries.length ≤ 1 + slotCount entries :=
    Nat.le_add_left_of_le (length_le_slotCount entries)
  have hturn : ReadInTurn #[Entry.reserved].size middle entries suffix :=
    readInTurn_of_passes hfits hentries
  rw [load_of_count hread hne, hback]
  rw [← mk_append_flatMap]
  exact fill_of_readInTurn hturn rfl hlength

theorem size_ofEntries (entries : List Entry) :
    (ofEntries entries).entries.size = 1 + slotCount entries := by
  show (Entry.reserved :: entries.flatMap withGap).length = _
  rw [List.length_cons, length_flatMap_withGap, Nat.add_comm]

/-- The free slots of a pool of entries. -/
theorem getElem?_ofEntries (hentries : ∀ entry ∈ entries, entry ≠ .reserved) (index : Nat) :
    (ofEntries entries).entries[index]? = some .reserved
      ↔ index = 0
        ∨ ∃ before wide, index = before + 1 ∧ (ofEntries entries).entries[before]? = some wide
          ∧ wide.isWide = true := by
  have hgap := getElem?_flatMap_withGap (rfl : Entry.reserved.isWide = false) hentries
  simp only [ofEntries, List.getElem?_toArray]
  cases index with
  | zero => simp
  | succ before =>
    rw [hgap before]
    simp

/-- **Slots.** Entries that are written one behind the other are read back into the slots they take,
    whatever the pool held before and whatever comes behind them.  A pool that was read has as many
    slots as were announced, and the free ones are the first and those behind wide entries.  If
    reading fails, the pool holds the entries in front of the failure, and a wide entry that was left
    without its second slot. -/
theorem load_table :
    (∀ entries : List Entry, (∀ entry ∈ entries, entry.Fits) → 1 + slotCount entries ≤ 65535 →
      ∀ (pool : Pool) (suffix : List UInt8) (position depth : Nat),
        let bytes := spell 2 (1 + slotCount entries) ++ entries.flatMap Entry.encode
        pool.load ⟨bytes ++ suffix, position, depth⟩
          = ⟨⟨(.reserved :: entries.flatMap withGap).toArray⟩,
              .ok () ⟨suffix, position + bytes.length, depth⟩⟩)
    ∧ (∀ (pool loaded : Pool) (start stop : Cursor), pool.load start = ⟨loaded, .ok () stop⟩ →
      (∃ count middle, u16 start = .ok count middle ∧ loaded.entries.size = count.toNat)
        ∧ ∀ index, loaded.entries[index]? = some .reserved
          ↔ index = 0
            ∨ ∃ before wide, index = before + 1 ∧ loaded.entries[before]? = some wide
              ∧ wide.isWide = true)
    ∧ ∀ (pool loaded : Pool) (start middle stop : Cursor) (count : UInt16) (error : Error),
      u16 start = .ok count middle → count ≠ 0 → pool.load start = ⟨loaded, .error error stop⟩ →
      ∃ entries place, ReadInTurn 1 middle entries place
        ∧ (Entry.read (1 + slotCount entries) place = .error error stop
            ∧ loaded.entries.toList = .reserved :: entries.flatMap withGap
          ∨ ∃ wide, Entry.read (1 + slotCount entries) place = .ok wide stop
            ∧ wide.isWide = true ∧ 1 + slotCount entries + 1 = count.toNat
            ∧ error = .malformed (.wideOverflow (1 + slotCount entries))
            ∧ loaded.entries.toList = .reserved :: entries.flatMap withGap ++ [wide]) := by
  refine ⟨?encoded, ?loaded, ?failed⟩
  case encoded =>
    intro entries hfits hcount pool suffix position depth bytes
    have hpass : Cursor.Passes ⟨bytes ++ suffix, position, depth⟩ bytes
        ⟨suffix, position + bytes.length, depth⟩ := ⟨rfl, rfl, rfl⟩
    exact load_of_passes hfits hcount hpass pool
  case loaded =>
    intro pool loaded start stop hload
    obtain ⟨count, middle, hcount, hne⟩ := exists_count_of_load hload
    rw [load_of_count hcount hne] at hload
    have hfilled := filled_fill_start middle hne
    rw [hload] at hfilled
    cases hfilled with
    | @full entries _ hread hsize =>
      rw [mk_append_flatMap]
      exact ⟨⟨count, middle, hcount, (size_ofEntries entries).trans hsize⟩,
        getElem?_ofEntries hread.ne_reserved⟩
  case failed =>
    intro pool loaded start middle stop count error hcount hne hload
    rw [load_of_count hcount hne] at hload
    have hfilled := filled_fill_start middle hne
    rw [hload] at hfilled
    cases hfilled with
    | damaged hread hroom herror =>
      exact ⟨_, _, hread, .inl ⟨herror, by simp⟩⟩
    | overflown hread hlast hwide hlastRead =>
      exact ⟨_, _, hread, .inr ⟨_, hlastRead, hwide, hlast, rfl, by simp⟩⟩

/-- A wide entry with room for its second slot and a class, and a wide entry in the last slot. -/
theorem load_table_wide :
    let pool : Pool := ⟨#[.reserved, .utf8 "left over"]⟩
    let bytes : List UInt8 := [0, 4, 5, 0, 0, 0, 0, 0, 0, 0, 1, 7, 0, 1]
    let cramped : List UInt8 := [0, 2, 5, 0, 0, 0, 0, 0, 0, 0, 1]
    pool.load ⟨bytes ++ [0xCA], 8, 0⟩
        = ⟨⟨#[.reserved, .long 1, .reserved, .classRef 1]⟩, .ok () ⟨[0xCA], 22, 0⟩⟩
      ∧ (∃ before wide, 2 = before + 1
        ∧ (#[.reserved, .long 1, .reserved, .classRef 1] : Array Entry)[before]? = some wide
        ∧ wide.isWide = true)
      ∧ ∃ entries place, ReadInTurn 1 ⟨cramped.drop 2, 2, 0⟩ entries place := by
  intro pool bytes cramped
  obtain ⟨hencoded, hloaded, hfailed⟩ := load_table
  have hfits : ∀ entry ∈ [Entry.long 1, .classRef 1], entry.Fits := by simp [Entry.Fits]
  have hload : pool.load ⟨bytes ++ [0xCA], 8, 0⟩
      = ⟨⟨#[.reserved, .long 1, .reserved, .classRef 1]⟩, .ok () ⟨[0xCA], 22, 0⟩⟩ :=
    hencoded _ hfits (by decide) pool [0xCA] 8 0
  have hslots := (hloaded _ _ _ _ hload).2 2
  have hcramped : pool.load (.ofBytes cramped)
      = ⟨⟨#[.reserved, .long 1]⟩, .error (.malformed (.wideOverflow 1)) ⟨[], 11, 0⟩⟩ := rfl
  obtain ⟨entries, place, hread, -⟩ :=
    hfailed pool _ _ ⟨cramped.drop 2, 2, 0⟩ _ 2 _ rfl (by decide) hcramped
  refine ⟨hload, ?_, entries, place, hread⟩
  exact (hslots.mp rfl).resolve_left (by decide)

end Pool

end ClassAtlas
