import ClassAtlas.Machine.Pool
import ClassAtlas.Proofs.Machine.Names
import ClassAtlas.Proofs.Machine.Settling
import ClassAtlas.Proofs.Pool.Slots

namespace ClassAtlas.Machine

/-!
# Constant pools read by a position

Reading a pool by the position comes to the same end as the reader of pools, and on no bytes to a
fault: the units of a text are read by indices in front of its end, and every entry fills a slot.

* `settles_decodeText` — modified UTF-8;
* `follows_readEntry` — entries;
* `followsLoaded_fill`, `followsLoaded_load` — the slots.
-/

variable {room : Nat}

/-! ### Modified UTF-8 -/

theorem succ_le_of_drop_eq_cons {bytes rest : List UInt8} {index : Nat} {byte : UInt8}
    (h : bytes.drop index = byte :: rest) : index + 1 ≤ bytes.length := by
  have hlength := congrArg List.length h
  rw [List.length_drop, List.length_cons] at hlength
  omega

theorem drop_succ_of_drop_eq_cons {bytes rest : List UInt8} {index : Nat} {byte : UInt8}
    (h : bytes.drop index = byte :: rest) : bytes.drop (index + 1) = rest := by
  rw [← List.drop_drop, h]
  rfl

/-- The byte at an index is the first of those from there on. -/
theorem settles_continuation {α : Type} {bytes : List UInt8} {index : Nat}
    {next : UInt8 → Checked α} {behind : UInt8 → List UInt8 → Except Malformation α}
    (hnext : ∀ byte after, bytes.drop index = byte :: after →
      Settles (next byte) ((behind byte after).mapError .malformed)) :
    Settles (liftM (continuation bytes index) >>= next)
      (Except.mapError .malformed <|
        match bytes.drop index with
        | [] => .error .truncatedText
        | byte :: after =>
          if ModifiedUtf8.isContinuation byte then behind byte after
          else .error (.badTextContinuation byte index)) := by
  rw [continuation, ← List.head?_drop]
  cases hrest : bytes.drop index with
  | nil => rfl
  | cons byte after =>
    dsimp only [List.head?_cons]
    split
    · exact hnext byte after hrest
    · rfl

/-- Every unit has a byte, so the units end before their bound. -/
theorem settles_unitsFrom {bytes : List UInt8} (hlength : bytes.length < wordLimit) (bound : Nat)
    (index : Nat) (read : List UInt16) (hbound : bytes.length < index + bound)
    (hindex : index ≤ bytes.length) :
    Settles (unitsFrom bytes bound index read)
      ((ModifiedUtf8.unitsAfter index (bytes.drop index) read).mapError .malformed) := by
  induction bound generalizing index read with
  | zero => omega
  | succ bound ih =>
    rw [unitsFrom, ModifiedUtf8.unitsAfter.eq_def]
    cases hrest : bytes.drop index with
    | nil =>
      rw [if_neg (by rw [List.drop_eq_nil_iff] at hrest; omega)]
      exact settles_pure _
    | cons lead rest =>
      have hone := succ_le_of_drop_eq_cons hrest
      have hlead : bytes[index]? = some lead := by rw [← List.head?_drop, hrest]; rfl
      have hword := add_eq (hone.trans_lt hlength)
      rw [if_pos (Nat.lt_of_succ_le hone)]
      refine settles_guarded_bind (entryAt_eq hlead) ?_
      dsimp only
      obtain rfl := drop_succ_of_drop_eq_cons hrest
      -- By the lead byte: a unit of one, two or three bytes.
      split
      · exact settles_guarded_bind hword (ih _ _ (by omega) hone)
      split
      · refine settles_guarded_bind hword (settles_continuation fun low after hlow => ?_)
        have htwo := succ_le_of_drop_eq_cons hlow
        rw [← drop_succ_of_drop_eq_cons hlow]
        exact settles_guarded_bind (add_eq (htwo.trans_lt hlength)) (ih _ _ (by omega) htwo)
      split
      · refine settles_guarded_bind hword (settles_continuation fun middle after hmiddle => ?_)
        have htwo := succ_le_of_drop_eq_cons hmiddle
        rw [← drop_succ_of_drop_eq_cons hmiddle]
        refine settles_guarded_bind (add_eq (htwo.trans_lt hlength))
          (settles_continuation fun low last hlow => ?_)
        have hthree := succ_le_of_drop_eq_cons hlow
        rw [← drop_succ_of_drop_eq_cons hlow]
        exact settles_guarded_bind (add_eq (hthree.trans_lt hlength)) (ih _ _ (by omega) hthree)
      · rfl

/-- Under another name a failure stays one. -/
theorem except_mapError_bind {α β ε ε' : Type} (f : ε → ε') (outcome : Except ε α)
    (next : α → Except ε β) :
    (outcome >>= next).mapError f = outcome.mapError f >>= fun value => (next value).mapError f := by
  cases outcome <;> rfl

theorem settles_decodeText {bytes : List UInt8} (hlength : bytes.length < wordLimit) :
    Settles (decodeText bytes) ((ModifiedUtf8.decode bytes).mapError .malformed) := by
  rw [decodeText, ModifiedUtf8.decode]
  split
  · exact settles_pure _
  · have hunits := settles_unitsFrom hlength (bytes.length + 1) 0 [] (by omega) (Nat.zero_le _)
    rw [List.drop_zero] at hunits
    rw [ModifiedUtf8.decodeUnits, except_mapError_bind]
    refine hunits.bind fun units _ => ?_
    cases ModifiedUtf8.charactersAfter units [] <;> rfl

/-! ### Entries -/

/-- A text has few enough bytes for its length, which is a number of two bytes. -/
theorem follows_readText (length : UInt16) :
    Follows room (do return .utf8 (← decodeText (← bytes length.toNat)) : Step Entry) (do
      let bytes ← Reader.bytes length.toNat
      match ModifiedUtf8.decode bytes with
      | .ok text => return .utf8 text
      | .error cause => Reader.malformed cause) := by
  refine (follows_bytes _).bindRead fun bytes start stop hread => ?_
  have hword : bytes.length < wordLimit := by
    rw [(Reader.bytes_eq_ok.mp hread).2]
    exact length.toNat_lt.trans (by decide)
  have htext : Follows room _ _ := follows_lift (settles_decodeText hword)
  cases hspelled : ModifiedUtf8.decode bytes with
  | ok text =>
    rw [hspelled] at htext
    exact htext.bind fun _ => follows_pure _
  | error cause =>
    rw [hspelled] at htext
    exact htext.bind fun _ => follows_pure _

theorem follows_readEntry (index : Nat) : Follows room (readEntry index) (Entry.read index) := by
  have hone : Follows room u16 Reader.u16 := follows_u16
  have htwo : ∀ entry : UInt16 → UInt16 → Entry,
      Follows room (do return entry (← u16) (← u16)) (do return entry (← Reader.u16) (← Reader.u16)) :=
    fun entry => follows_u16.bind fun _ => follows_u16.bind fun _ => follows_pure _
  refine follows_u8.bind fun tag => ?_
  split
  · exact hone.bind follows_readText
  · exact follows_i32.bind fun _ => follows_pure _
  · exact follows_u32.bind fun _ => follows_pure _
  · exact follows_i64.bind fun _ => follows_pure _
  · exact follows_u64.bind fun _ => follows_pure _
  · exact hone.bind fun _ => follows_pure _
  · exact hone.bind fun _ => follows_pure _
  · exact htwo .fieldRef
  · exact htwo .methodRef
  · exact htwo .interfaceMethodRef
  · exact htwo .nameAndType
  · exact follows_u8.bind fun _ => hone.bind fun _ => follows_pure _
  · exact hone.bind fun _ => follows_pure _
  · exact htwo .dynamic
  · exact htwo .invokeDynamic
  · exact hone.bind fun _ => follows_pure _
  · exact hone.bind fun _ => follows_pure _
  · rw [readBehindTag]
    · exact follows_malformed _
    all_goals assumption

/-! ### Slots -/

/-- The slots that were read from a place, and how the reading ended, with and without a
    position. -/
structure FollowsLoaded (place : Place) (guarded : Guarded Loaded) (loaded : Pool.Loaded) : Prop where
  /-- There is no fault, the slots are the same, and the readings end alike. -/
  exists_eq : ∃ outcome stop, guarded = .ok ⟨loaded.pool, outcome, stop⟩
    ∧ Alike place (outcome, stop) loaded.outcome

theorem followsLoaded_fill (count steps : Nat) (entries : Array Entry) {place : Place}
    (inside : place.Inside) (hroom : place.HasRoom room) (hsteps : count ≤ entries.size + steps) :
    FollowsLoaded place (fill count (steps + 1) entries place)
      (Pool.fill count steps entries place.cursor) := by
  induction steps generalizing entries place with
  | zero =>
    refine ⟨⟨_, _, ?_, .ok inside.reaches⟩⟩
    rw [fill, if_neg (by omega)]
    rfl
  | succ steps ih =>
    rw [fill, Pool.fill]
    split
    · have hentry : Follows room _ _ := follows_readEntry entries.size
      obtain ⟨outcome, hrun, halike⟩ := hentry place inside hroom
      rw [hrun]
      generalize Entry.read entries.size place.cursor = result at halike ⊢
      cases halike with
      | error hdepth => exact ⟨⟨_, _, rfl, .error hdepth⟩⟩
      | @ok entry stop hreaches =>
        have hnext : ∀ entries', count ≤ entries'.size + steps →
            FollowsLoaded place (fill count (steps + 1) entries' stop)
              (Pool.fill count steps entries' stop.cursor) := by
          intro entries' hsteps
          obtain ⟨outcome, last, hfill, halike⟩ :=
            (ih entries' (hreaches.inside inside) (hreaches.hasRoom hroom) hsteps).exists_eq
          exact ⟨⟨outcome, last, hfill, halike.of_reaches hreaches⟩⟩
        show FollowsLoaded place
          (if entry.isWide then
            if count ≤ (entries.push entry).size then
              .ok ⟨⟨entries.push entry⟩, .error (.malformed (.wideOverflow entries.size)), stop⟩
            else fill count (steps + 1) ((entries.push entry).push .reserved) stop
          else fill count (steps + 1) (entries.push entry) stop) _
        rw [Array.size_push]
        dsimp only
        split
        · by_cases hlast : entries.size + 1 < count
          · rw [if_pos hlast, if_neg (Nat.not_le.mpr hlast)]
            exact hnext _ (by rw [Array.size_push, Array.size_push]; omega)
          · rw [if_neg hlast, if_pos (Nat.not_lt.mp hlast)]
            exact ⟨⟨_, _, rfl, .error (Nat.le_of_eq hreaches.depth_eq.symm)⟩⟩
        · exact hnext _ (by rw [Array.size_push]; omega)
    · exact ⟨⟨_, _, rfl, .ok inside.reaches⟩⟩

/-- **A pool is loaded without a fault.** As many steps as there are slots are enough, since every
    entry fills one. -/
theorem followsLoaded_load (pool : Pool) {place : Place} (inside : place.Inside)
    (hroom : place.HasRoom room) :
    FollowsLoaded place (load pool place) (pool.load place.cursor) := by
  have hcount : Follows room u16 Reader.u16 := follows_u16
  obtain ⟨outcome, hrun, halike⟩ := hcount place inside hroom
  rw [load, hrun, Pool.load]
  generalize Reader.u16 place.cursor = result at halike ⊢
  cases halike with
  | error hdepth => exact ⟨⟨_, _, rfl, .error hdepth⟩⟩
  | @ok count stop hreaches =>
    show FollowsLoaded place (if count = 0 then _ else _) _
    dsimp only
    split
    · exact ⟨⟨_, _, rfl, .error (Nat.le_of_eq hreaches.depth_eq.symm)⟩⟩
    · obtain ⟨outcome, last, hfill, halike⟩ :=
        (followsLoaded_fill count.toNat count.toNat (pool.clear.entries.push .reserved)
          (hreaches.inside inside) (hreaches.hasRoom hroom) (Nat.le_add_left ..)).exists_eq
      exact ⟨⟨outcome, last, hfill, halike.of_reaches hreaches⟩⟩

/-! ### Texts that can be addressed -/

/-- Every unit has a byte. -/
theorem length_of_unitsAfter {offset : Nat} {bytes : List UInt8} {read units : List UInt16}
    (h : ModifiedUtf8.unitsAfter offset bytes read = .ok units) :
    units.length ≤ bytes.length + read.length := by
  fun_induction ModifiedUtf8.unitsAfter offset bytes read with
  | case1 =>
    cases h
    simp
  | _ => first
    | cases h
    | rename_i ih
      refine (ih h).trans ?_
      simp only [List.length_cons]
      omega

/-- A character has at most four bytes, and it has a unit or two. -/
theorem byteLength_of_charactersAfter {units : List UInt16} {read characters : List Char}
    (h : ModifiedUtf8.charactersAfter units read = some characters) :
    byteLength characters ≤ 4 * units.length + byteLength read := by
  fun_induction ModifiedUtf8.charactersAfter units read with
  | case1 =>
    cases h
    rw [byteLength, List.map_reverse, List.sum_reverse]
    exact Nat.le_add_left ..
  | _ => first
    | cases h
    | rename_i ih
      refine (ih h).trans ?_
      have hsize := Char.utf8Size_le_four
      simp only [byteLength_cons, List.length_cons]
      grind

theorem byteLength_of_decode {bytes : List UInt8} {text : String}
    (h : ModifiedUtf8.decode bytes = .ok text) : byteLength text.toList ≤ 4 * bytes.length := by
  rw [ModifiedUtf8.decode_eq_decodeUnits, ModifiedUtf8.decodeUnits] at h
  cases hunits : ModifiedUtf8.unitsAfter 0 bytes [] with
  | error cause =>
    rw [hunits] at h
    cases h
  | ok units =>
    rw [hunits] at h
    have hlength := length_of_unitsAfter hunits
    simp only [bind, Except.bind] at h
    split at h
    · rename_i characters hspelled
      cases h
      have hbytes := byteLength_of_charactersAfter hspelled
      rw [String.toList_ofList]
      simp only [List.length_nil, byteLength_nil] at hlength hbytes
      omega
    · cases h

/-- An entry whose text, if it is one, can be addressed. -/
def EntryAddressable : Entry → Prop
  | .utf8 text => byteLength text.toList < wordLimit
  | _ => True

/-- The length of a text is a number of two bytes. -/
theorem entryAddressable_of_read {index : Nat} {start stop : Cursor} {entry : Entry}
    (h : Entry.read index start = .ok entry stop) : EntryAddressable entry := by
  refine Entry.of_read EntryAddressable h (fun bytes text hlength hdecode => ?_) fun other _ hkind => ?_
  · have hle := byteLength_of_decode hdecode
    have hword : 4 * 2 ^ 16 ≤ wordLimit := by decide
    show byteLength text.toList < wordLimit
    omega
  · cases other with
    | utf8 text => exact absurd rfl hkind
    | _ => trivial

/-- A pool in which every text can be addressed. -/
def PoolAddressable (pool : Pool) : Prop := ∀ entry ∈ pool.entries, EntryAddressable entry

theorem poolAddressable_clear (pool : Pool) : PoolAddressable pool.clear :=
  fun _ hentry => absurd hentry (Array.not_mem_empty _)

theorem poolAddressable_push {entries : Array Entry} (h : PoolAddressable ⟨entries⟩) {entry : Entry}
    (hentry : EntryAddressable entry) : PoolAddressable ⟨entries.push entry⟩ := by
  intro other hother
  rcases Array.mem_push.mp hother with hother | rfl
  · exact h other hother
  · exact hentry

/-- A slot that is not used holds no text. -/
theorem PoolAddressable.reserve {entries : Array Entry} (h : PoolAddressable ⟨entries⟩) :
    PoolAddressable ⟨entries.push .reserved⟩ :=
  poolAddressable_push h trivial

theorem poolAddressable_fill {count steps : Nat} {entries : Array Entry}
    (h : PoolAddressable ⟨entries⟩) (start : Cursor) :
    PoolAddressable (Pool.fill count steps entries start).pool := by
  induction steps generalizing entries start with
  | zero => exact h
  | succ steps ih =>
    rw [Pool.fill]
    split
    · split
      · exact h
      · rename_i entry stop hread
        have hnext := poolAddressable_push h (entryAddressable_of_read hread)
        split
        · split
          · exact ih hnext.reserve stop
          · exact hnext
        · exact ih hnext stop
    · exact h

/-- Whatever was loaded, its texts can be addressed. -/
theorem poolAddressable_load (pool : Pool) (start : Cursor) :
    PoolAddressable (pool.load start).pool := by
  rw [Pool.load]
  split
  · exact poolAddressable_clear pool
  · split
    · exact poolAddressable_clear pool
    · exact poolAddressable_fill (poolAddressable_clear pool).reserve _

variable {pool : Pool} {index : UInt16}

theorem PoolAddressable.get (h : PoolAddressable pool) {entry : Entry}
    (hentry : pool.get index = .ok entry) : EntryAddressable entry := by
  unfold Pool.get at hentry
  split at hentry
  · cases hentry
  · cases hentry
  · rename_i found _ hfound
    cases hentry
    exact h entry (Array.mem_of_getElem? hfound)

theorem PoolAddressable.utf8 (h : PoolAddressable pool) {text : String}
    (htext : pool.utf8 index = .ok text) : (Text.utf8 text).length < wordLimit := by
  unfold Pool.utf8 at htext
  obtain ⟨entry, hentry, htext⟩ := except_bind_eq_ok.mp htext
  have haddressable := h.get hentry
  split at htext
  · cases htext
    rw [length_utf8]
    exact haddressable
  · cases htext

theorem PoolAddressable.className (h : PoolAddressable pool) {name : String}
    (hname : pool.className index = .ok name) : byteLength name.toList < wordLimit := by
  unfold Pool.className at hname
  obtain ⟨spelled, hspelled, hname⟩ := except_bind_eq_ok.mp hname
  cases hname
  rw [byteLength_dotted, ← length_utf8]
  unfold Pool.internalName at hspelled
  obtain ⟨entry, -, hspelled⟩ := except_bind_eq_ok.mp hspelled
  split at hspelled
  · exact h.utf8 hspelled
  · cases hspelled

theorem PoolAddressable.optionalClassName (h : PoolAddressable pool) {name : Option String}
    (hname : pool.optionalClassName index = .ok name) :
    ∀ written ∈ name, byteLength written.toList < wordLimit := by
  unfold Pool.optionalClassName at hname
  split at hname
  · cases hname
    rintro _ ⟨⟩
  · obtain ⟨written, hwritten, hname⟩ := except_bind_eq_ok.mp hname
    cases hname
    rintro _ ⟨⟩
    exact h.className hwritten

end ClassAtlas.Machine
