import ClassAtlas.Proofs.Pool.ModifiedUtf8

namespace ClassAtlas.ModifiedUtf8

/-!
# The language of modified UTF-8

Which bytes spell a text is told here by what the bytes look like, without reading them in turn:
they split from the left into groups of one, two or three bytes, each group has the number of a unit
in its bits, and the surrogates among the units come in pairs.  All other bytes are refused for a
reason, which says where the first group is that cannot be finished.

* `Group`, `Grouped` — groups of bytes and their units;
* `Paired` — units and the characters they make;
* `Spells` — bytes and their text;
* `Broken`, `Refused` — bytes that spell nothing, and why;
* `unitsAfter_grouped`, `unitsAfter_broken` — what is read from groups, and from what is not one;
* `groupedOrBroken`, `exists_spells_or_refused` — there are no other bytes;
* `decode_eq_iff` — the texts and the refusals of all bytes.
-/

/-! ### Groups of bytes -/

/-- A byte that continues a group. -/
def Tail (byte : UInt8) : Prop := 0x80 ≤ byte.toNat ∧ byte.toNat ≤ 0xBF

/-- The first byte of a group of two. -/
def LeadsTwo (byte : UInt8) : Prop := 0xC0 ≤ byte.toNat ∧ byte.toNat ≤ 0xDF

/-- The first byte of a group of three. -/
def LeadsThree (byte : UInt8) : Prop := 0xE0 ≤ byte.toNat ∧ byte.toNat ≤ 0xEF

/-- A group of bytes and the unit whose number it has in its bits.  Groups may be longer than the
    number asks for. -/
inductive Group : List UInt8 → UInt16 → Prop where
  /-- A byte that stands for itself. -/
  | one {lead : UInt8} {unit : UInt16} (hlead : 0x01 ≤ lead.toNat ∧ lead.toNat ≤ 0x7F)
      (hunit : unit.toNat = lead.toNat) : Group [lead] unit
  /-- Five bits and six bits. -/
  | two {lead low : UInt8} {unit : UInt16} (hlead : LeadsTwo lead) (hlow : Tail low)
      (hunit : unit.toNat = (lead.toNat - 0xC0) * 0x40 + (low.toNat - 0x80)) :
      Group [lead, low] unit
  /-- Four bits and twice six bits. -/
  | three {lead middle low : UInt8} {unit : UInt16} (hlead : LeadsThree lead)
      (hmiddle : Tail middle) (hlow : Tail low)
      (hunit : unit.toNat
        = (lead.toNat - 0xE0) * 0x1000 + (middle.toNat - 0x80) * 0x40 + (low.toNat - 0x80)) :
      Group [lead, middle, low] unit

/-- Bytes that split from the left into groups, and the units of the groups. -/
inductive Grouped : List UInt8 → List UInt16 → Prop where
  /-- No group. -/
  | nil : Grouped [] []
  /-- A group, then more. -/
  | cons {group rest : List UInt8} {unit : UInt16} {units : List UInt16} (hgroup : Group group unit)
      (hrest : Grouped rest units) : Grouped (group ++ rest) (unit :: units)

/-- Units whose surrogates come in pairs, and the characters they make. -/
inductive Paired : List UInt16 → List Char → Prop where
  /-- No unit. -/
  | nil : Paired [] []
  /-- A unit that is no surrogate, then more. -/
  | single {unit : UInt16} {c : Char} {units : List UInt16} {characters : List Char}
      (hunit : unit.toNat < 0xD800 ∨ 0xDFFF < unit.toNat) (hchar : c.toNat = unit.toNat)
      (hrest : Paired units characters) : Paired (unit :: units) (c :: characters)
  /-- Two surrogates, then more. -/
  | pair {high low : UInt16} {c : Char} {units : List UInt16} {characters : List Char}
      (hhigh : 0xD800 ≤ high.toNat ∧ high.toNat ≤ 0xDBFF)
      (hlow : 0xDC00 ≤ low.toNat ∧ low.toNat ≤ 0xDFFF)
      (hchar : c.toNat = 0x10000 + (high.toNat - 0xD800) * 0x400 + (low.toNat - 0xDC00))
      (hrest : Paired units characters) : Paired (high :: low :: units) (c :: characters)

/-- The bytes split into groups whose units make the text. -/
def Spells (bytes : List UInt8) (text : String) : Prop :=
  ∃ units, Grouped bytes units ∧ Paired units text.toList

/-! ### Bytes that spell nothing -/

/-- The beginning of a group that asks for more bytes. -/
inductive Unfinished : List UInt8 → Prop where
  | two {lead : UInt8} (hlead : LeadsTwo lead) : Unfinished [lead]
  | three {lead : UInt8} (hlead : LeadsThree lead) : Unfinished [lead]
  | more {lead middle : UInt8} (hlead : LeadsThree lead) (hmiddle : Tail middle) :
      Unfinished [lead, middle]

/-- Bytes that do not split into groups, and the reason for which they are refused. -/
inductive Broken (bytes : List UInt8) : Malformation → Prop where
  /-- Behind some groups stands a byte that no group begins with. -/
  | lead {before after : List UInt8} {byte : UInt8} {units : List UInt16}
      (hbytes : bytes = before ++ byte :: after) (hbefore : Grouped before units)
      (hbyte : byte.toNat = 0 ∨ Tail byte ∨ 0xF0 ≤ byte.toNat) :
      Broken bytes (.badTextLead byte before.length)
  /-- Behind some groups begins one that goes on with the wrong byte. -/
  | continuation {before part after : List UInt8} {byte : UInt8} {units : List UInt16}
      (hbytes : bytes = before ++ (part ++ byte :: after)) (hbefore : Grouped before units)
      (hpart : Unfinished part) (hbyte : ¬Tail byte) :
      Broken bytes (.badTextContinuation byte (before.length + part.length))
  /-- Behind some groups begins one that the bytes end in. -/
  | truncated {before part : List UInt8} {units : List UInt16} (hbytes : bytes = before ++ part)
      (hbefore : Grouped before units) (hpart : Unfinished part) : Broken bytes .truncatedText

/-- Bytes that spell no text, and the reason for which they are refused. -/
inductive Refused (bytes : List UInt8) : Malformation → Prop where
  /-- They do not split into groups. -/
  | broken {reason : Malformation} (h : Broken bytes reason) : Refused bytes reason
  /-- The surrogates among their units do not come in pairs. -/
  | unpaired {units : List UInt16} (hgrouped : Grouped bytes units)
      (hpaired : ∀ characters, ¬Paired units characters) : Refused bytes .unpairedSurrogate

/-! ### Reading groups -/

variable {bytes group part rest : List UInt8} {units read : List UInt16} {unit : UInt16}
  {offset : Nat} {reason : Malformation}

theorem isContinuation_iff_tail (byte : UInt8) : isContinuation byte = true ↔ Tail byte := by
  rw [isContinuation_iff, Tail]
  omega

theorem toNat_unitOfTwo_of_leads {lead low : UInt8} (hlead : LeadsTwo lead) (hlow : Tail low) :
    (unitOfTwo lead low).toNat = (lead.toNat - 0xC0) * 0x40 + (low.toNat - 0x80) := by
  unfold LeadsTwo at hlead
  unfold Tail at hlow
  rw [toNat_unitOfTwo]
  omega

theorem toNat_unitOfThree_of_leads {lead middle low : UInt8} (hlead : LeadsThree lead)
    (hmiddle : Tail middle) (hlow : Tail low) :
    (unitOfThree lead middle low).toNat
      = (lead.toNat - 0xE0) * 0x1000 + (middle.toNat - 0x80) * 0x40 + (low.toNat - 0x80) := by
  unfold LeadsThree at hlead
  unfold Tail at hmiddle hlow
  rw [toNat_unitOfThree]
  omega

theorem unitsAfter_group (h : Group group unit) :
    unitsAfter offset (group ++ rest) read
      = unitsAfter (offset + group.length) rest (unit :: read) := by
  cases h with
  | @one lead _ hlead hunit =>
    have hsame : lead.toUInt16 = unit := by
      rw [← UInt16.toNat_inj, UInt8.toNat_toUInt16, hunit]
    rw [List.singleton_append, unitsAfter_one hlead, hsame]
    rfl
  | @two lead low _ hlead hlow hunit =>
    have hsame : unitOfTwo lead low = unit := by
      rw [← UInt16.toNat_inj, toNat_unitOfTwo_of_leads hlead hlow, hunit]
    rw [List.cons_append, List.singleton_append,
      unitsAfter_two hlead ((isContinuation_iff_tail low).mpr hlow), hsame]
    rfl
  | @three lead middle low _ hlead hmiddle hlow hunit =>
    have hsame : unitOfThree lead middle low = unit := by
      rw [← UInt16.toNat_inj, toNat_unitOfThree_of_leads hlead hmiddle hlow, hunit]
    rw [List.cons_append, List.cons_append, List.singleton_append,
      unitsAfter_three hlead ((isContinuation_iff_tail middle).mpr hmiddle)
        ((isContinuation_iff_tail low).mpr hlow), hsame]
    rfl

/-- Groups are read as their units, whatever comes after them. -/
theorem unitsAfter_grouped (h : Grouped bytes units) :
    unitsAfter offset (bytes ++ rest) read
      = unitsAfter (offset + bytes.length) rest (units.reverse ++ read) := by
  induction h generalizing offset read with
  | nil => rfl
  | cons hgroup _ ih =>
    rw [List.append_assoc, unitsAfter_group hgroup, ih, List.length_append, Nat.add_assoc,
      List.reverse_cons, List.append_assoc, List.singleton_append]

theorem unitsAfter_of_grouped (h : Grouped bytes units) : unitsAfter 0 bytes [] = .ok units := by
  have hread : unitsAfter 0 (bytes ++ []) []
      = unitsAfter (0 + bytes.length) [] (units.reverse ++ []) := unitsAfter_grouped h
  rw [List.append_nil, List.append_nil] at hread
  rw [hread]
  show Except.ok units.reverse.reverse = _
  rw [List.reverse_reverse]

/-! ### Reading what is not a group -/

theorem LeadsTwo.le_and_le {lead : UInt8} (h : LeadsTwo lead) : 0xC0 ≤ lead ∧ lead ≤ 0xDF := h

theorem LeadsThree.le_and_le {lead : UInt8} (h : LeadsThree lead) : 0xE0 ≤ lead ∧ lead ≤ 0xEF := h

theorem LeadsTwo.not_one {lead : UInt8} (h : LeadsTwo lead) : ¬(0x01 ≤ lead ∧ lead ≤ 0x7F) := by
  rintro ⟨-, hle⟩
  have hle : lead.toNat ≤ 0x7F := hle
  unfold LeadsTwo at h
  omega

theorem LeadsThree.not_one {lead : UInt8} (h : LeadsThree lead) :
    ¬(0x01 ≤ lead ∧ lead ≤ 0x7F) := by
  rintro ⟨-, hle⟩
  have hle : lead.toNat ≤ 0x7F := hle
  unfold LeadsThree at h
  omega

theorem LeadsThree.not_two {lead : UInt8} (h : LeadsThree lead) :
    ¬(0xC0 ≤ lead ∧ lead ≤ 0xDF) := by
  rintro ⟨-, hle⟩
  have hle : lead.toNat ≤ 0xDF := hle
  unfold LeadsThree at h
  omega

theorem unitsAfter_lead {byte : UInt8} (h : byte.toNat = 0 ∨ Tail byte ∨ 0xF0 ≤ byte.toNat) :
    unitsAfter offset (byte :: rest) read = .error (.badTextLead byte offset) := by
  unfold Tail at h
  have hone : ¬(0x01 ≤ byte ∧ byte ≤ 0x7F) := by
    rintro ⟨hge, hle⟩
    have hge : 0x01 ≤ byte.toNat := hge
    have hle : byte.toNat ≤ 0x7F := hle
    omega
  have htwo : ¬(0xC0 ≤ byte ∧ byte ≤ 0xDF) := by
    rintro ⟨hge, hle⟩
    have hge : 0xC0 ≤ byte.toNat := hge
    have hle : byte.toNat ≤ 0xDF := hle
    omega
  have hthree : ¬(0xE0 ≤ byte ∧ byte ≤ 0xEF) := by
    rintro ⟨hge, hle⟩
    have hge : 0xE0 ≤ byte.toNat := hge
    have hle : byte.toNat ≤ 0xEF := hle
    omega
  rw [unitsAfter.eq_def]
  dsimp only
  rw [if_neg hone, if_neg htwo, if_neg hthree]

/-- The bytes end in the middle of a group. -/
theorem unitsAfter_unfinished (h : Unfinished part) :
    unitsAfter offset part read = .error .truncatedText := by
  rw [unitsAfter.eq_def]
  cases h with
  | two hlead =>
    dsimp only
    rw [if_neg hlead.not_one, if_pos hlead.le_and_le]
  | three hlead =>
    dsimp only
    rw [if_neg hlead.not_one, if_neg hlead.not_two, if_pos hlead.le_and_le]
  | @more _ middle hlead hmiddle =>
    dsimp only
    rw [if_neg hlead.not_one, if_neg hlead.not_two, if_pos hlead.le_and_le,
      if_pos ((isContinuation_iff_tail middle).mpr hmiddle)]

/-- A group goes on with a byte that does not continue it. -/
theorem unitsAfter_wrongTail {byte : UInt8} (h : Unfinished part) (hbyte : ¬Tail byte) :
    unitsAfter offset (part ++ byte :: rest) read
      = .error (.badTextContinuation byte (offset + part.length)) := by
  rw [← isContinuation_iff_tail] at hbyte
  rw [unitsAfter.eq_def]
  cases h with
  | two hlead =>
    dsimp only [List.cons_append, List.nil_append]
    rw [if_neg hlead.not_one, if_pos hlead.le_and_le, if_neg hbyte]
    rfl
  | three hlead =>
    dsimp only [List.cons_append, List.nil_append]
    rw [if_neg hlead.not_one, if_neg hlead.not_two, if_pos hlead.le_and_le, if_neg hbyte]
    rfl
  | @more _ middle hlead hmiddle =>
    dsimp only [List.cons_append, List.nil_append]
    rw [if_neg hlead.not_one, if_neg hlead.not_two, if_pos hlead.le_and_le,
      if_pos ((isContinuation_iff_tail middle).mpr hmiddle), if_neg hbyte]
    rfl

theorem unitsAfter_broken (h : Broken bytes reason) : unitsAfter 0 bytes [] = .error reason := by
  cases h with
  | lead hbytes hbefore hbyte =>
    rw [hbytes, unitsAfter_grouped hbefore, Nat.zero_add, unitsAfter_lead hbyte]
  | continuation hbytes hbefore hpart hbyte =>
    rw [hbytes, unitsAfter_grouped hbefore, Nat.zero_add, unitsAfter_wrongTail hpart hbyte]
  | truncated hbytes hbefore hpart =>
    rw [hbytes, unitsAfter_grouped hbefore, unitsAfter_unfinished hpart]

/-! ### All bytes -/

/-- A group in front of bytes that do not split into groups does not change that. -/
theorem Broken.behind (hgroup : Group group unit) (h : Broken rest reason) :
    ∃ reason', Broken (group ++ rest) reason' := by
  cases h with
  | lead hbytes hbefore hbyte =>
    exact ⟨_, .lead (by rw [hbytes, List.append_assoc]) (.cons hgroup hbefore) hbyte⟩
  | continuation hbytes hbefore hpart hbyte =>
    exact ⟨_, .continuation (by rw [hbytes, List.append_assoc]) (.cons hgroup hbefore) hpart hbyte⟩
  | truncated hbytes hbefore hpart =>
    exact ⟨_, .truncated (by rw [hbytes, List.append_assoc]) (.cons hgroup hbefore) hpart⟩

/-- Bytes split into groups or are refused. -/
def GroupedOrBroken (bytes : List UInt8) : Prop :=
  (∃ units, Grouped bytes units) ∨ ∃ reason, Broken bytes reason

theorem GroupedOrBroken.behind (hgroup : Group group unit) (h : GroupedOrBroken rest) :
    GroupedOrBroken (group ++ rest) := by
  obtain ⟨units, hgrouped⟩ | ⟨reason, hbroken⟩ := h
  · exact .inl ⟨_, .cons hgroup hgrouped⟩
  · exact .inr (hbroken.behind hgroup)

theorem Unfinished.groupedOrBroken (h : Unfinished part) : GroupedOrBroken part :=
  .inr ⟨_, .truncated rfl .nil h⟩

theorem Unfinished.groupedOrBroken_of_not_tail {byte : UInt8} (h : Unfinished part)
    (hbyte : ¬Tail byte) : GroupedOrBroken (part ++ byte :: rest) :=
  .inr ⟨_, .continuation rfl .nil h hbyte⟩

/-- There are no other bytes.  The first byte says what is to follow. -/
theorem groupedOrBroken (bytes : List UInt8) : GroupedOrBroken bytes := by
  match bytes with
  | [] => exact .inl ⟨[], .nil⟩
  | lead :: rest =>
    by_cases hone : 0x01 ≤ lead.toNat ∧ lead.toNat ≤ 0x7F
    · exact (groupedOrBroken rest).behind (.one hone (UInt8.toNat_toUInt16 lead))
    by_cases htwo : LeadsTwo lead
    · match rest with
      | [] => exact (Unfinished.two htwo).groupedOrBroken
      | low :: rest =>
        by_cases hlow : Tail low
        · have hunit := toNat_unitOfTwo_of_leads htwo hlow
          exact (groupedOrBroken rest).behind (.two htwo hlow hunit)
        · exact (Unfinished.two htwo).groupedOrBroken_of_not_tail hlow
    by_cases hthree : LeadsThree lead
    · match rest with
      | [] => exact (Unfinished.three hthree).groupedOrBroken
      | middle :: rest =>
        by_cases hmiddle : Tail middle
        · match rest with
          | [] => exact (Unfinished.more hthree hmiddle).groupedOrBroken
          | low :: rest =>
            by_cases hlow : Tail low
            · have hunit := toNat_unitOfThree_of_leads hthree hmiddle hlow
              exact (groupedOrBroken rest).behind (.three hthree hmiddle hlow hunit)
            · exact (Unfinished.more hthree hmiddle).groupedOrBroken_of_not_tail hlow
        · exact (Unfinished.three hthree).groupedOrBroken_of_not_tail hmiddle
    have hlead : lead.toNat = 0 ∨ Tail lead ∨ 0xF0 ≤ lead.toNat := by
      unfold LeadsTwo at htwo
      unfold LeadsThree at hthree
      unfold Tail
      omega
    exact .inr ⟨_, .lead rfl .nil hlead⟩

/-! ### Reading characters -/

variable {characters behind : List Char}

/-- Paired units are read as their characters, -/
theorem charactersAfter_paired (h : Paired units characters) :
    charactersAfter units behind = some (behind.reverse ++ characters) := by
  induction h generalizing behind with
  | nil =>
    rw [List.append_nil]
    rfl
  | @single unit c _ _ hunit hchar _ ih =>
    rw [charactersAfter_single hunit, ih, ← hchar, Char.ofNat_toNat, List.reverse_cons,
      List.append_assoc, List.singleton_append]
  | @pair high low c _ _ hhigh hlow hchar _ ih =>
    have hjoin : joinSurrogates high low = c := by rw [joinSurrogates, ← hchar, Char.ofNat_toNat]
    rw [charactersAfter_pair ((isHighSurrogate_iff high).mpr hhigh)
      ((isLowSurrogate_iff low).mpr hlow), ih, hjoin, List.reverse_cons, List.append_assoc,
      List.singleton_append]

/-- and only they are read. -/
theorem exists_paired_of_charactersAfter (h : charactersAfter units behind = some characters) :
    ∃ more, characters = behind.reverse ++ more ∧ Paired units more := by
  fun_induction charactersAfter units behind with
  | case1 behind =>
    cases h
    exact ⟨[], (List.append_nil _).symm, .nil⟩
  | case3 high behind hhigh low rest hlow ih =>
    obtain ⟨more, rfl, hmore⟩ := ih h
    have hchar := toNat_joinSurrogates hhigh hlow
    refine ⟨joinSurrogates high low :: more, ?_, .pair ((isHighSurrogate_iff high).mp hhigh)
      ((isLowSurrogate_iff low).mp hlow) hchar hmore⟩
    rw [List.reverse_cons, List.append_assoc, List.singleton_append]
  | case6 unit rest behind hhigh hlow ih =>
    obtain ⟨more, rfl, hmore⟩ := ih h
    have hunit : unit.toNat < 0xD800 ∨ 0xDFFF < unit.toNat := by
      rw [isHighSurrogate_iff] at hhigh
      rw [isLowSurrogate_iff] at hlow
      omega
    refine ⟨.ofNat unit.toNat :: more, ?_, .single hunit (toNat_ofNat_unit hunit) hmore⟩
    rw [List.reverse_cons, List.append_assoc, List.singleton_append]
  | _ => cases h

/-! ### Texts and refusals -/

theorem decode_of_grouped (h : Grouped bytes units) :
    decode bytes = match charactersAfter units [] with
      | some characters => .ok (String.ofList characters)
      | none => .error .unpairedSurrogate := by
  rw [decode_eq_decodeUnits, decodeUnits, unitsAfter_of_grouped h]
  rfl

theorem decode_of_broken (h : Broken bytes reason) : decode bytes = .error reason := by
  rw [decode_eq_decodeUnits, decodeUnits, unitsAfter_broken h]
  rfl

theorem decode_of_spells {text : String} (h : Spells bytes text) : decode bytes = .ok text := by
  obtain ⟨units, hgrouped, hpaired⟩ := h
  rw [decode_of_grouped hgrouped, charactersAfter_paired hpaired]
  show Except.ok (String.ofList text.toList) = _
  rw [String.ofList_toList]

theorem decode_of_refused (h : Refused bytes reason) : decode bytes = .error reason := by
  cases h with
  | broken h => exact decode_of_broken h
  | @unpaired units hgrouped hpaired =>
    rw [decode_of_grouped hgrouped]
    cases hread : charactersAfter units [] with
    | none => rfl
    | some characters =>
      obtain ⟨more, -, hmore⟩ := exists_paired_of_charactersAfter hread
      exact absurd hmore (hpaired more)

/-- There are no bytes besides those that spell a text and those that are refused. -/
theorem exists_spells_or_refused (bytes : List UInt8) :
    (∃ text, Spells bytes text) ∨ ∃ reason, Refused bytes reason := by
  obtain ⟨units, hgrouped⟩ | ⟨reason, hbroken⟩ := groupedOrBroken bytes
  · by_cases hpaired : ∃ characters, Paired units characters
    · obtain ⟨characters, hpaired⟩ := hpaired
      refine .inl ⟨String.ofList characters, units, hgrouped, ?_⟩
      rwa [String.toList_ofList]
    · exact .inr ⟨_, .unpaired hgrouped fun characters h => hpaired ⟨characters, h⟩⟩
  · exact .inr ⟨reason, .broken hbroken⟩

/-- **The language.** The bytes that are decoded are those that split into groups whose units come
    in pairs where they are surrogates, and they are decoded to the text that the units make.  All
    others are refused, for the first thing that is wrong with them.  Plain ASCII is no
    exception. -/
theorem decode_eq_iff (bytes : List UInt8) :
    (∀ text, decode bytes = .ok text ↔ Spells bytes text)
      ∧ (∀ reason, decode bytes = .error reason ↔ Refused bytes reason)
      ∧ ((∃ reason, decode bytes = .error reason) ↔ ¬∃ text, Spells bytes text)
      ∧ decode bytes = decodeUnits bytes := by
  refine ⟨fun text => ⟨fun h => ?text, decode_of_spells⟩,
    fun reason => ⟨fun h => ?reason, decode_of_refused⟩,
    ⟨fun ⟨reason, h⟩ => ?refused, fun h => ?other⟩, decode_eq_decodeUnits bytes⟩
  case text =>
    obtain ⟨text', hspells⟩ | ⟨reason, hrefused⟩ := exists_spells_or_refused bytes
    · rw [decode_of_spells hspells] at h
      cases h
      exact hspells
    · rw [decode_of_refused hrefused] at h
      cases h
  case reason =>
    obtain ⟨text, hspells⟩ | ⟨reason', hrefused⟩ := exists_spells_or_refused bytes
    · rw [decode_of_spells hspells] at h
      cases h
    · rw [decode_of_refused hrefused] at h
      cases h
      exact hrefused
  case refused =>
    rintro ⟨text, hspells⟩
    rw [decode_of_spells hspells] at h
    cases h
  case other =>
    obtain hspells | ⟨reason, hrefused⟩ := exists_spells_or_refused bytes
    · exact absurd hspells h
    · exact ⟨reason, decode_of_refused hrefused⟩

/-- A letter in two bytes, which it does not need. -/
example : decode [0xC1, 0x81] = .ok "A" := by decide

end ClassAtlas.ModifiedUtf8
