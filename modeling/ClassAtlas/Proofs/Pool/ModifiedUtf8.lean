import ClassAtlas.Pool.ModifiedUtf8
import Mathlib

namespace ClassAtlas.ModifiedUtf8

/-!
# Writing modified UTF-8

Every text has a form in modified UTF-8 that is read back as the text, and this is the only form of
the text in which no unit takes more bytes than it has to.

* `encodeUnit`, `unitsOfChar`, `encode` — the bytes of a unit, the units of a character, the bytes
  of a text;
* `toNat_unitOfTwo`, `toNat_unitOfThree` — the numbers of the units that bytes spell;
* `unitsAfter_flatMap_encodeUnit`, `charactersAfter_flatMap_unitsOfChar` — units and characters are
  read back;
* `decode_eq_decodeUnits` — the short way for plain ASCII is only that;
* `decode_encode` — texts are read back;
* `flatMap_unitsOfChar_of_charactersAfter` — characters that were read have the units they were read
  from;
* `decode_eq_ok_and_inShortestForm_iff` — shortest forms and texts are the same.
-/

/-! ### Writing -/

/-- The bytes of a unit, as few as can be.  The number 0 is written as if it were large. -/
def encodeUnit (unit : UInt16) : List UInt8 :=
  if 0x01 ≤ unit.toNat ∧ unit.toNat ≤ 0x7F then [.ofNat unit.toNat]
  else if unit.toNat ≤ 0x7FF then
    [.ofNat (0xC0 + unit.toNat / 64), .ofNat (0x80 + unit.toNat % 64)]
  else
    [.ofNat (0xE0 + unit.toNat / 4096), .ofNat (0x80 + unit.toNat / 64 % 64),
      .ofNat (0x80 + unit.toNat % 64)]

/-- The units of a character: itself, or its two surrogates if it is outside the basic plane. -/
def unitsOfChar (c : Char) : List UInt16 :=
  if c.toNat < 0x10000 then [.ofNat c.toNat]
  else
    [.ofNat (0xD800 + (c.toNat - 0x10000) / 0x400), .ofNat (0xDC00 + (c.toNat - 0x10000) % 0x400)]

/-- The bytes of a text. -/
def encode (text : String) : List UInt8 := (text.toList.flatMap unitsOfChar).flatMap encodeUnit

/-! ### Bits as numbers -/

theorem isContinuation_iff (byte : UInt8) : isContinuation byte = true ↔ byte.toNat / 64 = 2 := by
  have hall : ∀ n < 256, n &&& 0xC0 = 0x80 ↔ n / 64 = 2 := by decide +kernel
  rw [isContinuation, decide_eq_true_eq, ← UInt8.toNat_inj, UInt8.toNat_and]
  exact hall _ byte.toNat_lt

theorem toNat_payload (byte : UInt8) : (payload byte).toNat = byte.toNat % 64 := by
  rw [payload, UInt8.toNat_toUInt16, UInt8.toNat_and]
  exact Nat.and_two_pow_sub_one_eq_mod byte.toNat 6

theorem toNat_unitOfTwo (lead low : UInt8) :
    (unitOfTwo lead low).toNat = lead.toNat % 32 * 64 + low.toNat % 64 := by
  have hlead : lead.toNat &&& 0x1F = lead.toNat % 32 := Nat.and_two_pow_sub_one_eq_mod _ 5
  have hlow : low.toNat % 64 < 2 ^ 6 := Nat.mod_lt _ (by decide)
  have hor := Nat.shiftLeft_add_eq_or_of_lt hlow (lead.toNat % 32)
  have hshift : (lead.toNat % 32) <<< 6 = lead.toNat % 32 * 64 := Nat.shiftLeft_eq ..
  rw [unitOfTwo, UInt16.toNat_or, UInt16.toNat_shiftLeft, UInt8.toNat_toUInt16, UInt8.toNat_and,
    toNat_payload]
  show (lead.toNat &&& 0x1F) <<< 6 % 2 ^ 16 ||| _ = _
  have hshift_lt : (lead.toNat % 32) <<< 6 < 2 ^ 16 := by omega
  rw [hlead, Nat.mod_eq_of_lt hshift_lt, ← hor, hshift]

theorem toNat_unitOfThree (lead middle low : UInt8) :
    (unitOfThree lead middle low).toNat
      = lead.toNat % 16 * 4096 + middle.toNat % 64 * 64 + low.toNat % 64 := by
  have hlead : lead.toNat &&& 0x0F = lead.toNat % 16 := Nat.and_two_pow_sub_one_eq_mod _ 4
  have hlow : low.toNat % 64 < 2 ^ 6 := Nat.mod_lt _ (by decide)
  have hmiddle : (middle.toNat % 64) <<< 6 = middle.toNat % 64 * 64 := Nat.shiftLeft_eq ..
  have hhigh : (lead.toNat % 16) <<< 12 = lead.toNat % 16 * 4096 := Nat.shiftLeft_eq ..
  have hmiddle_lt : (middle.toNat % 64) <<< 6 < 2 ^ 12 := by omega
  have hor := Nat.shiftLeft_add_eq_or_of_lt hmiddle_lt (lead.toNat % 16)
  have hor' := Nat.shiftLeft_add_eq_or_of_lt hlow (lead.toNat % 16 * 64 + middle.toNat % 64)
  have hboth : (lead.toNat % 16 * 64 + middle.toNat % 64) <<< 6
      = lead.toNat % 16 * 4096 + middle.toNat % 64 * 64 := by
    rw [Nat.shiftLeft_eq]
    omega
  rw [unitOfThree, UInt16.toNat_or, UInt16.toNat_or, UInt16.toNat_shiftLeft,
    UInt16.toNat_shiftLeft, UInt8.toNat_toUInt16, UInt8.toNat_and, toNat_payload, toNat_payload]
  show (lead.toNat &&& 0x0F) <<< 12 % 2 ^ 16 ||| (middle.toNat % 64) <<< 6 % 2 ^ 16 ||| _ = _
  have hhigh_lt : (lead.toNat % 16) <<< 12 < 2 ^ 16 := by omega
  have hmiddle_lt' : (middle.toNat % 64) <<< 6 < 2 ^ 16 := by omega
  rw [hlead, Nat.mod_eq_of_lt hhigh_lt, Nat.mod_eq_of_lt hmiddle_lt', ← hor, hhigh, hmiddle,
    ← hboth, ← hor']

/-! ### Reading units back -/

variable {offset : Nat} {rest : List UInt8} {read : List UInt16}

theorem unitsAfter_one {lead : UInt8} (hlead : 0x01 ≤ lead.toNat ∧ lead.toNat ≤ 0x7F) :
    unitsAfter offset (lead :: rest) read
      = unitsAfter (offset + 1) rest (lead.toUInt16 :: read) := by
  have hone : 0x01 ≤ lead ∧ lead ≤ 0x7F := hlead
  rw [unitsAfter.eq_def]
  dsimp only
  rw [if_pos hone]

theorem unitsAfter_two {lead low : UInt8} (hlead : 0xC0 ≤ lead.toNat ∧ lead.toNat ≤ 0xDF)
    (hlow : isContinuation low = true) :
    unitsAfter offset (lead :: low :: rest) read
      = unitsAfter (offset + 2) rest (unitOfTwo lead low :: read) := by
  have hone : ¬(0x01 ≤ lead ∧ lead ≤ 0x7F) := by
    rintro ⟨-, hle⟩
    have hle : lead.toNat ≤ 0x7F := hle
    omega
  have htwo : 0xC0 ≤ lead ∧ lead ≤ 0xDF := hlead
  rw [unitsAfter.eq_def]
  dsimp only
  rw [if_neg hone, if_pos htwo, if_pos hlow]

theorem unitsAfter_three {lead middle low : UInt8}
    (hlead : 0xE0 ≤ lead.toNat ∧ lead.toNat ≤ 0xEF) (hmiddle : isContinuation middle = true)
    (hlow : isContinuation low = true) :
    unitsAfter offset (lead :: middle :: low :: rest) read
      = unitsAfter (offset + 3) rest (unitOfThree lead middle low :: read) := by
  have hone : ¬(0x01 ≤ lead ∧ lead ≤ 0x7F) := by
    rintro ⟨-, hle⟩
    have hle : lead.toNat ≤ 0x7F := hle
    omega
  have htwo : ¬(0xC0 ≤ lead ∧ lead ≤ 0xDF) := by
    rintro ⟨-, hle⟩
    have hle : lead.toNat ≤ 0xDF := hle
    omega
  have hthree : 0xE0 ≤ lead ∧ lead ≤ 0xEF := hlead
  rw [unitsAfter.eq_def]
  dsimp only
  rw [if_neg hone, if_neg htwo, if_pos hthree, if_pos hmiddle, if_pos hlow]

/-- The bytes of a unit are read as the unit. -/
theorem unitsAfter_encodeUnit (unit : UInt16) :
    unitsAfter offset (encodeUnit unit ++ rest) read
      = unitsAfter (offset + (encodeUnit unit).length) rest (unit :: read) := by
  have hunit := unit.toNat_lt
  have hbyte : ∀ n < 256, (UInt8.ofNat n).toNat = n := fun n hn => UInt8.toNat_ofNat_of_lt' hn
  have hcontinues : ∀ n < 64, isContinuation (.ofNat (0x80 + n)) = true := by
    intro n hn
    rw [isContinuation_iff, hbyte _ (by omega)]
    omega
  unfold encodeUnit
  split
  case isTrue hone =>
    have hlead := hbyte unit.toNat (by omega)
    have hsame : (UInt8.ofNat unit.toNat).toUInt16 = unit := by
      rw [← UInt16.toNat_inj, UInt8.toNat_toUInt16, hlead]
    rw [List.singleton_append, unitsAfter_one (by rwa [hlead]), hsame]
    rfl
  case isFalse hone =>
    split
    case isTrue htwo =>
      have hlead := hbyte (0xC0 + unit.toNat / 64) (by omega)
      have hlow := hbyte (0x80 + unit.toNat % 64) (by omega)
      have hsame : unitOfTwo (.ofNat (0xC0 + unit.toNat / 64)) (.ofNat (0x80 + unit.toNat % 64))
          = unit := by
        rw [← UInt16.toNat_inj, toNat_unitOfTwo, hlead, hlow]
        omega
      rw [List.cons_append, List.singleton_append,
        unitsAfter_two (by omega) (hcontinues _ (by omega)), hsame]
      rfl
    case isFalse htwo =>
      have hlead := hbyte (0xE0 + unit.toNat / 4096) (by omega)
      have hmiddle := hbyte (0x80 + unit.toNat / 64 % 64) (by omega)
      have hlow := hbyte (0x80 + unit.toNat % 64) (by omega)
      have hsame : unitOfThree (.ofNat (0xE0 + unit.toNat / 4096))
          (.ofNat (0x80 + unit.toNat / 64 % 64)) (.ofNat (0x80 + unit.toNat % 64)) = unit := by
        rw [← UInt16.toNat_inj, toNat_unitOfThree, hlead, hmiddle, hlow]
        omega
      rw [List.cons_append, List.cons_append, List.singleton_append,
        unitsAfter_three (by omega) (hcontinues _ (by omega)) (hcontinues _ (by omega)), hsame]
      rfl

theorem unitsAfter_flatMap_encodeUnit (units : List UInt16) :
    unitsAfter offset (units.flatMap encodeUnit) read = .ok (read.reverse ++ units) := by
  induction units generalizing offset read with
  | nil =>
    rw [List.append_nil]
    rfl
  | cons unit units ih =>
    rw [List.flatMap_cons, unitsAfter_encodeUnit, ih, List.reverse_cons, List.append_assoc,
      List.singleton_append]

/-! ### Reading characters back -/

variable {units : List UInt16} {behind : List Char}

theorem isHighSurrogate_iff (unit : UInt16) :
    isHighSurrogate unit = true ↔ 0xD800 ≤ unit.toNat ∧ unit.toNat ≤ 0xDBFF := by
  rw [isHighSurrogate, Bool.and_eq_true, decide_eq_true_eq, decide_eq_true_eq]
  exact Iff.rfl

theorem isLowSurrogate_iff (unit : UInt16) :
    isLowSurrogate unit = true ↔ 0xDC00 ≤ unit.toNat ∧ unit.toNat ≤ 0xDFFF := by
  rw [isLowSurrogate, Bool.and_eq_true, decide_eq_true_eq, decide_eq_true_eq]
  exact Iff.rfl

theorem charactersAfter_single {unit : UInt16}
    (hunit : unit.toNat < 0xD800 ∨ 0xDFFF < unit.toNat) :
    charactersAfter (unit :: units) behind
      = charactersAfter units (.ofNat unit.toNat :: behind) := by
  have hhigh : ¬isHighSurrogate unit = true := by
    rw [isHighSurrogate_iff]
    omega
  have hlow : ¬isLowSurrogate unit = true := by
    rw [isLowSurrogate_iff]
    omega
  rw [charactersAfter.eq_def]
  dsimp only
  rw [if_neg hhigh, if_neg hlow]

theorem charactersAfter_pair {high low : UInt16} (hhigh : isHighSurrogate high = true)
    (hlow : isLowSurrogate low = true) :
    charactersAfter (high :: low :: units) behind
      = charactersAfter units (joinSurrogates high low :: behind) := by
  rw [charactersAfter.eq_def]
  dsimp only
  rw [if_pos hhigh, if_pos hlow]

/-- The units of a character are read as the character. -/
theorem charactersAfter_unitsOfChar (c : Char) :
    charactersAfter (unitsOfChar c ++ units) behind = charactersAfter units (c :: behind) := by
  have hvalid : c.toNat < 0xD800 ∨ 0xDFFF < c.toNat ∧ c.toNat < 0x110000 := c.valid
  have hunit : ∀ n < 65536, (UInt16.ofNat n).toNat = n := fun n hn => UInt16.toNat_ofNat_of_lt' hn
  unfold unitsOfChar
  split
  case isTrue hbasic =>
    have hsame := hunit c.toNat hbasic
    rw [List.singleton_append, charactersAfter_single (by omega), hsame, Char.ofNat_toNat]
  case isFalse hwide =>
    have hhigh := hunit (0xD800 + (c.toNat - 0x10000) / 0x400) (by omega)
    have hlow := hunit (0xDC00 + (c.toNat - 0x10000) % 0x400) (by omega)
    rw [List.cons_append, List.singleton_append, charactersAfter_pair]
    · have hsame : 0x10000 + (0xD800 + (c.toNat - 0x10000) / 0x400 - 0xD800) * 0x400
          + (0xDC00 + (c.toNat - 0x10000) % 0x400 - 0xDC00) = c.toNat := by
        omega
      rw [joinSurrogates, hhigh, hlow, hsame, Char.ofNat_toNat]
    · rw [isHighSurrogate_iff, hhigh]
      omega
    · rw [isLowSurrogate_iff, hlow]
      omega

theorem charactersAfter_flatMap_unitsOfChar (characters : List Char) :
    charactersAfter (characters.flatMap unitsOfChar) behind
      = some (behind.reverse ++ characters) := by
  induction characters generalizing behind with
  | nil =>
    rw [List.append_nil]
    rfl
  | cons c characters ih =>
    rw [List.flatMap_cons, charactersAfter_unitsOfChar, ih, List.reverse_cons, List.append_assoc,
      List.singleton_append]

/-! ### Texts -/

theorem isPlain_iff (byte : UInt8) :
    isPlain byte = true ↔ 0x01 ≤ byte.toNat ∧ byte.toNat ≤ 0x7F := by
  rw [isPlain, Bool.and_eq_true, decide_eq_true_eq, decide_eq_true_eq, Ne, ← UInt8.toNat_inj,
    UInt8.lt_iff_toNat_lt]
  show byte.toNat ≠ 0 ∧ byte.toNat < 0x80 ↔ _
  omega

theorem unitsAfter_of_plain {bytes : List UInt8} (hplain : bytes.all isPlain = true) :
    unitsAfter offset bytes read = .ok (read.reverse ++ bytes.map UInt8.toUInt16) := by
  induction bytes generalizing offset read with
  | nil =>
    rw [List.map_nil, List.append_nil]
    rfl
  | cons lead rest ih =>
    rw [List.all_cons, Bool.and_eq_true, isPlain_iff] at hplain
    rw [unitsAfter_one hplain.1, ih hplain.2, List.reverse_cons, List.append_assoc,
      List.singleton_append, List.map_cons]

theorem charactersAfter_of_plain {bytes : List UInt8} (hplain : bytes.all isPlain = true) :
    charactersAfter (bytes.map UInt8.toUInt16) behind
      = some (behind.reverse ++ bytes.map Text.latin1) := by
  induction bytes generalizing behind with
  | nil =>
    rw [List.map_nil, List.map_nil, List.append_nil]
    rfl
  | cons byte rest ih =>
    rw [List.all_cons, Bool.and_eq_true, isPlain_iff] at hplain
    have hnumber := UInt8.toNat_toUInt16 byte
    have hsame : Char.ofNat byte.toNat = Text.latin1 byte := Char.ofNat_toNat (Text.latin1 byte)
    rw [List.map_cons, charactersAfter_single (by omega), ih hplain.2, hnumber, hsame,
      List.reverse_cons, List.append_assoc, List.singleton_append, List.map_cons]

/-- Plain ASCII is read as it would be by way of the units. -/
theorem decode_eq_decodeUnits (bytes : List UInt8) : decode bytes = decodeUnits bytes := by
  unfold decode
  split
  case isTrue hplain =>
    rw [decodeUnits, unitsAfter_of_plain hplain, List.reverse_nil, List.nil_append]
    dsimp only [bind, Except.bind]
    rw [charactersAfter_of_plain hplain]
    rfl
  case isFalse => rfl

/-- **Texts are read back.** The bytes of a text spell the text. -/
theorem decode_encode (text : String) : decode (encode text) = .ok text := by
  rw [decode_eq_decodeUnits, decodeUnits, encode, unitsAfter_flatMap_encodeUnit,
    List.reverse_nil, List.nil_append]
  dsimp only [bind, Except.bind]
  rw [charactersAfter_flatMap_unitsOfChar]
  show Except.ok (String.ofList text.toList) = _
  rw [String.ofList_toList]

/-! ### Shortest forms -/

/-- The bytes are those of some units, each written with as few bytes as can be. -/
def InShortestForm (bytes : List UInt8) : Prop :=
  ∃ units : List UInt16, bytes = units.flatMap encodeUnit

theorem toNat_ofNat_unit {unit : UInt16} (hunit : unit.toNat < 0xD800 ∨ 0xDFFF < unit.toNat) :
    (Char.ofNat unit.toNat).toNat = unit.toNat := by
  have hlt := unit.toNat_lt
  have hvalid : unit.toNat.isValidChar := by
    unfold Nat.isValidChar
    omega
  rw [Char.toNat_ofNat, if_pos hvalid]

theorem toNat_joinSurrogates {high low : UInt16} (hhigh : isHighSurrogate high = true)
    (hlow : isLowSurrogate low = true) :
    (joinSurrogates high low).toNat
      = 0x10000 + (high.toNat - 0xD800) * 0x400 + (low.toNat - 0xDC00) := by
  rw [isHighSurrogate_iff] at hhigh
  rw [isLowSurrogate_iff] at hlow
  have hvalid : (0x10000 + (high.toNat - 0xD800) * 0x400 + (low.toNat - 0xDC00)).isValidChar := by
    unfold Nat.isValidChar
    omega
  rw [joinSurrogates, Char.toNat_ofNat, if_pos hvalid]

theorem unitsOfChar_ofNat {unit : UInt16} (hunit : unit.toNat < 0xD800 ∨ 0xDFFF < unit.toNat) :
    unitsOfChar (.ofNat unit.toNat) = [unit] := by
  rw [unitsOfChar, toNat_ofNat_unit hunit, if_pos unit.toNat_lt, UInt16.ofNat_toNat]

theorem unitsOfChar_joinSurrogates {high low : UInt16} (hhigh : isHighSurrogate high = true)
    (hlow : isLowSurrogate low = true) : unitsOfChar (joinSurrogates high low) = [high, low] := by
  have hchar := toNat_joinSurrogates hhigh hlow
  rw [isHighSurrogate_iff] at hhigh
  rw [isLowSurrogate_iff] at hlow
  have hwide : ¬(joinSurrogates high low).toNat < 0x10000 := by omega
  have hfirst : 0xD800 + ((joinSurrogates high low).toNat - 0x10000) / 0x400 = high.toNat := by
    omega
  have hsecond : 0xDC00 + ((joinSurrogates high low).toNat - 0x10000) % 0x400 = low.toNat := by
    omega
  rw [unitsOfChar, if_neg hwide, hfirst, hsecond, UInt16.ofNat_toNat, UInt16.ofNat_toNat]

/-- Characters that were read behind others have the units they were read from. -/
theorem flatMap_unitsOfChar_of_charactersAfter {characters : List Char}
    (h : charactersAfter units behind = some characters) :
    characters.flatMap unitsOfChar = behind.reverse.flatMap unitsOfChar ++ units := by
  fun_induction charactersAfter units behind with
  | case1 behind =>
    cases h
    rw [List.append_nil]
  | case3 high behind hhigh low rest hlow ih =>
    rw [ih h, List.reverse_cons, List.flatMap_append, List.flatMap_singleton,
      unitsOfChar_joinSurrogates hhigh hlow, List.append_assoc]
    rfl
  | case6 unit rest behind hhigh hlow ih =>
    have hsingle : unit.toNat < 0xD800 ∨ 0xDFFF < unit.toNat := by
      rw [isHighSurrogate_iff] at hhigh
      rw [isLowSurrogate_iff] at hlow
      omega
    rw [ih h, List.reverse_cons, List.flatMap_append, List.flatMap_singleton,
      unitsOfChar_ofNat hsingle, List.append_assoc]
    rfl
  | _ => cases h

/-- **Shortest forms and texts are the same.** Some bytes spell a text and take no more bytes for a
    unit than it needs, exactly if they are the bytes of the text. -/
theorem decode_eq_ok_and_inShortestForm_iff (bytes : List UInt8) (text : String) :
    decode bytes = .ok text ∧ InShortestForm bytes ↔ bytes = encode text := by
  constructor
  · rintro ⟨hdecode, units, rfl⟩
    rw [decode_eq_decodeUnits, decodeUnits, unitsAfter_flatMap_encodeUnit, List.reverse_nil,
      List.nil_append] at hdecode
    dsimp only [bind, Except.bind] at hdecode
    -- The units are at hand, so only their characters are still to be read.
    split at hdecode
    case h_1 characters hcharacters =>
      cases hdecode
      have hunits := flatMap_unitsOfChar_of_charactersAfter hcharacters
      rw [List.reverse_nil, List.flatMap_nil, List.nil_append] at hunits
      rw [encode, String.toList_ofList, hunits]
    case h_2 => cases hdecode
  · rintro rfl
    exact ⟨decode_encode text, _, rfl⟩

end ClassAtlas.ModifiedUtf8
