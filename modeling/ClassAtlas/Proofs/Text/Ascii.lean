import ClassAtlas.Text.ClassName
import ClassAtlas.Text.Bytes
import Mathlib

namespace ClassAtlas.Text

/-!
# ASCII characters among the bytes of a text

A signature is taken apart at ASCII characters, byte by byte.  This is sound because the bytes of
every other character are outside of ASCII:

* `utf8_append`, `utf8_ofList` — the bytes of a text are those of its characters;
* `utf8_of_ofUtf8?` — the converse of `ofUtf8?_utf8`;
* `exists_latin1_iff` — an ASCII character is among the bytes iff it is in the text;
* `head_utf8` — the same of the first byte and the first character;
* `dotted_internal` — the converse of `internal_dotted`.
-/

/-! ### The bytes of the characters -/

/-- The bytes of a text are the bytes of its characters. -/
theorem utf8_ofList (characters : List Char) :
    utf8 (String.ofList characters) = characters.flatMap String.utf8EncodeChar := by
  simp [utf8, List.utf8Encode, List.data_toByteArray]

theorem utf8_eq_flatMap (text : String) :
    utf8 text = text.toList.flatMap String.utf8EncodeChar := by
  rw [← utf8_ofList, String.ofList_toList]

@[simp] theorem utf8_append (text more : String) :
    utf8 (text ++ more) = utf8 text ++ utf8 more := by
  simp [utf8_eq_flatMap]

@[simp] theorem utf8_empty : utf8 "" = [] := rfl

theorem utf8_join (texts : List String) :
    utf8 (String.join texts) = texts.flatMap utf8 := by
  induction texts with
  | nil => rfl
  | cons text rest ih => rw [String.join_cons, utf8_append, ih, List.flatMap_cons]

theorem utf8_eq_nil_iff (text : String) : utf8 text = [] ↔ text = "" := by
  constructor
  · intro h
    rw [utf8_eq_flatMap, List.flatMap_eq_nil_iff] at h
    rw [← String.toList_eq_nil_iff, List.eq_nil_iff_forall_not_mem]
    exact fun c hc => String.utf8EncodeChar_ne_nil (h c hc)
  · rintro rfl
    rfl

/-- The bytes say which text they are of. -/
theorem utf8_injective : Function.Injective utf8 := by
  intro text other h
  have hback := ofUtf8?_utf8 other
  rw [← h, ofUtf8?_utf8, Option.some.injEq] at hback
  exact hback

/-- Bytes that spell a text are the bytes of that text. -/
theorem utf8_of_ofUtf8? {bytes : List UInt8} {text : String} (h : ofUtf8? bytes = some text) :
    utf8 text = bytes := by
  unfold ofUtf8? String.fromUTF8? at h
  split at h
  · rw [Option.some.injEq] at h
    rw [← h]
    simp [utf8, String.fromUTF8]
  · exact absurd h (by simp)

/-! ### ASCII -/

/-- An ASCII character is a single byte. -/
theorem utf8EncodeChar_of_ascii {c : Char} (ascii : c.toNat < 128) :
    String.utf8EncodeChar c = [.ofNat c.toNat] := by
  have h : c.val.toNat ≤ 0x7f := by
    show c.toNat ≤ 127
    omega
  rw [String.utf8EncodeChar, if_pos h]
  rfl

/-- The bytes of any other character are outside of ASCII. -/
theorem le_of_mem_utf8EncodeChar {c : Char} (wide : 128 ≤ c.toNat) {byte : UInt8}
    (h : byte ∈ String.utf8EncodeChar c) : 128 ≤ byte.toNat := by
  have hc : ¬ c.val.toNat ≤ 0x7f := by
    show ¬ c.toNat ≤ 127
    omega
  rw [String.utf8EncodeChar, if_neg hc] at h
  -- Two, three or four bytes, each of which has its highest bit set.
  split at h
  · simp only [List.mem_cons, List.not_mem_nil, or_false] at h
    rcases h with rfl | rfl <;> rw [UInt8.toNat_ofNat'] <;> omega
  · split at h
    · simp only [List.mem_cons, List.not_mem_nil, or_false] at h
      rcases h with rfl | rfl | rfl <;> rw [UInt8.toNat_ofNat'] <;> omega
    · simp only [List.mem_cons, List.not_mem_nil, or_false] at h
      rcases h with rfl | rfl | rfl | rfl <;> rw [UInt8.toNat_ofNat'] <;> omega

@[simp] theorem toNat_latin1 (byte : UInt8) : (latin1 byte).toNat = byte.toNat := by
  simp [latin1, Char.ofUInt8, Char.toNat]

/-- The byte of an ASCII character is shown as that character. -/
theorem latin1_ofNat {c : Char} (ascii : c.toNat < 128) : latin1 (.ofNat c.toNat) = c := by
  apply Char.toNat_inj.mp
  rw [toNat_latin1, UInt8.toNat_ofNat']
  omega

/-- A byte shown as an ASCII character is the byte of that character. -/
theorem eq_of_latin1 {byte : UInt8} {c : Char} (h : latin1 byte = c) : byte = .ofNat c.toNat := by
  rw [← h, toNat_latin1, UInt8.ofNat_toNat]

/-- Of the bytes of one character, only that of an ASCII character is shown as one. -/
theorem latin1_of_mem_utf8EncodeChar {c shown : Char} {byte : UInt8} (ascii : shown.toNat < 128)
    (h : byte ∈ String.utf8EncodeChar c) : latin1 byte = shown ↔ c = shown := by
  by_cases hc : c.toNat < 128
  · rw [utf8EncodeChar_of_ascii hc, List.mem_singleton] at h
    rw [h, latin1_ofNat hc]
  · -- Neither the byte nor the character is in ASCII, where `shown` is.
    have hbyte := le_of_mem_utf8EncodeChar (by omega) h
    constructor
    · intro heq
      have hshown := toNat_latin1 byte
      rw [heq] at hshown
      omega
    · rintro rfl
      omega

/-- **ASCII search.** An ASCII character is among the bytes of a text iff it is in the text. -/
theorem exists_latin1_iff (text : String) {c : Char} (ascii : c.toNat < 128) :
    (∃ byte ∈ utf8 text, latin1 byte = c) ↔ c ∈ text.toList := by
  rw [utf8_eq_flatMap]
  constructor
  · rintro ⟨byte, hbyte, hlatin⟩
    -- The byte belongs to some character, which has to be the one it is shown as.
    obtain ⟨d, hd, hmem⟩ := List.mem_flatMap.mp hbyte
    rw [latin1_of_mem_utf8EncodeChar ascii hmem] at hlatin
    exact hlatin ▸ hd
  · intro hc
    refine ⟨.ofNat c.toNat, ?_, latin1_ofNat ascii⟩
    rw [List.mem_flatMap]
    exact ⟨c, hc, by simp [utf8EncodeChar_of_ascii ascii]⟩

/-- The first byte is shown as an ASCII character iff that is the first character. -/
theorem head_utf8 {text : String} {byte : UInt8} (h : (utf8 text).head? = some byte) {c : Char}
    (ascii : c.toNat < 128) : latin1 byte = c ↔ text.toList.head? = some c := by
  rw [utf8_eq_flatMap] at h
  cases hcs : text.toList with
  | nil => simp [hcs] at h
  | cons d ds =>
    rw [hcs, List.flatMap_cons, List.head?_append_of_ne_nil _ String.utf8EncodeChar_ne_nil] at h
    rw [latin1_of_mem_utf8EncodeChar ascii (List.mem_of_mem_head? h)]
    simp

theorem utf8_toString {c : Char} (ascii : c.toNat < 128) :
    utf8 c.toString = [.ofNat c.toNat] := by
  rw [utf8_eq_flatMap, Char.toString_eq_singleton, String.toList_singleton]
  simp [utf8EncodeChar_of_ascii ascii]

/-- The bytes of ASCII characters, one each. -/
theorem utf8_replicate {c : Char} (ascii : c.toNat < 128) (n : Nat) :
    utf8 (String.ofList (List.replicate n c)) = List.replicate n (.ofNat c.toNat) := by
  rw [utf8_ofList, List.flatMap_replicate, utf8EncodeChar_of_ascii ascii]
  simp

/-! ### Between the spellings of a class name -/

theorem toList_replaceChar (old new : Char) (text : String) :
    (replaceChar old new text).toList = text.toList.map fun c => if c = old then new else c := by
  simp [replaceChar]

/-- A binary name without slashes comes back from its internal spelling. -/
theorem dotted_internal {name : String} (fresh : '/' ∉ name.toList) :
    dotted (internal name) = name :=
  replaceChar_replaceChar fresh

/-- The new character apart, a character is in the replaced text iff it was there before and is
    not the old one. -/
theorem mem_replaceChar {old new c : Char} {text : String} (other : c ≠ new) :
    c ∈ (replaceChar old new text).toList ↔ c ∈ text.toList ∧ c ≠ old := by
  rw [toList_replaceChar, List.mem_map]
  constructor
  · rintro ⟨d, hd, hdc⟩
    split at hdc
    · exact absurd hdc.symm other
    · rename_i hdold
      exact ⟨hdc ▸ hd, hdc ▸ hdold⟩
  · rintro ⟨hc, hold⟩
    exact ⟨c, hc, if_neg hold⟩

theorem replaceChar_eq_empty_iff {old new : Char} {text : String} :
    replaceChar old new text = "" ↔ text = "" := by
  rw [← String.toList_eq_nil_iff, ← String.toList_eq_nil_iff, toList_replaceChar,
    List.map_eq_nil_iff]

end ClassAtlas.Text
