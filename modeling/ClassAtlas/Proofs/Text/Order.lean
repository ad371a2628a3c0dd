import ClassAtlas.Proofs.Text.Ascii

namespace ClassAtlas.Text

/-!
# The order of texts and of their bytes

UTF-8 keeps the order of the characters: texts are in the same order as their bytes.

* `Precedes` — a list of bytes before another one, whatever follows them;
* `Ordered` — a spelling of numbers that keeps their order;
* `precedes_utf8EncodeChar` — the bytes of a smaller character;
* `utf8_lt_utf8_iff` — the bytes of a smaller text.
-/

/-! ### Bytes in order -/

/-- The bytes stand before the others, whatever follows either. -/
def Precedes (bytes others : List UInt8) : Prop := ∀ more rest, bytes ++ more < others ++ rest

/-- The first byte decides if it can. -/
theorem precedes_of_lt {byte other : UInt8} (h : byte.toNat < other.toNat)
    (bytes others : List UInt8) : Precedes (byte :: bytes) (other :: others) := by
  intro more rest
  rw [List.cons_append, List.cons_append, List.cons_lt_cons_iff]
  exact Or.inl h

/-- The bytes of the numbers below a bound, those of the smaller ones first. -/
def Ordered (spell : Nat → List UInt8) (bound : Nat) : Prop :=
  ∀ ⦃v w⦄, v < w → w < bound → Precedes (spell v) (spell w)

/-- A number below `size` on top of the mark of a first byte. -/
def leading (size mark v : Nat) : List UInt8 := [.ofNat (v % size + mark)]

/-- The six lowest bits of a number in a byte of their own, behind those of the other bits. -/
def trailing (spell : Nat → List UInt8) (v : Nat) : List UInt8 :=
  spell (v / 64) ++ [.ofNat (v % 64 + 128)]

theorem ordered_leading (size mark : Nat) (hmark : size + mark ≤ 256) :
    Ordered (leading size mark) size := by
  intro v w hlt hw
  apply precedes_of_lt
  rw [UInt8.toNat_ofNat', UInt8.toNat_ofNat', Nat.mod_eq_of_lt hw,
    Nat.mod_eq_of_lt (hlt.trans hw)]
  omega

/-- The lowest bits decide if the others agree. -/
theorem Ordered.trailing {spell : Nat → List UInt8} {bound : Nat} (h : Ordered spell bound) :
    Ordered (trailing spell) (64 * bound) := by
  intro v w hlt hw more rest
  show spell (v / 64) ++ [_] ++ more < spell (w / 64) ++ [_] ++ rest
  rw [List.append_assoc, List.append_assoc]
  by_cases hdiffer : v / 64 < w / 64
  · exact h hdiffer (by omega) _ _
  · have hsame : v / 64 = w / 64 := by omega
    rw [hsame]
    apply List.append_left_lt
    apply precedes_of_lt
    rw [UInt8.toNat_ofNat', UInt8.toNat_ofNat']
    omega

/-! ### Characters and texts -/

/-- The bytes of a smaller character come first. -/
theorem precedes_utf8EncodeChar {c d : Char} (h : c < d) :
    Precedes (String.utf8EncodeChar c) (String.utf8EncodeChar d) := by
  have hlt : c.val.toNat < d.val.toNat := h
  have hbound : d.val.toNat < 1114112 := by
    have hvalid := d.valid
    unfold UInt32.isValidChar Nat.isValidChar at hvalid
    omega
  have htwo := (ordered_leading 32 192 (by omega)).trailing hlt
  have hthree := (ordered_leading 16 224 (by omega)).trailing.trailing hlt
  have hfour := (ordered_leading 8 240 (by omega)).trailing.trailing.trailing hlt
  simp only [trailing, leading, Nat.div_div_eq_div_mul, List.cons_append, List.nil_append,
    Nat.reduceMul] at htwo hthree hfour
  unfold String.utf8EncodeChar
  dsimp only
  -- A larger character does not have fewer bytes.
  split_ifs <;> try omega
  -- Characters of different lengths, and those of one byte, differ in the first byte.
  any_goals
    apply precedes_of_lt
    rw [UInt8.toNat_ofNat', UInt8.toNat_ofNat']
    omega
  · exact htwo (by omega)
  · exact hthree (by omega)
  · exact hfour (by omega)

theorem flatMap_utf8EncodeChar_lt {cs ds : List Char} (h : cs < ds) :
    cs.flatMap String.utf8EncodeChar < ds.flatMap String.utf8EncodeChar := by
  induction cs generalizing ds with
  | nil =>
    cases ds with
    | nil => exact absurd h (List.not_lt_nil _)
    | cons d ds =>
      rw [List.flatMap_nil, List.flatMap_cons]
      cases hd : String.utf8EncodeChar d with
      | nil => exact absurd hd String.utf8EncodeChar_ne_nil
      | cons byte bytes => exact List.nil_lt_cons _ _
  | cons c cs ih =>
    cases ds with
    | nil => exact absurd h (List.not_lt_nil _)
    | cons d ds =>
      rw [List.flatMap_cons, List.flatMap_cons]
      rw [List.cons_lt_cons_iff] at h
      obtain hlt | ⟨rfl, hrest⟩ := h
      · exact precedes_utf8EncodeChar hlt _ _
      · exact List.append_left_lt (ih hrest)

theorem utf8_lt_utf8 {text other : String} (h : text < other) : utf8 text < utf8 other := by
  rw [utf8_eq_flatMap, utf8_eq_flatMap]
  exact flatMap_utf8EncodeChar_lt (String.lt_iff_toList_lt.mp h)

/-- **Order.** The bytes of two texts are in the order of the texts. -/
theorem utf8_lt_utf8_iff {text other : String} : utf8 text < utf8 other ↔ text < other := by
  refine ⟨fun h => ?_, utf8_lt_utf8⟩
  obtain hlt | rfl | hgt := lt_trichotomy text other
  · exact hlt
  · exact absurd h (List.lt_irrefl _)
  · exact absurd (List.lt_trans h (utf8_lt_utf8 hgt)) (List.lt_irrefl _)

end ClassAtlas.Text
