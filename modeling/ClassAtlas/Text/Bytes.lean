namespace ClassAtlas.Text

/-!
# Text as bytes, and bytes as text

A class file stores text as bytes; signatures are read byte by byte.  The two directions are

* `utf8` — the bytes of a text;
* `ofUtf8?` — the text that some bytes spell, if they are well formed;

and two ways of showing a single byte or number in a message:

* `latin1` — a byte as the character of the same number;
* `hex` — a number in capital hexadecimal digits, padded to a width.
-/

/-- The UTF-8 bytes of a text. -/
def utf8 (text : String) : List UInt8 := text.toUTF8.data.toList

/-- The text whose UTF-8 form the bytes are; `none` if they are not well formed. -/
def ofUtf8? (bytes : List UInt8) : Option String := String.fromUTF8? ⟨bytes.toArray⟩

/-- A byte shown as the character with the same number. -/
def latin1 (byte : UInt8) : Char := Char.ofUInt8 byte

/-- A number in hexadecimal capitals, with zeros in front up to `width` digits. -/
def hex (width n : Nat) : String :=
  let digits := (Nat.toDigits 16 n).map Char.toUpper
  String.ofList (List.replicate (width - digits.length) '0' ++ digits)

/-! ### Reading back -/

/-- The bytes of a text spell that text. -/
@[simp] theorem ofUtf8?_utf8 (text : String) : ofUtf8? (utf8 text) = some text := by
  have h : (⟨(utf8 text).toArray⟩ : ByteArray) = text.toByteArray := by
    simp [utf8, String.toUTF8]
  rw [ofUtf8?, h, String.fromUTF8?, dif_pos text.isValidUTF8]
  rfl

end ClassAtlas.Text
