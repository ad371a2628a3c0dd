import ClassAtlas.Error

namespace ClassAtlas.ModifiedUtf8

/-!
# Modified UTF-8

Class files write text by its UTF-16 units, each unit in one, two or three bytes.  A zero byte
never occurs, and a character outside the basic plane is written as its two surrogates.

* `unitsAfter` — the units that some bytes spell;
* `charactersAfter` — the characters that some units spell, if the surrogates are paired;
* `decode` — the text of some bytes.
-/

/-! ### Bytes to units -/

/-- Whether a byte can follow a lead byte. -/
def isContinuation (byte : UInt8) : Bool := byte &&& 0xC0 = 0x80

/-- The six payload bits of a continuation byte. -/
def payload (byte : UInt8) : UInt16 := (byte &&& 0x3F).toUInt16

/-- The unit written as a lead byte and one continuation byte. -/
def unitOfTwo (lead low : UInt8) : UInt16 := (lead &&& 0x1F).toUInt16 <<< 6 ||| payload low

/-- The unit written as a lead byte and two continuation bytes. -/
def unitOfThree (lead middle low : UInt8) : UInt16 :=
  (lead &&& 0x0F).toUInt16 <<< 12 ||| payload middle <<< 6 ||| payload low

/-- The units of some bytes that start at an offset, behind the units already read, which are
    given last first.  The lead byte says how many bytes a unit has; forms longer than needed
    are accepted. -/
def unitsAfter : (offset : Nat) → List UInt8 → (read : List UInt16) →
    Except Malformation (List UInt16)
  | _, [], read => .ok read.reverse
  | offset, lead :: rest, read =>
    if 0x01 ≤ lead ∧ lead ≤ 0x7F then unitsAfter (offset + 1) rest (lead.toUInt16 :: read)
    else if 0xC0 ≤ lead ∧ lead ≤ 0xDF then
      match rest with
      | [] => .error .truncatedText
      | low :: rest =>
        if isContinuation low then unitsAfter (offset + 2) rest (unitOfTwo lead low :: read)
        else .error (.badTextContinuation low (offset + 1))
    else if 0xE0 ≤ lead ∧ lead ≤ 0xEF then
      match rest with
      | [] => .error .truncatedText
      | middle :: rest =>
        if isContinuation middle then
          match rest with
          | [] => .error .truncatedText
          | low :: rest =>
            if isContinuation low then
              unitsAfter (offset + 3) rest (unitOfThree lead middle low :: read)
            else .error (.badTextContinuation low (offset + 2))
        else .error (.badTextContinuation middle (offset + 1))
    else .error (.badTextLead lead offset)

/-! ### Units to characters -/

/-- Whether a unit is the first half of a character outside the basic plane. -/
def isHighSurrogate (unit : UInt16) : Bool := 0xD800 ≤ unit && unit ≤ 0xDBFF

/-- Whether a unit is the second half of a character outside the basic plane. -/
def isLowSurrogate (unit : UInt16) : Bool := 0xDC00 ≤ unit && unit ≤ 0xDFFF

/-- The character of two surrogates. -/
def joinSurrogates (high low : UInt16) : Char :=
  .ofNat (0x10000 + (high.toNat - 0xD800) * 0x400 + (low.toNat - 0xDC00))

/-- The characters of some units, behind those already read, which are given last first.  A
    surrogate without its other half spells nothing. -/
def charactersAfter : List UInt16 → (read : List Char) → Option (List Char)
  | [], read => some read.reverse
  | unit :: rest, read =>
    if isHighSurrogate unit then
      match rest with
      | [] => none
      | low :: rest =>
        if isLowSurrogate low then charactersAfter rest (joinSurrogates unit low :: read)
        else none
    else if isLowSurrogate unit then none
    else charactersAfter rest (.ofNat unit.toNat :: read)

/-! ### Text -/

/-- The text of some bytes, by way of the units. -/
def decodeUnits (bytes : List UInt8) : Except Malformation String := do
  let units ← unitsAfter 0 bytes []
  match charactersAfter units [] with
  | some characters => return String.ofList characters
  | none => throw .unpairedSurrogate

/-- Whether a byte is an ASCII character other than NUL, which stands for itself. -/
def isPlain (byte : UInt8) : Bool := byte ≠ 0 && byte < 0x80

/-- The text of some bytes.  Names are nearly always plain ASCII, which needs no units. -/
def decode (bytes : List UInt8) : Except Malformation String :=
  if bytes.all isPlain then .ok (String.ofList (bytes.map Text.latin1)) else decodeUnits bytes

end ClassAtlas.ModifiedUtf8
