namespace ClassAtlas.Text

/-!
# Escaped text

Character and string literals are shown so that every character is printable ASCII:

* `escapeChar` — one character;
* `escape` — every character of a text.
-/

/-- The characters with a short escape are tab, return, line feed, the two quotes and the
    backslash; the other printable ASCII characters stand for themselves, and everything else
    is written by its code point in hexadecimal. -/
def escapeChar (c : Char) : List Char :=
  if c = '\t' then ['\\', 't']
  else if c = '\r' then ['\\', 'r']
  else if c = '\n' then ['\\', 'n']
  else if c = '\'' ∨ c = '"' ∨ c = '\\' then ['\\', c]
  else if 0x20 ≤ c.toNat ∧ c.toNat ≤ 0x7E then [c]
  else ['\\', 'u', '\x7b'] ++ Nat.toDigits 16 c.toNat ++ ['\x7d']

/-- A text with every character escaped. -/
def escape (text : String) : String := String.ofList (text.toList.flatMap escapeChar)

end ClassAtlas.Text
