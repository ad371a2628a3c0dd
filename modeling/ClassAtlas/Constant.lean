import ClassAtlas.Decimal.Text
import ClassAtlas.Text.Escape

namespace ClassAtlas

/-!
# Constants

The values of constant fields and of annotation elements:

* `Constant` — a primitive value or a string;
* `Constant.ofUnit` — the character constant of a UTF-16 unit;
* `Constant.render` — the constant as a literal.
-/

/-- A primitive value or a string.  Floats are held as their bits, so equality tells every
    payload apart and a value read is the value kept. -/
inductive Constant where
  | boolean (value : Bool)
  | byte (value : Int8)
  | char (value : Char)
  | short (value : Int16)
  | int (value : Int32)
  | long (value : Int64)
  | float (bits : UInt32)
  | double (bits : UInt64)
  | string (value : String)
  deriving DecidableEq

namespace Constant

/-- The character a UTF-16 unit stands for; half of a surrogate pair stands for none, and is
    shown as the replacement character. -/
def ofUnit (unit : UInt16) : Constant :=
  .char (if unit.toNat.isValidChar then Char.ofNat unit.toNat else '\ufffd')

/-- The text of a string constant. -/
def string? : Constant → Option String
  | .string value => some value
  | _ => none

/-- The constant written as a literal: `byte` and `short` carry a cast, `long` and `float` a
    suffix, characters and strings are escaped between quotes. -/
def render : Constant → String
  | .boolean value => if value then "true" else "false"
  | .byte value => "(byte) " ++ toString value.toInt
  | .char value => "'" ++ String.ofList (Text.escapeChar value) ++ "'"
  | .short value => "(short) " ++ toString value.toInt
  | .int value => toString value.toInt
  | .long value => toString value.toInt ++ "L"
  | .float bits => Decimal.singleText bits ++ "f"
  | .double bits => Decimal.doubleText bits
  | .string value => "\"" ++ Text.escape value ++ "\""

end Constant

end ClassAtlas
