namespace ClassAtlas.Decimal

/-!
# Binary floating point by its bits

Float constants are kept as the bits the class file holds, so that every payload survives.
This module says which number some bits stand for:

* `BinaryFormat` — how the bits are divided, with `single` and `double`;
* `Datum` — not a number, an infinity, or `mantissa · 2 ^ exponent`;
* `BinaryFormat.datum` — the value of some bits.
-/

/-- A binary interchange format: a sign bit, then the exponent field, then the fraction field. -/
structure BinaryFormat where
  /-- Width of the exponent field. -/
  exponentBits : Nat
  /-- Width of the fraction field. -/
  fractionBits : Nat
  deriving DecidableEq, Repr

/-- The 32-bit format. -/
def single : BinaryFormat := ⟨8, 23⟩

/-- The 64-bit format. -/
def double : BinaryFormat := ⟨11, 52⟩

/-- What the bits stand for. -/
inductive Datum where
  /-- No number, whatever the sign and the payload. -/
  | notANumber
  /-- An infinity. -/
  | infinite (negative : Bool)
  /-- The number `mantissa · 2 ^ exponent`.  `tight` says that the next smaller number is only
      half as far away as the next larger one. -/
  | finite (negative : Bool) (mantissa : Nat) (exponent : Int) (tight : Bool)
  deriving DecidableEq, Repr

/-- How many values the fraction field has. -/
def BinaryFormat.fractions (format : BinaryFormat) : Nat := Nat.pow 2 format.fractionBits

/-- How many values the exponent field has. -/
def BinaryFormat.exponents (format : BinaryFormat) : Nat := Nat.pow 2 format.exponentBits

/-- What the fields say.  The largest exponent field marks infinities and what is no number; the
    smallest marks the numbers without the leading bit. -/
def BinaryFormat.datum (format : BinaryFormat) (bits : Nat) : Datum :=
  let fraction := bits % format.fractions
  let field := bits / format.fractions % format.exponents
  let negative := bits.testBit (format.exponentBits + format.fractionBits)
  let bias := format.exponents / 2 - 1
  let lowest : Int := 1 - (bias : Int) - (format.fractionBits : Int)
  if field + 1 = format.exponents then
    if fraction = 0 then .infinite negative else .notANumber
  else if field = 0 then .finite negative fraction lowest false
  else .finite negative (format.fractions + fraction) (lowest + (field : Int) - 1)
    (fraction = 0 ∧ 1 < field)

end ClassAtlas.Decimal
