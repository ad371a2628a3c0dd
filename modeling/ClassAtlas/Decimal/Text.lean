import ClassAtlas.Decimal.Shortest

namespace ClassAtlas.Decimal

/-!
# Float text

How the digits found by `shortest` are laid out:

* `Layout` — the decisions of a float format, with `literal` for float constants;
* `Layout.render` — the text of some bits.
-/

/-- The decisions of a float format. -/
structure Layout where
  /-- The least power of ten of the first digit that is written positionally. -/
  leastPositional : Int
  /-- The first power of ten of the first digit that is written with an exponent again. -/
  firstScientific : Int
  /-- What follows a whole number written positionally. -/
  wholeSuffix : String
  /-- What stands between the digits and the exponent. -/
  exponentMark : String
  /-- What is written for a datum that is no number. -/
  notANumber : String
  /-- What is written for an infinity, after the sign. -/
  infinity : String
  deriving DecidableEq, Repr

/-- Float constants are positional from `0.0001` up to below `1e16`, keep `.0` there, and write
    an exponent without plus sign outside. -/
def literal : Layout where
  leastPositional := -4
  firstScientific := 16
  wholeSuffix := ".0"
  exponentMark := "e"
  notANumber := "NaN"
  infinity := "inf"

/-- The digits with a point after the first, if there is more than one. -/
def pointAfterFirst : List Char → String
  | [] => ""
  | [d] => String.ofList [d]
  | d :: rest => String.ofList (d :: '.' :: rest)

/-- The digits of `digits · 10 ^ grid` in positional notation. -/
def Layout.positional (layout : Layout) (digits : List Char) (grid : Int) : String :=
  if 0 ≤ grid then
    String.ofList (digits ++ List.replicate grid.toNat '0') ++ layout.wholeSuffix
  else
    let places := (-grid).toNat
    let padded := List.replicate (places + 1 - digits.length) '0' ++ digits
    let whole := padded.length - places
    String.ofList (padded.take whole ++ '.' :: padded.drop whole)

/-- The text of a positive number given by its digits and the power of ten of the last one. -/
def Layout.magnitude (layout : Layout) (digits : List Char) (grid : Int) : String :=
  let lead := grid + (digits.length : Int) - 1
  if layout.leastPositional ≤ lead ∧ lead < layout.firstScientific then
    layout.positional digits grid
  else pointAfterFirst digits ++ layout.exponentMark ++ toString lead

/-- The text of what some bits stand for.  The sign of a zero is written, the sign of what is
    no number is not. -/
def Layout.render (layout : Layout) : Datum → String
  | .notANumber => layout.notANumber
  | .infinite negative => sign negative ++ layout.infinity
  | .finite negative 0 _ _ => sign negative ++ "0" ++ layout.wholeSuffix
  | .finite negative mantissa exponent tight =>
    let (digits, grid) := shortest mantissa exponent tight
    sign negative ++ layout.magnitude (Nat.toDigits 10 digits) grid
where
  /-- The sign in front of a number. -/
  sign (negative : Bool) : String := if negative then "-" else ""

/-- The text of a 32-bit float constant. -/
def singleText (bits : UInt32) : String := literal.render (single.datum bits.toNat)

/-- The text of a 64-bit float constant. -/
def doubleText (bits : UInt64) : String := literal.render (double.datum bits.toNat)

end ClassAtlas.Decimal
