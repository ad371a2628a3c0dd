import ClassAtlas.Decimal.Binary

namespace ClassAtlas.Decimal

/-!
# The fewest decimal digits that read back

A positive binary number `m · 2 ^ q` owns the interval of reals that round to it: it ends
halfway to either neighbour, and the ends belong to it iff `m` is even.  Among the decimal
grids `10 ^ j`, the coarsest one with a point in that interval decides how many digits are
written, and of its points the one nearest to the number decides which.

* `Scaled` — the number and its interval, measured in units of `10 ^ j`;
* `Scaled.nearest?` — the grid point nearest to the number, if one is in the interval;
* `shortest` — the search from coarse grids to fine ones.
-/

/-- A positive number and the interval of reals that round to it, all as multiples of
    `1 / denominator`. -/
structure Scaled where
  /-- The lower end. -/
  low : Nat
  /-- The number. -/
  value : Nat
  /-- The upper end. -/
  high : Nat
  /-- The common denominator. -/
  denominator : Nat
  /-- Whether the ends round to the number too. -/
  closed : Bool
  deriving DecidableEq, Repr

/-- The number `mantissa · 2 ^ exponent` in units of `10 ^ grid`. -/
def Scaled.ofBinary (mantissa : Nat) (exponent : Int) (tight : Bool) (grid : Int) : Scaled :=
  let up := Nat.pow 2 exponent.toNat * Nat.pow 10 (-grid).toNat
  let down := Nat.pow 2 (-exponent).toNat * Nat.pow 10 grid.toNat
  { low := (4 * mantissa - (if tight then 1 else 2)) * up
    value := 4 * mantissa * up
    high := (4 * mantissa + 2) * up
    denominator := 4 * down
    closed := mantissa % 2 = 0 }

/-- Whether the whole number `n` lies in the interval. -/
def Scaled.contains (s : Scaled) (n : Nat) : Bool :=
  let point := n * s.denominator
  if s.closed then s.low ≤ point && point ≤ s.high else s.low < point && point < s.high

/-- The whole number in the interval that is nearest to the number; of two equally near ones,
    the larger.  Only the two neighbours of the number can be nearest. -/
def Scaled.nearest? (s : Scaled) : Option Nat :=
  let below := s.value / s.denominator
  let above := below + 1
  match s.contains below, s.contains above with
  | true, true =>
    if 2 * (s.value % s.denominator) < s.denominator then some below else some above
  | true, false => some below
  | false, true => some above
  | false, false => none

/-- The first grid, from `10 ^ grid` on to finer ones, with a point in the interval, and that
    point.  After `steps` grids without one, the whole part on the next grid is returned. -/
def refine (mantissa : Nat) (exponent : Int) (tight : Bool) : (steps : Nat) → Int → Nat × Int
  | 0, grid =>
    let s := Scaled.ofBinary mantissa exponent tight grid
    (s.value / s.denominator, grid)
  | steps + 1, grid =>
    match (Scaled.ofBinary mantissa exponent tight grid).nearest? with
    | some digits => (digits, grid)
    | none => refine mantissa exponent tight steps (grid - 1)

/-- The digits and the power of ten of the shortest decimal that rounds to
    `mantissa · 2 ^ exponent`.  The search starts above the number: `2 ^ b ≤ 10 ^ g` for
    `g = ⌊b · 0.30103⌋ + 1`.  The numbers of both formats need at most 17 digits, so 24 grids
    are enough. -/
def shortest (mantissa : Nat) (exponent : Int) (tight : Bool) : Nat × Int :=
  let bits := (mantissa.log2 : Int) + exponent + 1
  refine mantissa exponent tight 24 (bits * 30103 / 100000 + 1)

/-! ### The search ends on the grid it reports -/

/-- A grid point that the search accepts lies in the interval. -/
theorem Scaled.contains_of_nearest? {s : Scaled} {n : Nat} (h : s.nearest? = some n) :
    s.contains n = true := by
  unfold Scaled.nearest? at h
  split at h <;> grind

end ClassAtlas.Decimal
