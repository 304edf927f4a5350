import Arbiter.Decimal.Dyadic

/-!
# The fewest digits that read back

A decimal reads back as a double when it lies in the interval of reals that round to that double: from half-way to the
neighbour below to half-way to the neighbour above, the ends included for an even significand.

* `Dyadic.shortest` tries one digit, then two, and so on. On each decimal grid only the two neighbours of the value can
  be nearest, so the first grid with a neighbour inside the interval has the fewest digits, and of two such neighbours
  the nearer one is taken. A value half-way between them goes where the `Halfway` says.
-/

namespace Arbiter

/-- The value `coefficient * 10 ^ exponent`. -/
structure Decimal where
  coefficient : Nat
  exponent : Int
deriving DecidableEq, Repr

/-- How many decimal digits a number has; zero has one. -/
def digitCount (n : Nat) : Nat :=
  (Nat.toDigits 10 n).length

/-- The exponent of the leading digit of `n / k`: the greatest `e` with `10 ^ e ≤ n / k`. -/
def leadingExponent (n k : Nat) : Int :=
  let e : Int := (digitCount n : Int) - digitCount k
  let reaches := if 0 ≤ e then k * tenTo e.toNat ≤ n else k ≤ n * tenTo (-e).toNat
  if reaches then e else e - 1

/-- Where a value half-way between two numbers of a grid goes. -/
inductive Halfway where
  /-- To the greater one. -/
  | up
  /-- To the one whose last digit is even. -/
  | toEven
deriving DecidableEq, Repr

/-- Which of the numbers `below` and `below + 1` is taken for a value between them, given its distances from both. -/
def Halfway.nearer (h : Halfway) (below toBelow toAbove : Nat) : Nat :=
  match compare toBelow toAbove, h with
  | .lt, _ => below
  | .gt, _ => below + 1
  | .eq, .up => below + 1
  | .eq, .toEven => below + below % 2

namespace Dyadic

/-- The neighbour of the value on the grid of step `10 ^ e` that reads back, if one does; the nearer of two.
`lo` and `hi` are the ends of the interval in quarters of a unit in the last place. -/
def onGrid? (h : Halfway) (d : Dyadic) (lo hi : Nat) (e : Int) : Option Nat :=
  -- a quarter of a unit in the last place, as a fraction of the grid's step
  let quarter : Int := d.exponent - 2
  let n := (if 0 ≤ quarter then twoTo quarter.toNat else 1) * (if e < 0 then tenTo (-e).toNat else 1)
  let k := (if quarter < 0 then twoTo (-quarter).toNat else 1) * (if 0 ≤ e then tenTo e.toNat else 1)
  let value := 4 * d.significand * n
  let inside (c : Nat) : Bool :=
    if d.significand % 2 = 0 then lo * n ≤ c * k && c * k ≤ hi * n else lo * n < c * k && c * k < hi * n
  let below := value / k
  let above := below + 1
  match inside below, inside above with
  | false, false => none
  | true, false => some below
  | false, true => some above
  | true, true => some (h.nearer below (value - below * k) (above * k - value))

/-- The grid search from `digits` digits on. -/
def searchGrids (h : Halfway) (d : Dyadic) (lo hi : Nat) (top : Int) : (digits fuel : Nat) → Decimal
  | digits, 0 => ⟨((onGrid? h d lo hi (top - digits)).getD 0), top - digits⟩
  | digits, fuel + 1 =>
    match onGrid? h d lo hi (top - digits) with
    | some c => ⟨c, top - digits⟩
    | none => searchGrids h d lo hi top (digits + 1) fuel

/-- A number without its trailing zeros, and how many there were. `fuel` bounds them. -/
def stripZeros : (fuel n : Nat) → Nat × Nat
  | 0, n => (n, 0)
  | fuel + 1, n =>
    if n ≠ 0 ∧ n % 10 = 0 then
      let (m, z) := stripZeros fuel (n / 10)
      (m, z + 1)
    else (n, 0)

/-- The decimal of fewest digits that reads back as the value, and the nearest of these. -/
def shortest (h : Halfway) (d : Dyadic) : Decimal :=
  if d.significand = 0 then ⟨0, 0⟩ else
  let (n, k) := d.quotient
  let lo := if d.significand = hiddenBit ∧ -1074 < d.exponent then 4 * d.significand - 1 else 4 * d.significand - 2
  let found := searchGrids h d lo (4 * d.significand + 2) (leadingExponent n k) 0 17
  let (c, zeros) := stripZeros 17 found.coefficient
  ⟨c, found.exponent + zeros⟩

end Dyadic

end Arbiter
