import Arbiter.Decimal.Layout

/-!
# Fixed places and significant figures

* `fixedText` writes the exact value of a double with a given number of places, a tie going to the even digit.
* `significantText` rounds to a number of significant figures: it scales by a power of ten in floating-point arithmetic,
  rounds, scales back, and writes as many places as the figures need.
-/

namespace Arbiter

/-- The nearest integer to `n / k`, a tie going to the even one. -/
def roundQuotient (n k : Nat) : Nat :=
  let q := n / k
  let r := n % k
  if 2 * r < k then q else if k < 2 * r then q + 1 else if q % 2 = 0 then q else q + 1

/-- The exact value of a double with `places` digits behind the point. -/
def fixedText (places : Nat) (x : Float) : String :=
  match Dyadic.ofFloat? x with
  | none => plainText x
  | some d =>
    let (n, k) := d.quotient
    let scaled := roundQuotient (n * tenTo places) k
    (if d.negative then "-" else "") ++ Layout.positionalText false scaled (-places)

/-- The product of `x` with itself `n` times by repeated squaring, from the lowest bit on. `fuel` bounds the bits. -/
def powerBySquaring : (fuel : Nat) → (result base : Float) → (n : Nat) → Float
  | 0, result, _, _ => result
  | fuel + 1, result, base, n =>
    let result := if n % 2 = 1 then result * base else result
    if n / 2 = 0 then result else powerBySquaring fuel result (base * base) (n / 2)

/-- Ten to an integer power in floating-point arithmetic; a negative power is the reciprocal of the positive one. -/
def tenToThe (n : Int) : Float :=
  let power := powerBySquaring 64 1.0 10.0 n.natAbs
  if n < 0 then 1.0 / power else power

/-- A number rounded to `figures` significant figures. -/
def significantText (figures : Int) (x : Float) : String :=
  if x == 0 || (Dyadic.ofFloat? x).isNone then plainText x
  else
    let magnitude := truncateWithin (-0x80000000) 0x7FFFFFFF (floorFloat (Float.log10 x.abs))
    let factor := tenToThe (figures - 1 - magnitude)
    fixedText (max 0 (figures - 1 - magnitude)).toNat (roundFloat (x * factor) / factor)

end Arbiter
