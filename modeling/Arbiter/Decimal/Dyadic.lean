import Arbiter.Decimal.Power

/-!
# Floating-point numbers as dyadic fractions

A finite double is `± significand * 2 ^ exponent`. Every rule on its digits is stated on this exact value, never on a
rounded one.

* `Dyadic.ofFloat?` reads a double's bits; it has no value exactly on the infinities and on NaN.
* `Dyadic.floor` and `Dyadic.round` are the greatest integer below and the nearest integer, a half going away from zero.
* `totalKey` orders all doubles, NaN included, by their bits.
-/

namespace Arbiter

/-- The value `(-1) ^ negative * significand * 2 ^ exponent`. -/
structure Dyadic where
  negative : Bool
  significand : Nat
  exponent : Int
deriving DecidableEq, Repr

namespace Dyadic

/-- The weight of the highest of 64 bits. -/
def signWeight : Nat := 0x8000000000000000

/-- The least significand with a hidden bit. -/
def hiddenBit : Nat := 0x10000000000000

/-- The sign bit of a double. -/
def signBit (x : Float) : Bool :=
  signWeight ≤ x.toBits.toNat

/-- The 63 bits of a double below its sign. -/
def magnitudeBits (x : Float) : Nat :=
  x.toBits.toNat % signWeight

/-- The exact value of a finite double: a subnormal has the least exponent and no hidden bit. -/
def ofFloat? (x : Float) : Option Dyadic :=
  let field : Nat := magnitudeBits x / hiddenBit
  let fraction : Nat := magnitudeBits x % hiddenBit
  if field = 2047 then none
  else if field = 0 then some ⟨signBit x, fraction, -1074⟩
  else some ⟨signBit x, hiddenBit + fraction, (field : Int) - 1075⟩

/-- The magnitude as a quotient of natural numbers, the divisor a power of two. -/
def quotient (d : Dyadic) : Nat × Nat :=
  if 0 ≤ d.exponent then (d.significand * twoTo d.exponent.toNat, 1) else (d.significand, twoTo (-d.exponent).toNat)

/-- The greatest integer that is at most the value. -/
def floor (d : Dyadic) : Int :=
  let (n, k) := d.quotient
  if d.negative then -((n + k - 1) / k : Nat) else (n / k : Nat)

/-- The nearest integer; a half goes away from zero. -/
def round (d : Dyadic) : Int :=
  let (n, k) := d.quotient
  let magnitude : Nat := (2 * n + k) / (2 * k)
  if d.negative then -magnitude else magnitude

/-- The integer part: the value without its fraction. -/
def truncate (d : Dyadic) : Int :=
  let (n, k) := d.quotient
  if d.negative then -(n / k : Nat) else (n / k : Nat)

/-- Whether the value is an integer. -/
def isInteger (d : Dyadic) : Bool :=
  let (n, k) := d.quotient
  n % k == 0

end Dyadic

/-- An integer as the nearest double. -/
def floatOfInt (n : Int) : Float :=
  let magnitude := Float.ofScientific n.natAbs false 0
  if n < 0 then -magnitude else magnitude

/-- The integer `n` with the sign of `x`, so that a zero keeps the sign of the number it came from. -/
private def withSignOf (x : Float) (n : Int) : Float :=
  if n = 0 then (if Dyadic.signBit x then -0.0 else 0.0) else floatOfInt n

/-- The greatest integer that is at most `x`, as a double; infinities and NaN stay. -/
def floorFloat (x : Float) : Float :=
  match Dyadic.ofFloat? x with
  | none => x
  | some d => withSignOf x d.floor

/-- The nearest integer to `x` as a double, a half going away from zero; infinities and NaN stay. -/
def roundFloat (x : Float) : Float :=
  match Dyadic.ofFloat? x with
  | none => x
  | some d => withSignOf x d.round

/-- Whether `x` is an integer; infinities and NaN are not. -/
def isIntegral (x : Float) : Bool :=
  (Dyadic.ofFloat? x).any Dyadic.isInteger

/-- The integer part of `x`, forced into `lo..hi`; NaN counts as zero. -/
def truncateWithin (lo hi : Int) (x : Float) : Int :=
  match Dyadic.ofFloat? x with
  | some d => max lo (min hi d.truncate)
  | none => if x > 0 then hi else if x < 0 then lo else max lo (min hi 0)

/-- The least signed 64-bit integer. -/
def int64Min : Int := -0x8000000000000000

/-- The greatest signed 64-bit integer. -/
def int64Max : Int := 0x7FFFFFFFFFFFFFFF

/-- The greatest unsigned 64-bit integer. -/
def word64Max : Nat := 0xFFFFFFFFFFFFFFFF

/-- The integer part of `x` as a signed 64-bit integer, out-of-range values going to the nearer end. -/
def toInt64Saturating (x : Float) : Int :=
  truncateWithin int64Min int64Max x

/-- The integer part of `x` as an unsigned 64-bit integer, out-of-range values going to the nearer end. -/
def toWord64Saturating (x : Float) : Nat :=
  (truncateWithin 0 word64Max x).toNat

/-- The position of a double in the total order of bit patterns: negative NaN, `-∞`, …, `-0`, `0`, …, `∞`, NaN. -/
def totalKey (x : Float) : Int :=
  if Dyadic.signBit x then -(Dyadic.magnitudeBits x : Int) - 1 else Dyadic.magnitudeBits x

/-- The greater of two; what is no number gives way. -/
def floatMax (x y : Float) : Float :=
  if x.isNaN then y else if x < y then y else x

/-- The smaller of two; what is no number gives way. -/
def floatMin (x y : Float) : Float :=
  if x.isNaN then y else if y < x then y else x

end Arbiter
