import Arbiter.Json.Basic
import Arbiter.Text.Number

/-!
# Numbers in JSON

A `Numeral` is a number as it is written: perhaps a minus, digits without a needless zero in front, perhaps a fraction,
perhaps an exponent.

* `readNumeral`: the numeral at the beginning of a text, whatever its size.
* `Numeral.value?` says which number it stands for, if that fits a double. It is not always the nearest double, since it
  is rounded twice.
-/

namespace Arbiter.Json

/-- A number as it is written. -/
structure Numeral where
  negative : Bool
  /-- The digits before the point. -/
  whole : List Char
  /-- The digits behind the point, if there is one. -/
  fraction : Option (List Char)
  exponent : Option Int

/-- As many digits as fit a 64-bit word behind `n`: the number with them, and the digits that are left. -/
def appendDigits (n : Nat) : List Char → Nat × List Char
  | [] => (n, [])
  | c :: rest =>
    let next := n * 10 + digitsValue [c]
    if word64Max < next then (n, c :: rest) else appendDigits next rest

/-- The greatest power of ten that is a double. -/
def greatestPower : Nat := 308

/-- A power of ten, rounded to a double. -/
def powerOfTen (n : Nat) : Float := Float.ofScientific 1 false n

/-- A significand times a power of ten: the significand is rounded first, and then the product or the quotient. Below
the range of the powers it is divided twice. Nothing beyond the range of doubles. -/
def scaleByTen? (significand : Nat) (exponent : Int) : Option Float :=
  let x := floatOfInt significand
  if significand = 0 then some x
  else if 0 ≤ exponent then
    if exponent ≤ greatestPower then
      let y := x * powerOfTen exponent.toNat
      if (Dyadic.ofFloat? y).isSome then some y else none
    else none
  else
    let n := exponent.natAbs
    if n ≤ greatestPower then some (x / powerOfTen n)
    else if n ≤ 2 * greatestPower then some (x / powerOfTen greatestPower / powerOfTen (n - greatestPower))
    else some 0.0

/-- An exponent: a mark, perhaps a sign, and digits. Without a mark there is none. -/
def readExponent : List Char → Option (Option Int × List Char)
  | c :: rest =>
    if c = 'e' ∨ c = 'E' then
      let (negative, rest) := splitSign rest
      let digits := rest.takeWhile Char.isDigit
      if digits.isEmpty then none
      else
        let n : Int := digitsValue digits
        some (some (if negative then -n else n), rest.dropWhile Char.isDigit)
    else some (none, c :: rest)
  | [] => some (none, [])

/-- A fraction: a point and digits. Without a point there is none. -/
def readFraction : List Char → Option (Option (List Char) × List Char)
  | '.' :: rest =>
    let digits := rest.takeWhile Char.isDigit
    if digits.isEmpty then none else some (some digits, rest.dropWhile Char.isDigit)
  | s => some (none, s)

/-- The value of a numeral. It is an integer if it is written as one and fits a word; minus zero is a double. Digits
beyond those of a word count as zeros before the point and not at all behind it. -/
def Numeral.value? (n : Numeral) : Option Json :=
  let (start, skipped) := appendDigits 0 n.whole
  let behind := n.fraction.getD []
  let (significand, unread) := appendDigits start behind
  let shift : Int := skipped.length - (behind.length - unread.length : Nat) + n.exponent.getD 0
  let signed (x : Float) : Json := .float (if n.negative then -x else x)
  if skipped.isEmpty && n.fraction.isNone && n.exponent.isNone then
    if n.negative then
      if 0 < start ∧ start ≤ Dyadic.signWeight then some (.int (-start)) else some (signed (floatOfInt start))
    else some (.int start)
  else (scaleByTen? significand shift).map signed

/-- A numeral at the beginning of a text. -/
def readNumeral (s : List Char) : Option (Numeral × List Char) := do
  let (negative, s) := match s with
    | '-' :: more => (true, more)
    | more => (false, more)
  let whole := s.takeWhile Char.isDigit
  let s := s.dropWhile Char.isDigit
  if whole.isEmpty then none
  if whole.head? = some '0' ∧ whole.length ≠ 1 then none
  let (fraction, s) ← readFraction s
  let (exponent, s) ← readExponent s
  pure (⟨negative, whole, fraction, exponent⟩, s)

/-- A number at the beginning of a text. -/
def readNumber (s : List Char) : Option (Json × List Char) := do
  let (n, rest) ← readNumeral s
  return (← n.value?, rest)

end Arbiter.Json
