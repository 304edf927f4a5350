import Arbiter.Decimal.Dyadic

/-!
# Numbers written in text

* `hexDigit?`: a digit in base sixteen.
* `readWord?`: a natural number of a 64-bit word.
* `readInteger?`: an integer of a signed 64-bit word.
* `readFloat?`: a double, also one that is not finite.
* `isColumnNumber`: whether a column for numbers takes a text for one.
-/

namespace Arbiter

/-- The value of a digit in base sixteen. -/
def hexDigit? (c : Char) : Option Nat :=
  if '0' ≤ c ∧ c ≤ '9' then some (c.toNat - '0'.toNat)
  else if 'a' ≤ c ∧ c ≤ 'f' then some (c.toNat - 'a'.toNat + 10)
  else if 'A' ≤ c ∧ c ≤ 'F' then some (c.toNat - 'A'.toNat + 10)
  else none

/-- The number that a run of digits stands for. -/
def digitsValue (digits : List Char) : Nat :=
  digits.foldl (fun n c => n * 10 + (c.toNat - '0'.toNat)) 0

/-- The double nearest to `digits` times a power of ten. -/
def floatOfDigits (negative : Bool) (digits : Nat) (exponent : Int) : Float :=
  -- a power of ten far outside the range of doubles decides the answer alone
  let magnitude : Float :=
    if digits = 0 ∨ exponent < -100000 then 0.0
    else if 100000 < exponent then 1.0 / 0.0
    else Float.ofScientific digits (exponent < 0) exponent.natAbs
  if negative then -magnitude else magnitude

/-- The characters after a sign, and whether it is a minus. -/
def splitSign : List Char → Bool × List Char
  | '+' :: rest => (false, rest)
  | '-' :: rest => (true, rest)
  | s => (false, s)

/-- A run of digits and nothing else. -/
def readDigitsOnly? (s : List Char) : Option Nat :=
  if s.isEmpty || !s.all Char.isDigit then none else some (digitsValue s)

/-- A natural number of a 64-bit word: digits, perhaps after a plus sign. -/
def readWord? (text : String) : Option Nat := do
  let s := match text.toList with
    | '+' :: rest => rest
    | s => s
  let n ← readDigitsOnly? s
  if n ≤ word64Max then some n else none

/-- An integer of a signed 64-bit word: digits, perhaps after a sign. -/
def readInteger? (text : String) : Option Int := do
  let (negative, s) := splitSign text.toList
  let n ← readDigitsOnly? s
  let value : Int := if negative then -n else n
  if int64Min ≤ value ∧ value ≤ int64Max then some value else none

/-- The exponent at the end of a number: nothing, or a mark, perhaps a sign, and digits. -/
def readPowerOfTen? : List Char → Option Int
  | [] => some 0
  | c :: rest =>
    if c = 'e' ∨ c = 'E' then
      let (negative, digits) := splitSign rest
      (readDigitsOnly? digits).map fun n => if negative then -n else n
    else none

/-- A number without its sign: digits with or without a point among them and perhaps an exponent. The digits as one
number, and the power of ten that it is times. -/
def readDecimal? (s : List Char) : Option (Nat × Int) :=
  let whole := s.takeWhile Char.isDigit
  let rest := s.dropWhile Char.isDigit
  let (fraction, rest) := match rest with
    | '.' :: more => (more.takeWhile Char.isDigit, more.dropWhile Char.isDigit)
    | more => ([], more)
  if whole.isEmpty && fraction.isEmpty then none
  else (readPowerOfTen? rest).map fun exponent => (digitsValue (whole ++ fraction), exponent - fraction.length)

/-- A double: a decimal, or a word for infinity or for no number, perhaps after a sign. -/
def readFloat? (text : String) : Option Float :=
  let (negative, s) := splitSign text.toList
  let word := String.ofList (s.map Char.toLower)
  if word == "inf" || word == "infinity" then some (if negative then -1.0 / 0.0 else 1.0 / 0.0)
  else if word == "nan" then some (0.0 / 0.0)
  else (readDecimal? s).map fun (digits, exponent) => floatOfDigits negative digits exponent

/-- The blanks around a number in a column: the space and the controls from the tab to the carriage return. -/
def isColumnBlank (c : Char) : Bool :=
  c == ' ' || ('\t' ≤ c && c ≤ '\r')

/-- Whether a column for numbers takes a text for one: a decimal, perhaps after a sign, perhaps with blanks around. -/
def isColumnNumber (text : String) : Bool :=
  let trimmed := (text.toList.dropWhile isColumnBlank).reverse.dropWhile isColumnBlank
  (readDecimal? (splitSign trimmed.reverse).2).isSome

end Arbiter
