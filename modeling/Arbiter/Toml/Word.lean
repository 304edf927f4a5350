import Arbiter.Json.Basic
import Arbiter.Text.Number
import Arbiter.Time.Calendar

/-!
# Words in settings files

* `readWord?`: a truth value or a number.
* `afterMoment?`: what is left after a date, a time of day or both.
-/

namespace Arbiter.Toml

/-- Digits without the lines between groups of them; such a line stands between two digits. -/
def ungrouped? (isDigit : Char → Bool) : List Char → Option (List Char)
  | [] => none
  | [c] => if isDigit c then some [c] else none
  | c :: '_' :: rest => if isDigit c then (ungrouped? isDigit rest).map (c :: ·) else none
  | c :: rest => if isDigit c then (ungrouped? isDigit rest).map (c :: ·) else none

/-- The number of digits in a base. -/
def valueInBase? (base : Nat) (s : List Char) : Option Nat := do
  let isDigit (c : Char) : Bool := (hexDigit? c).any (· < base)
  let digits ← ungrouped? isDigit s
  digits.foldlM (fun n c => (hexDigit? c).map fun d => n * base + d) 0

/-- Digits without superfluous zeros at the beginning. -/
def wholeDigits? (s : List Char) : Option (List Char) := do
  let digits ← ungrouped? Char.isDigit s
  if digits.head? = some '0' ∧ digits.length ≠ 1 then none else some digits

/-- An integer of a signed 64-bit word. -/
def word? (n : Int) : Option Json :=
  if int64Min ≤ n ∧ n ≤ int64Max then some (.int n) else none

/-- The exponent of a number behind its mark. -/
def power? (s : List Char) : Option Int := do
  let (negative, s) := splitSign s
  let digits ← ungrouped? Char.isDigit s
  let n := digitsValue digits
  pure (if negative then -n else n)

/-- A number with a point or an exponent. -/
def readDouble? (negative : Bool) (s : List Char) : Option Json := do
  let isMark (c : Char) : Bool := c == 'e' || c == 'E'
  let front := s.takeWhile fun c => !isMark c
  let exponent ← match s.dropWhile fun c => !isMark c with
    | [] => some 0
    | _ :: rest => power? rest
  let whole ← wholeDigits? (front.takeWhile (· ≠ '.'))
  let fraction ← match front.dropWhile (· ≠ '.') with
    | [] => some []
    | _ :: rest => ungrouped? Char.isDigit rest
  let x := floatOfDigits negative (digitsValue (whole ++ fraction)) (exponent - fraction.length)
  if x.isInf then none else some (.float x)

/-- A number without its sign. -/
def readUnsigned? (negative : Bool) (s : List Char) : Option Json :=
  if s = "inf".toList then some (.float (if negative then -1.0 / 0.0 else 1.0 / 0.0))
  else if s = "nan".toList then some (.float (0.0 / 0.0))
  else
    match wholeDigits? s with
    | some digits => word? (if negative then -(digitsValue digits : Int) else digitsValue digits)
    | none => readDouble? negative s

/-- A truth value or a number. -/
def readWord? (s : List Char) : Option Json :=
  if s = "true".toList then some (.bool true)
  else if s = "false".toList then some (.bool false)
  else
    match s with
    | '0' :: 'x' :: rest => (valueInBase? 16 rest).bind fun n => word? n
    | '0' :: 'o' :: rest => (valueInBase? 8 rest).bind fun n => word? n
    | '0' :: 'b' :: rest => (valueInBase? 2 rest).bind fun n => word? n
    | s =>
      let (negative, rest) := splitSign s
      readUnsigned? negative rest

/-- Whether a character may stand in a truth value or a number. -/
def isWordChar (c : Char) : Bool := c.isAlphanum || c == '_' || c == '-' || c == '+' || c == '.'

/-- A number of some digits, and what is left after it. -/
def readFixed? (digits : Nat) (s : List Char) : Option (Nat × List Char) := do
  let n ← readDigitsOnly? (s.take digits)
  if (s.take digits).length = digits then some (n, s.drop digits) else none

/-- What is left after a character. -/
def after? (c : Char) : List Char → Option (List Char)
  | d :: rest => if c = d then some rest else none
  | [] => none

/-- What is left after a date. -/
def afterDate? (s : List Char) : Option (List Char) := do
  let (year, s) ← readFixed? 4 s
  let (month, s) ← readFixed? 2 (← after? '-' s)
  let (day, s) ← readFixed? 2 (← after? '-' s)
  if Date.IsValid ⟨year, month, day⟩ then some s else none

/-- What is left after a time of day. -/
def afterTime? (s : List Char) : Option (List Char) := do
  let (hour, s) ← readFixed? 2 s
  let (minute, s) ← readFixed? 2 (← after? ':' s)
  let (second, s) ← readFixed? 2 (← after? ':' s)
  if 23 < hour || 59 < minute || 60 < second then none
  match s with
  | '.' :: rest => if rest.head?.any Char.isDigit then some (rest.dropWhile Char.isDigit) else none
  | s => some s

/-- What is left after a distance from universal time, if there is one. -/
def afterOffset? (s : List Char) : Option (List Char) :=
  match s with
  | 'Z' :: rest | 'z' :: rest => some rest
  | '+' :: rest | '-' :: rest => do
    let (hour, s) ← readFixed? 2 rest
    let (minute, s) ← readFixed? 2 (← after? ':' s)
    if 23 < hour || 59 < minute then none else some s
  | s => some s

/-- What is left after a date, a time of day or both. -/
def afterMoment? (s : List Char) : Option (List Char) :=
  match afterDate? s with
  | none => afterTime? s
  | some (c :: rest) =>
    if c = 'T' ∨ c = 't' then (afterTime? rest).bind afterOffset?
    else if c = ' ' ∧ rest.head?.any Char.isDigit then (afterTime? rest).bind afterOffset?
    else some (c :: rest)
  | some [] => some []

end Arbiter.Toml
