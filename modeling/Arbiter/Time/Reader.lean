import Arbiter.Text.Blank
import Arbiter.Text.Number
import Arbiter.Time.Instant

/-!
# Reading instants

Each reader takes the characters that are left and gives a value with the characters after it.

* `Instant.readExact?` is the exchange form: every field has its full width, and an offset stands at the end.
* `Instant.readRelaxed?` allows blanks between the parts, short fields, signed years and `UTC`.
* `Instant.readWritten?` is what rules accept: the exchange form, or a date and time, or a date, both taken as UTC.
-/

namespace Arbiter.Instant

/-- From `least` to `most` digits as a number. -/
def readDigits (least most : Nat) (s : List Char) : Option (Nat × List Char) :=
  let digits := (s.take most).takeWhile Char.isDigit
  if digits.length < least ∨ digits.isEmpty then none
  else some (digitsValue digits, s.drop digits.length)

/-- What is left after the character `c`. -/
def readChar (c : Char) : List Char → Option (List Char)
  | d :: rest => if c = d then some rest else none
  | [] => none

/-- The mark between a date and a time of day: a letter or a space. -/
def readSeparator : List Char → Option (List Char)
  | c :: rest => if c = 'T' ∨ c = 't' ∨ c = ' ' then some rest else none
  | [] => none

/-- The nanoseconds behind a point, if there is one; digits past the ninth are passed over. -/
def readFraction : List Char → Option (Nat × List Char)
  | '.' :: rest => do
    let (n, more) ← readDigits 1 9 rest
    pure (n * tenTo (9 - (rest.length - more.length)), more.dropWhile Char.isDigit)
  | s => some (0, s)

/-- Minutes from 00 to 59 in two digits. -/
def readOffsetMinutes (s : List Char) : Option (Nat × List Char) := do
  let (n, rest) ← readDigits 2 2 s
  if n < 60 then some (n, rest) else none

/-- An offset in minutes east of UTC: a letter, or a sign, hours and minutes. `gap` reads what stands between these. -/
def readOffset (gap : List Char → Option (List Char)) (s : List Char) : Option (Int × List Char) :=
  match s with
  | 'Z' :: rest => some (0, rest)
  | 'z' :: rest => some (0, rest)
  | c :: rest => do
    let sign : Int ← if c = '+' then some 1 else if c = '-' ∨ c = '\u2212' then some (-1) else none
    let (hours, rest) ← readDigits 2 2 rest
    let rest ← gap rest
    let (minutes, rest) ← readOffsetMinutes rest
    if hours < 24 then some (sign * (hours * 60 + minutes : Nat), rest) else none
  | [] => none

/-- The instant that a local date and time of day with an offset east of UTC stand for. -/
def atOffset (t : Instant) (minutes : Int) : Option Instant :=
  checked ⟨t.seconds - minutes * 60, t.nanos⟩

/-- The exchange form: `2022-01-01T12:30:00.5+01:00`. -/
def readExact? (text : String) : Option Instant := do
  let (year, s) ← readDigits 4 4 text.toList
  let (month, s) ← (readChar '-' s).bind (readDigits 2 2)
  let (day, s) ← (readChar '-' s).bind (readDigits 2 2)
  let (hour, s) ← (readSeparator s).bind (readDigits 2 2)
  let (minute, s) ← (readChar ':' s).bind (readDigits 2 2)
  let (second, s) ← (readChar ':' s).bind (readDigits 2 2)
  let (nanos, s) ← readFraction s
  let (offset, s) ← readOffset (readChar ':') s
  let t ← ofFields? ⟨year, month, day⟩ hour minute second nanos
  if s.isEmpty then t.atOffset offset else none

/-- A year: with a sign any number of digits, without one at most four. Blanks may stand in front. -/
def readYear (s : List Char) : Option (Int × List Char) :=
  match trimStart s with
  | '-' :: rest => (readDigits 1 rest.length rest).map fun (n, rest) => (-(n : Int), rest)
  | '+' :: rest => (readDigits 1 rest.length rest).map fun (n, rest) => ((n : Int), rest)
  | s => (readDigits 1 4 s).map fun (n, rest) => ((n : Int), rest)

/-- One or two digits; blanks may stand in front. -/
def readShort (s : List Char) : Option (Nat × List Char) :=
  readDigits 1 2 (trimStart s)

/-- A date of short fields between dashes; `gap` is what may stand in front of a dash. -/
def readDate (gap : List Char → List Char) (s : List Char) : Option (Date × List Char) := do
  let (year, s) ← readYear s
  let (month, s) ← (readChar '-' (gap s)).bind readShort
  let (day, s) ← (readChar '-' (gap s)).bind readShort
  pure (⟨year, month, day⟩, s)

/-- A time of day of short fields between colons; `gap` is what may stand in front of a colon. -/
def readTime (gap : List Char → List Char) (s : List Char) : Option ((Nat × Nat × Nat) × List Char) := do
  let (hour, s) ← readShort s
  let (minute, s) ← (readChar ':' (gap s)).bind readShort
  let (second, s) ← (readChar ':' (gap s)).bind readShort
  pure ((hour, minute, second), s)

/-- A date and a time of day without an offset, taken as UTC. -/
def readDateTime? (text : String) : Option Instant := do
  let (date, s) ← readDate id text.toList
  let ((hour, minute, second), s) ← (readChar 'T' s).bind (readTime id)
  if s.isEmpty then ofFields? date hour minute second 0 else none

/-- A date alone, taken as its midnight in UTC. -/
def readDate? (text : String) : Option Instant := do
  let (date, s) ← readDate id text.toList
  if s.isEmpty then ofFields? date 0 0 0 0 else none

/-- A timestamp as rules accept it. -/
def readWritten? (text : String) : Option Instant :=
  readExact? text <|> readDateTime? text <|> readDate? text

/-- What is left after blanks and colons. -/
def skipColons (s : List Char) : Option (List Char) :=
  some (s.dropWhile fun c => c == ':' || isBlank c)

/-- An offset, or `UTC` in letters of any case. -/
def readZone (s : List Char) : Option (Int × List Char) :=
  match s with
  | a :: b :: c :: rest =>
    if a.toUpper = 'U' ∧ b.toUpper = 'T' ∧ c.toUpper = 'C' then some (0, rest) else readOffset skipColons s
  | s => readOffset skipColons s

/-- A timestamp as stored fields accept it. -/
def readRelaxed? (text : String) : Option Instant := do
  let (date, s) ← readDate trimStart text.toList
  let ((hour, minute, second), s) ← (readSeparator s).bind (readTime trimStart)
  let (nanos, s) ← readFraction s
  let (offset, s) ← readZone (trimStart s)
  let t ← ofFields? date hour minute second nanos
  if (trimStart s).isEmpty then t.atOffset offset else none

end Arbiter.Instant
