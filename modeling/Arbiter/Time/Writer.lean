import Arbiter.Time.Instant

/-!
# Writing instants

* `Instant.text` is the date, `T`, the time of day and the offset of UTC; the fraction has the fewest of 0, 3, 6 or 9
  digits that are exact. A year outside 0 to 9999 has a sign.
-/

namespace Arbiter

/-- A number with zeros in front, up to a width. -/
def padded (width n : Nat) : String :=
  let digits := Nat.toDigits 10 n
  String.ofList (List.replicate (width - digits.length) '0' ++ digits)

namespace Instant

/-- A year in four digits; outside 0 to 9999 with a sign, and more digits where it needs them. -/
def yearText (year : Int) : String :=
  if 0 ≤ year ∧ year ≤ 9999 then padded 4 year.toNat
  else (if year < 0 then "-" else "+") ++ padded 4 year.natAbs

/-- The part of a second behind the point, in groups of three digits. -/
def fractionText (nanos : Nat) : String :=
  if nanos = 0 then ""
  else if nanos % 1000000 = 0 then "." ++ padded 3 (nanos / 1000000)
  else if nanos % 1000 = 0 then "." ++ padded 6 (nanos / 1000)
  else "." ++ padded 9 nanos

/-- The date and the time of day; a leap second is second 60. -/
def localText (t : Instant) : String :=
  let d := t.date
  let s := t.secondOfDay
  let (second, nanos) :=
    if nanosPerSecond ≤ t.nanos then (s % 60 + 1, t.nanos - nanosPerSecond) else (s % 60, t.nanos)
  yearText d.year ++ "-" ++ padded 2 d.month ++ "-" ++ padded 2 d.day ++ "T" ++
    padded 2 (s / 3600) ++ ":" ++ padded 2 (s / 60 % 60) ++ ":" ++ padded 2 second ++ fractionText nanos

/-- The instant with the numeric offset of UTC. -/
def text (t : Instant) : String :=
  t.localText ++ "+00:00"

/-- The instant with the letter of UTC, as it stands in stored fields. -/
def fieldText (t : Instant) : String :=
  t.localText ++ "Z"

end Instant

end Arbiter
