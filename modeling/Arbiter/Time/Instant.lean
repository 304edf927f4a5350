import Arbiter.Time.Calendar

/-!
# Instants

An instant is a second since 1970-01-01T00:00:00Z and the nanoseconds into it. A leap second is the second before it
with a thousand million nanoseconds more.

* Instants are ordered by seconds, then nanoseconds.
* `Instant.addMillis?` has no result where the calendar ends.
* `Instant.secondsSince` is a difference in whole seconds, its fraction cut off.
-/

namespace Arbiter

/-- A point in time. -/
structure Instant where
  seconds : Int
  nanos : Nat
deriving DecidableEq, Repr, Inhabited

namespace Instant

/-- Earlier or the same. -/
protected def le (a b : Instant) : Prop :=
  a.seconds < b.seconds ∨ (a.seconds = b.seconds ∧ a.nanos ≤ b.nanos)

/-- Earlier. -/
protected def lt (a b : Instant) : Prop :=
  a.seconds < b.seconds ∨ (a.seconds = b.seconds ∧ a.nanos < b.nanos)

instance : LE Instant := ⟨Instant.le⟩
instance : LT Instant := ⟨Instant.lt⟩
instance (a b : Instant) : Decidable (a ≤ b) := inferInstanceAs (Decidable (_ ∨ _))
instance (a b : Instant) : Decidable (a < b) := inferInstanceAs (Decidable (_ ∨ _))

/-- The nanoseconds of a second. -/
def nanosPerSecond : Nat := 1000000000

/-- The first second of the calendar. -/
def firstSecond : Int := (Date.dayNumber ⟨Date.minYear, 1, 1⟩) * 86400

/-- The last second of the calendar. -/
def lastSecond : Int := (Date.dayNumber ⟨Date.maxYear, 12, 31⟩) * 86400 + 86399

/-- Whether an instant lies in the calendar, its nanoseconds within a second or a leap second. -/
def InCalendar (t : Instant) : Prop :=
  firstSecond ≤ t.seconds ∧ t.seconds ≤ lastSecond ∧ t.nanos < 2 * nanosPerSecond

instance (t : Instant) : Decidable t.InCalendar := inferInstanceAs (Decidable (_ ∧ _ ∧ _))

/-- The instant, if it lies in the calendar. -/
def checked (t : Instant) : Option Instant :=
  if t.InCalendar then some t else none

/-- The instant of a date and time of day in UTC; second 60 is a leap second. -/
def ofFields? (date : Date) (hour minute second nanos : Nat) : Option Instant :=
  if date.IsValid ∧ hour < 24 ∧ minute < 60 ∧ second ≤ 60 ∧ nanos < nanosPerSecond then
    let (second, nanos) := if second = 60 then (59, nanos + nanosPerSecond) else (second, nanos)
    some ⟨date.dayNumber * 86400 + (hour * 3600 + minute * 60 + second : Nat), nanos⟩
  else none

/-- The date in UTC. -/
def date (t : Instant) : Date :=
  Date.ofDayNumber (t.seconds / 86400)

/-- The seconds since midnight in UTC. -/
def secondOfDay (t : Instant) : Nat :=
  (t.seconds % 86400).toNat

/-- The milliseconds since 1970, rounded down. -/
def millis (t : Instant) : Int :=
  t.seconds * 1000 + (t.nanos / 1000000 : Nat)

/-- The instant so many milliseconds after 1970 began. -/
def ofMillis? (ms : Int) : Option Instant :=
  checked ⟨ms / 1000, (ms % 1000).toNat * 1000000⟩

/-- The instant `ms` milliseconds later. Out of a leap second, the second after it counts as its continuation. -/
def addMillis? (t : Instant) (ms : Nat) : Option Instant :=
  let seconds := ms / 1000
  let nanos := ms % 1000 * 1000000
  if nanosPerSecond ≤ t.nanos ∧ seconds = 0 ∧ t.nanos + nanos < 2 * nanosPerSecond then
    some ⟨t.seconds, t.nanos + nanos⟩
  else
    let start := if nanosPerSecond ≤ t.nanos then t.nanos - nanosPerSecond else t.nanos
    let total := start + nanos
    if total < nanosPerSecond then checked ⟨t.seconds + seconds, total⟩
    else checked ⟨t.seconds + seconds + 1, total - nanosPerSecond⟩

/-- The whole seconds from `b` to `a`; a fraction is cut off towards zero. A leap second between two times of day
counts when it is the one that was passed. -/
def secondsSince (a b : Instant) : Int :=
  let passed : Int :=
    if b.secondOfDay < a.secondOfDay ∧ nanosPerSecond ≤ b.nanos then 1
    else if a.secondOfDay < b.secondOfDay ∧ nanosPerSecond ≤ a.nanos then -1
    else 0
  Int.tdiv ((a.seconds - b.seconds + passed) * nanosPerSecond + a.nanos - b.nanos) nanosPerSecond

end Instant

end Arbiter
