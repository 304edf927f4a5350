import Arbiter.Time.Calendar

/-!
# Days and dates

The date of a day is a real date, and its day is that day again.

* `CycleDay`: a day of a cycle of 400 years, cut into centuries, four years and years.
* `MonthDay`: a day of a year that begins in March, cut into months.
* `Date.dayNumber_ofDayNumber`, `Date.month_ofDayNumber`, `Date.day_ofDayNumber`: there and back again.
-/

namespace Arbiter

namespace Date

/-- A day of a cycle: the centuries, the fours of years and the years passed since its beginning, and the day of the
year, which has a leap day at its end only if it is the fourth one, and not the last one of a century but of the cycle. -/
structure CycleDay (dayOfCycle century quad yearOfQuad dayOfYear : Int) : Prop where
  century_nonneg : 0 ≤ century
  century_le : century ≤ 3
  quad_nonneg : 0 ≤ quad
  quad_le : quad ≤ 24
  yearOfQuad_nonneg : 0 ≤ yearOfQuad
  yearOfQuad_le : yearOfQuad ≤ 3
  dayOfYear_nonneg : 0 ≤ dayOfYear
  dayOfYear_le : dayOfYear ≤ 365
  leap : dayOfYear = 365 → yearOfQuad = 3 ∧ (quad < 24 ∨ century = 3)
  sum : dayOfCycle = century * 36524 + quad * 1461 + yearOfQuad * 365 + dayOfYear

theorem cycleDay {n : Int} (hn : 0 ≤ n) (hlt : n < 146097) :
    let century := min (n / 36524) 3
    let dayOfCentury := n - century * 36524
    let quad := dayOfCentury / 1461
    let dayOfQuad := dayOfCentury - quad * 1461
    let yearOfQuad := min (dayOfQuad / 365) 3
    CycleDay n century quad yearOfQuad (dayOfQuad - yearOfQuad * 365) := by
  intro century dayOfCentury quad dayOfQuad yearOfQuad
  constructor <;> omega

/-- A day of a year: the months passed since March, and the day of the month. -/
structure MonthDay (dayOfYear month day : Int) : Prop where
  month_nonneg : 0 ≤ month
  month_le : month ≤ 11
  day_pos : 1 ≤ day
  day_le : day ≤ 31
  day_le_short : month = 1 ∨ month = 3 ∨ month = 6 ∨ month = 8 → day ≤ 30
  day_le_last : month = 11 → day ≤ 29 ∧ (day = 29 → dayOfYear = 365)
  sum : (153 * month + 2) / 5 + day - 1 = dayOfYear

theorem monthDay {n : Int} (hn : 0 ≤ n) (hle : n ≤ 365) :
    let month := (5 * n + 2) / 153
    MonthDay n month (n - (153 * month + 2) / 5 + 1) := by
  intro month
  constructor <;> omega

/-- The parts that the date of a day is made of. -/
theorem ofDayNumber_parts (n : Int) : ∃ cycle dayOfCycle century quad yearOfQuad dayOfYear month day : Int,
    n + 719468 = cycle * 146097 + dayOfCycle ∧ CycleDay dayOfCycle century quad yearOfQuad dayOfYear ∧
      MonthDay dayOfYear month day ∧
      ofDayNumber n =
        (if month < 10 then ⟨cycle * 400 + century * 100 + quad * 4 + yearOfQuad, (month + 3).toNat, day.toNat⟩
        else ⟨cycle * 400 + century * 100 + quad * 4 + yearOfQuad + 1, (month - 9).toNat, day.toNat⟩) := by
  have hcycle := cycleDay (n := (n + 719468) % 146097) (by omega) (by omega)
  exact ⟨(n + 719468) / 146097, (n + 719468) % 146097, _, _, _, _, _, _, by omega, hcycle,
    monthDay hcycle.dayOfYear_nonneg hcycle.dayOfYear_le, rfl⟩

/-- The day of a date that is made of such parts. -/
theorem dayNumber_of_parts {cycle dayOfCycle century quad yearOfQuad dayOfYear month day : Int} {d : Date}
    (hcycle : CycleDay dayOfCycle century quad yearOfQuad dayOfYear) (hmonth : MonthDay dayOfYear month day)
    (hyear : (if d.month ≤ 2 then d.year - 1 else d.year) = cycle * 400 + century * 100 + quad * 4 + yearOfQuad)
    (hm : ((d.month : Int) + 9) % 12 = month) (hd : (d.day : Int) = day) :
    d.dayNumber = cycle * 146097 + dayOfCycle - 719468 := by
  obtain ⟨_, _, _, _, _, _, _, _, -, hsum⟩ := hcycle
  have hmonthSum := hmonth.sum
  have hcycles : (cycle * 400 + century * 100 + quad * 4 + yearOfQuad) / 400 = cycle := by omega
  have hrest : (cycle * 400 + century * 100 + quad * 4 + yearOfQuad) % 400 = century * 100 + quad * 4 + yearOfQuad := by
    omega
  have hquads : (century * 100 + quad * 4 + yearOfQuad) / 4 = century * 25 + quad := by omega
  have hcenturies : (century * 100 + quad * 4 + yearOfQuad) / 100 = century := by omega
  simp only [dayNumber, hyear, hm, hd, hcycles, hrest, hquads, hcenturies]
  omega

/-- The date of a day has that day. -/
theorem dayNumber_ofDayNumber (n : Int) : (ofDayNumber n).dayNumber = n := by
  obtain ⟨cycle, dayOfCycle, century, quad, yearOfQuad, dayOfYear, month, day, hn, hcycle, hmonth, hdate⟩ :=
    ofDayNumber_parts n
  obtain ⟨_, _, _, -, -, -, -⟩ := id hmonth
  have hd : (day.toNat : Int) = day := Int.toNat_of_nonneg (by omega)
  have hdays : (ofDayNumber n).dayNumber = cycle * 146097 + dayOfCycle - 719468 := by
    rw [hdate]
    split
    · exact dayNumber_of_parts hcycle hmonth (if_neg (by dsimp only; omega)) (by dsimp only; omega) hd
    · refine dayNumber_of_parts hcycle hmonth ((if_pos (by dsimp only; omega)).trans ?_) (by dsimp only; omega) hd
      dsimp only
      omega
  omega

/-- A year that ends with a leap day lies before a leap year. -/
theorem isLeapYear_of_parts {dayOfCycle century quad yearOfQuad : Int} (cycle : Int)
    (hcycle : CycleDay dayOfCycle century quad yearOfQuad 365) :
    isLeapYear (cycle * 400 + century * 100 + quad * 4 + yearOfQuad + 1) = true := by
  obtain ⟨hyear, hquad⟩ := hcycle.leap rfl
  obtain ⟨_, _, _, _, _, _, -, -, -, -⟩ := hcycle
  simp only [isLeapYear, Bool.and_eq_true, Bool.or_eq_true, beq_iff_eq, bne_iff_ne]
  omega

theorem monthLength_le (year : Int) (month : Nat) : monthLength year month ≤ 31 := by
  unfold monthLength
  split
  · split <;> decide
  · split <;> decide

/-- The date of a day has a month of the year and a day of this month. -/
theorem monthLength_ofDayNumber (n : Int) :
    let d := ofDayNumber n
    1 ≤ d.month ∧ d.month ≤ 12 ∧ 1 ≤ d.day ∧ d.day ≤ monthLength d.year d.month := by
  obtain ⟨cycle, dayOfCycle, century, quad, yearOfQuad, dayOfYear, month, day, hn, hcycle, hmonth, hdate⟩ :=
    ofDayNumber_parts n
  obtain ⟨_, _, _, _, hshort, hlast, -⟩ := hmonth
  dsimp only
  rw [hdate]
  split
  case isTrue hlt =>
    refine ⟨by dsimp only; omega, by dsimp only; omega, by dsimp only; omega, ?_⟩
    simp only [monthLength]
    rw [if_neg (by omega)]
    split
    · omega
    · omega
  case isFalse hge =>
    refine ⟨by dsimp only; omega, by dsimp only; omega, by dsimp only; omega, ?_⟩
    simp only [monthLength]
    obtain rfl | rfl : month = 10 ∨ month = 11 := by omega
    · rw [if_neg (by decide), if_neg (by decide)]
      omega
    · obtain ⟨hday, hleap⟩ := hlast rfl
      rw [if_pos (by decide)]
      split
      case isTrue => omega
      case isFalse hcommon =>
        -- a 29th of February is the last day of a year that ends with a leap day
        have hne : day ≠ 29 := by
          intro heq
          obtain rfl := hleap heq
          exact hcommon (isLeapYear_of_parts cycle hcycle)
        omega

end Date

end Arbiter
