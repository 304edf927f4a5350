import Arbiter.Proofs.Text.Digits
import Arbiter.Proofs.Text.Runs
import Arbiter.Proofs.Time.Calendar
import Arbiter.Time.Reader
import Arbiter.Time.Writer
import Mathlib.Algebra.GroupWithZero.Nat

/-!
# Instants that are written and read again

An instant that was read is written with the offset of UTC. This text is read again if and only if the year in UTC has four
digits: a year with a sign is not one of the exchange form, and the forms without an offset cannot pass over the offset.

* `readDigits_padded`, `readFraction_fractionText`: fields are read as they are written.
* `Instant.WellFormed`: what holds of every instant that was read.
* `Instant.readExact?_text`: with a year of four digits the text is one of the exchange form.
* `Instant.readWritten?_text`: when an instant that was read is read again from its text.
-/

namespace Arbiter

/-! ## Fields -/

@[simp] theorem toList_padded (width n : Nat) : (padded width n).toList =
    List.replicate (width - (Nat.toDigits 10 n).length) '0' ++ Nat.toDigits 10 n := by
  simp [padded]

theorem digitsValue_padded (width n : Nat) : digitsValue (padded width n).toList = n := by
  simp

theorem isDigit_padded (width n : Nat) : ∀ c ∈ (padded width n).toList, c.isDigit = true := by
  intro c hc
  rw [toList_padded, List.mem_append] at hc
  rcases hc with hc | hc
  · rw [List.eq_of_mem_replicate hc]
    rfl
  · exact isDigit_toDigits n c hc

theorem length_padded {width n : Nat} (hpos : 0 < width) (hn : n < 10 ^ width) : (padded width n).toList.length = width := by
  have hle : (Nat.toDigits 10 n).length ≤ width := (Nat.length_toDigits_le_iff (by decide) hpos).2 hn
  rw [toList_padded, List.length_append, List.length_replicate]
  omega

theorem padded_ne_nil (width n : Nat) : (padded width n).toList ≠ [] := by
  simp [Nat.toDigits_ne_nil]

namespace Instant

/-- A run of digits is read up to its end, if it is as long as it may be or something else follows it. -/
theorem readDigits_append {least most : Nat} {digits rest : List Char} (hdigits : ∀ c ∈ digits, c.isDigit = true)
    (hne : digits ≠ []) (hleast : least ≤ digits.length) (hmost : digits.length ≤ most)
    (hstop : digits.length = most ∨ ∀ c ∈ rest.head?, c.isDigit = false) :
    readDigits least most (digits ++ rest) = some (digitsValue digits, rest) := by
  have hrun : ((digits ++ rest).take most).takeWhile Char.isDigit = digits := by
    rw [List.take_append, List.take_of_length_le hmost]
    refine takeWhile_run hdigits fun c hc => ?_
    rw [List.head?_take] at hc
    split at hc
    case isTrue => cases hc
    case isFalse hroom => exact hstop.resolve_left (by omega) c hc
  unfold readDigits
  rw [hrun, if_neg (by simp [hne, hleast]), List.drop_left]

/-- A padded number fills its width. -/
theorem readDigits_padded (width : Nat) {n least : Nat} (rest : List Char) (hleast : least ≤ width) (hpos : 0 < width)
    (hn : n < 10 ^ width) : readDigits least width ((padded width n).toList ++ rest) = some (n, rest) := by
  have hlen := length_padded hpos hn
  rw [readDigits_append (isDigit_padded width n) (padded_ne_nil width n) (by omega) (by omega) (.inl hlen),
    digitsValue_padded]

theorem readTwo {n : Nat} (hn : n < 100) (rest : List Char) :
    readDigits 2 2 ((padded 2 n).toList ++ rest) = some (n, rest) :=
  readDigits_padded 2 rest (by decide) (by decide) hn

@[simp] theorem readChar_cons (c : Char) (rest : List Char) : readChar c (c :: rest) = some rest := if_pos rfl

/-- No digit is a blank. -/
theorem trimStart_padded (width n : Nat) (rest : List Char) :
    trimStart ((padded width n).toList ++ rest) = (padded width n).toList ++ rest := by
  obtain ⟨c, more, hcons⟩ := List.exists_cons_of_ne_nil (padded_ne_nil width n)
  have hdigit : c.isDigit = true := isDigit_padded width n c (hcons ▸ List.mem_cons_self)
  have hblank : isBlank c = false := by
    simp only [Char.isDigit, Bool.and_eq_true, decide_eq_true_eq, UInt32.le_iff_toNat_le] at hdigit
    obtain ⟨hge, hle⟩ := hdigit
    change 48 ≤ c.toNat at hge
    change c.toNat ≤ 57 at hle
    simp only [isBlank, Bool.or_eq_false_iff, Bool.and_eq_false_iff, decide_eq_false_iff_not, beq_eq_false_iff_ne]
    omega
  rw [hcons, List.cons_append, trimStart, List.dropWhile_cons_of_neg (by simp [hblank])]

theorem readShort_padded {n : Nat} (rest : List Char) (hn : n < 100) :
    readShort ((padded 2 n).toList ++ rest) = some (n, rest) := by
  rw [readShort, trimStart_padded, readDigits_padded 2 rest (by decide) (by decide) hn]

theorem readYear_minus (s : List Char) :
    readYear ('-' :: s) = (readDigits 1 s.length s).map fun (n, rest) => (-(n : Int), rest) := rfl

theorem readYear_plus (s : List Char) :
    readYear ('+' :: s) = (readDigits 1 s.length s).map fun (n, rest) => ((n : Int), rest) := rfl

/-- Digits behind a point are read as so many nanoseconds. -/
theorem readFraction_padded (width : Nat) {n unit nanos : Nat} (rest : List Char) (hpos : 0 < width) (hle : width ≤ 9)
    (hn : n < 10 ^ width) (hunit : tenTo (9 - width) = unit) (hnanos : n * unit = nanos) :
    readFraction (("." ++ padded width n).toList ++ '+' :: rest) = some (nanos, '+' :: rest) := by
  have hlen := length_padded hpos hn
  have hread : readDigits 1 9 ((padded width n).toList ++ '+' :: rest) = some (n, '+' :: rest) := by
    rw [readDigits_append (isDigit_padded width n) (padded_ne_nil width n) (by omega) (by omega)
      (.inr (by simp)), digitsValue_padded]
  have hwidth : ((padded width n).toList ++ '+' :: rest).length - ('+' :: rest).length = width := by
    rw [List.length_append, hlen]
    omega
  have hpoint : ".".toList = ['.'] := rfl
  rw [String.toList_append, hpoint, List.append_assoc, List.singleton_append]
  simp only [readFraction, hread, Option.bind_eq_bind, Option.bind_some, hwidth, hunit, hnanos]
  rfl

theorem readFraction_fractionText {nanos : Nat} (rest : List Char) (h : nanos < nanosPerSecond) :
    readFraction ((fractionText nanos).toList ++ '+' :: rest) = some (nanos, '+' :: rest) := by
  unfold nanosPerSecond at h
  unfold fractionText
  split
  case isTrue h0 =>
    subst h0
    rfl
  case isFalse h0 =>
    split
    case isTrue hmillis =>
      exact readFraction_padded 3 rest (by decide) (by decide) (by omega) rfl
        (Nat.div_mul_cancel (Nat.dvd_of_mod_eq_zero hmillis))
    case isFalse =>
      split
      case isTrue hmicros =>
        exact readFraction_padded 6 rest (by decide) (by decide) (by omega) rfl
          (Nat.div_mul_cancel (Nat.dvd_of_mod_eq_zero hmicros))
      case isFalse =>
        exact readFraction_padded 9 rest (by decide) (by decide) (by omega) rfl (Nat.mul_one nanos)

/-! ## Instants that were read -/

/-- The nanoseconds lie within a second or a leap second, and a leap second is the last one of a minute. -/
structure WellFormed (t : Instant) : Prop where
  nanos_lt : t.nanos < 2 * nanosPerSecond
  leap : nanosPerSecond ≤ t.nanos → t.seconds % 60 = 59

variable {t : Instant}

theorem wellFormed_of_ofFields? {date : Date} {hour minute second nanos : Nat}
    (h : ofFields? date hour minute second nanos = some t) : t.WellFormed := by
  unfold ofFields? at h
  split at h
  case isFalse => cases h
  case isTrue hfields =>
    obtain ⟨-, -, -, -, hnanos⟩ := hfields
    by_cases hleap : second = 60
    · simp only [hleap, if_true, Option.some.injEq] at h
      subst h
      exact ⟨by dsimp only; omega, fun _ => by dsimp only; omega⟩
    · simp only [hleap, if_false, Option.some.injEq] at h
      subst h
      exact ⟨by dsimp only; omega, fun hge => by dsimp only at hge; omega⟩

/-- Offsets are whole minutes. -/
theorem wellFormed_of_atOffset {u : Instant} {minutes : Int} (hu : u.WellFormed) (h : u.atOffset minutes = some t) :
    t.WellFormed := by
  unfold atOffset checked at h
  split at h
  case isTrue =>
    cases h
    obtain ⟨hnanos, hleap⟩ := hu
    exact ⟨hnanos, fun hge => by have hlast := hleap hge; dsimp only; omega⟩
  case isFalse => cases h

theorem wellFormed_of_readWritten? {text : String} (h : readWritten? text = some t) : t.WellFormed := by
  simp only [readWritten?, Option.orElse_eq_orElse, Option.orElse_eq_or, Option.or_eq_some_iff] at h
  rcases h with h | ⟨-, h | ⟨-, h⟩⟩
  · simp only [readExact?, Option.bind_eq_bind, Option.bind_eq_some_iff, Prod.exists] at h
    obtain ⟨_, _, -, _, _, -, _, _, -, _, _, -, _, _, -, _, _, -, _, _, -, _, _, -, u, hu, h⟩ := h
    split at h
    case isTrue => exact wellFormed_of_atOffset (wellFormed_of_ofFields? hu) h
    case isFalse => cases h
  · simp only [readDateTime?, Option.bind_eq_bind, Option.bind_eq_some_iff, Prod.exists] at h
    obtain ⟨_, _, -, _, _, _, _, -, h⟩ := h
    split at h
    case isTrue => exact wellFormed_of_ofFields? h
    case isFalse => cases h
  · simp only [readDate?, Option.bind_eq_bind, Option.bind_eq_some_iff, Prod.exists] at h
    obtain ⟨_, _, -, h⟩ := h
    split at h
    case isTrue => exact wellFormed_of_ofFields? h
    case isFalse => cases h

/-! ## The text of an instant -/

/-- The second as it is written, and the nanoseconds behind it. -/
def shownSecond (t : Instant) : Nat × Nat :=
  if nanosPerSecond ≤ t.nanos then (t.secondOfDay % 60 + 1, t.nanos - nanosPerSecond) else (t.secondOfDay % 60, t.nanos)

/-- What is written behind the seconds. -/
def textAfterSeconds (t : Instant) : List Char :=
  (fractionText t.shownSecond.2).toList ++ "+00:00".toList

/-- What is written behind the date. -/
def textAfterDate (t : Instant) : List Char :=
  'T' :: ((padded 2 (t.secondOfDay / 3600)).toList ++ ':' :: ((padded 2 (t.secondOfDay / 60 % 60)).toList ++
    ':' :: ((padded 2 t.shownSecond.1).toList ++ t.textAfterSeconds)))

/-- What is written behind the year. -/
def textAfterYear (t : Instant) : List Char :=
  '-' :: ((padded 2 t.date.month).toList ++ '-' :: ((padded 2 t.date.day).toList ++ t.textAfterDate))

theorem toList_text (t : Instant) : t.text.toList = (yearText t.date.year).toList ++ t.textAfterYear := by
  have hdash : "-".toList = ['-'] := rfl
  have hletter : "T".toList = ['T'] := rfl
  have hcolon : ":".toList = [':'] := rfl
  by_cases hleap : nanosPerSecond ≤ t.nanos
  · simp only [text, localText, textAfterYear, textAfterDate, textAfterSeconds, shownSecond, if_pos hleap,
      String.toList_append, hdash, hletter, hcolon, List.append_assoc, List.cons_append, List.nil_append]
  · simp only [text, localText, textAfterYear, textAfterDate, textAfterSeconds, shownSecond, if_neg hleap,
      String.toList_append, hdash, hletter, hcolon, List.append_assoc, List.cons_append, List.nil_append]

theorem shownSecond_le (t : Instant) : t.shownSecond.1 ≤ 60 := by
  unfold shownSecond
  split
  · dsimp only
    omega
  · dsimp only
    omega

theorem WellFormed.shownNanos_lt (h : t.WellFormed) : t.shownSecond.2 < nanosPerSecond := by
  have hnanos := h.nanos_lt
  unfold shownSecond
  split
  · dsimp only
    omega
  · dsimp only
    omega

theorem secondOfDay_lt (t : Instant) : t.secondOfDay < 86400 := by
  unfold secondOfDay
  omega

/-- The fields that are written are those of the instant. -/
theorem WellFormed.ofFields?_shown (h : t.WellFormed) (hdate : t.date.IsValid) :
    ofFields? t.date (t.secondOfDay / 3600) (t.secondOfDay / 60 % 60) t.shownSecond.1 t.shownSecond.2 = some t := by
  have hday : t.date.dayNumber = t.seconds / 86400 := Date.dayNumber_ofDayNumber _
  have hsecond : (t.secondOfDay : Int) = t.seconds % 86400 := Int.toNat_of_nonneg (by omega)
  have hlt := secondOfDay_lt t
  unfold ofFields?
  rw [if_pos ⟨hdate, by omega, by omega, shownSecond_le t, h.shownNanos_lt⟩, hday]
  by_cases hge : nanosPerSecond ≤ t.nanos
  · have hlast : t.secondOfDay % 60 + 1 = 60 := by have := h.leap hge; omega
    have hshown : t.shownSecond = (60, t.nanos - nanosPerSecond) := by rw [shownSecond, if_pos hge, hlast]
    rw [hshown]
    dsimp only
    rw [if_pos rfl, Nat.sub_add_cancel hge]
    dsimp only
    refine congrArg (fun seconds => some (Instant.mk seconds t.nanos)) ?_
    omega
  · have hshown : t.shownSecond = (t.secondOfDay % 60, t.nanos) := by rw [shownSecond, if_neg hge]
    rw [hshown]
    dsimp only
    rw [if_neg (by omega)]
    dsimp only
    refine congrArg (fun seconds => some (Instant.mk seconds t.nanos)) ?_
    omega

/-- The month and the day of the month have at most two digits. -/
theorem date_lt (t : Instant) : t.date.month < 100 ∧ t.date.day < 100 := by
  obtain ⟨-, hmonth, -, hday⟩ := Date.monthLength_ofDayNumber (t.seconds / 86400)
  exact ⟨Nat.lt_of_le_of_lt hmonth (by decide), Nat.lt_of_le_of_lt (Nat.le_trans hday (Date.monthLength_le _ _)) (by decide)⟩

section FourDigits

variable (hyear : 0 ≤ t.date.year ∧ t.date.year ≤ 9999)
include hyear

theorem isValid_date : t.date.IsValid := by
  obtain ⟨hmonth, hmonth', hday, hday'⟩ := Date.monthLength_ofDayNumber (t.seconds / 86400)
  refine ⟨?_, ?_, hmonth, hmonth', hday, hday'⟩
  · unfold Date.minYear
    omega
  · unfold Date.maxYear
    omega

/-- Years of four digits lie far within the calendar. -/
theorem WellFormed.checked_eq (h : t.WellFormed) : checked t = some t := by
  have hday : t.date.dayNumber = t.seconds / 86400 := Date.dayNumber_ofDayNumber _
  obtain ⟨-, -, -, hmonth, -, hlength⟩ := isValid_date hyear
  have hfirst : firstSecond = -8334601228800 := by decide
  have hlast : lastSecond = 8210266876799 := by decide
  have hshort : t.date.day ≤ 31 := Nat.le_trans hlength (Date.monthLength_le _ _)
  simp only [Date.dayNumber] at hday
  refine if_pos ⟨?_, ?_, h.nanos_lt⟩
  · rw [hfirst]
    omega
  · rw [hlast]
    omega

theorem readExact?_text (h : t.WellFormed) : readExact? t.text = some t := by
  have hvalid := isValid_date hyear
  obtain ⟨hmonth, hday⟩ := date_lt t
  have hsecond := secondOfDay_lt t
  have hshown := shownSecond_le t
  have hnat : ((t.date.year.toNat : Nat) : Int) = t.date.year := Int.toNat_of_nonneg hyear.1
  have hfields : ofFields? ⟨(t.date.year.toNat : Nat), t.date.month, t.date.day⟩ (t.secondOfDay / 3600)
      (t.secondOfDay / 60 % 60) t.shownSecond.1 t.shownSecond.2 = some t := by
    rw [hnat]
    exact h.ofFields?_shown hvalid
  have hoffset : t.atOffset 0 = some t := by
    unfold atOffset
    rw [Int.zero_mul, Int.sub_zero]
    exact h.checked_eq hyear
  have hfraction : readFraction t.textAfterSeconds = some (t.shownSecond.2, ['+', '0', '0', ':', '0', '0']) :=
    readFraction_fractionText ['0', '0', ':', '0', '0'] h.shownNanos_lt
  have hend : readOffset (readChar ':') ['+', '0', '0', ':', '0', '0'] = some (0, []) := by decide
  have hseparator : ∀ rest, readSeparator ('T' :: rest) = some rest := fun _ => rfl
  unfold readExact?
  rw [toList_text, yearText, if_pos hyear, readDigits_padded 4 _ (by decide) (by decide) (by omega)]
  simp only [Option.bind_eq_bind, Option.bind_some, textAfterYear, textAfterDate, readChar_cons, hseparator,
    readTwo hmonth, readTwo hday,
    readTwo (by omega : t.secondOfDay / 3600 < 100), readTwo (by omega : t.secondOfDay / 60 % 60 < 100),
    readTwo (by omega : t.shownSecond.1 < 100), hfraction, hend, hfields, hoffset, List.isEmpty_nil, if_true]

end FourDigits

section Signed

variable (hyear : ¬(0 ≤ t.date.year ∧ t.date.year ≤ 9999))
include hyear

theorem toList_text_signed : ∃ sign, (sign = '-' ∨ sign = '+') ∧
    t.text.toList = sign :: ((padded 4 t.date.year.natAbs).toList ++ t.textAfterYear) := by
  rw [toList_text, yearText, if_neg hyear]
  split
  · exact ⟨'-', .inl rfl, by simp⟩
  · exact ⟨'+', .inr rfl, by simp⟩

theorem readExact?_text_eq_none : readExact? t.text = none := by
  obtain ⟨sign, hsign, htext⟩ := toList_text_signed hyear
  have hdigit : sign.isDigit = false := by rcases hsign with rfl | rfl <;> rfl
  have hnone : readDigits 4 4 t.text.toList = none := by
    rw [htext]
    simp [readDigits, hdigit]
  simp only [readExact?, hnone, Option.bind_eq_bind, Option.bind_none]

/-- The date is read, also with a signed year. -/
theorem readDate_text : ∃ date, readDate id t.text.toList = some (date, t.textAfterDate) := by
  obtain ⟨hmonth, hday⟩ := date_lt t
  obtain ⟨sign, hsign, htext⟩ := toList_text_signed hyear
  have hdigits : readDigits 1 ((padded 4 t.date.year.natAbs).toList ++ t.textAfterYear).length
      ((padded 4 t.date.year.natAbs).toList ++ t.textAfterYear) = some (t.date.year.natAbs, t.textAfterYear) := by
    have hpos := List.length_pos_iff.2 (padded_ne_nil 4 t.date.year.natAbs)
    rw [readDigits_append (isDigit_padded 4 _) (padded_ne_nil 4 _) hpos (by simp)
      (.inr (by simp [textAfterYear])), digitsValue_padded]
  have hread : ∃ year, readYear t.text.toList = some (year, t.textAfterYear) := by
    rw [htext]
    rcases hsign with rfl | rfl
    · rw [readYear_minus, hdigits]
      exact ⟨_, rfl⟩
    · rw [readYear_plus, hdigits]
      exact ⟨_, rfl⟩
  obtain ⟨year, hread⟩ := hread
  refine ⟨⟨year, t.date.month, t.date.day⟩, ?_⟩
  simp only [readDate, hread, Option.bind_eq_bind, Option.bind_some, id, textAfterYear, readChar_cons,
    readShort_padded _ hmonth, readShort_padded _ hday, Option.pure_def]

/-- No form without an offset takes the whole text. -/
theorem readWritten?_text_eq_none : readWritten? t.text = none := by
  obtain ⟨date, hdate⟩ := readDate_text hyear
  have hsecond := secondOfDay_lt t
  have hshown := shownSecond_le t
  have htime : (readChar 'T' t.textAfterDate).bind (readTime id) =
      some ((t.secondOfDay / 3600, t.secondOfDay / 60 % 60, t.shownSecond.1), t.textAfterSeconds) := by
    simp only [textAfterDate, readChar_cons, Option.bind_some, readTime, id, Option.bind_eq_bind,
      readShort_padded _ (by omega : t.secondOfDay / 3600 < 100),
      readShort_padded _ (by omega : t.secondOfDay / 60 % 60 < 100),
      readShort_padded _ (by omega : t.shownSecond.1 < 100), Option.pure_def]
  have hrest : t.textAfterSeconds ≠ [] := by simp [textAfterSeconds]
  have hdateTime : readDateTime? t.text = none := by
    simp [readDateTime?, hdate, htime, hrest]
  have hdateOnly : readDate? t.text = none := by
    simp [readDate?, hdate, textAfterDate]
  simp [readWritten?, readExact?_text_eq_none hyear, hdateTime, hdateOnly]

end Signed

/-- An instant that was read is read again from its text if and only if its year in UTC has four digits. -/
theorem readWritten?_text (h : t.WellFormed) :
    readWritten? t.text = if 0 ≤ t.date.year ∧ t.date.year ≤ 9999 then some t else none := by
  split
  case isTrue hyear => rw [readWritten?, readExact?_text hyear h]; rfl
  case isFalse hyear => exact readWritten?_text_eq_none hyear

end Instant

end Arbiter
