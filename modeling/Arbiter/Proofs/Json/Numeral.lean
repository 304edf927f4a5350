import Arbiter.Json.Numeral
import Arbiter.Json.Writer
import Arbiter.Proofs.Text.Digits
import Arbiter.Proofs.Text.Runs

/-!
# Numbers that are written and read again

* `readNumber_append`: a number is read up to what follows it.
* `readNumeral_toString`, `readNumeral_floatText`: the text of a number is a numeral to its end.
* `rereadNumber?`: what the text of a number is read as.
-/

namespace Arbiter.Json

/-- What follows a value in a text: nothing, a comma or the end of what it stands in. -/
def Delimited (rest : List Char) : Prop := ∀ c ∈ rest.head?, c = ',' ∨ c = ']' ∨ c = '\x7d'

/-! ## Numerals -/

section

variable {rest : List Char}

theorem Delimited.isDigit (h : Delimited rest) : ∀ c ∈ rest.head?, c.isDigit = false := by
  intro c hc
  rcases h c hc with rfl | rfl | rfl <;> rfl

theorem readFraction_of_ne {c : Char} (hc : c ≠ '.') (s : List Char) : readFraction (c :: s) = some (none, c :: s) := by
  unfold readFraction
  split
  case h_1 heq => exact absurd (List.cons.inj heq).1 hc
  case h_2 => rfl

theorem readFraction_append (h : Delimited rest) (s : List Char) :
    readFraction (s ++ rest) = (readFraction s).map fun p => (p.1, p.2 ++ rest) := by
  cases s with
  | nil =>
    cases rest with
    | nil => rfl
    | cons c more => rcases h c rfl with rfl | rfl | rfl <;> rfl
  | cons c s =>
    rw [List.cons_append]
    by_cases hc : c = '.'
    · subst hc
      simp only [readFraction, takeWhile_append_of_head h.isDigit, dropWhile_append_of_head h.isDigit]
      split <;> rfl
    · rw [readFraction_of_ne hc, readFraction_of_ne hc]
      rfl

theorem splitSign_append (h : Delimited rest) (s : List Char) :
    splitSign (s ++ rest) = ((splitSign s).1, (splitSign s).2 ++ rest) := by
  cases s with
  | nil =>
    cases rest with
    | nil => rfl
    | cons c more => rcases h c rfl with rfl | rfl | rfl <;> rfl
  | cons c s =>
    rw [List.cons_append]
    by_cases hplus : c = '+'
    · subst hplus
      rfl
    · by_cases hminus : c = '-'
      · subst hminus
        rfl
      · simp [splitSign, hplus, hminus]

theorem readExponent_append (h : Delimited rest) (s : List Char) :
    readExponent (s ++ rest) = (readExponent s).map fun p => (p.1, p.2 ++ rest) := by
  cases s with
  | nil =>
    cases rest with
    | nil => rfl
    | cons c more => rcases h c rfl with rfl | rfl | rfl <;> rfl
  | cons c s =>
    rw [List.cons_append]
    by_cases hmark : c = 'e' ∨ c = 'E'
    · simp only [readExponent, if_pos hmark, splitSign_append h, takeWhile_append_of_head h.isDigit,
        dropWhile_append_of_head h.isDigit]
      split <;> rfl
    · simp only [readExponent, if_neg hmark]
      rfl

/-- A numeral behind its sign. -/
def readUnsigned (negative : Bool) (s : List Char) : Option (Numeral × List Char) :=
  let whole := s.takeWhile Char.isDigit
  if whole.isEmpty then none
  else if whole.head? = some '0' ∧ whole.length ≠ 1 then none
  else (readFraction (s.dropWhile Char.isDigit)).bind fun f =>
    (readExponent f.2).bind fun e => some (⟨negative, whole, f.1, e.1⟩, e.2)

theorem readNumeral_eq (s : List Char) :
    readNumeral s = if s.head? = some '-' then readUnsigned true s.tail else readUnsigned false s := by
  unfold readNumeral
  split
  case h_1 negative t hsign =>
    have hbehind : (if s.head? = some '-' then readUnsigned true s.tail else readUnsigned false s) =
        readUnsigned negative t := by
      split at hsign
      case h_1 =>
        cases hsign
        rfl
      case h_2 hother =>
        cases hsign
        refine if_neg fun hhead => ?_
        obtain ⟨more, hs⟩ := List.head?_eq_some_iff.1 hhead
        exact hother more hs
    rw [hbehind]
    unfold readUnsigned
    by_cases hempty : (t.takeWhile Char.isDigit).isEmpty = true
    · simp only [hempty]
      rfl
    · by_cases hzero : (t.takeWhile Char.isDigit).head? = some '0' ∧ (t.takeWhile Char.isDigit).length ≠ 1
      · simp only [hempty, hzero]
        rfl
      · simp only [hempty, hzero]
        rfl

theorem readNumeral_minus (s : List Char) : readNumeral ('-' :: s) = readUnsigned true s :=
  (readNumeral_eq _).trans (if_pos rfl)

theorem readUnsigned_append (h : Delimited rest) (negative : Bool) (s : List Char) :
    readUnsigned negative (s ++ rest) = (readUnsigned negative s).map fun p => (p.1, p.2 ++ rest) := by
  unfold readUnsigned
  rw [takeWhile_append_of_head h.isDigit, dropWhile_append_of_head h.isDigit, readFraction_append h]
  dsimp only
  split
  case isTrue => rfl
  case isFalse =>
    split
    case isTrue => rfl
    case isFalse =>
      cases readFraction (s.dropWhile Char.isDigit) with
      | none => rfl
      | some f =>
        dsimp only [Option.map_some, Option.bind_some]
        rw [readExponent_append h]
        cases readExponent f.2 <;> rfl

/-- What follows a numeral is left. -/
theorem readNumeral_append (h : Delimited rest) (s : List Char) :
    readNumeral (s ++ rest) = (readNumeral s).map fun p => (p.1, p.2 ++ rest) := by
  have hhead : (s ++ rest).head? = some '-' ↔ s.head? = some '-' := by
    cases s with
    | cons c s => exact Iff.rfl
    | nil =>
      refine ⟨fun hr => ?_, nofun⟩
      rcases h '-' hr with hc | hc | hc <;> cases hc
  rw [readNumeral_eq, readNumeral_eq]
  split
  case isTrue hr =>
    rw [if_pos (hhead.1 hr)]
    cases s with
    | nil => cases hhead.1 hr
    | cons c s => exact readUnsigned_append h true s
  case isFalse hr =>
    rw [if_neg (hr ∘ hhead.2)]
    exact readUnsigned_append h false s

theorem readNumber_append (h : Delimited rest) (s : List Char) :
    readNumber (s ++ rest) = (readNumber s).map fun p => (p.1, p.2 ++ rest) := by
  unfold readNumber
  rw [readNumeral_append h]
  cases readNumeral s with
  | none => rfl
  | some p =>
    change (Numeral.value? p.1).bind _ = ((Numeral.value? p.1).bind _).map _
    cases Numeral.value? p.1 <;> rfl

/-- A numeral begins with a minus or a digit. -/
theorem head_of_readNumeral {s : List Char} {p : Numeral × List Char} (h : readNumeral s = some p) :
    ∃ c t, s = c :: t ∧ (c = '-' ∨ c.isDigit = true) := by
  rw [readNumeral_eq] at h
  split at h
  case isTrue hminus =>
    obtain ⟨t, rfl⟩ := List.head?_eq_some_iff.1 hminus
    exact ⟨'-', t, rfl, .inl rfl⟩
  case isFalse =>
    cases s with
    | nil => cases h
    | cons c t =>
      refine ⟨c, t, rfl, .inr ?_⟩
      by_contra hc
      simp [readUnsigned, hc] at h

end

/-! ## Texts of numbers -/

section

variable {negative : Bool} {whole digits rest : List Char}

/-- Only zero begins with a zero. -/
theorem eq_zero_of_head_toDigits (n : Nat) : (Nat.toDigits 10 n).head? = some '0' → n = 0 := by
  induction n using Nat.strong_induction_on with
  | _ n ih =>
    intro h
    by_cases hn : n < 10
    · rw [Nat.toDigits_of_lt_base hn] at h
      have hdigits : ∀ d < 10, Nat.digitChar d = '0' → d = 0 := by decide
      exact hdigits n hn (Option.some.inj h)
    · have hlt : n / 10 < n := Nat.div_lt_self (by omega) (by decide)
      rw [Nat.toDigits_of_base_le (by decide) (Nat.le_of_not_lt hn), List.head?_append,
        List.head?_eq_some_head Nat.toDigits_ne_nil, Option.some_or, ← List.head?_eq_some_head Nat.toDigits_ne_nil] at h
      have hzero := ih _ hlt h
      omega

theorem length_of_head_toDigits {n : Nat} (h : (Nat.toDigits 10 n).head? = some '0') : (Nat.toDigits 10 n).length = 1 := by
  rw [eq_zero_of_head_toDigits n h]
  rfl

/-- A numeral begins with all its digits before the point, none of them a needless zero. -/
theorem readUnsigned_whole (hwhole : ∀ c ∈ whole, c.isDigit = true) (hne : whole ≠ [])
    (hzero : whole.head? = some '0' → whole.length = 1) (hrest : ∀ c ∈ rest.head?, c.isDigit = false) :
    readUnsigned negative (whole ++ rest) = (readFraction rest).bind fun f =>
      (readExponent f.2).bind fun e => some (⟨negative, whole, f.1, e.1⟩, e.2) := by
  have hnot : ¬(whole.head? = some '0' ∧ whole.length ≠ 1) := fun ⟨hhead, hlength⟩ => hlength (hzero hhead)
  unfold readUnsigned
  rw [takeWhile_run hwhole hrest, dropWhile_run hwhole hrest]
  dsimp only
  rw [if_neg (by simp [hne]), if_neg hnot]

theorem readFraction_point (hdigits : ∀ c ∈ digits, c.isDigit = true) (hne : digits ≠ [])
    (hrest : ∀ c ∈ rest.head?, c.isDigit = false) : readFraction ('.' :: (digits ++ rest)) = some (some digits, rest) := by
  simp only [readFraction, takeWhile_run hdigits hrest, dropWhile_run hdigits hrest]
  exact if_neg (by simp [hne])

theorem readExponent_signed {sign : Char} (hsign : sign = '-' ∨ sign = '+') (hdigits : ∀ c ∈ digits, c.isDigit = true)
    (hne : digits ≠ []) : ∃ n, readExponent ('e' :: sign :: digits) = some (some n, []) := by
  have hrest : splitSign (sign :: digits) = ((splitSign [sign]).1, digits) := by
    rcases hsign with rfl | rfl <;> rfl
  refine ⟨if (splitSign [sign]).1 then -(digitsValue digits : Int) else digitsValue digits, ?_⟩
  unfold readExponent
  dsimp only
  rw [if_pos (.inl rfl)]
  simp only [hrest, List.takeWhile_eq_self_iff.2 hdigits, List.dropWhile_eq_nil_iff.2 hdigits]
  exact if_neg (by simp [hne])

end

theorem readUnsigned_toDigits (negative : Bool) (n : Nat) :
    readUnsigned negative (Nat.toDigits 10 n) = some (⟨negative, Nat.toDigits 10 n, none, none⟩, []) := by
  have hread := @readUnsigned_whole negative _ [] (isDigit_toDigits n) Nat.toDigits_ne_nil length_of_head_toDigits nofun
  rw [List.append_nil] at hread
  exact hread

/-- The text is a numeral with a fraction or an exponent, to its end. -/
def IsDecimal (negative : Bool) (s : List Char) : Prop :=
  ∃ n : Numeral, readUnsigned negative s = some (n, []) ∧ (n.fraction.isSome || n.exponent.isSome) = true

section

variable {negative : Bool} {whole fraction : List Char} (hwhole : ∀ c ∈ whole, c.isDigit = true) (hne : whole ≠ [])
  (hzero : whole.head? = some '0' → whole.length = 1)

include hwhole hne hzero

theorem isDecimal_fraction (hfraction : ∀ c ∈ fraction, c.isDigit = true) (hsome : fraction ≠ []) :
    IsDecimal negative (whole ++ '.' :: fraction) := by
  have hread := @readFraction_point fraction [] hfraction hsome nofun
  rw [List.append_nil] at hread
  refine ⟨⟨negative, whole, some fraction, none⟩, ?_, rfl⟩
  rw [readUnsigned_whole hwhole hne hzero (by simp), hread]
  rfl

theorem isDecimal_exponent {sign : Char} (hsign : sign = '-' ∨ sign = '+') {digits : List Char}
    (hdigits : ∀ c ∈ digits, c.isDigit = true) (hsome : digits ≠ []) :
    IsDecimal negative (whole ++ 'e' :: sign :: digits) := by
  obtain ⟨n, hread⟩ := readExponent_signed hsign hdigits hsome
  refine ⟨⟨negative, whole, none, some n⟩, ?_, rfl⟩
  rw [readUnsigned_whole hwhole hne hzero (by simp), readFraction_of_ne (by decide), Option.bind_some, hread]
  rfl

theorem isDecimal_fraction_exponent (hfraction : ∀ c ∈ fraction, c.isDigit = true) (hsome : fraction ≠ []) {sign : Char}
    (hsign : sign = '-' ∨ sign = '+') {digits : List Char} (hdigits : ∀ c ∈ digits, c.isDigit = true)
    (hsome' : digits ≠ []) :
    IsDecimal negative (whole ++ '.' :: (fraction ++ 'e' :: sign :: digits)) := by
  obtain ⟨n, hread⟩ := readExponent_signed hsign hdigits hsome'
  refine ⟨⟨negative, whole, some fraction, some n⟩, ?_, rfl⟩
  rw [readUnsigned_whole hwhole hne hzero (by simp), readFraction_point hfraction hsome (by simp), Option.bind_some, hread]
  rfl

end

theorem isDigit_zero : ∀ (k : Nat), ∀ c ∈ List.replicate k '0', c.isDigit = true := fun k c hc => by
  rw [List.eq_of_mem_replicate hc]
  rfl

theorem isDecimal_positionalText (negative : Bool) (c : Nat) (e : Int) :
    IsDecimal negative (Layout.positionalText true c e).toList := by
  have hdigits := isDigit_toDigits c
  unfold Layout.positionalText
  dsimp only
  split
  case isTrue =>
    rw [if_pos rfl, String.toList_append, String.toList_ofList]
    refine isDecimal_fraction ?_ (by simp [Nat.toDigits_ne_nil]) (fun hhead => ?_) (List.forall_mem_singleton.2 rfl)
      (List.cons_ne_nil _ _)
    · exact List.forall_mem_append.2 ⟨hdigits, isDigit_zero _⟩
    · rw [List.head?_append, List.head?_eq_some_head Nat.toDigits_ne_nil, Option.some_or,
        ← List.head?_eq_some_head Nat.toDigits_ne_nil] at hhead
      rw [eq_zero_of_head_toDigits c hhead]
      rfl
  case isFalse he =>
    obtain ⟨places, hplaces⟩ : ∃ places, (-e).toNat = places + 1 := ⟨(-e).toNat - 1, by omega⟩
    rw [hplaces]
    generalize hpadded : List.replicate (places + 1 + 1 - (Nat.toDigits 10 c).length) '0' ++ Nat.toDigits 10 c = padded
    have hlength : places + 2 ≤ padded.length := by
      rw [← hpadded, List.length_append, List.length_replicate]
      omega
    have hall : ∀ d ∈ padded, d.isDigit = true := by
      rw [← hpadded]
      exact List.forall_mem_append.2 ⟨isDigit_zero _, hdigits⟩
    rw [String.toList_append, String.toList_append, String.toList_ofList, String.toList_ofList, String.toList_ofList,
      List.append_assoc, List.singleton_append]
    refine isDecimal_fraction (fun d hd => hall d (List.mem_of_mem_take hd)) ?_ (fun hhead => ?_)
      (fun d hd => hall d (List.mem_of_mem_drop hd)) ?_
    · rw [ne_eq, List.take_eq_nil_iff]
      rintro (h | rfl)
      · omega
      · simp at hlength
    · -- Zeros are put in front only up to one digit before the point.
      by_cases hshort : (Nat.toDigits 10 c).length ≤ places + 2
      · rw [List.length_take, ← hpadded, List.length_append, List.length_replicate]
        omega
      · have hnone : places + 1 + 1 - (Nat.toDigits 10 c).length = 0 := by omega
        rw [hnone, List.replicate_zero, List.nil_append] at hpadded
        subst hpadded
        rw [List.head?_take, if_neg (by omega)] at hhead
        have hone := length_of_head_toDigits hhead
        omega
    · rw [ne_eq, List.drop_eq_nil_iff]
      omega

theorem isDecimal_scientificText (negative : Bool) (c : Nat) (e : Int) :
    IsDecimal negative (Layout.scientificText true c e).toList := by
  have hdigits := isDigit_toDigits c
  obtain ⟨d, more, hcons⟩ := List.exists_cons_of_ne_nil (Nat.toDigits_ne_nil (n := c) (b := 10))
  unfold Layout.scientificText
  dsimp only
  rw [hcons] at hdigits ⊢
  obtain ⟨hd, hmore⟩ := List.forall_mem_cons.1 hdigits
  have hwhole : ∀ c ∈ [d], c.isDigit = true := List.forall_mem_singleton.2 hd
  generalize e + (d :: more).length - 1 = power
  obtain ⟨sign, hsign, htext⟩ : ∃ sign, (sign = '-' ∨ sign = '+') ∧
      (if power < 0 then "-" else if true = true then "+" else "").toList = [sign] := by
    split
    · exact ⟨'-', .inl rfl, rfl⟩
    · exact ⟨'+', .inr rfl, rfl⟩
  have hpower : (toString power.natAbs).toList = Nat.toDigits 10 power.natAbs := Nat.toList_repr
  have hexponent := isDigit_toDigits power.natAbs
  have hsome : Nat.toDigits 10 power.natAbs ≠ [] := Nat.toDigits_ne_nil
  rw [String.toList_append, String.toList_append, String.toList_append, String.toList_append, String.toList_ofList, hpower,
    htext, List.append_assoc, List.append_assoc, List.append_assoc]
  cases more with
  | nil => exact isDecimal_exponent hwhole (List.cons_ne_nil _ _) (fun _ => rfl) hsign hexponent hsome
  | cons d' more =>
    have hmiddle : (if (d :: d' :: more).length ≤ 1 then "" else "." ++ String.ofList (d' :: more)).toList =
        '.' :: d' :: more := by
      rw [if_neg (by simp), String.toList_append, String.toList_ofList, String.toList_ofList, List.singleton_append]
    change IsDecimal negative ([d] ++ ((if (d :: d' :: more).length ≤ 1 then "" else
      "." ++ String.ofList (d' :: more)).toList ++ _))
    rw [hmiddle]
    exact isDecimal_fraction_exponent hwhole (List.cons_ne_nil _ _) (fun _ => rfl) hmore (List.cons_ne_nil _ _) hsign
      hexponent hsome

theorem isDecimal_magnitudeText (negative : Bool) (d : Decimal) :
    IsDecimal negative (Layout.json.magnitudeText d).toList := by
  have hcases : Layout.json.magnitudeText d = Layout.positionalText true d.coefficient d.exponent ∨
      Layout.json.magnitudeText d = Layout.scientificText true d.coefficient d.exponent := ite_eq_or_eq _ _ _
  rcases hcases with h | h
  · rw [h]
    exact isDecimal_positionalText negative _ _
  · rw [h]
    exact isDecimal_scientificText negative _ _

theorem readNumeral_eq_readUnsigned {negative : Bool} {s : List Char} {p : Numeral × List Char}
    (h : readUnsigned negative s = some p) : readNumeral s = readUnsigned false s := by
  rw [readNumeral_eq]
  refine if_neg fun hminus => ?_
  obtain ⟨t, rfl⟩ := List.head?_eq_some_iff.1 hminus
  cases h

/-- The text of a finite double is a numeral with a fraction or an exponent, to its end. -/
theorem readNumeral_floatText {x : Float} (hx : (Dyadic.ofFloat? x).isSome = true) :
    ∃ n : Numeral, readNumeral (floatText x).toList = some (n, []) ∧ (n.fraction.isSome || n.exponent.isSome) = true := by
  obtain ⟨d, hd⟩ := Option.isSome_iff_exists.1 hx
  unfold floatText Layout.text
  rw [if_pos hx, hd]
  dsimp only
  generalize d.shortest Layout.json.halfway = decimal
  rw [String.toList_append]
  cases d.negative with
  | true =>
    obtain ⟨n, hn, hparts⟩ := isDecimal_magnitudeText true decimal
    exact ⟨n, (readNumeral_minus _).trans hn, hparts⟩
  | false =>
    obtain ⟨n, hn, hparts⟩ := isDecimal_magnitudeText false decimal
    exact ⟨n, (readNumeral_eq_readUnsigned hn).trans hn, hparts⟩

/-- The text of an integer is a numeral without a fraction and an exponent, to its end. -/
theorem readNumeral_toString : ∀ n : Int, readNumeral (toString n).toList =
    some (⟨decide (n < 0), Nat.toDigits 10 n.natAbs, none, none⟩, [])
  | .ofNat n => by
    have htext : (toString (Int.ofNat n)).toList = Nat.toDigits 10 n := Nat.toList_repr
    have hread := readUnsigned_toDigits false n
    rw [htext, readNumeral_eq_readUnsigned hread]
    exact hread
  | .negSucc n => by
    have htext : (toString (Int.negSucc n)).toList = '-' :: Nat.toDigits 10 (n + 1) := by
      change ("-" ++ (n + 1).repr).toList = _
      rw [String.toList_append, Nat.toList_repr]
      rfl
    rw [htext, readNumeral_minus, decide_eq_true (Int.negSucc_lt_zero n)]
    exact readUnsigned_toDigits true (n + 1)

/-! ## What texts of numbers are read as -/

/-- What the text of a number is read as. -/
def rereadNumber? (text : String) : Option Json := (readNumber text.toList).map (·.1)

section

variable {text : String} {n : Numeral}

theorem readNumber_of_readNumeral (h : readNumeral text.toList = some (n, [])) :
    readNumber text.toList = (rereadNumber? text).map fun v => (v, []) := by
  unfold rereadNumber? readNumber
  rw [h]
  change n.value?.bind _ = ((n.value?.bind _).map _).map _
  cases n.value? <;> rfl

theorem rereadNumber?_eq (h : readNumeral text.toList = some (n, [])) : rereadNumber? text = n.value? := by
  unfold rereadNumber? readNumber
  rw [h]
  change (n.value?.bind _).map _ = _
  cases n.value? <;> rfl

end

/-- A run of digits that stands for a number of a word is read to its end. -/
theorem appendDigits_eq : ∀ {digits : List Char} {n : Nat}, Nat.ofDigitChars 10 digits n ≤ word64Max →
    appendDigits n digits = (Nat.ofDigitChars 10 digits n, [])
  | [], _, _ => rfl
  | c :: rest, n, h => by
    have hnext : n * 10 + digitsValue [c] = 10 * n + (c.toNat - '0'.toNat) := by
      rw [digitsValue_eq, Nat.ofDigitChars_cons, Nat.ofDigitChars_nil, Nat.mul_zero, Nat.zero_add, Nat.mul_comm]
    rw [Nat.ofDigitChars_cons] at h ⊢
    have hle : 10 * n + (c.toNat - '0'.toNat) ≤ word64Max := by
      rw [Nat.ofDigitChars_eq_ofDigitChars_zero] at h
      exact (Nat.le_mul_of_pos_left _ (Nat.pow_pos (by decide))).trans ((Nat.le_add_right _ _).trans h)
    rw [appendDigits, hnext, if_neg (Nat.not_lt.2 hle)]
    exact appendDigits_eq h

/-- Digits that all fit a word are a number of a word. -/
theorem le_of_appendDigits : ∀ {digits : List Char} {n m : Nat}, n ≤ word64Max → appendDigits n digits = (m, []) →
    m = Nat.ofDigitChars 10 digits n ∧ m ≤ word64Max
  | [], _, _, hn, h => by
    cases h
    exact ⟨rfl, hn⟩
  | c :: rest, n, m, _, h => by
    have hnext : n * 10 + digitsValue [c] = 10 * n + (c.toNat - '0'.toNat) := by
      rw [digitsValue_eq, Nat.ofDigitChars_cons, Nat.ofDigitChars_nil, Nat.mul_zero, Nat.zero_add, Nat.mul_comm]
    rw [appendDigits] at h
    split at h
    case isTrue => cases h
    case isFalse hle =>
      rw [Nat.ofDigitChars_cons, ← hnext]
      exact le_of_appendDigits (Nat.le_of_not_lt hle) h

section

variable {n : Nat}

/-- A natural number of a word is read as it is written, and so is its negative down to the least integer. -/
theorem value?_digits (h : n ≤ word64Max) : Numeral.value? ⟨false, Nat.toDigits 10 n, none, none⟩ = some (.int n) := by
  have hdigits : appendDigits 0 (Nat.toDigits 10 n) = (n, []) := by
    rw [appendDigits_eq (by rwa [Nat.ofDigitChars_ten_toDigits]), Nat.ofDigitChars_ten_toDigits]
  simp [Numeral.value?, hdigits]

theorem value?_minus_digits (h : 0 < n ∧ n ≤ Dyadic.signWeight) :
    Numeral.value? ⟨true, Nat.toDigits 10 n, none, none⟩ = some (.int (-n)) := by
  have hword : n ≤ word64Max := h.2.trans (by decide)
  have hdigits : appendDigits 0 (Nat.toDigits 10 n) = (n, []) := by
    rw [appendDigits_eq (by rwa [Nat.ofDigitChars_ten_toDigits]), Nat.ofDigitChars_ten_toDigits]
  simp [Numeral.value?, hdigits, h]

/-- Only numbers of a word are read as integers. -/
theorem word_of_value?_int {negative : Bool} {k : Int}
    (h : Numeral.value? ⟨negative, Nat.toDigits 10 n, none, none⟩ = some (.int k)) :
    n ≤ if negative then Dyadic.signWeight else word64Max := by
  obtain ⟨start, skipped, happend⟩ : ∃ start skipped, appendDigits 0 (Nat.toDigits 10 n) = (start, skipped) := ⟨_, _, rfl⟩
  cases skipped with
  | nil =>
    obtain ⟨hstart, hle⟩ := le_of_appendDigits (Nat.zero_le _) happend
    rw [Nat.ofDigitChars_ten_toDigits] at hstart
    subst hstart
    cases negative with
    | false => exact hle
    | true =>
      by_contra hgreat
      have hgreat : ¬start ≤ Dyadic.signWeight := hgreat
      simp [Numeral.value?, happend, hgreat] at h
  | cons c rest =>
    exfalso
    simp [Numeral.value?, happend] at h

end

/-- An integer of a word is read as it is written. -/
theorem rereadNumber?_toString {n : Int} (h : int64Min ≤ n ∧ n ≤ word64Max) :
    rereadNumber? (toString n) = some (.int n) := by
  rw [rereadNumber?_eq (readNumeral_toString n)]
  cases n with
  | ofNat n => exact value?_digits (Int.ofNat_le.1 h.2)
  | negSucc n =>
    have hbound : n + 1 ≤ Dyadic.signWeight := by
      have hmin := h.1
      unfold int64Min at hmin
      unfold Dyadic.signWeight
      omega
    rw [decide_eq_true (Int.negSucc_lt_zero n)]
    exact value?_minus_digits ⟨Nat.succ_pos n, hbound⟩

/-- Only an integer of a word is read as an integer. -/
theorem word_of_rereadNumber? {n k : Int} (h : rereadNumber? (toString n) = some (.int k)) :
    int64Min ≤ n ∧ n ≤ word64Max := by
  rw [rereadNumber?_eq (readNumeral_toString n)] at h
  have hbound := word_of_value?_int h
  cases n with
  | ofNat n => exact ⟨Int.le_trans (by decide) (Int.natCast_nonneg n), Int.ofNat_le.2 hbound⟩
  | negSucc n =>
    rw [decide_eq_true (Int.negSucc_lt_zero n)] at hbound
    have hbound : n + 1 ≤ Dyadic.signWeight := hbound
    unfold Dyadic.signWeight at hbound
    unfold int64Min word64Max
    omega

end Arbiter.Json
