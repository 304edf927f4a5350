import Arbiter.Text.Number
import Mathlib.Data.List.Induction

/-!
# Digits that were written

* `digitsValue_toDigits`: the digits of a number stand for it. `digitsValue_zeros`: zeros in front change nothing.
* `exists_zeros`: every run of digits is the digits of its number with zeros in front.
* `Spells`: the spellings of a number. `Spells.unique`: no text spells two numbers.
* `readWord?_eq_some_iff`: what is read as a number of a 64-bit word. `readWord?_toString`: it is read as it is written.
-/

namespace Arbiter

theorem digitsValue_eq (digits : List Char) : digitsValue digits = Nat.ofDigitChars 10 digits 0 := by
  rw [digitsValue, Nat.ofDigitChars_eq_foldl]
  simp only [Nat.mul_comm 10]

@[simp] theorem digitsValue_toDigits (n : Nat) : digitsValue (Nat.toDigits 10 n) = n := by
  rw [digitsValue_eq, Nat.ofDigitChars_ten_toDigits]

@[simp] theorem digitsValue_zeros (k : Nat) (digits : List Char) :
    digitsValue (List.replicate k '0' ++ digits) = digitsValue digits := by
  rw [digitsValue_eq, digitsValue_eq, Nat.ofDigitChars_append, Nat.ofDigitChars_replicate_zero, Nat.mul_zero]

theorem isDigit_toDigits (n : Nat) : ∀ c ∈ Nat.toDigits 10 n, c.isDigit = true := fun _ =>
  Nat.isDigit_of_mem_toDigits (by decide) (by decide)

theorem exists_digit {c : Char} (h : c.isDigit = true) : ∃ d < 10, c = Nat.digitChar d := by
  have hbounds : 48 ≤ c.toNat ∧ c.toNat ≤ 57 := Char.isDigit_iff_toNat.1 h
  have hall : ∀ d < 10, Char.ofNat (48 + d) = Nat.digitChar d := by decide
  refine ⟨c.toNat - 48, by omega, ?_⟩
  rw [← hall _ (by omega), Nat.add_sub_cancel' hbounds.1, Char.ofNat_toNat]

theorem digitsValue_concat {d : Nat} (hd : d < 10) (s : List Char) :
    digitsValue (s ++ [Nat.digitChar d]) = 10 * digitsValue s + d := by
  have hlast : ∀ d < 10, (Nat.digitChar d).toNat - '0'.toNat = d := by decide
  simp only [digitsValue, List.foldl_append, List.foldl_cons, List.foldl_nil, hlast d hd, Nat.mul_comm 10]

/-- A run of digits is the digits of its number with some zeros in front. -/
theorem exists_zeros {s : List Char} (hne : s ≠ []) (hdigits : ∀ c ∈ s, c.isDigit = true) :
    ∃ zeros, s = List.replicate zeros '0' ++ Nat.toDigits 10 (digitsValue s) := by
  induction s using List.reverseRecOn with
  | nil => exact absurd rfl hne
  | append_singleton s c ih =>
    obtain ⟨hs, hc⟩ := List.forall_mem_append.1 hdigits
    obtain ⟨d, hd, rfl⟩ := exists_digit (hc c List.mem_cons_self)
    rw [digitsValue_concat hd]
    by_cases hnil : s = []
    · subst hnil
      refine ⟨0, ?_⟩
      rw [List.replicate_zero, digitsValue, List.foldl_nil, Nat.mul_zero, Nat.zero_add, Nat.toDigits_of_lt_base hd]
    · obtain ⟨zeros, heq⟩ := ih hnil hs
      rcases Nat.eq_zero_or_pos (digitsValue s) with hzero | hpos
      · -- only zeros stand before the last digit
        rw [hzero, Nat.toDigits_zero, ← List.replicate_succ'] at heq
        refine ⟨zeros + 1, ?_⟩
        rw [hzero, Nat.mul_zero, Nat.zero_add, Nat.toDigits_of_lt_base hd, ← heq]
      · have hlast : (10 * digitsValue s + d) % 10 = d := by omega
        have hfirst : (10 * digitsValue s + d) / 10 = digitsValue s := by omega
        refine ⟨zeros, ?_⟩
        rw [Nat.toDigits_of_base_le (by decide) (by omega), hfirst, hlast, ← List.append_assoc, ← heq]

theorem readDigitsOnly?_eq_some_iff {s : List Char} {n : Nat} :
    readDigitsOnly? s = some n ↔ ∃ zeros, s = List.replicate zeros '0' ++ Nat.toDigits 10 n := by
  constructor
  · intro h
    unfold readDigitsOnly? at h
    split at h
    case isTrue => cases h
    case isFalse hrun =>
      obtain rfl := Option.some.inj h
      obtain ⟨hne, hdigits⟩ : s ≠ [] ∧ ∀ c ∈ s, c.isDigit = true := by simpa using hrun
      exact exists_zeros hne hdigits
  · rintro ⟨zeros, rfl⟩
    have hdigits : (List.replicate zeros '0' ++ Nat.toDigits 10 n).all Char.isDigit = true :=
      List.all_eq_true.2 (List.forall_mem_append.2
        ⟨fun c hc => by rw [List.eq_of_mem_replicate hc]; rfl, isDigit_toDigits n⟩)
    have hne : (List.replicate zeros '0' ++ Nat.toDigits 10 n).isEmpty = false := by simp [Nat.toDigits_ne_nil]
    rw [readDigitsOnly?, hdigits, hne, digitsValue_zeros, digitsValue_toDigits]
    rfl

/-! ## Spellings -/

/-- The text is a spelling of the number: its digits, perhaps with zeros in front of them, perhaps after a plus sign. -/
def Spells (text : String) (n : Nat) : Prop :=
  ∃ sign zeros : String, (sign = "" ∨ sign = "+") ∧ (∀ c ∈ zeros.toList, c = '0') ∧ text = sign ++ zeros ++ toString n

/-- The characters after a plus sign, or all of them if there is none. -/
def afterPlus : List Char → List Char
  | '+' :: rest => rest
  | s => s

theorem afterPlus_of_readDigitsOnly? {s : List Char} {n : Nat} (h : readDigitsOnly? s = some n) : afterPlus s = s := by
  unfold afterPlus
  split
  case h_1 => cases h
  case h_2 => rfl

theorem toList_spelled (sign zeros : String) (n : Nat) :
    (sign ++ zeros ++ toString n).toList = sign.toList ++ (zeros.toList ++ Nat.toDigits 10 n) := by
  simp [Nat.toString_eq_repr]

theorem spells_iff {text : String} {n : Nat} : Spells text n ↔ readDigitsOnly? (afterPlus text.toList) = some n := by
  constructor
  · rintro ⟨sign, zeros, hsign, hzeros, rfl⟩
    have hread : readDigitsOnly? (zeros.toList ++ Nat.toDigits 10 n) = some n :=
      readDigitsOnly?_eq_some_iff.2 ⟨zeros.toList.length, by rw [← List.eq_replicate_of_mem hzeros]⟩
    rw [toList_spelled]
    rcases hsign with rfl | rfl
    · exact (congrArg readDigitsOnly? (afterPlus_of_readDigitsOnly? hread)).trans hread
    · exact hread
  · intro h
    obtain ⟨zeros, hdigits⟩ := readDigitsOnly?_eq_some_iff.1 h
    have hzeros : ∀ c ∈ (String.ofList (List.replicate zeros '0')).toList, c = '0' := by simp
    obtain ⟨sign, hsign, htext⟩ : ∃ sign : String, (sign = "" ∨ sign = "+") ∧
        text.toList = sign.toList ++ afterPlus text.toList := by
      unfold afterPlus
      split
      case h_1 rest hplus => exact ⟨"+", .inr rfl, hplus⟩
      case h_2 => exact ⟨"", .inl rfl, rfl⟩
    refine ⟨sign, String.ofList (List.replicate zeros '0'), hsign, hzeros, String.toList_inj.1 ?_⟩
    rw [toList_spelled, htext, hdigits, String.toList_ofList]

/-- A text is a spelling of one number only. -/
theorem Spells.unique {text : String} {m n : Nat} (hm : Spells text m) (hn : Spells text n) : m = n :=
  Option.some.inj ((spells_iff.1 hm).symm.trans (spells_iff.1 hn))

/-- The texts that are read as a word are all the spellings of the word. -/
theorem readWord?_eq_some_iff {text : String} {n : Nat} : readWord? text = some n ↔ Spells text n ∧ n ≤ word64Max := by
  have hread : readWord? text =
      (readDigitsOnly? (afterPlus text.toList)).bind fun n => if n ≤ word64Max then some n else none := rfl
  rw [spells_iff, hread, Option.bind_eq_some_iff]
  constructor
  · rintro ⟨m, hm, h⟩
    split at h
    case isFalse => cases h
    case isTrue hle =>
      obtain rfl := Option.some.inj h
      exact ⟨hm, hle⟩
  · rintro ⟨hn, hle⟩
    exact ⟨n, hn, if_pos hle⟩

theorem readWord?_toString {n : Nat} (h : n ≤ word64Max) : readWord? (toString n) = some n :=
  readWord?_eq_some_iff.2 ⟨⟨"", "", .inl rfl, by simp, by simp⟩, h⟩

end Arbiter
