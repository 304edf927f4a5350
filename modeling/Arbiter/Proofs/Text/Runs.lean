import Mathlib.Data.List.TakeWhile

/-!
# Runs of characters

A reader takes the characters that belong to a word, up to the first one that does not.

* `takeWhile_append_of_head`, `dropWhile_append_of_head`: what follows is left alone if its first character does not belong.
* `takeWhile_run`, `dropWhile_run`: a word is taken as a whole, and what follows it is left.
-/

namespace Arbiter

variable {word rest : List Char} {p : Char → Bool}

theorem takeWhile_append_of_head (h : ∀ c ∈ rest.head?, p c = false) (s : List Char) :
    (s ++ rest).takeWhile p = s.takeWhile p := by
  have hrest : rest.takeWhile p = [] := by
    cases rest with
    | nil => rfl
    | cons c more => exact List.takeWhile_cons_of_neg (by simp [h c rfl])
  rw [List.takeWhile_append, hrest, List.append_nil]
  split
  case isTrue hall => exact ((List.takeWhile_prefix p).eq_of_length hall).symm
  case isFalse => rfl

theorem dropWhile_append_of_head (h : ∀ c ∈ rest.head?, p c = false) (s : List Char) :
    (s ++ rest).dropWhile p = s.dropWhile p ++ rest := by
  have hrest : rest.dropWhile p = rest := by
    cases rest with
    | nil => rfl
    | cons c more => exact List.dropWhile_cons_of_neg (by simp [h c rfl])
  rw [List.dropWhile_append, hrest]
  split
  case isTrue hall => rw [List.isEmpty_iff.1 hall, List.nil_append]
  case isFalse => rfl

theorem takeWhile_run (hword : ∀ c ∈ word, p c = true) (h : ∀ c ∈ rest.head?, p c = false) :
    (word ++ rest).takeWhile p = word := by
  rw [takeWhile_append_of_head h, List.takeWhile_eq_self_iff.2 hword]

theorem dropWhile_run (hword : ∀ c ∈ word, p c = true) (h : ∀ c ∈ rest.head?, p c = false) :
    (word ++ rest).dropWhile p = rest := by
  rw [dropWhile_append_of_head h, List.dropWhile_eq_nil_iff.2 hword, List.nil_append]

/-- What is left begins with a character that does not belong. -/
theorem head?_dropWhile_eq_false {s : List Char} {c : Char} (h : c ∈ (s.dropWhile p).head?) : p c = false := by
  have hhead := List.head?_dropWhile_not p s
  rw [Option.mem_def.1 h] at hhead
  simpa using hhead

end Arbiter
