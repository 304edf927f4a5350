import Arbiter.Outcome.Ranking
import Arbiter.Proofs.Double.Order
import Arbiter.Proofs.Double.Shares
import Arbiter.Proofs.SortedMap
import Mathlib.Data.Nat.Fib.Basic

/-!
# Rankings of answers

Both rankings sort by the total order of doubles, in one direction or the other, and by index. Different answers never
share a place, so a ranking is strict, and it is the only one of its entries.

* `ComesBefore`: the order of a ranking. `rankedBy_pairwise`, `rankedBy_unique`: to sort gives the one ranking.
* `mostPopular_best`: the answers that are kept are heavier than those that are dropped.
* `fibonacciWeights_ranked`: the answers that have enough weight get the terms of the sequence by rank.
* `fibonacciTerm_hasValue`: how far the terms are exact.
-/

namespace Arbiter

/-- An entry stands before another one in a ranking: by a key of the weights, and by index where they weigh the same. -/
def ComesBefore (key : Float → ℤ) (a b : ℕ × Float) : Prop :=
  key a.2 < key b.2 ∨ a.2 = b.2 ∧ a.1 < b.1

/-- Before in the ranking from the least weight up. -/
abbrev Lighter : ℕ × Float → ℕ × Float → Prop := ComesBefore totalKey

/-- Before in the ranking from the greatest weight down. -/
abbrev Heavier : ℕ × Float → ℕ × Float → Prop := ComesBefore fun x => -totalKey x

theorem ComesBefore.asymm {key : Float → ℤ} {a b : ℕ × Float} (h : ComesBefore key a b) : ¬ComesBefore key b a := by
  rcases h with h | ⟨h, hindex⟩
  · rintro (h' | ⟨h', -⟩)
    · exact lt_asymm h h'
    · exact h.ne (congrArg key h'.symm)
  · rintro (h' | ⟨-, hindex'⟩)
    · exact h'.ne (congrArg key h.symm)
    · exact lt_asymm hindex hindex'

/-- The lighter of two answers does not have the greater number as its weight. -/
theorem ComesBefore.not_gt {a b : ℕ × Float} (h : Lighter a b) : ¬b.2 < a.2 := fun hlt => by
  have hkey := totalKey_lt_of_lt hlt
  rcases h with h | ⟨h, -⟩
  · exact lt_asymm h hkey
  · exact hkey.ne (congrArg totalKey h.symm)

theorem ComesBefore.not_lt {a b : ℕ × Float} (h : Heavier a b) : ¬a.2 < b.2 := fun hlt => by
  have hkey := totalKey_lt_of_lt hlt
  rcases h with h | ⟨h, -⟩
  · exact lt_asymm (neg_lt_neg_iff.1 h) hkey
  · exact hkey.ne (congrArg totalKey h)

/-! ## Different answers -/

/-- No answer has two entries. -/
def Distinct (l : List (ℕ × Float)) : Prop := l.Pairwise fun a b => a.1 ≠ b.1

section

variable {l l' : List (ℕ × Float)}

theorem Distinct.perm (h : Distinct l) (hperm : l'.Perm l) : Distinct l' :=
  (hperm.pairwise_iff fun hab => hab.symm).2 h

theorem distinct_entries (m : SortedMap ℕ Float) : Distinct m.entries :=
  m.ascending.imp fun h => (Nat.compare_eq_lt.1 h).ne

/-- A map that is made of different answers has them all. -/
theorem Distinct.ofList_perm (h : Distinct l) : (SortedMap.ofList l).entries.Perm l :=
  SortedMap.entries_ofList_perm (h.imp fun hne heq => hne (Nat.compare_eq_eq.1 heq))

theorem distinct_iff_nodup : Distinct l ↔ (l.map (·.1)).Nodup := List.pairwise_map.symm

/-- An answer stands at one place only. -/
theorem Distinct.place_unique (h : Distinct l) {j k i : ℕ} {v w : Float} (hj : l[j]? = some (i, v))
    (hk : l[k]? = some (i, w)) : j = k := by
  have hplace : ∀ {k : ℕ} {w : Float}, l[k]? = some (i, w) → (l.map (·.1))[k]? = some i := fun h => by
    rw [List.getElem?_map, h]
    rfl
  have hbound := (List.getElem?_eq_some_iff.1 (hplace hj)).1
  exact (List.getElem?_inj hbound (distinct_iff_nodup.1 h)).1 ((hplace hj).trans (hplace hk).symm)

end

/-! ## Sorted entries -/

section

variable {key : Float → ℤ} {entries : List (ℕ × Float)}

/-- The entries in the order of a key. -/
def rankedBy (key : Float → ℤ) (entries : List (ℕ × Float)) : List (ℕ × Float) :=
  entries.mergeSort fun a b => decide (key a.2 < key b.2 ∨ (key a.2 = key b.2 ∧ a.1 ≤ b.1))

theorem ascending_eq (entries : List (ℕ × Float)) : ascending entries = rankedBy totalKey entries := rfl

theorem descending_eq (entries : List (ℕ × Float)) : descending entries = rankedBy (fun x => -totalKey x) entries := by
  simp only [descending, rankedBy, neg_lt_neg_iff, neg_inj]

theorem rankedBy_perm (key : Float → ℤ) (entries : List (ℕ × Float)) : (rankedBy key entries).Perm entries :=
  List.mergeSort_perm _ _

/-- Different answers are ranked strictly. -/
theorem rankedBy_pairwise (hkey : key.Injective) (h : Distinct entries) :
    (rankedBy key entries).Pairwise (ComesBefore key) := by
  have hsorted : (rankedBy key entries).Pairwise fun a b =>
      decide (key a.2 < key b.2 ∨ (key a.2 = key b.2 ∧ a.1 ≤ b.1)) = true := by
    refine List.pairwise_mergeSort (fun a b c hab hbc => ?_) (fun a b => ?_) entries
    · simp only [decide_eq_true_iff] at *
      omega
    · simp only [Bool.or_eq_true, decide_eq_true_iff]
      omega
  refine hsorted.imp₂ (fun a b hle hne => ?_) (h.perm (rankedBy_perm key entries))
  exact (of_decide_eq_true hle).imp_right fun ⟨heq, hindex⟩ => ⟨hkey heq, lt_of_le_of_ne hindex hne⟩

/-- There is one ranking only. -/
theorem rankedBy_unique (hkey : key.Injective) {l : List (ℕ × Float)} (h : Distinct entries) (hperm : l.Perm entries)
    (hl : l.Pairwise (ComesBefore key)) : rankedBy key entries = l :=
  ((rankedBy_perm key entries).trans hperm.symm).eq_of_pairwise (fun _ _ _ _ hab hba => absurd hba hab.asymm)
    (rankedBy_pairwise hkey h) hl

theorem totalKey_inj : Function.Injective totalKey := fun _ _ => totalKey_injective

theorem neg_totalKey_inj : Function.Injective fun x => -totalKey x := neg_injective.comp totalKey_inj

end

/-! ## The greatest weights -/

section

variable (size : ℕ) (current : Distribution Float)

theorem descending_perm : (descending current.entries).Perm current.entries :=
  descending_eq current.entries ▸ rankedBy_perm _ _

theorem descending_pairwise : (descending current.entries).Pairwise Heavier :=
  descending_eq current.entries ▸ rankedBy_pairwise neg_totalKey_inj (distinct_entries current)

/-- The answers that are kept are the first ones of the ranking. -/
theorem mostPopular_perm : (mostPopular size current).entries.Perm ((descending current.entries).take size) :=
  Distinct.ofList_perm (List.Pairwise.sublist (List.take_sublist size _)
    ((distinct_entries current).perm (descending_perm current)))

/-- As many answers as the size allows for are kept with their weights, and each of them stands before each one that is
dropped. Those that are kept for one size are kept for the next one too. -/
theorem mostPopular_best :
    (mostPopular size current).size = min size current.size ∧
    (∀ e ∈ (mostPopular size current).entries, e ∈ current.entries) ∧
    (∀ kept ∈ (mostPopular size current).entries, ∀ dropped ∈ current.entries,
      dropped ∉ (mostPopular size current).entries → Heavier kept dropped ∧ ¬kept.2 < dropped.2) ∧
    ∀ e ∈ (mostPopular size current).entries, e ∈ (mostPopular (size + 1) current).entries := by
  have hall := descending_perm current
  have hkept := mostPopular_perm size current
  have hsplit := List.take_append_drop size (descending current.entries)
  refine ⟨?_, fun e he => ?_, fun kept hk dropped hd hnot => ?_, fun e he => ?_⟩
  · rw [SortedMap.size, hkept.length_eq, List.length_take, hall.length_eq, SortedMap.size]
  · exact hall.mem_iff.1 (List.mem_of_mem_take (hkept.mem_iff.1 he))
  · rw [hkept.mem_iff] at hk hnot
    rw [← hall.mem_iff, ← hsplit, List.mem_append] at hd
    have hranked := descending_pairwise current
    rw [← hsplit, List.pairwise_append] at hranked
    have hheavier := hranked.2.2 kept hk dropped (hd.resolve_left hnot)
    exact ⟨hheavier, hheavier.not_lt⟩
  · rw [(mostPopular_perm (size + 1) current).mem_iff]
    exact List.take_subset_take_left _ (Nat.le_succ size) (hkept.mem_iff.1 he)

end

/-- Of two answers that weigh nothing the one is dropped whose zero has a sign, though its index is the lower one. -/
theorem negativeZero_dropped :
    let current : Distribution Float := SortedMap.ofList [(1, 2), (3, 2), (0, 1), (4, 0), (2, -0.0)]
    (mostPopular 4 current).lookup 4 = some 0 ∧ current.lookup 2 = some (-0.0) ∧
    (mostPopular 4 current).lookup 2 = none ∧ Heavier (4, 0) (2, -0.0) := by
  intro current
  have hranking : descending current.entries = [(1, 2), (3, 2), (0, 1), (4, 0), (2, -0.0)] := by
    rw [descending_eq]
    refine rankedBy_unique neg_totalKey_inj (distinct_entries current) (Distinct.ofList_perm ?_).symm ?_
    · unfold Distinct
      decide
    · unfold ComesBefore
      decide +kernel
  have hkept : (mostPopular 4 current).lookup 4 = some 0 := by
    rw [mostPopular, hranking]
    decide +kernel
  have hall : current.lookup 2 = some (-0.0) := by decide +kernel
  have hdropped : (mostPopular 4 current).lookup 2 = none := by
    rw [mostPopular, hranking]
    decide +kernel
  have hnot : (2, -0.0) ∉ (mostPopular 4 current).entries := fun h => by
    rw [SortedMap.lookup_eq_some_iff.2 h] at hdropped
    cases hdropped
  exact ⟨hkept, hall, hdropped, ((mostPopular_best 4 current).2.2.1 _ (SortedMap.lookup_eq_some_iff.1 hkept) _
    (SortedMap.lookup_eq_some_iff.1 hall) hnot).1⟩

/-! ## Weights along the sequence -/

/-- The terms of the sequence that begins with 1, 1 and goes on by addition. -/
def fibonacciTerm : ℕ → Float
  | 0 | 1 => 1
  | k + 2 => fibonacciTerm k + fibonacciTerm (k + 1)

/-- Terms up to 53 bits are exact. -/
theorem fibonacciTerm_hasValue : ∀ {k : ℕ}, k < 78 → HasValue (fibonacciTerm k) (Nat.fib (k + 1))
  | 0, _ | 1, _ => by
    rw [show ((Nat.fib _ : ℕ) : ℚ) = 1 by norm_num]
    exact one_hasValue
  | k + 2, h => by
    have hsum := rounds_add (fibonacciTerm_hasValue (k := k) (by omega)) (fibonacciTerm_hasValue (k := k + 1) (by omega))
    rw [← Nat.cast_add, ← Nat.fib_add_two] at hsum
    exact hsum.natCast ((Nat.fib_mono (by omega : k + 3 ≤ 78)).trans (by norm_num))

/-- Each answer gets the term of its place. -/
theorem alongSequence_getElem? : ∀ (l : List (ℕ × Float)) (n k : ℕ),
    (alongSequence (fibonacciTerm n) (fibonacciTerm (n + 1)) l)[k]? = l[k]?.map fun e => (e.1, fibonacciTerm (n + k))
  | [], _, _ => rfl
  | _ :: _, _, 0 => rfl
  | _ :: rest, n, k + 1 => by
    have ih := alongSequence_getElem? rest (n + 1) k
    rw [Nat.add_right_comm n 1 k] at ih
    exact ih

theorem alongSequence_keys : ∀ (l : List (ℕ × Float)) (a b : Float), (alongSequence a b l).map (·.1) = l.map (·.1)
  | [], _, _ => rfl
  | (index, _) :: rest, a, b => congrArg (index :: ·) (alongSequence_keys rest b (a + b))

section

variable (exclude : SortedMap ℕ Unit) (leastShare : Float) (current : Distribution Float)

theorem mem_rewarded {e : ℕ × Float} : e ∈ rewarded exclude leastShare current ↔
    e ∈ current.entries ∧ exclude.lookup e.1 = none ∧ 0.0 < Distribution.total current ∧
      leastShare ≤ e.2 / Distribution.total current := by
  simp only [rewarded, List.mem_filter, Bool.and_eq_true, Option.isNone_iff_eq_none, decide_eq_true_iff, and_assoc]

theorem distinct_rewarded : Distinct (rewarded exclude leastShare current) := (distinct_entries current).filter _

/-- What is made along a ranking of different answers has one entry for each place. -/
theorem alongSequence_perm {ranking : List (ℕ × Float)} (h : Distinct ranking) :
    (SortedMap.ofList (alongSequence 1 1 ranking)).entries.Perm (alongSequence 1 1 ranking) := by
  refine Distinct.ofList_perm (distinct_iff_nodup.2 ?_)
  rw [alongSequence_keys]
  exact distinct_iff_nodup.1 h

/-- The answers that get a weight are those that are not excluded and have enough of a positive total. Ranked from the
least weight up they get the terms of the sequence in turn: each answer one term, and each of the first terms one answer. -/
theorem fibonacciWeights_ranked :
    ∃ ranking : List (ℕ × Float),
      (∀ e, e ∈ ranking ↔ e ∈ current.entries ∧ exclude.lookup e.1 = none ∧ 0.0 < Distribution.total current ∧
        leastShare ≤ e.2 / Distribution.total current) ∧
      (ranking.Pairwise fun a b => Lighter a b ∧ ¬b.2 < a.2) ∧
      (fibonacciWeights exclude leastShare current).size = ranking.length ∧
      (∀ (k : ℕ) (e : ℕ × Float), ranking[k]? = some e →
        (fibonacciWeights exclude leastShare current).lookup e.1 = some (fibonacciTerm k)) ∧
      (∀ (i : ℕ) (x : Float), (fibonacciWeights exclude leastShare current).lookup i = some x →
        ∃! k : ℕ, ∃ w, ranking[k]? = some (i, w)) ∧
      ∀ k < 78, HasValue (fibonacciTerm k) (Nat.fib (k + 1)) := by
  have hranking := rankedBy_perm totalKey (rewarded exclude leastShare current)
  have hlighter := rankedBy_pairwise totalKey_inj (distinct_rewarded exclude leastShare current)
  have hdistinct := (distinct_rewarded exclude leastShare current).perm hranking
  rw [fibonacciWeights, ascending_eq]
  generalize rankedBy totalKey (rewarded exclude leastShare current) = ranking at *
  have hperm := alongSequence_perm hdistinct
  have hterms := alongSequence_getElem? ranking 0
  refine ⟨ranking, fun e => ?_, hlighter.imp fun h => ⟨h, h.not_gt⟩, ?_, fun k e he => ?_, fun i x hx => ?_,
    fun k => fibonacciTerm_hasValue⟩
  · rw [← mem_rewarded]
    exact hranking.mem_iff
  · rw [SortedMap.size, hperm.length_eq, ← List.length_map (·.1), alongSequence_keys, List.length_map]
  · rw [SortedMap.lookup_eq_some_iff, hperm.mem_iff]
    refine List.mem_of_getElem? ((hterms k).trans ?_)
    rw [he, Nat.zero_add]
    rfl
  · rw [SortedMap.lookup_eq_some_iff, hperm.mem_iff] at hx
    obtain ⟨k, hk⟩ := List.mem_iff_getElem?.1 hx
    obtain ⟨e, he, heq⟩ := Option.map_eq_some_iff.1 ((hterms k).symm.trans hk)
    obtain ⟨rfl, -⟩ := Prod.mk.inj heq
    exact ⟨k, ⟨e.2, he⟩, fun j ⟨w, hj⟩ => hdistinct.place_unique hj he⟩

end

end Arbiter
