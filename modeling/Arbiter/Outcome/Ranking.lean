import Arbiter.Outcome.Basic

/-!
# Answers by rank

Answers are ranked by their weights in the total order of doubles; of two with the same weight the lower index comes
first.

* `mostPopular` keeps the answers with the greatest weights.
* `fibonacciWeights` gives the answers that have enough weight the weights 1, 1, 2, 3, 5, … from the least on.
-/

namespace Arbiter

/-- The answers from the greatest weight down. -/
def descending (entries : List (Nat × Float)) : List (Nat × Float) :=
  entries.mergeSort fun a b =>
    decide (totalKey b.2 < totalKey a.2 ∨ (totalKey a.2 = totalKey b.2 ∧ a.1 ≤ b.1))

/-- The answers from the least weight up. -/
def ascending (entries : List (Nat × Float)) : List (Nat × Float) :=
  entries.mergeSort fun a b =>
    decide (totalKey a.2 < totalKey b.2 ∨ (totalKey a.2 = totalKey b.2 ∧ a.1 ≤ b.1))

/-- The answers with the greatest weights, at most `size` of them. -/
def mostPopular (size : Nat) (current : Distribution Float) : Distribution Float :=
  SortedMap.ofList ((descending current.entries).take size)

/-- The answers that are not excluded and have at least `leastShare` of the total, which counts excluded ones too. -/
def rewarded (exclude : SortedMap Nat Unit) (leastShare : Float) (current : Distribution Float) :
    List (Nat × Float) :=
  let total := Distribution.total current
  current.entries.filter fun e =>
    (exclude.lookup e.1).isNone && decide (0.0 < total) && decide (leastShare ≤ e.2 / total)

/-- The answers with the terms of the sequence that begins with `a`, `b` and goes on by addition. -/
def alongSequence (a b : Float) : List (Nat × Float) → List (Nat × Float)
  | [] => []
  | (index, _) :: rest => (index, a) :: alongSequence b (a + b) rest

/-- The answers that have enough weight, the least first, with the weights 1, 1, 2, 3, 5, …. -/
def fibonacciWeights (exclude : SortedMap Nat Unit) (leastShare : Float) (current : Distribution Float) :
    Distribution Float :=
  SortedMap.ofList (alongSequence 1 1 (ascending (rewarded exclude leastShare current)))

end Arbiter
