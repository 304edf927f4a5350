import Arbiter.Rule.Basic

/-!
# Where chance decides

A rule that draws without a seed of its own draws with one that belongs to its node. Nodes are paths, so no two of them
share a seed.

* `ValueRule.drawing`: the nodes of a tree that draw without a seed of their own.
* `ValueRule.eq_of_suffix`: no path lies below two children of one node.
-/

namespace Arbiter

namespace ValueRule

mutual

/-- The nodes that draw without a seed of their own, in a tree whose root is at a node. -/
def drawing (node : List Nat) : ValueRule → List (List Nat)
  | .randomIndex answer => if answer.seed.isNone then [node] else []
  | .amplifiedOdds _ _ seed => if seed.isNone then [node] else []
  | .negate child => child.drawing (0 :: node)
  | .sum children | .product children | .modulus children => drawingEach node 0 children
  | .multipleValues shares => drawingShares node 0 shares
  | .conditional _ value => value.drawing (0 :: node)
  | .constant _ | .currentValue | .otherMarketValue _ | .pullDelta _ _ | .pullMerged _ | .popular _ | .fibonacci _ _
  | .round | .userStat _ _ _ => []

/-- Such nodes in several children from the one at `i` on. -/
def drawingEach (node : List Nat) (i : Nat) : List ValueRule → List (List Nat)
  | [] => []
  | r :: rest => r.drawing (i :: node) ++ drawingEach node (i + 1) rest

/-- Such nodes in the rules of a weighted union from the one at `i` on. -/
def drawingShares (node : List Nat) (i : Nat) : List (Float × ValueRule) → List (List Nat)
  | [] => []
  | (_, r) :: rest => r.drawing (i :: node) ++ drawingShares node (i + 1) rest

end

/-! ## Paths -/

/-- A path below one child is not below another one. -/
theorem eq_of_suffix {node path : List Nat} {i j : Nat} (hi : (i :: node) <:+ path) (hj : (j :: node) <:+ path) :
    i = j := by
  have hlen : (i :: node).length = (j :: node).length := rfl
  have heq : i :: node = j :: node := (List.suffix_of_suffix_length_le hi hj (Nat.le_of_eq hlen)).eq_of_length hlen
  exact (List.cons.inj heq).1

end ValueRule

end Arbiter
