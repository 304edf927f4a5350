import Arbiter.Explanation.Abstract
import Arbiter.Pass.Value

/-!
# Explanations of a pass

What a rule came to in a pass: the explanation of the tree, each node that the evaluation reached marked with its value
and each that it did not reach marked as such. A reference to another market is followed by that market's question.

A trigger is explained by collecting the values of its children until they settle its own. A value rule is evaluated
as a whole, and then its children are explained in turn up to the first that cancels.

* `Trigger.explainIn`, `ValueRule.explainIn`: the lines and the value of a tree.
-/

namespace Arbiter

variable {m : Type → Type} [Monad m]

/-- A child of an explained node: the work of explaining it, and its lines in case it is not reached. -/
structure Part (m : Type → Type) (α : Type) where
  explained : PassM m (List Line × α)
  skipped : List Line

namespace Trigger

/-- Whether the values of the first children settle the node's own. -/
def settled (values : List Bool) : Trigger → Bool
  | .all _ | .both _ _ | .nand _ _ => values.getLast? == some false
  | .any _ | .either _ _ | .neither _ _ => values.getLast? == some true
  | .implies _ _ => values == [false]
  | .xnor _ => values.head? != values.getLast?
  | _ => false

/-- The node's value from those of the children that were reached. -/
def combine (values : List Bool) : Trigger → Bool
  | .not _ => !values.all id
  | .all _ | .both _ _ => values.all id
  | .any _ | .either _ _ => values.any id
  | .xor _ => values.foldl (· ^^ ·) false
  | .xnor _ => values.all fun v => some v == values.head?
  | .nand _ _ => !values.all id
  | .neither _ _ => !values.any id
  | .implies _ _ => values.head? == some false || values[1]? == some true
  | _ => values.all id

/-- The lines of the children, and the values of those that were reached. -/
def explainParts (r : Trigger) (seen : List Bool) : List (Part m Bool) → PassM m (List Line × List Bool)
  | [] => pure ([], seen)
  | part :: rest => do
    let (lines, value) ← part.explained
    let seen := seen ++ [value]
    if r.settled seen then pure (lines ++ rest.flatMap (·.skipped), seen)
    else do
      let (more, seen) ← explainParts r seen rest
      pure (lines ++ more, seen)

/-- A node with children. -/
def explainNode (r : Trigger) (depth : Nat) (parts : List (Part m Bool)) : PassM m (List Line × Bool) := do
  let (lines, values) ← explainParts r [] parts
  let value := r.combine values
  pure (⟨depth, r.phrase, none, some (.value (toString value))⟩ :: lines, value)

/-- A node without children. -/
def explainLeaf (p : Pass m) (r : Trigger) (depth : Nat) (question : Option String) : PassM m (List Line × Bool) := do
  let value ← r.evaluate p
  pure ([⟨depth, r.phrase, question, some (.value (toString value))⟩], value)

mutual

/-- The lines of the tree in a pass, and its value. -/
def explainIn (p : Pass m) (depth : Nat) : Trigger → PassM m (List Line × Bool)
  | .otherMarketClosed url => do
    explainLeaf p (.otherMarketClosed url) depth (some (← p.otherMarket url).question)
  | .otherMarketResolved url => do
    explainLeaf p (.otherMarketResolved url) depth (some (← p.otherMarket url).question)
  | .not child => explainNode (.not child) depth [⟨child.explainIn p (depth + 1), child.explainSkipped (depth + 1)⟩]
  | .all children => explainNode (.all children) depth (parts p (depth + 1) children)
  | .any children => explainNode (.any children) depth (parts p (depth + 1) children)
  | .xor children => explainNode (.xor children) depth (parts p (depth + 1) children)
  | .xnor children => explainNode (.xnor children) depth (parts p (depth + 1) children)
  | .both first second =>
    explainNode (.both first second) depth
      [⟨first.explainIn p (depth + 1), first.explainSkipped (depth + 1)⟩,
        ⟨second.explainIn p (depth + 1), second.explainSkipped (depth + 1)⟩]
  | .either first second =>
    explainNode (.either first second) depth
      [⟨first.explainIn p (depth + 1), first.explainSkipped (depth + 1)⟩,
        ⟨second.explainIn p (depth + 1), second.explainSkipped (depth + 1)⟩]
  | .nand first second =>
    explainNode (.nand first second) depth
      [⟨first.explainIn p (depth + 1), first.explainSkipped (depth + 1)⟩,
        ⟨second.explainIn p (depth + 1), second.explainSkipped (depth + 1)⟩]
  | .neither first second =>
    explainNode (.neither first second) depth
      [⟨first.explainIn p (depth + 1), first.explainSkipped (depth + 1)⟩,
        ⟨second.explainIn p (depth + 1), second.explainSkipped (depth + 1)⟩]
  | .implies first second =>
    explainNode (.implies first second) depth
      [⟨first.explainIn p (depth + 1), first.explainSkipped (depth + 1)⟩,
        ⟨second.explainIn p (depth + 1), second.explainSkipped (depth + 1)⟩]
  | .atTime time => explainLeaf p (.atTime time) depth none
  | .thisMarketClosed time => explainLeaf p (.thisMarketClosed time) depth none
  | .pullFinished pull => explainLeaf p (.pullFinished pull) depth none

/-- The children of a node, none of them explained yet. -/
def parts (p : Pass m) (depth : Nat) : List Trigger → List (Part m Bool)
  | [] => []
  | r :: rest => ⟨r.explainIn p depth, r.explainSkipped depth⟩ :: parts p depth rest

end

end Trigger

namespace ValueRule

/-- The lines of children up to the first that cancels; the rest is shown as skipped. Each child has the lines that
stand above it. -/
def explainParts (cancelled : Bool) : List (List Line × Part m Outcome) → PassM m (List Line)
  | [] => pure []
  | (above, part) :: rest =>
    if cancelled then do
      let more ← explainParts true rest
      pure (above ++ part.skipped ++ more)
    else do
      let (lines, value) ← part.explained
      let more ← explainParts (value.variant == .cancel) rest
      pure (above ++ lines ++ more)

/-- A node whose children are explained by `below` after it was evaluated. -/
def explainNode (p : Pass m) (r : ValueRule) (node : List Nat) (depth : Nat) (question : Option String)
    (below : PassM m (List Line)) : PassM m (List Line × Outcome) := do
  let value ← r.evaluate p node
  let lines ← below
  pure (⟨depth, r.phrase, question, some (.value value.text)⟩ :: (r.steps (depth + 1) ++ lines), value)

/-- The lines of a conditional: those of its premise and those of its value, which is skipped if the premise fails. -/
def explainConditional (premise : PassM m (List Line × Bool)) (value : Part m Outcome) : PassM m (List Line) := do
  let (lines, holds) ← premise
  if holds then do
    let (more, _) ← value.explained
    pure (lines ++ more)
  else pure (lines ++ value.skipped)

mutual

/-- The lines of the tree in a pass, and its value. -/
def explainIn (p : Pass m) (node : List Nat) (depth : Nat) : ValueRule → PassM m (List Line × Outcome)
  | .otherMarketValue url => do
    let reference ← p.otherMarket url
    explainNode p (.otherMarketValue url) node depth (some reference.question) (pure [])
  | .amplifiedOdds url a seed => do
    let reference ← p.otherMarket url
    explainNode p (.amplifiedOdds url a seed) node depth (some reference.question) (pure [])
  | .negate child =>
    explainNode p (.negate child) node depth none
      (explainParts false [([], ⟨child.explainIn p (0 :: node) (depth + 1), child.explainSkipped (depth + 1)⟩)])
  | .sum children =>
    explainNode p (.sum children) node depth none (explainParts false (parts p node (depth + 1) 0 children))
  | .product children =>
    explainNode p (.product children) node depth none (explainParts false (parts p node (depth + 1) 0 children))
  | .modulus children =>
    explainNode p (.modulus children) node depth none (explainParts false (parts p node (depth + 1) 0 children))
  | .multipleValues shares =>
    explainNode p (.multipleValues shares) node depth none (explainParts false (shareParts p node (depth + 1) 0 shares))
  | .conditional premise value =>
    explainNode p (.conditional premise value) node depth none
      (explainConditional (premise.explainIn p (depth + 1))
        ⟨value.explainIn p (0 :: node) (depth + 1), value.explainSkipped (depth + 1)⟩)
  | .constant c => explainNode p (.constant c) node depth none (pure [])
  | .currentValue => explainNode p .currentValue node depth none (pure [])
  | .randomIndex answer => explainNode p (.randomIndex answer) node depth none (pure [])
  | .pullDelta pull start => explainNode p (.pullDelta pull start) node depth none (pure [])
  | .pullMerged pull => explainNode p (.pullMerged pull) node depth none (pure [])
  | .popular size => explainNode p (.popular size) node depth none (pure [])
  | .fibonacci exclude leastShare => explainNode p (.fibonacci exclude leastShare) node depth none (pure [])
  | .round => explainNode p .round node depth none (pure [])
  | .userStat user metric period => explainNode p (.userStat user metric period) node depth none (pure [])

/-- The children of a node from the one at `i` on, none of them explained yet. -/
def parts (p : Pass m) (node : List Nat) (depth i : Nat) : List ValueRule → List (List Line × Part m Outcome)
  | [] => []
  | r :: rest =>
    ([], ⟨r.explainIn p (i :: node) depth, r.explainSkipped depth⟩) :: parts p node depth (i + 1) rest

/-- The shares of a weighted union from the one at `i` on, each below its weight. -/
def shareParts (p : Pass m) (node : List Nat) (depth i : Nat) :
    List (Float × ValueRule) → List (List Line × Part m Outcome)
  | [] => []
  | (weight, r) :: rest =>
    ([shareLine depth weight], ⟨r.explainIn p (i :: node) (depth + 1), r.explainSkipped (depth + 1)⟩)
      :: shareParts p node depth (i + 1) rest

end

end ValueRule

end Arbiter
