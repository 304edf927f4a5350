import Arbiter.Pass.Basic

/-!
# Whether a trigger holds

Children are visited from left to right. A conjunction stops at the first child that is false, a disjunction at the
first that is true, an agreement at the first that differs from the first child, and an implication after a false
premise; a parity needs all of them.

* `Trigger.evaluate`: whether the trigger holds, as far as the world answers.
-/

namespace Arbiter

section Connectives

variable {m : Type → Type} [Monad m]

/-- Whether all hold, up to the first that does not. -/
def allTrue : List (m Bool) → m Bool
  | [] => pure true
  | holds :: rest => do
    if ← holds then allTrue rest else pure false

/-- Whether some hold, up to the first that does. -/
def anyTrue : List (m Bool) → m Bool
  | [] => pure false
  | holds :: rest => do
    if ← holds then pure true else anyTrue rest

/-- Whether `odd` and those that hold are an odd number together. -/
def oddlyMany (odd : Bool) : List (m Bool) → m Bool
  | [] => pure odd
  | holds :: rest => do
    oddlyMany (odd ^^ (← holds)) rest

/-- Whether all give `expected`, up to the first that does not. -/
def allGive (expected : Bool) : List (m Bool) → m Bool
  | [] => pure true
  | holds :: rest => do
    if (← holds) = expected then allGive expected rest else pure false

/-- Whether all agree, up to the first that differs. -/
def allAgree : List (m Bool) → m Bool
  | [] => pure true
  | holds :: rest => do
    allGive (← holds) rest

/-- Whether the second holds, unless the first does not. -/
def impliedBy (first second : m Bool) : m Bool := do
  if ← first then second else pure true

end Connectives

namespace Trigger

variable {m : Type → Type} [Monad m]

mutual

/-- Whether the trigger holds. -/
def evaluate (p : Pass m) : Trigger → PassM m Bool
  | .atTime time => pure (decide (time ≤ p.now))
  | .thisMarketClosed time => pure ((time.or p.market.closeTime).any fun t => decide (t ≤ p.now))
  | .pullFinished pull => return (← p.pullRequest pull).state.isTerminal
  | .otherMarketClosed url => return (← p.otherMarket url).closed
  | .otherMarketResolved url => return (← p.otherMarket url).resolved
  | .not child => return !(← child.evaluate p)
  | .all children => allTrue (evaluateEach p children)
  | .both first second => allTrue [first.evaluate p, second.evaluate p]
  | .any children => anyTrue (evaluateEach p children)
  | .either first second => anyTrue [first.evaluate p, second.evaluate p]
  | .xor children => oddlyMany false (evaluateEach p children)
  | .xnor children => allAgree (evaluateEach p children)
  | .nand first second => return !(← allTrue [first.evaluate p, second.evaluate p])
  | .neither first second => return !(← anyTrue [first.evaluate p, second.evaluate p])
  | .implies first second => impliedBy (first.evaluate p) (second.evaluate p)

/-- The evaluations of several triggers, none of them begun. -/
def evaluateEach (p : Pass m) : List Trigger → List (PassM m Bool)
  | [] => []
  | r :: rest => r.evaluate p :: evaluateEach p rest

end

end Trigger

end Arbiter
