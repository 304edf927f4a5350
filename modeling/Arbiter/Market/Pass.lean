import Arbiter.Explanation.Specific
import Arbiter.Market.Basic

/-!
# Markets in a pass

* `Market.shouldResolve`: whether some trigger holds, asked in their order up to the first that does.
* `Market.resolveTo`: the value of the one value rule in the shape that the market needs.
* `Market.explainIn`: both sides explained as they came out.
-/

namespace Arbiter

variable {m : Type → Type} [Monad m]

/-- Explanations of triggers up to the first that holds; the rest is shown as skipped. -/
def explainTriggers (p : Pass m) (fired : Bool) : List Trigger → PassM m (List Line)
  | [] => pure []
  | r :: rest =>
    if fired then do
      let more ← explainTriggers p true rest
      pure (r.explainSkipped 0 ++ more)
    else do
      let (lines, value) ← r.explainIn p 0
      let more ← explainTriggers p value rest
      pure (lines ++ more)

/-- Explanations of the value rules from the one at `i` on. -/
def explainValues (p : Pass m) (i : Nat) : List ValueRule → PassM m (List Line)
  | [] => pure []
  | r :: rest => do
    let (lines, _) ← r.explainIn p [i] 0
    let more ← explainValues p (i + 1) rest
    pure (lines ++ more)

/-- The explanation of a market in a pass: why it resolves, and to what. -/
structure MarketExplanation where
  triggers : List Line
  values : List Line

/-- The explanation as it is shown. -/
def MarketExplanation.text (e : MarketExplanation) : String :=
  "Resolution triggers (any):\n" ++ renderLines e.triggers ++ "\nResolution value:\n" ++ renderLines e.values

namespace Market

/-- Whether the market should resolve now; one that has resolved should not. -/
def shouldResolve (market : Market) (p : Pass m) : PassM m Bool :=
  if p.market.isResolved then pure false else anyTrue (market.triggers.map fun r => r.evaluate p)

/-- What the market should resolve to. Several value rules without a combination of them are a fault. -/
def resolveTo (market : Market) (p : Pass m) : PassM m Outcome :=
  match market.values with
  | [r] => do PassM.ofExcept (Outcome.conform p.market (← r.evaluate p [0]))
  | rules => PassM.fail (.ambiguous rules.length)

/-- The explanation of the market as it came out in the pass. -/
def explainIn (market : Market) (p : Pass m) : PassM m MarketExplanation := do
  let triggers ← explainTriggers p false market.triggers
  let values ← explainValues p 0 market.values
  pure ⟨triggers, values⟩

end Market

end Arbiter
