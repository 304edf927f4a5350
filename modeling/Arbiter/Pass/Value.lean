import Arbiter.Outcome.Combine
import Arbiter.Outcome.Odds
import Arbiter.Outcome.Ranking
import Arbiter.Pass.Trigger

/-!
# The value of a rule

Children are visited from left to right. A combination ends at the first child that cancels or does not fit the ones
before it; the children after that one are not visited.

* `ValueRule.evaluate`: the value, not yet in the shape that the market needs.
-/

namespace Arbiter

section Combinations

variable {m : Type → Type} [Monad m]

/-- The values joined one by one, up to the first that cancels. -/
def joinAll (op : Float → Float → Except RuleFault Float) (sofar : Option Outcome) :
    List (PassM m Outcome) → PassM m Outcome
  | [] =>
    match sofar with
    | some value => pure value
    | none => PassM.fail (.value .noOperands)
  | work :: rest => do
    match ← work with
    | .cancel => pure .cancel
    | next => joinAll op (some (← PassM.ofExcept (joinScalar op sofar next))) rest

section

variable {ν : Type} [Add ν] [Mul ν] [Div ν] [LE ν] [DecidableLE ν] [OfNat ν 0] [OfNat ν 100]

/-- The shares added one by one, up to the first that cancels. -/
def blendAll (count : Nat) (total : ν) (sofar : Blend ν) :
    List (ν × PassM m (OutcomeValue ν)) → PassM m (OutcomeValue ν)
  | [] => PassM.ofExcept sofar.result
  | (weight, work) :: rest => do
    match ← work with
    | .cancel => pure .cancel
    | next => blendAll count total (← PassM.ofExcept (sofar.add count (weight / total) next)) rest

/-- The weighted union of values over `count` answers. -/
def blend (count : Nat) (shares : List (ν × PassM m (OutcomeValue ν))) : PassM m (OutcomeValue ν) := do
  let total ← PassM.ofExcept (shareTotal (shares.map (·.1)))
  blendAll count total .nothing shares

end

end Combinations

namespace Pass

variable {m : Type → Type} [Monad m]

/-- Weights that add up to a hundred, as a value. -/
def scaled (weights : Distribution Float) : PassM m Outcome :=
  match Distribution.normalize weights with
  | .ok d => pure (.distribution d)
  | .error fault => PassM.fail (.value fault)

/-- An answer by chance. -/
def randomAnswer (p : Pass m) (node : List Nat) (answer : RandomAnswer) : PassM m Outcome := do
  if !p.market.outcomeType.isCategorical then
    PassM.fail (.mismatch .categoricalMarket (.outcomeType p.market.outcomeType))
  else
    let candidates := answer.candidates p.market.answers.length
    if candidates.isEmpty then PassM.fail (.value (.noAnswers answer.start))
    else
      let weights ← if answer.weighted then do
          let current ← p.currentDistribution
          pure (candidates.map fun index => (current.lookup index).getD 0)
        else pure (candidates.map fun _ => (1 : Float))
      let g ← p.generator node answer.seed
      match Weighted.pick weights g with
      | .ok (offset, _) => pure (.answer (answer.start + offset))
      | .error .overflow => throw .crash
      | .error fault => PassM.fail (.value (.undrawable weights fault))

/-- The number of seconds of a day. -/
def secondsPerDay : Float := 86400.0

/-- Days from `start` until a pull request was merged; the market's greatest value if it is not. -/
def pullDelta (p : Pass m) (pull : PullRef) (start : Instant) : PassM m Outcome := do
  if p.market.outcomeType ≠ .pseudoNumeric then
    PassM.fail (.mismatch (.outcomeType .pseudoNumeric) (.outcomeType p.market.outcomeType))
  else
    match p.market.maxValue with
    | none => PassM.fail (.market .noMaxValue)
    | some greatest =>
      let request ← p.pullRequest pull
      match request.state, request.mergedAt with
      | .merged, some time => pure (.numeric (floatOfInt (time.secondsSince start) / secondsPerDay))
      | _, _ => pure (.numeric greatest)

/-- The market's present value rounded. -/
def roundedValue (p : Pass m) : PassM m Outcome := do
  match ← p.currentValue with
  | .probability x => pure (.probability (if 50 < x then 100 else 0))
  | .numeric x => pure (.numeric (roundFloat x))
  | other => PassM.fail (.mismatch (.either .probability .numeric) (.variant other.variant))

/-- Another market's odds amplified. -/
def amplified (p : Pass m) (node : List Nat) (url : String) (a : Nat) (seed : Option Seed) : PassM m Outcome := do
  let reference ← p.otherMarket url
  match ← PassM.ofExcept (amplifiedOdds reference.resolved reference.value a) with
  | .settled value => pure value
  | .drawn chance =>
    let g ← p.generator node seed
    pure (Odds.decide chance g.unit.1)

/-- What is left of a hundred, or the opposite truth value. -/
def opposite : Outcome → PassM m Outcome
  | .cancel => pure .cancel
  | .probability x => pure (.probability (100 - x))
  | .bool b => pure (.bool !b)
  | other => PassM.fail (.mismatch (.either .probability .bool) (.variant other.variant))

end Pass

namespace ValueRule

variable {m : Type → Type} [Monad m]

mutual

/-- The value of the rule at a node of its market's rules. -/
def evaluate (p : Pass m) (node : List Nat) : ValueRule → PassM m Outcome
  | .constant c => PassM.ofExcept (c.interpret p.market)
  | .currentValue => p.currentValue
  | .otherMarketValue url => return (← p.otherMarket url).value
  | .negate child => do Pass.opposite (← child.evaluate p (0 :: node))
  | .sum children => joinAll (fun a b => .ok (a + b)) none (evaluateEach p node 0 children)
  | .product children => joinAll (fun a b => .ok (a * b)) none (evaluateEach p node 0 children)
  | .modulus children => joinAll flooredRemainder none (evaluateEach p node 0 children)
  | .randomIndex answer => p.randomAnswer node answer
  | .multipleValues shares => blend p.market.answers.length (evaluateShares p node 0 shares)
  | .pullDelta pull start => p.pullDelta pull start
  | .pullMerged pull => return .bool ((← p.pullRequest pull).state == .merged)
  | .popular size => do Pass.scaled (mostPopular size (← p.currentDistribution))
  | .fibonacci exclude leastShare => do Pass.scaled (fibonacciWeights exclude leastShare (← p.currentDistribution))
  | .round => p.roundedValue
  | .amplifiedOdds url a seed => p.amplified node url a seed
  | .conditional premise value => do
    if ← premise.evaluate p then value.evaluate p (0 :: node) else pure .cancel
  | .userStat user metric period => return .numeric ((metric.stats (← p.user user)).get period)

/-- The evaluations of several children from the one at `i` on, none of them begun. -/
def evaluateEach (p : Pass m) (node : List Nat) (i : Nat) : List ValueRule → List (PassM m Outcome)
  | [] => []
  | r :: rest => r.evaluate p (i :: node) :: evaluateEach p node (i + 1) rest

/-- The evaluations of weighted children from the one at `i` on, none of them begun. -/
def evaluateShares (p : Pass m) (node : List Nat) (i : Nat) :
    List (Float × ValueRule) → List (Float × PassM m Outcome)
  | [] => []
  | (weight, r) :: rest => (weight, r.evaluate p (i :: node)) :: evaluateShares p node (i + 1) rest

end

end ValueRule

end Arbiter
