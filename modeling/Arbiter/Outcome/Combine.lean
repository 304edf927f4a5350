import Arbiter.Outcome.Conform

/-!
# Combining values

One step of each combination of several values, taken from left to right. A value that cancels ends a combination and
never comes to these steps.

* `joinScalar`: probabilities with probabilities, numbers with numbers.
* `Blend.add`: one more share of a weighted union.
-/

namespace Arbiter

/-- The remainder on the side of the divisor. -/
def flooredRemainder (a b : Float) : Except RuleFault Float :=
  if b == 0.0 then .error (.value (.zeroModulus a)) else .ok (a - b * floorFloat (a / b))

section Generic

variable {ν : Type}

/-- The value so far with one more. All have to be of one kind, and that kind a probability or a number. -/
def joinScalar (op : ν → ν → Except RuleFault ν) (sofar : Option (OutcomeValue ν)) (next : OutcomeValue ν) :
    Except RuleFault (OutcomeValue ν) :=
  match sofar, next with
  | none, .probability p => .ok (.probability p)
  | none, .numeric x => .ok (.numeric x)
  | none, other => .error (.mismatch (.either .probability .numeric) (.variant other.variant))
  | some (.probability p), .probability q => .probability <$> op p q
  | some (.numeric x), .numeric y => .numeric <$> op x y
  | some current, other => .error (.mismatch (.variant current.variant) (.variant other.variant))

/-- What a weighted union holds so far. -/
inductive Blend (ν : Type) where
  | nothing
  | probability (sum : ν)
  | distribution (mixed : Distribution ν)

namespace Blend

variable [Add ν] [Mul ν] [Div ν] [LE ν] [DecidableLE ν] [OfNat ν 0] [OfNat ν 100]

/-- The weights with a fraction of further ones, answer by answer. -/
def mix (mixed : Distribution ν) (fraction : ν) (weights : Distribution ν) : Distribution ν :=
  weights.entries.foldl (fun m e => m.alter e.1 fun old => old.getD 0 + e.2 * fraction) mixed

/-- The weights with a fraction of a distribution over `count` answers, which is scaled to a hundred first. -/
def mixScaled (count : Nat) (mixed : Distribution ν) (fraction : ν) (weights : Distribution ν) :
    Except RuleFault (Blend ν) := do
  Distribution.checkAnswers weights count
  match Distribution.normalize weights with
  | .ok scaled => .ok (.distribution (mix mixed fraction scaled))
  | .error fault => .error (.value fault)

/-- A truth value as a probability. -/
def asProbability : OutcomeValue ν → OutcomeValue ν
  | .bool b => .probability (certainty b)
  | other => other

/-- One more share. -/
def add (count : Nat) (fraction : ν) (sofar : Blend ν) (next : OutcomeValue ν) : Except RuleFault (Blend ν) :=
  match sofar, asProbability next with
  | nothing, .probability p => .ok (.probability (p * fraction))
  | probability sum, .probability p => .ok (.probability (sum + p * fraction))
  | nothing, .distribution weights => mixScaled count SortedMap.empty fraction weights
  | distribution mixed, .distribution weights => mixScaled count mixed fraction weights
  | probability _, other => .error (.mismatch (.variant .probability) (.variant other.variant))
  | distribution _, other => .error (.mismatch (.variant .distribution) (.variant other.variant))
  | nothing, other => .error (.mismatch (.either .probability .distribution) (.variant other.variant))

omit [Add ν] [Mul ν] [Div ν] [LE ν] [DecidableLE ν] [OfNat ν 0] [OfNat ν 100] in
/-- The union of all shares. -/
def result : Blend ν → Except RuleFault (OutcomeValue ν)
  | probability p => .ok (.probability p)
  | distribution mixed => .ok (.distribution mixed)
  | nothing => .error (.value .nothingToBlend)

end Blend

/-- The sum of all shares, if it is positive. -/
def shareTotal [Add ν] [LE ν] [DecidableLE ν] [OfNat ν 0] (shares : List ν) : Except RuleFault ν :=
  let total := shares.foldl (· + ·) 0
  if total ≤ 0 then .error (.value .zeroShares) else .ok total

end Generic

end Arbiter
