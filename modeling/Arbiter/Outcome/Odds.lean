import Arbiter.Outcome.Conform

/-!
# Amplified odds

The odds of a reference market scaled up by a factor. While the reference is open its probability `p` becomes
`p / (p + (1 - p) / a)`. Once it has resolved YES, so does this one; once it has resolved NO, this one resolves NO with
chance `1 / a` and cancels otherwise.

* `Odds.ofReference`: what the reference says, and whether chance has to decide.
* `Odds.decide`: what becomes of it with a number drawn from `[0, 1)`.
-/

namespace Arbiter

/-- What a reference market's odds come to. -/
inductive Odds (ν : Type) where
  | settled (value : OutcomeValue ν)
  /-- NO if a drawn number is below the chance. -/
  | drawn (chance : ν)

namespace Odds

variable {ν : Type}

/-- The probability `p` of `[0, 1]` amplified by `a`, as a percentage. -/
def amplify [Add ν] [Sub ν] [Mul ν] [Div ν] [OfNat ν 1] [OfNat ν 100] (p a : ν) : ν :=
  p / (p + (1 - p) / a) * 100

/-- What a probability of the reference comes to. -/
def ofProbability [Add ν] [Sub ν] [Mul ν] [Div ν] [LE ν] [DecidableLE ν] [OfNat ν 0] [OfNat ν 1] [OfNat ν 100]
    (resolved : Bool) (p a : ν) : Odds ν :=
  if resolved && decide (1 ≤ p) then .settled (.bool true)
  else if resolved && decide (p ≤ 0) then .drawn (1 / a)
  else .settled (.probability (amplify p a))

/-- What the value of the reference comes to. -/
def ofReference [Add ν] [Sub ν] [Mul ν] [Div ν] [LE ν] [DecidableLE ν] [OfNat ν 0] [OfNat ν 1] [OfNat ν 100]
    (resolved : Bool) (value : OutcomeValue ν) (a : ν) : Except RuleFault (Odds ν) :=
  match value with
  | .cancel => .ok (.settled .cancel)
  | .bool true => .ok (ofProbability resolved 1 a)
  | .bool false => .ok (ofProbability resolved 0 a)
  | .probability p => .ok (ofProbability resolved (p / 100) a)
  | other => .error (.mismatch (.variant .probability) (.variant other.variant))

/-- NO below the chance, and no outcome otherwise. -/
def decide [LT ν] [DecidableLT ν] (chance draw : ν) : OutcomeValue ν :=
  if draw < chance then .bool false else .cancel

end Odds

/-- The odds of a reference amplified by a natural number, which has to be at least one. -/
def amplifiedOdds (resolved : Bool) (value : Outcome) (a : Nat) : Except RuleFault (Odds Float) :=
  if a = 0 then .error (.value .noAmplification) else Odds.ofReference resolved value (floatOfInt a)

end Arbiter
