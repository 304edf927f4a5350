import Arbiter.Rule.Fault
import Arbiter.Snapshot

/-!
# Values that fit a market

* `Distribution.normalize` scales weights so that they add up to a hundred.
* `Constant.interpret` reads a constant in the shape that a market resolves to.
* `Outcome.conform` is the last check before a value is proposed: its shape is the market's, a probability lies between
  0 and 100, a number is moved into the market's bounds, and weights name existing answers and add up to a hundred.
-/

namespace Arbiter

/-- The weights scaled so that they add up to a hundred. -/
def Distribution.normalize {ν : Type} [Add ν] [Mul ν] [Div ν] [LE ν] [DecidableLE ν] [OfNat ν 0] [OfNat ν 100]
    (d : Distribution ν) : Except ValueFault (Distribution ν) :=
  let total := Distribution.total d
  if total ≤ 0 then .error .noWeight else .ok (SortedMap.mapValues (fun w => w * 100 / total) d)

/-- The first answer with a weight that a market with `count` answers does not have. -/
def Distribution.unknownAnswer? {ν : Type} (d : Distribution ν) (count : Nat) : Option Nat :=
  (SortedMap.keys d).find? fun index => decide (count ≤ index)

/-- Fails if a weight belongs to an answer that the market does not have. -/
def Distribution.checkAnswers {ν : Type} (d : Distribution ν) (count : Nat) : Except RuleFault Unit :=
  match Distribution.unknownAnswer? d count with
  | some index => .error (.mismatch (.answersBelow count) (.answerIndex index))
  | none => .ok ()

/-- The percentage of a truth value. -/
def certainty {ν : Type} [OfNat ν 0] [OfNat ν 100] (b : Bool) : ν :=
  if b then 100 else 0

namespace Constant

/-- The constant in the shape that the market resolves to. -/
def interpret (market : Snapshot) : Constant → Except RuleFault Outcome
  | .cancel => .ok .cancel
  | .bool b =>
    if market.outcomeType = .binary then .ok (.bool b)
    else .error (.mismatch (.outcomeType market.outcomeType) (.constant (.bool b)))
  | .number x =>
    match market.outcomeType with
    | .binary => .ok (.probability x)
    | .pseudoNumeric => .ok (.numeric x)
    | .freeResponse | .multipleChoice =>
      if !isIntegral x || decide (x < 0.0) then .error (.mismatch .answerIndex (.number x))
      else .ok (.answer (toWord64Saturating x))
  | .distribution weights =>
    if market.outcomeType.isCategorical then .ok (.distribution weights)
    else .error (.mismatch (.outcomeType market.outcomeType) (.constant (.distribution weights)))

end Constant

/-- A value in the shape that the market resolves to, ready to be proposed. -/
def Outcome.conform (market : Snapshot) (value : Outcome) : Except RuleFault Outcome :=
  match market.outcomeType, value with
  | _, .cancel => .ok .cancel
  | .binary, .bool b => .ok (.probability (certainty b))
  | .binary, .probability p =>
    if 0.0 ≤ p ∧ p ≤ 100.0 then .ok (.probability p) else .error (.value (.probabilityOutside p))
  | .pseudoNumeric, .numeric x =>
    let lower := market.minValue.getD (-1.0 / 0.0)
    let upper := market.maxValue.getD (1.0 / 0.0)
    .ok (.numeric (floatMin (floatMax x lower) upper))
  | .freeResponse, .distribution weights | .multipleChoice, .distribution weights => do
    Distribution.checkAnswers weights market.answers.length
    match Distribution.normalize weights with
    | .ok scaled => .ok (.distribution scaled)
    | .error fault => .error (.value fault)
  | t, other => .error (.mismatch (.outcomeType t) (.variant other.variant))

end Arbiter
