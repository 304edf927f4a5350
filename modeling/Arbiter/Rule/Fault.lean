import Arbiter.Chance.Weighted
import Arbiter.Constant
import Arbiter.Rule.Kind
import Arbiter.Text.Quoted

/-!
# What can go wrong with rules

Faults are causes; `message` gives each its wording.

* `ReadFault`: the outside world did not answer.
* `ArgumentFault`: a stored rule cannot be read.
* `RuleFault`: a rule cannot be read or evaluated, or a market cannot be managed.
-/

namespace Arbiter

/-- Why a read of the outside world failed. -/
inductive ReadFault where
  | request (text : String)
  | notFound (text : String)
  | unexpected (text : String)
deriving DecidableEq, Repr

/-- The wording of a failed read. -/
def ReadFault.message : ReadFault → String
  | .request text => "Request failed: " ++ text
  | .notFound text => "Not found: " ++ text
  | .unexpected text => "Unexpected response: " ++ text

/-- What an argument has to be. -/
inductive Requirement where
  | text
  | natural
  | truth
  | number
  | timestamp
  | rules
  | atLeastOne
  | indexes
  | weightedRules
  | period
deriving DecidableEq, Repr

/-- The wording of a requirement. -/
def Requirement.message : Requirement → String
  | .text => "a string"
  | .natural => "a non-negative integer"
  | .truth => "a boolean"
  | .number => "a number"
  | .timestamp => "an RFC 3339 timestamp"
  | .rules => "a list of rules"
  | .atLeastOne => "at least 1"
  | .indexes => "a list of answer indexes"
  | .weightedRules => "a list of [rule, weight] pairs"
  | .period => "one of allTime, daily, weekly, monthly"

/-- Why a stored rule cannot be read. -/
inductive ArgumentFault where
  /-- The value is no pair of a kind and arguments. -/
  | notRule (found : Json)
  /-- The arguments are no object. -/
  | notObject (found : Json)
  | missing (name : String)
  | unfit (name : String) (required : Requirement)
  /-- The value of an argument, or an item of it, is no pair of a kind and arguments. -/
  | childNotRule (name : String) (found : Json)
  /-- A child belongs to the other family. -/
  | childFamily (name : String) (expected : Family) (found : Family) (kind : Kind)
  /-- The rule itself belongs to the other family. -/
  | family (expected found : Family)
  | seed
  | constant (found : Json)
  | answerIndex (key : String)
  | answerWeight (index : Nat)
  | fewChildren (count : Nat)
  | noShares
  | shareWeight (weight : Float)

/-- The wording of a fault in arguments. -/
def ArgumentFault.message : ArgumentFault → String
  | .notRule found => "expected [kind, args], got " ++ found.sortedText
  | .notObject found => "arguments must be an object, got " ++ found.sortedText
  | .missing name => "missing `" ++ name ++ "`"
  | .unfit name required => "`" ++ name ++ "` must be " ++ required.message
  | .childNotRule name found => "`" ++ name ++ "`: expected [kind, args], got " ++ found.sortedText
  | .childFamily name expected found kind =>
    "`" ++ name ++ "` expects a " ++ expected.name ++ " rule, found " ++ found.name ++ " rule " ++ kind.name
  | .family expected found => "expected a " ++ expected.name ++ " rule, found a " ++ found.name ++ " rule"
  | .seed => "seed must be a non-negative integer or a string"
  | .constant found => "unsupported constant " ++ found.sortedText
  | .answerIndex key => "answer index " ++ quoted key ++ " is not an integer"
  | .answerWeight index => "weight for answer " ++ toString index ++ " must be a non-negative number"
  | .fewChildren count => "needs at least two child rules, got " ++ toString count
  | .noShares => "needs at least one share"
  | .shareWeight weight => "share weight " ++ plainText weight ++ " must be a non-negative number"

/-- What a value should have been. -/
inductive Expectation where
  | answerIndex
  | outcomeType (t : OutcomeType)
  | answersBelow (count : Nat)
  | categoricalMarket
  | variant (v : Variant)
  | either (v w : Variant)
deriving DecidableEq, Repr

/-- The wording of an expectation. -/
def Expectation.message : Expectation → String
  | .answerIndex => "answer index"
  | .outcomeType t => t.name
  | .answersBelow count => "distribution over " ++ toString count ++ " answers"
  | .categoricalMarket => "categorical market"
  | .variant v => v.name
  | .either v w => v.name ++ " or " ++ w.name

/-- What a value was. -/
inductive Finding where
  | number (x : Float)
  | constant (c : Constant)
  | outcomeType (t : OutcomeType)
  | answerIndex (index : Nat)
  | variant (v : Variant)
deriving DecidableEq

/-- The wording of a finding. -/
def Finding.message : Finding → String
  | .number x => plainText x
  | .constant c => c.text
  | .outcomeType t => t.name
  | .answerIndex index => "answer index " ++ toString index
  | .variant v => v.name

/-- Why a value cannot be computed or used. -/
inductive ValueFault where
  | probabilityOutside (p : Float)
  | noWeight
  | noOperands
  | nothingToBlend
  | zeroShares
  | zeroModulus (a : Float)
  | noAnswers (start : Nat)
  | noAmplification
  | undrawable (weights : List Float) (fault : WeightFault)
deriving DecidableEq

/-- The wording of a fault in weights. -/
def WeightFault.message : WeightFault → String
  | .empty => "No weights provided in distribution"
  | .invalid => "A weight is invalid in distribution"
  | .allZero => "All weights are zero in distribution"
  | .overflow => "The weights exceed the range of numbers"

/-- The wording of a fault in a value. -/
def ValueFault.message : ValueFault → String
  | .probabilityOutside p => "probability " ++ plainText p ++ " outside 0-100"
  | .noWeight => "distribution has no weight"
  | .noOperands => "no operands"
  | .nothingToBlend => "nothing to blend"
  | .zeroShares => "share weights sum to zero"
  | .zeroModulus a => plainText a ++ " mod 0"
  | .noAnswers start => "no answers at or after index " ++ toString start
  | .noAmplification => "amplification must be at least 1"
  | .undrawable weights fault =>
    "cannot sample from weights [" ++ ", ".intercalate (weights.map pointedText) ++ "]: " ++ fault.message

/-- Why a market cannot be managed or created. -/
inductive MarketFault where
  | noTriggers
  | noValues
  | checkRate (rate : Float)
  | noMaxValue
  | bounds
  | fewAnswers
  | initialValuesType (t : OutcomeType)
  | initialValue (answer : String)
  | unknownAnswer (answer : String)
deriving DecidableEq

/-- The wording of a fault in a market. -/
def MarketFault.message : MarketFault → String
  | .noTriggers => "at least one trigger rule is required"
  | .noValues => "at least one value rule is required"
  | .checkRate rate => "check rate must be a non-negative number of hours, got " ++ plainText rate
  | .noMaxValue => "numeric market has no max value"
  | .bounds => "numeric markets need min_value < max_value"
  | .fewAnswers => "multiple choice markets need at least two answers"
  | .initialValuesType t => "initial values only apply to categorical markets, not " ++ t.name
  | .initialValue answer => "initial value for " ++ quoted answer ++ " must be positive"
  | .unknownAnswer answer => quoted answer ++ " is not one of the answers"

/-- Why a rule cannot be read or evaluated, or a market not be managed. -/
inductive RuleFault where
  | unknownKind (name : String)
  /-- A stored rule cannot be read; without a kind, because it is no pair of a kind and arguments. -/
  | malformed (kind : Option Kind) (fault : ArgumentFault)
  | mismatch (expected : Expectation) (found : Finding)
  /-- There are several value rules and nothing says how to combine them. -/
  | ambiguous (count : Nat)
  | read (fault : ReadFault)
  | value (fault : ValueFault)
  | market (fault : MarketFault)

/-- The wording of a fault. -/
def RuleFault.message : RuleFault → String
  | .unknownKind name => "Unknown rule kind: " ++ name
  | .malformed kind fault =>
    "Malformed arguments for " ++ (kind.map Kind.name).getD "rule" ++ ": " ++ fault.message
  | .mismatch expected found => "Type mismatch: expected " ++ expected.message ++ ", got " ++ found.message
  | .ambiguous count =>
    "Ambiguous resolution: " ++ toString count ++ " top-level value rules without a combinator"
  | .read fault => "Accessor failure: " ++ fault.message
  | .value fault => "Invalid value: " ++ fault.message
  | .market fault => "Invalid market: " ++ fault.message

end Arbiter
