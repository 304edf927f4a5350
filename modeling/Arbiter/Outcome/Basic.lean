import Arbiter.Decimal.Places
import Arbiter.SortedMap

/-!
# Outcomes

What a market can resolve to, and how a value is shown. Values are over any kind of number, so that the rules of their
arithmetic can be read both in floating point and exactly; markets hold doubles.

* `Outcome.text` shows a value with four significant figures; a distribution is shown as shares of a hundred.
-/

namespace Arbiter

/-- How a market's answers are laid out. -/
inductive OutcomeType where
  | binary
  | pseudoNumeric
  | freeResponse
  | multipleChoice
deriving DecidableEq, Repr, Inhabited

namespace OutcomeType

/-- Whether markets of this type have a list of answers and resolve to weights on them. -/
def isCategorical : OutcomeType → Bool
  | .freeResponse | .multipleChoice => true
  | .binary | .pseudoNumeric => false

/-- The name in stored records. -/
def name : OutcomeType → String
  | .binary => "BINARY"
  | .pseudoNumeric => "PSEUDO_NUMERIC"
  | .freeResponse => "FREE_RESPONSE"
  | .multipleChoice => "MULTIPLE_CHOICE"

/-- All types. -/
def all : List OutcomeType := [.binary, .pseudoNumeric, .freeResponse, .multipleChoice]

end OutcomeType

/-- Weights on answers, by the answers' indexes. They add up to a hundred by convention. -/
abbrev Distribution (ν : Type) := SortedMap Nat ν

/-- A value that a rule gives or a market resolves to. -/
inductive OutcomeValue (ν : Type) where
  | bool (b : Bool)
  | probability (p : ν)
  | numeric (x : ν)
  | distribution (weights : Distribution ν)
  /-- Every trade is undone. -/
  | cancel
deriving DecidableEq

/-- A value over doubles. -/
abbrev Outcome := OutcomeValue Float

instance : Inhabited Outcome := ⟨.cancel⟩

/-- The kinds of values. -/
inductive Variant where
  | bool
  | probability
  | numeric
  | distribution
  | cancel
deriving DecidableEq, Repr

namespace Variant

/-- The name inside messages. -/
def name : Variant → String
  | .bool => "Bool"
  | .probability => "Probability"
  | .numeric => "Numeric"
  | .distribution => "Distribution"
  | .cancel => "Cancel"

/-- The name in stored records. -/
def tag : Variant → String
  | .bool => "bool"
  | .probability => "probability"
  | .numeric => "numeric"
  | .distribution => "distribution"
  | .cancel => "cancel"

/-- All kinds. -/
def all : List Variant := [.bool, .probability, .numeric, .distribution, .cancel]

end Variant

namespace OutcomeValue

/-- The kind of a value. -/
def variant {ν : Type} : OutcomeValue ν → Variant
  | .bool _ => .bool
  | .probability _ => .probability
  | .numeric _ => .numeric
  | .distribution _ => .distribution
  | .cancel => .cancel

/-- All weight on one answer. -/
def answer {ν : Type} [OfNat ν 100] (index : Nat) : OutcomeValue ν :=
  .distribution (SortedMap.single index 100)

end OutcomeValue

/-- The sum of weights in the order of their answers. -/
def Distribution.total {ν : Type} [Add ν] [OfNat ν 0] (d : Distribution ν) : ν :=
  d.values.foldl (· + ·) 0

/-- The figures that values are shown with. -/
def shownFigures : Int := 4

/-- The value as people read it. -/
def Outcome.text : Outcome → String
  | .bool true => "YES"
  | .bool false => "NO"
  | .probability p => significantText shownFigures p ++ "%"
  | .numeric x => significantText shownFigures x
  | .distribution weights =>
    let total := Distribution.total weights
    let share (w : Float) : Float := if total > 0 then w * 100 / total else 0
    let parts := weights.entries.map fun e => toString e.1 ++ ": " ++ significantText shownFigures (share e.2) ++ "%"
    "\x7b" ++ ", ".intercalate parts ++ "\x7d"
  | .cancel => "CANCEL"

end Arbiter
