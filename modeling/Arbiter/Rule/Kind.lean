/-!
# The kinds of rules

Every rule is stored under the name of its kind. A trigger says whether a market should resolve now, a value rule says
to what.
-/

namespace Arbiter

/-- The two families of rules. -/
inductive Family where
  | trigger
  | value
deriving DecidableEq, Repr

/-- The word for a family inside messages. -/
def Family.name : Family → String
  | .trigger => "trigger"
  | .value => "value"

/-- The kinds of rules. -/
inductive Kind where
  | atTime | thisMarketClosed | pullFinished | otherMarketClosed | otherMarketResolved
  | not | all | both | any | either | xor | xnor | nand | neither | implies
  | constant | currentValue | otherMarketValue | negate | sum | product | modulus | randomIndex | multipleValues
  | pullDelta | pullMerged | popular | fibonacci | round | amplifiedOdds | conditional | userProfit | userCreatedVolume
deriving DecidableEq, Repr

namespace Kind

/-- All kinds. -/
def every : List Kind :=
  [.atTime, .thisMarketClosed, .pullFinished, .otherMarketClosed, .otherMarketResolved,
    .not, .all, .both, .any, .either, .xor, .xnor, .nand, .neither, .implies,
    .constant, .currentValue, .otherMarketValue, .negate, .sum, .product, .modulus, .randomIndex, .multipleValues,
    .pullDelta, .pullMerged, .popular, .fibonacci, .round, .amplifiedOdds, .conditional, .userProfit,
    .userCreatedVolume]

/-- The name that rules of the kind are stored under. -/
def name : Kind → String
  | .atTime => "generic.ResolveAtTime"
  | .thisMarketClosed => "manifold.this.ThisMarketClosed"
  | .pullFinished => "github.ResolveWithPR"
  | .otherMarketClosed => "manifold.other.OtherMarketClosed"
  | .otherMarketResolved => "manifold.other.OtherMarketResolved"
  | .not => "generic.NotRule"
  | .all => "generic.AllRule"
  | .both => "generic.BothRule"
  | .any => "generic.AnyRule"
  | .either => "generic.EitherRule"
  | .xor => "generic.XORRule"
  | .xnor => "generic.XNORRule"
  | .nand => "generic.NANDRule"
  | .neither => "generic.NeitherRule"
  | .implies => "generic.ImpliesRule"
  | .constant => "generic.ResolveToValue"
  | .currentValue => "manifold.this.CurrentValueRule"
  | .otherMarketValue => "manifold.other.OtherMarketValue"
  | .negate => "generic.NegateRule"
  | .sum => "generic.SumRule"
  | .product => "generic.ProductRule"
  | .modulus => "generic.ModulusRule"
  | .randomIndex => "generic.ResolveRandomIndex"
  | .multipleValues => "generic.ResolveMultipleValues"
  | .pullDelta => "github.ResolveToPRDelta"
  | .pullMerged => "github.ResolveToPR"
  | .popular => "manifold.this.PopularValueRule"
  | .fibonacci => "manifold.this.FibonacciValueRule"
  | .round => "manifold.this.RoundValueRule"
  | .amplifiedOdds => "manifold.other.AmplifiedOddsRule"
  | .conditional => "generic.ConditionalRule"
  | .userProfit => "manifold.user.ResolveToUserProfit"
  | .userCreatedVolume => "manifold.user.ResolveToUserCreatedVolume"

/-- The kind of a name. -/
def ofName? (text : String) : Option Kind :=
  every.find? fun k => k.name == text

theorem mem_every (k : Kind) : k ∈ every := by
  cases k <;> decide

/-- What rules of the kind do, in one sentence. -/
def summary : Kind → String
  | .atTime => "true once the given time has passed"
  | .thisMarketClosed => "true once this market's close time (or the given override) has passed"
  | .pullFinished => "true once the pull request is merged or closed"
  | .otherMarketClosed => "true once the referenced market has closed"
  | .otherMarketResolved => "true once the referenced market has resolved"
  | .not => "inverts its child"
  | .all | .both => "true if every child is true, checked in order until one is false"
  | .any | .either => "true if any child is true, checked in order until one is true"
  | .xor => "true if an odd number of children are true"
  | .xnor => "true if every child gives the same answer"
  | .nand => "true unless both children are true"
  | .neither => "true if both children are false"
  | .implies => "true if the first child is false or the second is true"
  | .constant => "a fixed value, read in this market's outcome type"
  | .currentValue => "this market's current probability or value"
  | .otherMarketValue => "another market's resolved value, or its current value if unresolved"
  | .negate => "100 minus its child's probability"
  | .sum => "the sum of its children"
  | .product => "the product of its children"
  | .modulus => "the first child modulo each following child"
  | .randomIndex => "a random answer, optionally weighted by current probability, reproducible when seeded"
  | .multipleValues => "a weighted blend of its children"
  | .pullDelta => "days from a start date until the pull request merged, or the market maximum if it never did"
  | .pullMerged => "YES if the pull request merged, otherwise NO"
  | .popular => "the most probable answers, weighted by probability"
  | .fibonacci => "answers weighted by the Fibonacci number of their probability rank"
  | .round => "this market's current value, rounded"
  | .amplifiedOdds =>
    "another market's odds amplified by a factor; a NO there holds with probability 1/a and cancels otherwise"
  | .conditional => "cancels unless its first rule is true, otherwise the value of its second"
  | .userProfit => "a user's cached profit over the chosen period"
  | .userCreatedVolume => "the cached volume of markets a user created over the chosen period"

end Kind

end Arbiter
