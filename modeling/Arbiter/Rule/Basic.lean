import Arbiter.Chance.Generator
import Arbiter.Constant
import Arbiter.Rule.Kind
import Arbiter.Snapshot

/-!
# Rules

A market carries trees of two families: a `Trigger` says whether it should resolve now, a `ValueRule` says to what.

* `Trigger.children`, `ValueRule.children`: the direct children of the node's own family.
* `Rule.kinds`: the kinds of all nodes of a tree, each once, in the order in which a depth-first walk meets them.
-/

namespace Arbiter

/-- What a reproducible draw starts from. -/
inductive Seed where
  | number (n : Nat)
  | text (s : String)
deriving DecidableEq, Repr

namespace Seed

/-- The generator that a seed starts. -/
def generator : Seed → Generator
  | .number n => Generator.ofNumber (UInt64.ofNat n)
  | .text s => Generator.ofText s

/-- The seed as it is stored. -/
def toJson : Seed → Json
  | .number n => .nat n
  | .text s => .string s

end Seed

/-- One answer by chance, among those from `start` on and, with a limit, among the first few of them. -/
structure RandomAnswer where
  start : Nat
  limit : Option Nat
  /-- Whether the current weights of the answers count. -/
  weighted : Bool
  seed : Option Seed
deriving DecidableEq, Repr

namespace RandomAnswer

/-- Where the window ends in a market with `count` answers; never before it starts. A sum of start and limit beyond a word
stays at the greatest word. -/
def stop (r : RandomAnswer) (count : Nat) : Nat :=
  let stop := match r.limit with
    | some limit => min (min (r.start + limit) word64Max) count
    | none => count
  max stop r.start

/-- The answers of the window, ascending. -/
def candidates (r : RandomAnswer) (count : Nat) : List Nat :=
  List.range' r.start (r.stop count - r.start)

theorem mem_candidates {r : RandomAnswer} {count i : Nat} :
    i ∈ r.candidates count ↔
      r.start ≤ i ∧ i < count ∧ ∀ limit, r.limit = some limit → i < min (r.start + limit) word64Max := by
  rw [candidates, List.mem_range'_1, stop]
  cases r.limit with
  | none => simp; omega
  | some limit => simp; omega

end RandomAnswer

/-- Which statistic of a user counts. -/
inductive UserMetric where
  | profit
  | createdVolume
deriving DecidableEq, Repr

namespace UserMetric

/-- The statistic in an explanation. -/
def phrase : UserMetric → String
  | .profit => "profit of"
  | .createdVolume => "market volume created by"

/-- The table of a user that holds the statistic. -/
def stats (metric : UserMetric) (user : UserStats) : PeriodStats :=
  match metric with
  | .profit => user.profit
  | .createdVolume => user.createdVolume

end UserMetric

/-- Says whether a market should resolve now. -/
inductive Trigger where
  | atTime (time : Instant)
  /-- The market's own close time, or another one in its place. -/
  | thisMarketClosed (time : Option Instant)
  /-- A pull request is merged or closed. -/
  | pullFinished (pull : PullRef)
  | otherMarketClosed (url : String)
  | otherMarketResolved (url : String)
  | not (child : Trigger)
  | all (children : List Trigger)
  | both (first second : Trigger)
  | any (children : List Trigger)
  | either (first second : Trigger)
  /-- An odd number of children hold. -/
  | xor (children : List Trigger)
  /-- All children agree. -/
  | xnor (children : List Trigger)
  | nand (first second : Trigger)
  | neither (first second : Trigger)
  | implies (first second : Trigger)
deriving Inhabited

/-- Says to what a market should resolve. -/
inductive ValueRule where
  | constant (c : Constant)
  | currentValue
  | otherMarketValue (url : String)
  | negate (child : ValueRule)
  | sum (children : List ValueRule)
  | product (children : List ValueRule)
  /-- The first child modulo each of the others in turn. -/
  | modulus (children : List ValueRule)
  | randomIndex (answer : RandomAnswer)
  /-- A weighted union. -/
  | multipleValues (shares : List (Float × ValueRule))
  /-- Days from a start until a pull request is merged. -/
  | pullDelta (pull : PullRef) (start : Instant)
  | pullMerged (pull : PullRef)
  /-- The answers with the greatest weights. -/
  | popular (size : Nat)
  /-- Answers weighted along the sequence 1, 1, 2, 3, 5, …. -/
  | fibonacci (exclude : SortedMap Nat Unit) (leastShare : Float)
  | round
  /-- Another market's odds scaled up by `a`; a NO there holds with chance `1 / a` only. -/
  | amplifiedOdds (url : String) (a : Nat) (seed : Option Seed)
  /-- Cancels unless the premise holds. -/
  | conditional (premise : Trigger) (value : ValueRule)
  | userStat (user : String) (metric : UserMetric) (period : Period)
deriving Inhabited

namespace Trigger

/-- The kind of the root. -/
def kind : Trigger → Kind
  | .atTime _ => .atTime
  | .thisMarketClosed _ => .thisMarketClosed
  | .pullFinished _ => .pullFinished
  | .otherMarketClosed _ => .otherMarketClosed
  | .otherMarketResolved _ => .otherMarketResolved
  | .not _ => .not
  | .all _ => .all
  | .both _ _ => .both
  | .any _ => .any
  | .either _ _ => .either
  | .xor _ => .xor
  | .xnor _ => .xnor
  | .nand _ _ => .nand
  | .neither _ _ => .neither
  | .implies _ _ => .implies

/-- The direct children in the order in which they stand. -/
def children : Trigger → List Trigger
  | .not child => [child]
  | .all children | .any children | .xor children | .xnor children => children
  | .both first second | .either first second | .nand first second | .neither first second
  | .implies first second => [first, second]
  | _ => []

mutual

/-- The kinds of all nodes, each node before its children. -/
def nodeKinds : Trigger → List Kind
  | .not child => .not :: child.nodeKinds
  | .all children => .all :: listKinds children
  | .any children => .any :: listKinds children
  | .xor children => .xor :: listKinds children
  | .xnor children => .xnor :: listKinds children
  | .both first second => .both :: (first.nodeKinds ++ second.nodeKinds)
  | .either first second => .either :: (first.nodeKinds ++ second.nodeKinds)
  | .nand first second => .nand :: (first.nodeKinds ++ second.nodeKinds)
  | .neither first second => .neither :: (first.nodeKinds ++ second.nodeKinds)
  | .implies first second => .implies :: (first.nodeKinds ++ second.nodeKinds)
  | .atTime _ => [.atTime]
  | .thisMarketClosed _ => [.thisMarketClosed]
  | .pullFinished _ => [.pullFinished]
  | .otherMarketClosed _ => [.otherMarketClosed]
  | .otherMarketResolved _ => [.otherMarketResolved]

/-- `nodeKinds` of several trees, one after the other. -/
def listKinds : List Trigger → List Kind
  | [] => []
  | r :: rest => r.nodeKinds ++ listKinds rest

end

end Trigger

namespace ValueRule

/-- The kind of the root. -/
def kind : ValueRule → Kind
  | .constant _ => .constant
  | .currentValue => .currentValue
  | .otherMarketValue _ => .otherMarketValue
  | .negate _ => .negate
  | .sum _ => .sum
  | .product _ => .product
  | .modulus _ => .modulus
  | .randomIndex _ => .randomIndex
  | .multipleValues _ => .multipleValues
  | .pullDelta _ _ => .pullDelta
  | .pullMerged _ => .pullMerged
  | .popular _ => .popular
  | .fibonacci _ _ => .fibonacci
  | .round => .round
  | .amplifiedOdds _ _ _ => .amplifiedOdds
  | .conditional _ _ => .conditional
  | .userStat _ .profit _ => .userProfit
  | .userStat _ .createdVolume _ => .userCreatedVolume

/-- The direct children that are value rules, in the order in which they stand. The premise of a conditional is none. -/
def children : ValueRule → List ValueRule
  | .negate child => [child]
  | .sum children | .product children | .modulus children => children
  | .multipleValues shares => shares.map (·.2)
  | .conditional _ value => [value]
  | _ => []

mutual

/-- The kinds of all nodes, each node before its children and a premise before the value. -/
def nodeKinds : ValueRule → List Kind
  | .negate child => .negate :: child.nodeKinds
  | .sum children => .sum :: listKinds children
  | .product children => .product :: listKinds children
  | .modulus children => .modulus :: listKinds children
  | .multipleValues shares => .multipleValues :: shareKinds shares
  | .conditional premise value => .conditional :: (premise.nodeKinds ++ value.nodeKinds)
  | .constant _ => [.constant]
  | .currentValue => [.currentValue]
  | .otherMarketValue _ => [.otherMarketValue]
  | .randomIndex _ => [.randomIndex]
  | .pullDelta _ _ => [.pullDelta]
  | .pullMerged _ => [.pullMerged]
  | .popular _ => [.popular]
  | .fibonacci _ _ => [.fibonacci]
  | .round => [.round]
  | .amplifiedOdds _ _ _ => [.amplifiedOdds]
  | .userStat _ .profit _ => [.userProfit]
  | .userStat _ .createdVolume _ => [.userCreatedVolume]

/-- `nodeKinds` of several trees, one after the other. -/
def listKinds : List ValueRule → List Kind
  | [] => []
  | r :: rest => r.nodeKinds ++ listKinds rest

/-- `nodeKinds` of the rules of a weighted union, one after the other. -/
def shareKinds : List (Float × ValueRule) → List Kind
  | [] => []
  | (_, r) :: rest => r.nodeKinds ++ shareKinds rest

end

end ValueRule

/-- A rule of either family. -/
inductive Rule where
  | trigger (r : Trigger)
  | value (r : ValueRule)
deriving Inhabited

/-- A list without its repetitions; the first of equal items stays. -/
def firstOccurrences {α : Type} [DecidableEq α] (items : List α) : List α :=
  items.foldl (fun seen a => if a ∈ seen then seen else seen ++ [a]) []

namespace Rule

/-- The family of a rule. -/
def family : Rule → Family
  | .trigger _ => .trigger
  | .value _ => .value

/-- The kind of the root. -/
def kind : Rule → Kind
  | .trigger r => r.kind
  | .value r => r.kind

/-- The kinds of all nodes, each node before its children. -/
def nodeKinds : Rule → List Kind
  | .trigger r => r.nodeKinds
  | .value r => r.nodeKinds

/-- The kinds of all nodes, each once, where a depth-first walk first meets it. -/
def kinds (r : Rule) : List Kind := firstOccurrences r.nodeKinds

/-- How many direct children of its own family a rule has. -/
def childCount : Rule → Nat
  | .trigger r => r.children.length
  | .value r => r.children.length

end Rule

end Arbiter
