import Arbiter.Decimal.Places
import Arbiter.Explanation.Line
import Arbiter.Rule.Writer

/-!
# Explanations of rules

What a rule means, without looking at the world: a line for each node and indented lines for what stands below it.

* `Trigger.explain`, `ValueRule.explain`: the explanation of a tree.
* `Trigger.explainSkipped`, `ValueRule.explainSkipped`: the explanation of a tree that an evaluation did not reach.
-/

namespace Arbiter

namespace Trigger

/-- What the root says. -/
def phrase : Trigger → String
  | .atTime time => "If the current time is past " ++ time.text
  | .thisMarketClosed none => "If this market reaches its close date"
  | .thisMarketClosed (some time) => "If this market reaches its close date, taken as " ++ time.text
  | .pullFinished pull => "If the GitHub PR " ++ pull.text ++ " is merged or closed"
  | .otherMarketClosed url => "If `" ++ url ++ "` closes"
  | .otherMarketResolved url => "If `" ++ url ++ "` is resolved"
  | .not _ => "If the rule below resolves False"
  | .all _ => "If all of the rules below resolve True"
  | .both _ _ => "If both of the rules below resolve True"
  | .any _ => "If any of the rules below resolve True"
  | .either _ _ => "If either of the rules below resolves True"
  | .xor _ => "If an odd number of the rules below resolve True"
  | .xnor _ => "If all of the rules below resolve to the same value"
  | .nand _ _ => "If one or more of the rules below resolves False"
  | .neither _ _ => "If both of the rules below resolve False"
  | .implies _ _ => "If the first rule below resolves False, or both resolve True"

mutual

/-- The explanations of the children, their roots at `depth`. -/
def explainBelow (depth : Nat) : Trigger → List Line
  | .not child => ⟨depth, child.phrase, none, none⟩ :: child.explainBelow (depth + 1)
  | .all children | .any children | .xor children | .xnor children => explainEach depth children
  | .both first second | .either first second | .nand first second | .neither first second
  | .implies first second =>
    (⟨depth, first.phrase, none, none⟩ :: first.explainBelow (depth + 1))
      ++ (⟨depth, second.phrase, none, none⟩ :: second.explainBelow (depth + 1))
  | .atTime _ | .thisMarketClosed _ | .pullFinished _ | .otherMarketClosed _ | .otherMarketResolved _ => []

/-- The explanations of several trees, one after the other. -/
def explainEach (depth : Nat) : List Trigger → List Line
  | [] => []
  | r :: rest => (⟨depth, r.phrase, none, none⟩ :: r.explainBelow (depth + 1)) ++ explainEach depth rest

end

/-- The explanation of the tree. -/
def explain (depth : Nat) (r : Trigger) : List Line :=
  ⟨depth, r.phrase, none, none⟩ :: r.explainBelow (depth + 1)

/-- The explanation of a tree that was not reached: only its root says so. -/
def explainSkipped (depth : Nat) (r : Trigger) : List Line :=
  ⟨depth, r.phrase, none, some .notEvaluated⟩ :: r.explainBelow (depth + 1)

end Trigger

/-- The window of a random answer and how it is drawn. -/
def RandomAnswer.phrase (r : RandomAnswer) : String :=
  "Resolves to a random answer at index " ++ toString r.start ++ " or later"
    ++ (r.limit.elim "" fun limit => ", among the first " ++ toString limit ++ " of those")
    ++ (if r.weighted then ", weighted by current probability" else "")
    ++ r.seed.elim "" fun seed => ", seeded with " ++ seed.toJson.sortedText

namespace ValueRule

/-- What the root says. -/
def phrase : ValueRule → String
  | .constant c => "Resolves to the specific value " ++ c.toJson.sortedText
  | .currentValue => "Resolves to the current market value"
  | .otherMarketValue url => "Resolved (or current, if not resolved) value of `" ++ url ++ "`"
  | .negate _ => "100 minus the value below"
  | .sum _ => "The sum of the below"
  | .product _ => "The product of the below"
  | .modulus _ => "A mod B, where A is the first line below and B each line after"
  | .randomIndex answer => answer.phrase
  | .multipleValues _ => "Resolves to the weighted union of the below"
  | .pullDelta pull start =>
    "Resolves to the days between " ++ start.text ++ " and the merge of GitHub PR " ++ pull.text
      ++ ", or MAX if it is not merged"
  | .pullMerged pull => "Resolves YES if GitHub PR " ++ pull.text ++ " is merged, otherwise NO"
  | .popular size =>
    "Resolves to the " ++ toString size ++ " most probable answers, weighted by their probability"
  | .fibonacci _ _ => "Weight each answer by the Fibonacci rank of its probability"
  | .round => "Resolves to round(MKT)"
  | .amplifiedOdds url a _ => "Amplified odds of `" ++ url ++ "` by a factor of " ++ toString a
  | .conditional _ _ =>
    "Cancels if the first rule below resolves False, otherwise resolves to the value of the second"
  | .userStat user metric period =>
    "Resolves to the current " ++ period.name ++ " " ++ metric.phrase ++ " user " ++ user

/-- The steps of a rule that needs several to be told, at `depth`. -/
def steps (depth : Nat) : ValueRule → List Line
  | .fibonacci exclude leastShare =>
    (if exclude.isEmpty then []
      else [⟨depth, "Skip answers \x7b" ++ ", ".intercalate (exclude.keys.map toString) ++ "\x7d", none, none⟩])
      ++ [⟨depth, "Skip answers below " ++ plainText (leastShare * 100) ++ "%", none, none⟩,
        ⟨depth, "Sort the rest by ascending probability", none, none⟩,
        ⟨depth, "Weight them 1, 1, 2, 3, 5, ... in that order", none, none⟩]
  | .amplifiedOdds _ a seed =>
    [⟨depth, "If the referenced market resolves YES, resolve YES", none, none⟩,
      ⟨depth, "If it resolves NO, draw a random number"
        ++ seed.elim "" (fun s => " seeded with " ++ s.toJson.sortedText), none, none⟩,
      ⟨depth + 1, "If the number is less than 1 / " ++ toString a ++ " (~" ++ fixedText 4 (1 / floatOfInt a)
        ++ "), resolve NO", none, none⟩,
      ⟨depth + 1, "Otherwise, resolve N/A", none, none⟩,
      ⟨depth, "Otherwise, resolve to the reference probability p scaled to p / (p + (1 - p) / " ++ toString a ++ ")",
        none, none⟩]
  | _ => []

/-- The line above a share of a weighted union. -/
def shareLine (depth : Nat) (weight : Float) : Line :=
  ⟨depth, "At a weight of " ++ plainText weight ++ ":", none, none⟩

/-- The root with its steps. -/
def head (depth : Nat) (r : ValueRule) : List Line :=
  ⟨depth, r.phrase, none, none⟩ :: r.steps (depth + 1)

mutual

/-- The explanations of the children and of a premise, their roots at `depth`. Each share of a weighted union stands
below its weight. -/
def explainBelow (depth : Nat) : ValueRule → List Line
  | .negate child => child.head depth ++ child.explainBelow (depth + 1)
  | .sum children | .product children | .modulus children => explainEach depth children
  | .multipleValues shares => explainShares depth shares
  | .conditional premise value => premise.explain depth ++ (value.head depth ++ value.explainBelow (depth + 1))
  | .constant _ | .currentValue | .otherMarketValue _ | .randomIndex _ | .pullDelta _ _ | .pullMerged _ | .popular _
  | .fibonacci _ _ | .round | .amplifiedOdds _ _ _ | .userStat _ _ _ => []

/-- The explanations of several trees, one after the other. -/
def explainEach (depth : Nat) : List ValueRule → List Line
  | [] => []
  | r :: rest => (r.head depth ++ r.explainBelow (depth + 1)) ++ explainEach depth rest

/-- The explanations of the shares of a weighted union. -/
def explainShares (depth : Nat) : List (Float × ValueRule) → List Line
  | [] => []
  | (weight, r) :: rest =>
    (shareLine depth weight :: (r.head (depth + 1) ++ r.explainBelow (depth + 2))) ++ explainShares depth rest

end

/-- The explanation of the tree. -/
def explain (depth : Nat) (r : ValueRule) : List Line :=
  r.head depth ++ r.explainBelow (depth + 1)

/-- The explanation of a tree that was not reached: its root says so, and its children that are value rules follow. -/
def explainSkipped (depth : Nat) (r : ValueRule) : List Line :=
  ⟨depth, r.phrase, none, some .notEvaluated⟩
    :: (r.steps (depth + 1) ++ r.children.flatMap fun child => child.explain (depth + 1))

end ValueRule

end Arbiter
