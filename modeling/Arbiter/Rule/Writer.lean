import Arbiter.Rule.Basic
import Arbiter.Time.Writer

/-!
# How rules are stored

A rule is stored as a list of two: the name of its kind, and an object with its arguments. Children are stored inside
the arguments in the same way.
-/

namespace Arbiter

/-- A rule of a kind with its arguments. -/
def taggedJson (kind : Kind) (arguments : List (String × Json)) : Json :=
  .array [.string kind.name, .object arguments]

/-- A moment as an argument. -/
def Instant.toJson (t : Instant) : Json := .string t.text

/-- The arguments that name a pull request. -/
def PullRef.arguments (p : PullRef) : List (String × Json) :=
  [("owner", .string p.owner), ("repo", .string p.repo), ("number", .nat p.number)]

/-- The arguments of a random answer. -/
def RandomAnswer.arguments (r : RandomAnswer) : List (String × Json) :=
  [("start", .nat r.start), ("weighted", .bool r.weighted)]
    ++ (r.limit.toList.map fun limit => ("limit", .nat limit))
    ++ (r.seed.toList.map fun seed => ("seed", seed.toJson))

namespace Trigger

mutual

/-- The stored form. -/
def toJson : Trigger → Json
  | .atTime time => taggedJson .atTime [("resolve_at", time.toJson)]
  | .thisMarketClosed (some time) => taggedJson .thisMarketClosed [("resolve_at", time.toJson)]
  | .thisMarketClosed none => taggedJson .thisMarketClosed []
  | .pullFinished pull => taggedJson .pullFinished pull.arguments
  | .otherMarketClosed url => taggedJson .otherMarketClosed [("url", .string url)]
  | .otherMarketResolved url => taggedJson .otherMarketResolved [("url", .string url)]
  | .not child => taggedJson .not [("child", child.toJson)]
  | .all children => taggedJson .all [("rules", .array (listJson children))]
  | .any children => taggedJson .any [("rules", .array (listJson children))]
  | .xor children => taggedJson .xor [("rules", .array (listJson children))]
  | .xnor children => taggedJson .xnor [("rules", .array (listJson children))]
  | .both first second => taggedJson .both [("rule1", first.toJson), ("rule2", second.toJson)]
  | .either first second => taggedJson .either [("rule1", first.toJson), ("rule2", second.toJson)]
  | .nand first second => taggedJson .nand [("rule1", first.toJson), ("rule2", second.toJson)]
  | .neither first second => taggedJson .neither [("rule1", first.toJson), ("rule2", second.toJson)]
  | .implies first second => taggedJson .implies [("rule1", first.toJson), ("rule2", second.toJson)]

/-- The stored forms of several rules. -/
def listJson : List Trigger → List Json
  | [] => []
  | r :: rest => r.toJson :: listJson rest

end

end Trigger

namespace ValueRule

mutual

/-- The stored form. -/
def toJson : ValueRule → Json
  | .constant c => taggedJson .constant [("resolve_value", c.toJson)]
  | .currentValue => taggedJson .currentValue []
  | .otherMarketValue url => taggedJson .otherMarketValue [("url", .string url)]
  | .negate child => taggedJson .negate [("child", child.toJson)]
  | .sum children => taggedJson .sum [("rules", .array (listJson children))]
  | .product children => taggedJson .product [("rules", .array (listJson children))]
  | .modulus children => taggedJson .modulus [("rules", .array (listJson children))]
  | .randomIndex answer => taggedJson .randomIndex answer.arguments
  | .multipleValues shares => taggedJson .multipleValues [("shares", .array (shareJson shares))]
  | .pullDelta pull start => taggedJson .pullDelta (pull.arguments ++ [("start", start.toJson)])
  | .pullMerged pull => taggedJson .pullMerged pull.arguments
  | .popular size => taggedJson .popular [("size", .nat size)]
  | .fibonacci exclude leastShare =>
    taggedJson .fibonacci [("exclude", .array (exclude.keys.map .nat)), ("min_rewarded", .float leastShare)]
  | .round => taggedJson .round []
  | .amplifiedOdds url a seed =>
    taggedJson .amplifiedOdds ([("url", .string url), ("a", .nat a)] ++ seed.toList.map fun s => ("seed", s.toJson))
  | .conditional premise value =>
    taggedJson .conditional [("rule1", premise.toJson), ("rule2", value.toJson)]
  | .userStat user .profit period =>
    taggedJson .userProfit [("user", .string user), ("field", .string period.name)]
  | .userStat user .createdVolume period =>
    taggedJson .userCreatedVolume [("user", .string user), ("field", .string period.name)]

/-- The stored forms of several rules. -/
def listJson : List ValueRule → List Json
  | [] => []
  | r :: rest => r.toJson :: listJson rest

/-- The stored form of a weighted union: pairs of a rule and its weight. -/
def shareJson : List (Float × ValueRule) → List Json
  | [] => []
  | (weight, r) :: rest => .array [r.toJson, .float weight] :: shareJson rest

end

end ValueRule

/-- The stored form. -/
def Rule.toJson : Rule → Json
  | .trigger r => r.toJson
  | .value r => r.toJson

end Arbiter
