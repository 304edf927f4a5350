import Arbiter.Rule.Arguments
import Arbiter.Rule.Writer

/-!
# Reading stored rules

A rule is read from its kind and its arguments, children first. Which fault is reported is fixed: the name of the kind
comes before the shape of the arguments, and these come one by one in the order in which the kind takes them.

* `Rule.ofJson`: the rule that a value stands for.
* `Rule.ofArguments`: the rule of a kind with its arguments.
* `Trigger.ofJson`, `ValueRule.ofJson`: the same for one family.
-/

namespace Arbiter

/-- The least share of the total that earns a weight, unless a rule says otherwise. -/
def defaultLeastShare : Float := 0.0001

namespace Rule

/-- A trigger on a pair. -/
def ofPair (make : Trigger → Trigger → Trigger) (a : Arguments) : Except RuleFault Rule := do
  let (first, second) ← a.triggerPair
  return .trigger (make first second)

/-- The answer by chance that arguments describe. -/
def randomAnswer (a : Arguments) : Except RuleFault RandomAnswer := do
  let seed ← a.seed?
  let start ← a.natural? "start"
  let limit ← a.natural? "limit"
  let weighted ← a.get? "weighted" .truth Json.asBool?
  return ⟨start.getD 0, limit, weighted.getD false, seed⟩

/-- A list of answers. -/
def readIndexes? (v : Json) : Option (SortedMap Nat Unit) := do
  let indexes ← (← v.asArray?).mapM Json.asNat?
  return SortedMap.ofList (indexes.map fun i => (i, ()))

/-- A rule on a statistic of a user. -/
def userStat (metric : UserMetric) (a : Arguments) : Except RuleFault Rule := do
  let period ← a.get? "field" .period fun v => v.asString?.bind Period.ofName?
  return .value (.userStat (← a.text "user") metric (period.getD .allTime))

/-- A rule on another market's odds. -/
def amplifiedOdds (a : Arguments) : Except RuleFault Rule := do
  let factor ← a.atLeastOne "a"
  let seed ← a.seed?
  return .value (.amplifiedOdds (← a.text "url") factor seed)

/-- The rule of a kind with its arguments. -/
def build (a : Arguments) : Except RuleFault Rule :=
  match a.kind with
  | .atTime => do return .trigger (.atTime (← a.moment "resolve_at"))
  | .thisMarketClosed => do return .trigger (.thisMarketClosed (← a.moment? "resolve_at"))
  | .pullFinished => do return .trigger (.pullFinished (← a.pull))
  | .otherMarketClosed => do return .trigger (.otherMarketClosed (← a.text "url"))
  | .otherMarketResolved => do return .trigger (.otherMarketResolved (← a.text "url"))
  | .not => do return .trigger (.not (← a.trigger "child"))
  | .all => do return .trigger (.all (← a.triggers))
  | .both => ofPair .both a
  | .any => do return .trigger (.any (← a.triggers))
  | .either => ofPair .either a
  | .xor => do return .trigger (.xor (← a.triggers))
  | .xnor => do return .trigger (.xnor (← a.triggers))
  | .nand => ofPair .nand a
  | .neither => ofPair .neither a
  | .implies => ofPair .implies a
  | .constant => do
    let argument ← a.required "resolve_value"
    match Constant.ofJson argument.json with
    | .ok c => return .value (.constant c)
    | .error f => a.fault f
  | .currentValue => .ok (.value .currentValue)
  | .otherMarketValue => do return .value (.otherMarketValue (← a.text "url"))
  | .negate => do return .value (.negate (← a.value "child"))
  | .sum => do return .value (.sum (← a.values))
  | .product => do return .value (.product (← a.values))
  | .modulus => do return .value (.modulus (← a.values))
  | .randomIndex => do return .value (.randomIndex (← randomAnswer a))
  | .multipleValues => do return .value (.multipleValues (← a.shares))
  | .pullDelta => do return .value (.pullDelta (← a.pull) (← a.moment "start"))
  | .pullMerged => do return .value (.pullMerged (← a.pull))
  | .popular => do return .value (.popular (← a.atLeastOne "size"))
  | .fibonacci => do
    let exclude ← a.get? "exclude" .indexes readIndexes?
    let leastShare ← a.get? "min_rewarded" .number Json.asFloat?
    return .value (.fibonacci (exclude.getD SortedMap.empty) (leastShare.getD defaultLeastShare))
  | .round => .ok (.value .round)
  | .amplifiedOdds => amplifiedOdds a
  | .conditional => do return .value (.conditional (← a.trigger "rule1") (← a.value "rule2"))
  | .userProfit => userStat .profit a
  | .userCreatedVolume => userStat .createdVolume a

/-- The rule of a name with its arguments; `none` are no arguments. -/
def buildNamed (name : String) (members : Option (List (String × Argument))) : Except RuleFault Rule :=
  match Kind.ofName? name with
  | some kind => build ⟨kind, members.getD []⟩
  | none => .error (.unknownKind name)

/-- The fault of arguments that are no object. -/
def refuseArguments (name : String) (found : Json) : Except RuleFault Rule :=
  match Kind.ofName? name with
  | some kind => .error (.malformed (some kind) (.notObject found))
  | none => .error (.unknownKind name)

mutual

/-- The rule that a value stands for, if no object in it repeats a name. -/
def read : Json → Except RuleFault Rule
  | .array [.string name, .object members] => buildNamed name (some (readMembers members))
  | .array [.string name, .null] => buildNamed name none
  | .array [.string name] => buildNamed name none
  | .array [.string name, found] => refuseArguments name found
  | found => .error (.malformed none (.notRule found))

/-- Arguments with their readings. -/
def readMembers : List (String × Json) → List (String × Argument)
  | [] => []
  | (name, v) :: rest => (name, ⟨v, read v, readItems? v⟩) :: readMembers rest

/-- The items of a list with their readings. -/
def readItems? : Json → Option (List Item)
  | .array items => some (readItems items)
  | _ => none

/-- Items with their readings. -/
def readItems : List Json → List Item
  | [] => []
  | v :: rest => ⟨v, read v, readPair? v⟩ :: readItems rest

/-- A list of two with the reading of the first. -/
def readPair? : Json → Option (Json × Except RuleFault Rule × Json)
  | .array [first, second] => some (first, read first, second)
  | _ => none

end

/-- The rule that a value stands for. -/
def ofJson (v : Json) : Except RuleFault Rule :=
  read v.canonical

/-- The rule of a named kind with its arguments. -/
def ofArguments (name : String) (arguments : Json) : Except RuleFault Rule :=
  match arguments.canonical with
  | .object members => buildNamed name (some (readMembers members))
  | .null => buildNamed name none
  | found => refuseArguments name found

/-- Whether the stored form of a rule is read as the same rule: whether it is stored in the same way again. -/
def rereads (r : Rule) : Bool :=
  match ofJson r.toJson with
  | .ok again => again.toJson.sortedText == r.toJson.sortedText
  | .error _ => false

end Rule

/-- The trigger that a value stands for. -/
def Trigger.ofJson (v : Json) : Except RuleFault Trigger := do
  match ← Rule.ofJson v with
  | .trigger r => .ok r
  | .value r => .error (.malformed (some r.kind) (.family .trigger .value))

/-- The value rule that a value stands for. -/
def ValueRule.ofJson (v : Json) : Except RuleFault ValueRule := do
  match ← Rule.ofJson v with
  | .value r => .ok r
  | .trigger r => .error (.malformed (some r.kind) (.family .value .trigger))

end Arbiter
