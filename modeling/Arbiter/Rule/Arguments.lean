import Arbiter.Rule.Basic
import Arbiter.Rule.Fault
import Arbiter.Text.Number
import Arbiter.Time.Reader

/-!
# The arguments of a stored rule

`Arguments` gives typed access to the members of an object by name. An argument comes with the rule that it holds, if it
holds one, so that children are read before their parent; a member that is `null` is absent.
-/

namespace Arbiter

/-- A value together with its readings as a rule and as a pair that begins with a rule. -/
structure Item where
  json : Json
  /-- The rule that the value stands for. -/
  rule : Except RuleFault Rule
  /-- If the value is a list of two: the first of them, the rule that it stands for, and the second. -/
  pair : Option (Json × Except RuleFault Rule × Json)

/-- An argument with its readings as a rule and as a list. -/
structure Argument where
  json : Json
  rule : Except RuleFault Rule
  /-- The items, if the argument is a list. -/
  items : Option (List Item)

/-- The arguments of a rule of some kind. -/
structure Arguments where
  kind : Kind
  members : List (String × Argument)

namespace Arguments

/-- A fault of these arguments. -/
def fault {α : Type} (a : Arguments) (f : ArgumentFault) : Except RuleFault α :=
  .error (.malformed (some a.kind) f)

/-- An argument that may be absent. -/
def find? (a : Arguments) (name : String) : Option Argument :=
  ((a.members.find? fun m => m.1 == name).map (·.2)).filter fun argument => !argument.json.isNull

/-- An argument that has to be there. -/
def required (a : Arguments) (name : String) : Except RuleFault Argument :=
  match a.find? name with
  | some argument => .ok argument
  | none => a.fault (.missing name)

/-- What `read` makes of a value, or a fault that says what was required. -/
def fitting {α : Type} (a : Arguments) (name : String) (requirement : Requirement) (read : Json → Option α)
    (argument : Argument) : Except RuleFault α :=
  match read argument.json with
  | some value => .ok value
  | none => a.fault (.unfit name requirement)

/-- An argument that has to be there and be fit. -/
def get {α : Type} (a : Arguments) (name : String) (requirement : Requirement) (read : Json → Option α) :
    Except RuleFault α := do
  a.fitting name requirement read (← a.required name)

/-- An argument that has to be fit if it is there. -/
def get? {α : Type} (a : Arguments) (name : String) (requirement : Requirement) (read : Json → Option α) :
    Except RuleFault (Option α) :=
  match a.find? name with
  | none => .ok none
  | some argument => some <$> a.fitting name requirement read argument

/-- A text. -/
def text (a : Arguments) (name : String) : Except RuleFault String :=
  a.get name .text Json.asString?

/-- A natural number. -/
def natural (a : Arguments) (name : String) : Except RuleFault Nat :=
  a.get name .natural Json.asNat?

/-- A natural number that may be absent. -/
def natural? (a : Arguments) (name : String) : Except RuleFault (Option Nat) :=
  a.get? name .natural Json.asNat?

/-- A moment. -/
def moment (a : Arguments) (name : String) : Except RuleFault Instant :=
  a.get name .timestamp fun v => v.asString?.bind Instant.readWritten?

/-- A moment that may be absent. -/
def moment? (a : Arguments) (name : String) : Except RuleFault (Option Instant) :=
  a.get? name .timestamp fun v => v.asString?.bind Instant.readWritten?

/-- Where a pull request is found. -/
def pull (a : Arguments) : Except RuleFault PullRef := do
  return ⟨← a.text "owner", ← a.text "repo", ← a.natural "number"⟩

/-- A seed is a natural number or a text. -/
def readSeed? : Json → Option Seed
  | .int n => (Json.int n).asNat?.map .number
  | .string s => some (.text s)
  | _ => none

/-- A seed that may be absent. -/
def seed? (a : Arguments) : Except RuleFault (Option Seed) :=
  match a.find? "seed" with
  | none => .ok none
  | some argument =>
    match readSeed? argument.json with
    | some seed => .ok (some seed)
    | none => a.fault .seed

/-- The rule at a place; a value that is none is a fault of the rule around it. -/
def child (a : Arguments) (name : String) (json : Json) (rule : Except RuleFault Rule) : Except RuleFault Rule :=
  match rule with
  | .error (.malformed none _) => a.fault (.childNotRule name json)
  | other => other

/-- The trigger at a place. -/
def asTrigger (a : Arguments) (name : String) (json : Json) (rule : Except RuleFault Rule) :
    Except RuleFault Trigger := do
  match ← a.child name json rule with
  | .trigger r => .ok r
  | other => a.fault (.childFamily name .trigger other.family other.kind)

/-- The value rule at a place. -/
def asValue (a : Arguments) (name : String) (json : Json) (rule : Except RuleFault Rule) :
    Except RuleFault ValueRule := do
  match ← a.child name json rule with
  | .value r => .ok r
  | other => a.fault (.childFamily name .value other.family other.kind)

/-- The items of a list. -/
def items (a : Arguments) (name : String) : Except RuleFault (List Item) := do
  match (← a.required name).items with
  | some items => .ok items
  | none => a.fault (.unfit name .rules)

/-- A trigger. -/
def trigger (a : Arguments) (name : String) : Except RuleFault Trigger := do
  let argument ← a.required name
  a.asTrigger name argument.json argument.rule

/-- A value rule. -/
def value (a : Arguments) (name : String) : Except RuleFault ValueRule := do
  let argument ← a.required name
  a.asValue name argument.json argument.rule

/-- At least two children. -/
def several {α : Type} (a : Arguments) (rules : List α) : Except RuleFault (List α) :=
  if rules.length < 2 then a.fault (.fewChildren rules.length) else .ok rules

/-- Two or more triggers. -/
def triggers (a : Arguments) : Except RuleFault (List Trigger) := do
  a.several (← (← a.items "rules").mapM fun i => a.asTrigger "rules" i.json i.rule)

/-- Two or more value rules. -/
def values (a : Arguments) : Except RuleFault (List ValueRule) := do
  a.several (← (← a.items "rules").mapM fun i => a.asValue "rules" i.json i.rule)

/-- Two triggers. -/
def triggerPair (a : Arguments) : Except RuleFault (Trigger × Trigger) := do
  return (← a.trigger "rule1", ← a.trigger "rule2")

/-- One share of a weighted union. -/
def share (a : Arguments) (item : Item) : Except RuleFault (Float × ValueRule) := do
  match item.pair with
  | some (json, rule, weight) =>
    let r ← a.asValue "shares" json rule
    match weight.asFloat? with
    | some w => .ok (w, r)
    | none => a.fault (.unfit "shares" .weightedRules)
  | none => a.fault (.unfit "shares" .weightedRules)

/-- Whether a weight can be a share: finite and at least zero. -/
def isShareWeight (w : Float) : Bool :=
  (Dyadic.ofFloat? w).isSome && decide (0.0 ≤ w)

/-- The shares of a weighted union. -/
def shares (a : Arguments) : Except RuleFault (List (Float × ValueRule)) := do
  let shares ← (← a.items "shares").mapM a.share
  if shares.isEmpty then a.fault .noShares
  match shares.find? fun s => !isShareWeight s.1 with
  | some (w, _) => a.fault (.shareWeight w)
  | none => .ok shares

/-- A number that is at least one; one if absent. -/
def atLeastOne (a : Arguments) (name : String) : Except RuleFault Nat := do
  let n := (← a.natural? name).getD 1
  if n = 0 then a.fault (.unfit name .atLeastOne) else .ok n

end Arguments

namespace Constant

/-- A weight of an answer: its key is a natural number, and the weight is no less than zero. -/
def readWeight (member : String × Json) : Except ArgumentFault (Nat × Float) :=
  match readWord? member.1 with
  | none => .error (.answerIndex member.1)
  | some index =>
    match member.2.asFloat? with
    | some w => if 0.0 ≤ w then .ok (index, w) else .error (.answerWeight index)
    | none => .error (.answerWeight index)

/-- The constant that a value stands for. Of two keys that are one number the later one counts. -/
def ofJson : Json → Except ArgumentFault Constant
  | .bool b => .ok (.bool b)
  | .int n => .ok (.number (floatOfInt n))
  | .float x => .ok (.number x)
  | .object members => do
    return .distribution (SortedMap.ofList (← members.mapM readWeight))
  | .string "CANCEL" => .ok .cancel
  | other => .error (.constant other)

end Constant

end Arbiter
