import Arbiter.Market.Record
import Arbiter.Text.Blank

/-!
# Requests for new markets

A market that waits to be created on the platform, with the rules that will resolve it.

* `CreationRequest.validate`: what a request has to satisfy before anything is sent.
* `CreationRequest.fullDescription`: the author's text followed by the meaning of the rules.
* `CreationRequest.intoMarket`: the managed market, once the platform has created it.
-/

namespace Arbiter

/-- A market that waits to be created. -/
structure CreationRequest where
  question : String
  description : String
  outcomeType : OutcomeType
  closeTime : Instant
  initialProbability : Option Float
  minValue : Option Float
  maxValue : Option Float
  initialValue : Option Float
  isLogScale : Bool
  answers : List String
  tags : List String
  /-- Opening bets by the texts of answers, placed once the market is there. -/
  initialValues : SortedMap String Float
  triggers : List Trigger
  values : List ValueRule
  checkRate : Float
  notes : String

/-- The hours between checks unless a request says otherwise. -/
def defaultCheckRate : Float := 24.0

namespace CreationRequest

/-- What the type of the market asks for. -/
def validateShape (r : CreationRequest) : Except MarketFault Unit :=
  match r.outcomeType with
  | .pseudoNumeric =>
    match r.minValue, r.maxValue with
    | some least, some greatest => if least < greatest then .ok () else .error .bounds
    | _, _ => .error .bounds
  | .multipleChoice => if r.answers.length < 2 then .error .fewAnswers else .ok ()
  | .binary | .freeResponse => .ok ()

/-- Whether an opening bet can be placed: it is positive, and on one of the answers. -/
def validateBet (r : CreationRequest) (bet : String × Float) : Except MarketFault Unit :=
  if (Dyadic.ofFloat? bet.2).isNone || !decide (0.0 < bet.2) then .error (.initialValue bet.1)
  else if !r.answers.contains bet.1 then .error (.unknownAnswer bet.1)
  else .ok ()

/-- What the opening bets have to satisfy. -/
def validateBets (r : CreationRequest) : Except MarketFault Unit :=
  if r.initialValues.isEmpty then .ok ()
  else if !r.outcomeType.isCategorical then .error (.initialValuesType r.outcomeType)
  else r.initialValues.entries.forM r.validateBet

/-- What a request has to satisfy; the first fault counts. -/
def validate (r : CreationRequest) : Except MarketFault Unit := do
  validateRules r.triggers r.values r.checkRate
  r.validateShape
  r.validateBets

/-- The text that is posted with the market. -/
def fullDescription (r : CreationRequest) : String :=
  let explanation := explainRules r.triggers r.values
  if (trim r.description).isEmpty then explanation else trimEnd r.description ++ "\n\n" ++ explanation

/-- The managed market with the snapshot that the platform made. -/
def intoMarket (r : CreationRequest) (created : Snapshot) : Except MarketFault Market := do
  let market ← Market.new created r.triggers r.values r.checkRate
  return { market with
    notes := r.notes
    initialValues := if r.initialValues.isEmpty then none else some r.initialValues }

/-- The fields of a stored request. -/
def fields : List FieldCheck :=
  [field "question" Decoded.text, field "description" Decoded.text, field "outcome_type" OutcomeType.decode,
    field "close_time" Decoded.moment, field "initial_probability" (Decoded.optional Decoded.number),
    field "min_value" (Decoded.optional Decoded.number), field "max_value" (Decoded.optional Decoded.number),
    field "initial_value" (Decoded.optional Decoded.number), field "is_log_scale" Decoded.truth,
    field "answers" (Decoded.list Decoded.text), field "tags" (Decoded.list Decoded.text),
    field "initial_values" (Decoded.table Decoded.number), field "time_rules" (Decoded.list Decoded.trigger),
    field "value_rules" (Decoded.list Decoded.valueRule), field "check_rate" Decoded.number,
    field "notes" Decoded.text]

/-- What is expected of a stored request. -/
def shape : Json.Shape := recordShape fields

/-- A stored request. -/
def decode (v : Json) : Decoded CreationRequest := do
  let r ← Record.ofJson fields v
  return {
    question := ← r.required "question" Decoded.text
    description := ← r.withDefault "description" Decoded.text ""
    outcomeType := ← r.required "outcome_type" OutcomeType.decode
    closeTime := ← r.required "close_time" Decoded.moment
    initialProbability := ← r.optional "initial_probability" Decoded.number
    minValue := ← r.optional "min_value" Decoded.number
    maxValue := ← r.optional "max_value" Decoded.number
    initialValue := ← r.optional "initial_value" Decoded.number
    isLogScale := ← r.withDefault "is_log_scale" Decoded.truth false
    answers := ← r.withDefault "answers" (Decoded.list Decoded.text) []
    tags := ← r.withDefault "tags" (Decoded.list Decoded.text) []
    initialValues := ← r.withDefault "initial_values" (Decoded.table Decoded.number) SortedMap.empty
    triggers := ← r.required "time_rules" (Decoded.list Decoded.trigger)
    values := ← r.required "value_rules" (Decoded.list Decoded.valueRule)
    checkRate := ← r.withDefault "check_rate" Decoded.number defaultCheckRate
    notes := ← r.withDefault "notes" Decoded.text "" }

/-- The stored form, with every field. -/
def toJson (r : CreationRequest) : Json :=
  .object [("question", .string r.question), ("description", .string r.description),
    ("outcome_type", .string r.outcomeType.name), ("close_time", r.closeTime.toField),
    ("initial_probability", Json.ofOption .float r.initialProbability), ("min_value", Json.ofOption .float r.minValue),
    ("max_value", Json.ofOption .float r.maxValue), ("initial_value", Json.ofOption .float r.initialValue),
    ("is_log_scale", .bool r.isLogScale), ("answers", .array (r.answers.map .string)),
    ("tags", .array (r.tags.map .string)), ("initial_values", weightsToJson r.initialValues),
    ("time_rules", .array (r.triggers.map Trigger.toJson)), ("value_rules", .array (r.values.map ValueRule.toJson)),
    ("check_rate", .float r.checkRate), ("notes", .string r.notes)]

end CreationRequest

end Arbiter
