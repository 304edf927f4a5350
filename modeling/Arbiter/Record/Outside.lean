import Arbiter.Record.Decoder

/-!
# Records of the outside world

The stored forms of outcomes, markets, pull request states and statistics.
-/

namespace Arbiter

namespace OutcomeType

/-- The type of a name. -/
def decode : Json → Decoded OutcomeType := Decoded.choice all name

end OutcomeType

namespace PullState

/-- The state of a name. -/
def decode : Json → Decoded PullState := Decoded.choice all name

end PullState

namespace Period

/-- The period of a name. -/
def decode : Json → Decoded Period := Decoded.choice all name

end Period

namespace PeriodStats

/-- The fields of a statistic. -/
def fields : List FieldCheck :=
  [field "allTime" Decoded.number, field "daily" Decoded.number, field "weekly" Decoded.number,
    field "monthly" Decoded.number]

/-- What is expected of a statistic. -/
def shape : Json.Shape := recordShape fields

/-- A statistic; periods without a value have zero. -/
def decode (v : Json) : Decoded PeriodStats := do
  let r ← Record.ofJson fields v
  return {
    allTime := ← r.withDefault "allTime" Decoded.number 0
    daily := ← r.withDefault "daily" Decoded.number 0
    weekly := ← r.withDefault "weekly" Decoded.number 0
    monthly := ← r.withDefault "monthly" Decoded.number 0 }

end PeriodStats

namespace Outcome

/-- An index of an answer as a name: the whole of it is a number, and that a natural one. -/
def decodeIndex (key : String) : Decoded Nat :=
  match key.toList with
  | c :: _ =>
    if c.isDigit || c == '-' then
      match Json.readNumber key.toList with
      | some (.int n, []) => if 0 ≤ n then .ok n.toNat else .error .shape
      | some (_, []) => .error .shape
      | some (.int n, _) => if 0 ≤ n then .error .notJson else .error .shape
      | some (_, _) => .error .shape
      | none => .error .notJson
    else .error .notJson
  | [] => .error .notJson

/-- Weights by answer. -/
def decodeWeights : Json → Decoded (Distribution Float)
  | .object members => do
    let entries ← members.mapM fun member => do
      let index ← decodeIndex member.1
      let weight ← Decoded.number member.2
      pure (index, weight)
    return SortedMap.ofList entries
  | _ => .error .shape

/-- The content of a kind of values. -/
def decodeContent (content : Option Json) : Variant → Decoded Outcome
  | .bool => do return .bool (← Decoded.truth (← present))
  | .probability => do return .probability (← Decoded.number (← present))
  | .numeric => do return .numeric (← Decoded.number (← present))
  | .distribution => do return .distribution (← decodeWeights (← present))
  | .cancel =>
    match content with
    | none | some .null => .ok .cancel
    | some _ => .error .shape
where
  present : Decoded Json :=
    match content with
    | some v => .ok v
    | none => .error (.missing "value")

/-- A value under the name of its kind. -/
def decode : Json → Decoded Outcome
  | .object members =>
    match Json.lookup "type" members with
    | some tag => do decodeContent (Json.lookup "value" members) (← Decoded.choice Variant.all Variant.tag tag)
    | none => .error (.missing "type")
  | .array (tag :: rest) => do
    let variant ← Decoded.choice Variant.all Variant.tag tag
    match rest with
    | [content] => decodeContent (some content) variant
    | _ => .error .shape
  | _ => .error .shape

/-- A value under the name of its kind. -/
def toJson : Outcome → Json
  | .bool b => tagged .bool [("value", .bool b)]
  | .probability p => tagged .probability [("value", .float p)]
  | .numeric x => tagged .numeric [("value", .float x)]
  | .distribution weights =>
    tagged .distribution [("value", .object (weights.entries.map fun e => (toString e.1, .float e.2)))]
  | .cancel => tagged .cancel []
where
  tagged (variant : Variant) (content : List (String × Json)) : Json :=
    .object (("type", .string variant.tag) :: content)

end Outcome

namespace Snapshot

/-- The fields of a market. -/
def fields : List FieldCheck :=
  [field "id" Decoded.text, field "url" Decoded.text, field "question" Decoded.text,
    field "outcome_type" OutcomeType.decode, field "min_value" (Decoded.optional Decoded.number),
    field "max_value" (Decoded.optional Decoded.number), field "is_log_scale" Decoded.truth,
    field "answers" (Decoded.list Decoded.text), field "close_time" (Decoded.optional Decoded.moment),
    field "is_resolved" Decoded.truth]

/-- What is expected of a market. -/
def shape : Json.Shape := recordShape fields

/-- A market. -/
def decode (v : Json) : Decoded Snapshot := do
  let r ← Record.ofJson fields v
  return {
    id := ← r.required "id" Decoded.text
    url := ← r.required "url" Decoded.text
    question := ← r.required "question" Decoded.text
    outcomeType := ← r.required "outcome_type" OutcomeType.decode
    minValue := ← r.optional "min_value" Decoded.number
    maxValue := ← r.optional "max_value" Decoded.number
    isLogScale := ← r.withDefault "is_log_scale" Decoded.truth false
    answers := ← r.withDefault "answers" (Decoded.list Decoded.text) []
    closeTime := ← r.optional "close_time" Decoded.moment
    isResolved := ← r.withDefault "is_resolved" Decoded.truth false }

/-- The stored form, with every field. -/
def toJson (s : Snapshot) : Json :=
  .object [("id", .string s.id), ("url", .string s.url), ("question", .string s.question),
    ("outcome_type", .string s.outcomeType.name), ("min_value", Json.ofOption .float s.minValue),
    ("max_value", Json.ofOption .float s.maxValue), ("is_log_scale", .bool s.isLogScale),
    ("answers", .array (s.answers.map .string)), ("close_time", Json.ofOption Instant.toField s.closeTime),
    ("is_resolved", .bool s.isResolved)]

end Snapshot

end Arbiter
