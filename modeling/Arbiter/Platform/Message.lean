import Arbiter.Failure
import Arbiter.Platform.Listing

/-!
# What is sent to the platform

* `resolutionMessage`: resolves a market to a value of its own shape.
* `creationMessage`: asks for a new market.
* `openingBets`: one bet for each weighted answer of a market that was just created.
-/

namespace Arbiter

/-- The nearest integer of a signed 64-bit word. -/
def roundedJson (x : Float) : Json :=
  .int (toInt64Saturating (roundFloat x))

/-- A number, `null` if it is not finite. -/
def finiteJson (x : Float) : Json :=
  if (Dyadic.ofFloat? x).isSome then .float x else .null

/-- Gives up a market's trades. -/
def cancellationMessage : Json := .object [("outcome", .string "CANCEL")]

/-- Resolves a market to a value, which has to be of the market's shape. -/
def resolutionMessage (market : Snapshot) (value : Outcome) : Except Failure Json :=
  match market.outcomeType, value with
  | _, .cancel => .ok cancellationMessage
  | .binary, .probability p =>
    if 100 ≤ p then .ok (.object [("outcome", .string "YES")])
    else if p ≤ 0 then .ok (.object [("outcome", .string "NO")])
    else .ok (.object [("outcome", .string "MKT"), ("probabilityInt", roundedJson p)])
  | .pseudoNumeric, .numeric x =>
    let fraction := fractionAt x (market.minValue.getD 0) (market.maxValue.getD 0) market.isLogScale
    .ok (.object [("outcome", .string "MKT"), ("value", finiteJson x),
      ("probabilityInt", roundedJson (fraction * 100))])
  | .freeResponse, .distribution weights | .multipleChoice, .distribution weights =>
    let positive := weights.entries.filter fun e => decide (0 < e.2)
    .ok (.object [("outcome", .string "MKT"),
      ("resolutions", .array (positive.map fun e => .object [("answer", .nat e.1), ("pct", finiteJson e.2)]))])
  | t, other =>
    .error (.ofText ("Cannot resolve a " ++ t.name ++ " market to " ++ other.variant.name))

/-- The members of a creation that depend on the type of the market. -/
def shapeMembers (r : CreationRequest) : List (String × Json) :=
  match r.outcomeType with
  | .binary => [("initialProb", roundedJson (r.initialProbability.getD 50))]
  | .pseudoNumeric =>
    [("min", Json.ofOption finiteJson r.minValue), ("max", Json.ofOption finiteJson r.maxValue),
      ("isLogScale", .bool r.isLogScale), ("initialValue", Json.ofOption finiteJson r.initialValue)]
  | .freeResponse | .multipleChoice => [("answers", .array (r.answers.map .string))]

/-- Asks for a new market. -/
def creationMessage (r : CreationRequest) : Json :=
  .object ([("outcomeType", .string r.outcomeType.name), ("question", .string r.question),
      ("descriptionMarkdown", .string r.fullDescription), ("closeTime", .int r.closeTime.millis)]
    ++ shapeMembers r
    ++ if r.tags.isEmpty then [] else [("groupIds", .array (r.tags.map .string))])

/-- A bet on the first answer with a text. -/
def openingBet (l : Listing) (bet : String × Float) : Except Failure Json :=
  match l.answers.find? fun answer => answer.text == bet.1 with
  | some answer =>
    .ok (.object [("contractId", .string l.id), ("amount", finiteJson bet.2), ("outcome", .string "YES"),
      ("answerId", .string answer.id)])
  | none => .error (.ofText ("Market " ++ l.id ++ " has no answer " ++ quoted bet.1))

/-- Bets on the answers of a market by their texts. -/
def openingBets (l : Listing) (values : SortedMap String Float) : Except Failure (List Json) :=
  values.entries.mapM (openingBet l)

end Arbiter
