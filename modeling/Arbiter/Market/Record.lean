import Arbiter.Market.Basic
import Arbiter.Record.Outside

/-!
# Stored markets

* `Market.decode`: the market of a record, validated like a new one.
* `Market.toJson`: the record of a market.
-/

namespace Arbiter

/-- Weights by the texts of answers. -/
def weightsToJson (weights : SortedMap String Float) : Json :=
  .object (weights.entries.map fun e => (e.1, .float e.2))

namespace Market

/-- The fields of a stored market. -/
def fields : List FieldCheck :=
  [field "market" Snapshot.decode Snapshot.shape, field "time_rules" (Decoded.list Decoded.trigger),
    field "value_rules" (Decoded.list Decoded.valueRule), field "check_rate" Decoded.number,
    field "last_checked" (Decoded.optional Decoded.moment), field "notes" Decoded.text,
    field "initial_values" (Decoded.optional (Decoded.table Decoded.number))]

/-- What is expected of a stored market. -/
def shape : Json.Shape := recordShape fields

/-- A stored market. It is validated like a new one. -/
def decode (v : Json) : Decoded Market := do
  let r ← Record.ofJson fields v
  let snapshot ← r.required "market" Snapshot.decode
  let triggers ← r.required "time_rules" (Decoded.list Decoded.trigger)
  let values ← r.required "value_rules" (Decoded.list Decoded.valueRule)
  let checkRate ← r.required "check_rate" Decoded.number
  let lastChecked ← r.optional "last_checked" Decoded.moment
  let notes ← r.withDefault "notes" Decoded.text ""
  let initialValues ← r.optional "initial_values" (Decoded.table Decoded.number)
  match Market.new snapshot triggers values checkRate with
  | .ok market => return { market with lastChecked, notes, initialValues }
  | .error fault => .error (.rule (.market fault))

/-- The stored form, with every field. -/
def toJson (market : Market) : Json :=
  .object [("market", market.snapshot.toJson), ("time_rules", .array (market.triggers.map Trigger.toJson)),
    ("value_rules", .array (market.values.map ValueRule.toJson)), ("check_rate", .float market.checkRate),
    ("last_checked", Json.ofOption Instant.toField market.lastChecked), ("notes", .string market.notes),
    ("initial_values", Json.ofOption weightsToJson market.initialValues)]

end Market

end Arbiter
