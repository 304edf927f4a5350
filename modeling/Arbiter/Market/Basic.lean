import Arbiter.Explanation.Abstract
import Arbiter.Outcome.Conform

/-!
# Managed markets

A market of the platform together with the rules that resolve it and the rate at which these are checked.

* `Market.new` refuses markets without rules and rates that are no number of hours.
* `Market.isDue`: whether enough time has passed since the last check.
* `explainRules`: what a set of rules means, with a list of the kinds that occur in it.
-/

namespace Arbiter

/-- A managed market. Its rules and its rate never change after it was made. -/
structure Market where
  snapshot : Snapshot
  triggers : List Trigger
  values : List ValueRule
  /-- Hours between checks. -/
  checkRate : Float
  lastChecked : Option Instant
  notes : String
  /-- Opening weights of the answers, by their texts. -/
  initialValues : Option (SortedMap String Float)

/-- What every set of rules has to satisfy; the first fault counts. -/
def validateRules (triggers : List Trigger) (values : List ValueRule) (checkRate : Float) : Except MarketFault Unit :=
  if triggers.isEmpty then .error .noTriggers
  else if values.isEmpty then .error .noValues
  else if (Dyadic.ofFloat? checkRate).isNone || decide (checkRate < 0.0) then .error (.checkRate checkRate)
  else .ok ()

/-- What a set of rules means: when a market resolves, to what, and one line for each kind of rule. -/
def explainRules (triggers : List Trigger) (values : List ValueRule) : String :=
  let kinds := firstOccurrences (triggers.flatMap Trigger.nodeKinds ++ values.flatMap ValueRule.nodeKinds)
  "This market will resolve if any of the following are true:\n"
    ++ renderLines (triggers.flatMap fun r => r.explain 0)
    ++ "\nIt will then resolve to:\n"
    ++ renderLines (values.flatMap fun r => r.explain 0)
    ++ "\nRules used:\n"
    ++ String.join (kinds.map fun kind => "- `" ++ kind.name ++ "`: " ++ kind.summary ++ "\n")

/-- The number of milliseconds of an hour. -/
def millisPerHour : Float := 3600000.0

namespace Market

/-- A market that was never checked. -/
def new (snapshot : Snapshot) (triggers : List Trigger) (values : List ValueRule) (checkRate : Float) :
    Except MarketFault Market := do
  validateRules triggers values checkRate
  return ⟨snapshot, triggers, values, checkRate, none, "", none⟩

/-- The market with another snapshot. -/
def refresh (market : Market) (snapshot : Snapshot) : Market :=
  { market with snapshot }

/-- The market checked at a moment. -/
def markChecked (market : Market) (time : Instant) : Market :=
  { market with lastChecked := some time }

/-- The time between two checks in whole milliseconds, as far as a 64-bit integer goes. -/
def checkMillis (checkRate : Float) : Nat :=
  (toInt64Saturating (checkRate * millisPerHour)).toNat

/-- Whether the market is due at a moment; nothing if the next check lies outside the calendar. A market that was never
checked is due. -/
def isDue (market : Market) (now : Instant) : Option Bool :=
  match market.lastChecked with
  | none => some true
  | some last => (last.addMillis? (checkMillis market.checkRate)).map fun next => decide (next ≤ now)

/-- What the market's rules mean. -/
def explain (market : Market) : String :=
  explainRules market.triggers market.values

end Market

end Arbiter
