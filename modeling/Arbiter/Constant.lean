import Arbiter.Json.Writer
import Arbiter.Outcome.Basic

/-!
# Constants

A value as it is written in a rule, before it meets a market: what it means depends on the market's outcome type.
-/

namespace Arbiter

/-- A value written in a rule. -/
inductive Constant where
  | bool (b : Bool)
  | number (x : Float)
  | distribution (weights : Distribution Float)
  /-- Written as the text `CANCEL`. -/
  | cancel
deriving DecidableEq

namespace Constant

/-- The constant as it is stored. -/
def toJson : Constant → Json
  | .bool b => .bool b
  | .number x => .float x
  | .distribution weights => .object (weights.entries.map fun e => (toString e.1, .float e.2))
  | .cancel => .string "CANCEL"

/-- The constant as it is shown inside a message. -/
def text : Constant → String
  | .bool b => "Bool(" ++ toString b ++ ")"
  | .number x => "Number(" ++ pointedText x ++ ")"
  | .distribution weights =>
    let parts := weights.entries.map fun e => toString e.1 ++ ": " ++ pointedText e.2
    "Distribution(\x7b" ++ ", ".intercalate parts ++ "\x7d)"
  | .cancel => "Cancel"

end Constant

end Arbiter
