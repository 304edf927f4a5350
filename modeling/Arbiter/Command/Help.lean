import Arbiter.Command.Exit

/-!
# What is said of a command line

* `helpText`: how the program is used.
* `Exit.messages`: what is said on standard error at the end.
-/

namespace Arbiter

/-- How the program is used. -/
def helpText : String :=
  "\n".intercalate
    ["Resolves prediction markets from stored rules", "",
      "Usage: market-resolver [--config CONFIG] COMMAND", "",
      "Commands:",
      "  run [--refresh] [--once]",
      "  add MARKET --time-rules RULES --value-rules RULES [--check-rate HOURS] [--notes NOTES]",
      "  queue REQUEST [--priority PRIORITY]",
      "  list",
      "  remove [IDS]...",
      "  explain ID", ""]

/-- The wording of a misuse. -/
def Misuse.message : Misuse → String
  | .noCommand => "a command is required"
  | .unexpected word => "unexpected argument: " ++ word
  | .repeated option => "--" ++ option ++ " cannot be used multiple times"
  | .missing argument => "a required argument was not provided: " ++ argument
  | .wrongValue option => "--" ++ option ++ " has a value that it does not take, or lacks one"
  | .notNumber word => "no valid number: " ++ word

/-- The lines that are said on standard error at the end. -/
def Exit.messages : Exit → List String
  | .refused (.misuse m) => ["error: " ++ m.message, "", helpText]
  | .crashed => Exit.crashed.errorLines
  | exit =>
    match exit.errorLines with
    | [] => []
    | [line] => [line]
    | line :: causes => line :: "" :: "Caused by:" :: causes.map ("    " ++ ·)

end Arbiter
