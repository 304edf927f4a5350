import Arbiter.Command.Basic
import Arbiter.Cycle.Services

/-!
# How commands end

* `Exit`: how the program ends, with its exit code and what it says on standard error.
* `CommandM`: the work of a command, which may end early.
-/

namespace Arbiter

/-- How the program ends. -/
inductive Exit where
  | done
  | failed (failure : Failure)
  /-- A computation left the range in which it is defined. -/
  | crashed
  | refused (refusal : Refusal)

namespace Exit

/-- The exit code. -/
def code : Exit → Nat
  | .done | .refused .help => 0
  | .failed _ => 1
  | .refused (.misuse _) => 2
  | .crashed => 101

/-- What is said on standard error of a failed command, in one line for each text. A crash is told behind an empty
line. -/
def errorLines : Exit → List String
  | .failed failure => ("Error: " ++ failure.headline) :: failure.texts.drop 1
  | .crashed => ["", "the work was given up"]
  | _ => []

end Exit

/-- The work of a command, which may end early. -/
abbrev CommandM (m : Type → Type) := ExceptT Exit m

section

variable {m : Type → Type} [Monad m] {α : Type}

/-- The result of an operation, whose failure ends the command. -/
def CommandM.ofExcept : Except Failure α → CommandM m α
  | .ok a => pure a
  | .error failure => throw (.failed failure)

/-- Work of the machine. -/
def CommandM.call (work : m α) : CommandM m α := ExceptT.lift work

/-- An operation, whose failure ends the command. -/
def CommandM.attempt (work : m (Except Failure α)) : CommandM m α := do
  CommandM.ofExcept (← CommandM.call work)

/-- Work of a cycle, whose crash ends the command. -/
def CommandM.cycle (work : CycleM m α) : CommandM m α := do
  match ← CommandM.call work.run with
  | .ok a => pure a
  | .error _ => throw .crashed

end

end Arbiter
