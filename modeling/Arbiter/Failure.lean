import Arbiter.Store.Basic

/-!
# Failures of whole operations

A failure is a cause with contexts around it, each of which says what was tried.

* `Failure.texts`: everything that is said of a failure, from the outermost context to the innermost cause.
* `Failure.message`: the same in one line.
-/

namespace Arbiter

/-- The wording of a fault in a record. -/
def DecodeFault.message : DecodeFault → String
  | .notJson => "no JSON value"
  | .shape => "a value of another shape is expected"
  | .missing field => "missing field `" ++ field ++ "`"
  | .rule fault => fault.message

/-- The wording of a fault of the store. -/
def StoreFault.message : StoreFault → String
  | .missingTable table => "no such table: " ++ table.name
  | .missingRow _ => "Query returned no rows"
  | .numericCheck _ => "Column last_checked holds a number"
  | .readOnly => "attempt to write a readonly database"
  | .priority => "NOT NULL constraint failed: pending.priority"
  | .corrupt row fault => "Corrupt market row " ++ toString row ++ ": " ++ fault.message

/-- Why an operation failed. -/
inductive Cause where
  | rule (fault : RuleFault)
  | read (fault : ReadFault)
  | store (fault : StoreFault)
  | decode (fault : DecodeFault)
  /-- Texts, each one explained by the next. -/
  | said (texts : List String)

/-- What is said of a cause. -/
def Cause.texts : Cause → List String
  | .rule (.read fault) => [(RuleFault.read fault).message, fault.message]
  | .rule fault => [fault.message]
  | .read fault => [fault.message]
  | .store fault => [fault.message]
  | .decode fault => [fault.message]
  | .said texts => texts

/-- A failed operation. -/
structure Failure where
  /-- What was tried, from the outermost operation to the innermost. -/
  contexts : List String
  cause : Cause

namespace Failure

/-- A failure without a context. -/
def ofCause (cause : Cause) : Failure := ⟨[], cause⟩

/-- A failure that one text explains. -/
def ofText (text : String) : Failure := ⟨[], .said [text]⟩

/-- The failure with one more context around it. -/
def inContext (context : String) (failure : Failure) : Failure :=
  { failure with contexts := context :: failure.contexts }

/-- Everything that is said of a failure. -/
def texts (failure : Failure) : List String :=
  failure.contexts ++ failure.cause.texts

/-- The outermost text. -/
def headline (failure : Failure) : String :=
  failure.texts.head?.getD ""

/-- The failure in one line. -/
def message (failure : Failure) : String :=
  ": ".intercalate failure.texts

end Failure

/-- What is said of a file that is not there. -/
def missingFile : String := "No such file or directory (os error 2)"

/-- The failures of the store among those of operations. -/
def ofStore {α : Type} : Except StoreFault α → Except Failure α
  | .ok a => .ok a
  | .error (.corrupt row fault) => .error ⟨["Corrupt market row " ++ toString row], .decode fault⟩
  | .error fault => .error (.ofCause (.store fault))

end Arbiter
