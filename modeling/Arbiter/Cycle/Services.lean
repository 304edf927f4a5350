import Arbiter.Journal
import Arbiter.Market.Pass
import Arbiter.Store.Archive

/-!
# What a cycle works with

The outside world as the cycle sees it: the store, the platform and its writes, the person who decides, the clock and
the journal.
-/

namespace Arbiter

/-- The collaborators of a cycle. -/
structure Services (m : Type → Type) extends Archive m where
  /-- What rules read. -/
  sources : Sources m
  /-- A managed market as the platform has it now, by its identifier. -/
  snapshot : String → m (Except ReadFault Snapshot)
  /-- Resolves a market on the platform. -/
  resolve : Snapshot → Outcome → m (Except Failure Unit)
  /-- Cancels a market on the platform. -/
  cancel : Snapshot → m (Except Failure Unit)
  /-- Creates a market on the platform. -/
  create : CreationRequest → m (Except Failure Snapshot)
  /-- Asks what to do with a market. -/
  confirm : Snapshot → Proposal → m (Except Failure Decision)
  clock : m Instant
  /-- Appends to the journal, if one is kept. -/
  record : Option (JournalEntry → m (Except Failure Unit))

/-- The end of all work because a computation left the range in which it is defined. -/
inductive Crash where
  | outOfRange
deriving DecidableEq, Repr

/-- Work that a crash may end. -/
abbrev CycleM (m : Type → Type) := ExceptT Crash m

section

variable {m : Type → Type} [Monad m] {α : Type}

/-- Work of a collaborator. -/
def CycleM.call (work : m α) : CycleM m α := ExceptT.lift work

/-- The work of one pass, with what is remembered after it. -/
def CycleM.inPass (memory : Memory) (work : PassM m α) : CycleM m (Except RuleFault α × Memory) := do
  let (result, memory) ← CycleM.call (PassM.runFrom memory work)
  match result with
  | .ok a => pure (.ok a, memory)
  | .error (.fault fault) => pure (.error fault, memory)
  | .error .crash => throw .outOfRange

/-- A result that has to be there. -/
def CycleM.orCrash : Option α → CycleM m α
  | some a => pure a
  | none => throw .outOfRange

end

end Arbiter
