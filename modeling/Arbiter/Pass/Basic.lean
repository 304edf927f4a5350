import Arbiter.Cache
import Arbiter.Rule.Basic
import Arbiter.Rule.Fault

/-!
# One pass over one market

During a pass rules read the outside world through `Sources`. What was read once is remembered until the pass ends, so
that all rules see the same world; a read that failed is not remembered and is tried again.

* `Pass.currentValue`, `Pass.otherMarket`, `Pass.user`, `Pass.pullRequest`: the reads.
* `Pass.entropy`: the seed of a draw without a seed of its own, one for each node and pass.
* `Memory.reads`: how many different things were read.
* `PassM.runFrom_bind`, `PassM.runFrom_remember`: the work of a pass as a step from one memory to the next.
-/

namespace Arbiter

/-- What rules read from the outside world. -/
structure Sources (m : Type → Type) where
  /-- The present value of a managed market. -/
  currentValue : Snapshot → m (Except ReadFault Outcome)
  /-- Any market, by its address. -/
  otherMarket : String → m (Except ReadFault Reference)
  /-- The statistics of a user, by name. -/
  user : String → m (Except ReadFault UserStats)
  pullRequest : PullRef → m (Except ReadFault PullRequest)
  /-- A word by chance. -/
  entropy : m UInt64

/-- What is remembered during a pass. -/
structure Memory where
  current : Cache String Outcome
  others : Cache String Reference
  pulls : Cache PullRef PullRequest
  users : Cache String UserStats
  /-- Seeds by the node that draws, as the path to it from its market. -/
  seeds : Cache (List Nat) UInt64
deriving Inhabited

namespace Memory

/-- Nothing is remembered yet. -/
def empty : Memory := ⟨∅, ∅, ∅, ∅, ∅⟩

/-- How many different things were read; seeds do not count. -/
def reads (memory : Memory) : Nat :=
  memory.current.size + memory.others.size + memory.pulls.size + memory.users.size

end Memory

/-- Why the work on a rule ended without a result. -/
inductive Halt where
  | fault (f : RuleFault)
  /-- A computation left the range in which it is defined. -/
  | crash

/-- Work that reads through the memory of a pass. What was remembered before a failure stays remembered. -/
abbrev PassM (m : Type → Type) := ExceptT Halt (StateT Memory m)

/-- A market at one moment, together with the world around it. -/
structure Pass (m : Type → Type) where
  market : Snapshot
  now : Instant
  sources : Sources m

section Reads

variable {m : Type → Type} [Monad m] {α κ : Type} [DecidableEq κ]

/-- Ends the work with a fault. -/
def PassM.fail (f : RuleFault) : PassM m α := throw (.fault f)

/-- The result of a computation without reads. -/
def PassM.ofExcept : Except RuleFault α → PassM m α
  | .ok a => pure a
  | .error f => PassM.fail f

/-- The value for a key in one table of the memory, read and put there if it is not yet known. -/
def remember (table : Memory → Cache κ α) (store : Memory → Cache κ α → Memory) (key : κ)
    (read : m (Except ReadFault α)) : PassM m α := fun memory =>
  match (table memory).get? key with
  | some value => pure (.ok value, memory)
  | none => do
    match ← read with
    | .ok value => pure (.ok value, store memory ((table memory).insert key value))
    | .error fault => pure (.error (.fault (.read fault)), memory)

namespace Pass

/-- The present value of the market itself. -/
def currentValue (p : Pass m) : PassM m Outcome :=
  remember Memory.current (fun memory t => { memory with current := t }) p.market.id (p.sources.currentValue p.market)

/-- Another market. -/
def otherMarket (p : Pass m) (url : String) : PassM m Reference :=
  remember Memory.others (fun memory t => { memory with others := t }) url (p.sources.otherMarket url)

/-- A user's statistics. -/
def user (p : Pass m) (name : String) : PassM m UserStats :=
  remember Memory.users (fun memory t => { memory with users := t }) name (p.sources.user name)

/-- A pull request. -/
def pullRequest (p : Pass m) (pull : PullRef) : PassM m PullRequest :=
  remember Memory.pulls (fun memory t => { memory with pulls := t }) pull (p.sources.pullRequest pull)

/-- The present weights of the market's answers. -/
def currentDistribution (p : Pass m) : PassM m (Distribution Float) := do
  match ← p.currentValue with
  | .distribution weights => pure weights
  | other => PassM.fail (.mismatch (.variant .distribution) (.variant other.variant))

/-- The seed of a node without one, drawn once in a pass. -/
def entropy (p : Pass m) (node : List Nat) : PassM m UInt64 := fun memory =>
  match memory.seeds.get? node with
  | some seed => pure (.ok seed, memory)
  | none => do
    let seed ← p.sources.entropy
    pure (.ok seed, { memory with seeds := memory.seeds.insert node seed })

/-- The generator of a node: from its own seed, or from chance. -/
def generator (p : Pass m) (node : List Nat) : Option Seed → PassM m Generator
  | some seed => pure seed.generator
  | none => return Generator.ofNumber (← p.entropy node)

end Pass

end Reads

namespace PassM

variable {m : Type → Type} [Monad m] {α β κ : Type} [DecidableEq κ]

/-- The work of a pass from a given memory: its result, and what is remembered after it. -/
def runFrom (memory : Memory) (work : PassM m α) : m (Except Halt α × Memory) := work memory

omit [Monad m] in
/-- Work is the same if it gives the same from every memory. -/
theorem ext {a b : PassM m α} (h : ∀ memory, a.runFrom memory = b.runFrom memory) : a = b := funext h

@[simp] theorem runFrom_pure (memory : Memory) (a : α) :
    (pure a : PassM m α).runFrom memory = pure (.ok a, memory) := rfl

@[simp] theorem runFrom_fail (memory : Memory) (f : RuleFault) :
    (PassM.fail f : PassM m α).runFrom memory = pure (.error (.fault f), memory) := rfl

@[simp] theorem runFrom_bind (memory : Memory) (work : PassM m α) (next : α → PassM m β) :
    (work >>= next).runFrom memory = work.runFrom memory >>= fun
      | (.ok a, memory) => (next a).runFrom memory
      | (.error halt, memory) => pure (.error halt, memory) := by
  refine congrArg (work memory >>= ·) (funext fun (result, memory) => ?_)
  cases result <;> rfl

/-- The same where it is known what the first comes to. -/
theorem runFrom_bind_of [LawfulMonad m] {memory middle : Memory} {work : PassM m α} {next : α → PassM m β} {a : α}
    (h : work.runFrom memory = pure (.ok a, middle)) : (work >>= next).runFrom memory = (next a).runFrom middle := by
  rw [runFrom_bind, h, pure_bind]

theorem runFrom_map [LawfulMonad m] (memory : Memory) (f : α → β) (work : PassM m α) :
    (f <$> work).runFrom memory = (fun x => (x.1.map f, x.2)) <$> work.runFrom memory := by
  rw [map_eq_pure_bind f work, runFrom_bind, map_eq_pure_bind]
  refine congrArg (work.runFrom memory >>= ·) (funext fun (result, memory) => ?_)
  cases result <;> rfl

theorem runFrom_remember (memory : Memory) (table : Memory → Cache κ α) (store : Memory → Cache κ α → Memory) (key : κ)
    (read : m (Except ReadFault α)) :
    (remember table store key read).runFrom memory =
      match (table memory).get? key with
      | some value => pure (.ok value, memory)
      | none => read >>= fun
        | .ok value => pure (.ok value, store memory ((table memory).insert key value))
        | .error fault => pure (.error (.fault (.read fault)), memory) := rfl

end PassM

end Arbiter
