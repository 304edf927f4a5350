import Arbiter.Proofs.Pass.Reads

/-!
# What holds of all work in a cycle that only reads

The part of a check that proposes a value does nothing but read. So whatever holds of all reading, and is kept when work
is put together, holds of it.

* `CourseLaw`: a property that all reading has and that is kept.
* `CourseLaw.isWanted`, `CourseLaw.propose`: whether a market is wanted, and what is proposed for it.
-/

namespace Arbiter

/-- A property that all work has that only reads, and that is kept when work is put together. -/
structure CourseLaw (P : {α : Type} → Course α → Prop) : Prop where
  pure : ∀ {α : Type} (a : α), P (pure a : Course α)
  bind : ∀ {α β : Type} {x : Course α} {f : α → Course β}, P x → (∀ a, P (f a)) → P (x >>= f)
  reads : ∀ {α : Type} {x : Course α}, x.OnlyReads → P x

namespace CourseLaw

variable {P : {α : Type} → Course α → Prop} {α β : Type}

/-! ## Work that may crash -/

theorem ok (law : CourseLaw P) (a : α) : P (ExceptT.run (Pure.pure a : CycleM Course α)) := law.pure (Except.ok a)

theorem crash (law : CourseLaw P) (e : Crash) : P (ExceptT.run (throw e : CycleM Course α)) := law.pure (Except.error e)

theorem call (law : CourseLaw P) {x : Course α} (hx : P x) : P (ExceptT.run (CycleM.call x)) :=
  law.bind hx fun a => law.pure (Except.ok a)

theorem followed (law : CourseLaw P) {x : CycleM Course α} {f : α → CycleM Course β} (hx : P (ExceptT.run x))
    (hf : ∀ a, P (ExceptT.run (f a))) : P (ExceptT.run (x >>= f)) :=
  law.bind hx fun
    | .ok a => hf a
    | .error e => law.pure (Except.error e)

theorem inPass (law : CourseLaw P) {memory : Memory} {work : PassM Course α} (hw : (work.runFrom memory).OnlyReads) :
    P (ExceptT.run (CycleM.inPass memory work)) :=
  law.followed (law.call (law.reads hw)) fun
    | (.ok a, memory) => law.ok (Except.ok a, memory)
    | (.error (.fault fault), memory) => law.ok (Except.error fault, memory)
    | (.error .crash, _) => law.crash .outOfRange

/-! ## Checks -/

theorem isWanted (law : CourseLaw P) (market : Market) (refresh : Bool) (now : Instant) :
    P (ExceptT.run (isWanted market refresh now : CycleM Course Bool)) := by
  unfold Arbiter.isWanted
  cases refresh with
  | true => exact law.ok true
  | false =>
    cases market.isDue now with
    | none => exact law.crash .outOfRange
    | some due => exact law.ok due

theorem propose (law : CourseLaw P) (journal : Bool) (market : Market) (now : Instant) :
    P (ExceptT.run (propose (services journal) market now)) := by
  have reads := passReads market.snapshot now
  refine law.followed (law.inPass (reads.shouldResolve market _)) fun
    | (.error fault, _) => law.ok _
    | (.ok false, _) => law.ok _
    | (.ok true, memory) =>
      law.followed (law.inPass (reads.resolveTo market memory)) fun
        | (.error fault, _) => law.ok _
        | (.ok value, memory) =>
          law.followed (law.inPass (reads.explainIn market memory)) fun
            | (.ok e, _) => law.ok _
            | (.error fault, _) => law.followed (law.call (law.pure ())) fun _ => law.ok _

end CourseLaw

end Arbiter
