import Arbiter.Cycle.Run
import Arbiter.Platform.Client
import Arbiter.Proofs.Store.Rows

/-!
# Runs against any world

A `World` answers every question that a run asks, in any way it likes: an answer may depend on all the calls that were
made before. So a statement about every world is one about every behaviour of the platform, of the people who decide,
of the clock and of the journal, with all their failures.

* `Course`: work that asks a world and changes a store; what comes of it (`Upshot`) holds its calls in their order.
* `services`: the collaborators of a cycle that ask the world. `clientServices`: the same, with the writes to the
  platform made by its client over a transport that asks the world.
* `Course.Leads`: what work leads to, with one rule for each way of putting work together (`leads_bind`, `leads_ask`).
-/

namespace Arbiter

/-! ## Questions and answers -/

/-- What a run asks the world. -/
inductive Question where
  | clock
  /-- Whether the store can be worked on just now. -/
  | access
  | snapshot (id : String)
  | currentValue (market : Snapshot)
  | otherMarket (url : String)
  | user (name : String)
  | pullRequest (pull : PullRef)
  | entropy
  | confirm (market : Snapshot) (proposal : Proposal)
  | resolve (market : Snapshot) (value : Outcome)
  | cancel (market : Snapshot)
  | create (request : CreationRequest)
  | record (entry : JournalEntry)
  | send (request : HttpRequest)

namespace Question

/-- What a question may be answered. -/
def Answer : Question → Type
  | clock => Instant
  | access => Option StoreFault
  | snapshot _ => Except ReadFault Snapshot
  | currentValue _ => Except ReadFault Outcome
  | otherMarket _ => Except ReadFault Reference
  | user _ => Except ReadFault UserStats
  | pullRequest _ => Except ReadFault PullRequest
  | entropy => UInt64
  | confirm _ _ => Except Failure Decision
  | resolve _ _ | cancel _ | record _ => Except Failure Unit
  | create _ => Except Failure Snapshot
  | send _ => HttpReply

/-- Whether rules ask it. -/
def isReading : Question → Bool
  | currentValue _ | otherMarket _ | user _ | pullRequest _ | entropy => true
  | _ => false

/-- Whether a person is asked to decide. -/
def isConfirmation : Question → Bool
  | confirm _ _ => true
  | _ => false

/-- Whether it changes something on the platform. -/
def isWrite : Question → Bool
  | resolve _ _ | cancel _ | create _ => true
  | _ => false

end Question

/-- A question together with its answer. -/
structure Call where
  question : Question
  answer : question.Answer

/-- How each question is answered after the calls before it. -/
structure World where
  answer : (past : List Call) → (q : Question) → q.Answer

/-- A world that stands still at a moment: no call to the platform or to a person succeeds, but the store can be worked
on. -/
def World.still (now : Instant) : World where
  answer _
    | .clock => now
    | .access => none
    | .entropy => (0 : UInt64)
    | .snapshot _ | .currentValue _ | .otherMarket _ | .user _ | .pullRequest _ => .error (.request "")
    | .confirm _ _ | .resolve _ _ | .cancel _ | .create _ | .record _ => .error (.ofText "")
    | .send _ => .failed []

/-! ## Work against a world -/

/-- What comes of some work: its result, the calls that it made and the store that it leaves. -/
structure Upshot (α : Type) where
  result : α
  calls : List Call
  store : Store

/-- Work that asks a world and changes a store. -/
def Course (α : Type) : Type := World → (past : List Call) → Store → Upshot α

namespace Course

/-- What comes of work that begins after some calls on a store. -/
def upshot {α : Type} (x : Course α) (w : World) (past : List Call) (store : Store) : Upshot α := x w past store

instance : Monad Course where
  pure a := fun _ _ store => ⟨a, [], store⟩
  bind x f := fun w past store =>
    let first := x.upshot w past store
    let second := (f first.result).upshot w (past ++ first.calls) first.store
    ⟨second.result, first.calls ++ second.calls, second.store⟩

section Laws

variable {α β γ : Type} {w : World} {past : List Call} {store : Store}

theorem ext {x y : Course α} (h : ∀ w past store, x.upshot w past store = y.upshot w past store) : x = y :=
  funext fun w => funext fun past => funext fun store => h w past store

@[simp] theorem upshot_pure (a : α) : (pure a : Course α).upshot w past store = ⟨a, [], store⟩ := rfl

theorem upshot_bind (x : Course α) (f : α → Course β) :
    (x >>= f).upshot w past store =
      ⟨((f (x.upshot w past store).result).upshot w (past ++ (x.upshot w past store).calls)
          (x.upshot w past store).store).result,
        (x.upshot w past store).calls ++ ((f (x.upshot w past store).result).upshot w
          (past ++ (x.upshot w past store).calls) (x.upshot w past store).store).calls,
        ((f (x.upshot w past store).result).upshot w (past ++ (x.upshot w past store).calls)
          (x.upshot w past store).store).store⟩ := rfl

/-- The same where it is known what comes of the first. -/
theorem upshot_bind_of {x : Course α} {f : α → Course β} {a : α} {calls : List Call} {store' : Store}
    (hx : x.upshot w past store = ⟨a, calls, store'⟩) :
    (x >>= f).upshot w past store =
      ⟨((f a).upshot w (past ++ calls) store').result, calls ++ ((f a).upshot w (past ++ calls) store').calls,
        ((f a).upshot w (past ++ calls) store').store⟩ := by
  rw [upshot_bind, hx]

@[simp] theorem upshot_map (x : Course α) (f : α → β) :
    (f <$> x).upshot w past store =
      ⟨f (x.upshot w past store).result, (x.upshot w past store).calls, (x.upshot w past store).store⟩ := by
  change (x >>= fun a => pure (f a)).upshot w past store = _
  rw [upshot_bind]
  simp

theorem bind_pure_eq (x : Course α) : x >>= pure = x := ext fun w past store => by
  simp [upshot_bind]

theorem pure_bind_eq (a : α) (f : α → Course β) : pure a >>= f = f a := ext fun w past store => by
  simp [upshot_bind]

theorem bind_assoc_eq (x : Course α) (f : α → Course β) (g : β → Course γ) :
    x >>= f >>= g = x >>= fun a => f a >>= g := ext fun w past store => by
  simp [upshot_bind]

end Laws

instance : LawfulMonad Course := LawfulMonad.mk' Course (fun x => bind_pure_eq x) pure_bind_eq bind_assoc_eq

/-- A question to the world. -/
def ask (q : Question) : Course q.Answer := fun w past store =>
  ⟨w.answer past q, [⟨q, w.answer past q⟩], store⟩

/-- Work on the store alone. -/
def onStore {α : Type} (work : StoreM α) : Course (Except StoreFault α) := fun _ _ store =>
  let (result, store) := (ExceptT.run work).run store
  ⟨result, [], store⟩

/-- Work on the store as far as the world lets it. -/
def accessStore {α : Type} (work : StoreM α) : Course (Except StoreFault α) := do
  match ← ask .access with
  | some fault => pure (.error fault)
  | none => onStore work

end Course

/-- What rules read, asked of the world. -/
def worldSources : Sources Course where
  currentValue market := Course.ask (.currentValue market)
  otherMarket url := Course.ask (.otherMarket url)
  user name := Course.ask (.user name)
  pullRequest pull := Course.ask (.pullRequest pull)
  entropy := Course.ask .entropy

/-- A pass over a market at a moment that reads from the world. -/
def worldPass (market : Snapshot) (now : Instant) : Pass Course := ⟨market, now, worldSources⟩

/-- The collaborators of a cycle, all of them asked of the world; with or without a journal. -/
def services (journal : Bool) : Services Course where
  sources := worldSources
  snapshot id := Course.ask (.snapshot id)
  resolve market value := Course.ask (.resolve market value)
  cancel market := Course.ask (.cancel market)
  create request := Course.ask (.create request)
  confirm market proposal := Course.ask (.confirm market proposal)
  clock := Course.ask .clock
  record := if journal then some fun entry => Course.ask (.record entry) else none
  onStore := Course.accessStore
  notify _ := pure ()

/-- The client of the platform, each of its requests sent to the world. -/
def worldClient (baseUrl : String) (apiKey : Option String) : PlatformClient Course where
  transport := ⟨fun request => Course.ask (.send request)⟩
  clock := Course.ask .clock
  notify _ := pure ()
  baseUrl := baseUrl
  apiKey := apiKey

/-- The collaborators of a cycle that writes to the platform through its client. -/
def clientServices (journal : Bool) (baseUrl : String) (apiKey : Option String) : Services Course :=
  let client := worldClient baseUrl apiKey
  { services journal with resolve := client.resolve, cancel := client.cancel, create := client.create }

/-- Cycles one after another, each with or without a check of all markets. A cycle that fails does not keep the next one
from being run; a crash does. -/
def runEach {m : Type → Type} [Monad m] (s : Services m) (dryRun : Bool) :
    List Bool → CycleM m (List (Except Failure CycleSummary))
  | [] => pure []
  | refresh :: rest => do
    let result ← runCycle s dryRun refresh
    let results ← runEach s dryRun rest
    pure (result :: results)

/-! ## What work leads to -/

namespace Course

variable {α β : Type} {w : World} {past : List Call} {store : Store}

/-- The work, begun after `past` on `store`, ends with a result, calls and a store that `Q` holds of. -/
def Leads (x : Course α) (w : World) (past : List Call) (store : Store) (Q : α → List Call → Store → Prop) : Prop :=
  Q (x.upshot w past store).result (x.upshot w past store).calls (x.upshot w past store).store

@[simp] theorem leads_pure {a : α} {Q : α → List Call → Store → Prop} :
    (pure a : Course α).Leads w past store Q ↔ Q a [] store := Iff.rfl

@[simp] theorem leads_ask {q : Question} {Q : q.Answer → List Call → Store → Prop} :
    (ask q).Leads w past store Q ↔ Q (w.answer past q) [⟨q, w.answer past q⟩] store := Iff.rfl

theorem leads_bind {x : Course α} {f : α → Course β} {Q : β → List Call → Store → Prop} :
    (x >>= f).Leads w past store Q ↔
      x.Leads w past store fun a calls store' => (f a).Leads w (past ++ calls) store' fun b more => Q b (calls ++ more) :=
  Iff.rfl

theorem Leads.mono {x : Course α} {P Q : α → List Call → Store → Prop} (hx : x.Leads w past store P)
    (h : ∀ a calls store', P a calls store' → Q a calls store') : x.Leads w past store Q := h _ _ _ hx

/-- Work of which two things are known. -/
theorem Leads.and {x : Course α} {P Q : α → List Call → Store → Prop} (hp : x.Leads w past store P)
    (hq : x.Leads w past store Q) :
    x.Leads w past store fun a calls store' => P a calls store' ∧ Q a calls store' := ⟨hp, hq⟩

/-- Work followed by work that goes on from what it led to. -/
theorem Leads.bind {x : Course α} {f : α → Course β} {P : α → List Call → Store → Prop}
    {Q : β → List Call → Store → Prop} (hx : x.Leads w past store P)
    (hf : ∀ a calls store', P a calls store' →
      (f a).Leads w (past ++ calls) store' fun b more => Q b (calls ++ more)) : (x >>= f).Leads w past store Q :=
  leads_bind.2 (hx.mono hf)

/-- Notices change nothing. -/
theorem leads_notify {journal : Bool} {notice : Notice} {f : Unit → Course β} {Q : β → List Call → Store → Prop} :
    ((services journal).notify notice >>= f).Leads w past store Q ↔ (f ()).Leads w past store Q := by
  change (f ()).Leads w (past ++ []) store Q ↔ _
  rw [List.append_nil]

theorem notify_each {γ : Type} (journal : Bool) (notice : γ → Notice) :
    ∀ l : List γ, l.forM (fun a => (services journal).notify (notice a)) = (pure () : Course Unit)
  | [] => rfl
  | _ :: rest => (pure_bind () _).trans (notify_each journal notice rest)

theorem leads_of_upshot {x : Course α} {Q : α → List Call → Store → Prop}
    (h : ∀ a calls store', x.upshot w past store = ⟨a, calls, store'⟩ → Q a calls store') : x.Leads w past store Q :=
  h _ _ _ rfl

theorem Leads.upshot {x : Course α} {Q : α → List Call → Store → Prop} (hx : x.Leads w past store Q) {a : α}
    {calls : List Call} {store' : Store} (hu : x.upshot w past store = ⟨a, calls, store'⟩) : Q a calls store' := by
  unfold Leads at hx
  rw [hu] at hx
  exact hx

/-- Work on the store is done only if the world lets it. -/
theorem leads_accessStore {work : StoreM α} {Q : Except StoreFault α → List Call → Store → Prop} :
    (accessStore work).Leads w past store Q ↔
      match w.answer past .access with
      | some fault => Q (.error fault) [⟨.access, some fault⟩] store
      | none => Q (Store.run work store).1 [⟨.access, none⟩] (Store.run work store).2 := by
  unfold accessStore
  rw [leads_bind, leads_ask]
  generalize w.answer past .access = access
  match access with
  | some fault => exact Iff.rfl
  | none => exact Iff.rfl

/-- A fault of the store is a failure. -/
theorem ofStore_error (α : Type) (fault : StoreFault) :
    ∃ failure, ofStore (.error fault : Except StoreFault α) = .error failure := by
  cases fault <;> exact ⟨_, rfl⟩

theorem leads_store {journal : Bool} {work : StoreM α} {Q : Except Failure α → List Call → Store → Prop} :
    ((services journal).store work).Leads w past store Q ↔
      match w.answer past .access with
      | some fault => Q (ofStore (.error fault)) [⟨.access, some fault⟩] store
      | none => Q (ofStore (Store.run work store).1) [⟨.access, none⟩] (Store.run work store).2 := by
  refine leads_bind.trans (leads_accessStore.trans ?_)
  generalize w.answer past .access = access
  match access with
  | some fault => exact Iff.rfl
  | none => exact Iff.rfl

/-- Rows that cannot be read are only told about. -/
theorem load_eq (journal : Bool) (table : TableName) (work : StoreM (Loaded α)) :
    (services journal).load table work =
      (services journal).store work >>= fun loaded => (pure (loaded.map (·.found)) : Course (Except Failure (List α))) := by
  unfold Archive.load
  refine congrArg (_ >>= ·) (funext fun loaded => ?_)
  match loaded with
  | .error _ => rfl
  | .ok _ =>
    dsimp only
    rw [notify_each, pure_bind]
    rfl

theorem leads_load {journal : Bool} {table : TableName} {work : StoreM (Loaded α)}
    {Q : Except Failure (List α) → List Call → Store → Prop} :
    ((services journal).load table work).Leads w past store Q ↔
      match w.answer past .access with
      | some fault => Q ((ofStore (.error fault : Except StoreFault (Loaded α))).map (·.found)) [⟨.access, some fault⟩] store
      | none => Q ((ofStore (Store.run work store).1).map (·.found)) [⟨.access, none⟩] (Store.run work store).2 := by
  rw [load_eq]
  refine leads_bind.trans (leads_store.trans ?_)
  generalize w.answer past .access = access
  match access with
  | some fault => exact Iff.rfl
  | none => exact Iff.rfl

/-! ## Work that leaves the store alone -/

/-- On every store the work gives this result with these calls, and leaves the store as it is. -/
def Gives (x : Course α) (w : World) (past : List Call) (a : α) (calls : List Call) : Prop :=
  ∀ store, x.upshot w past store = ⟨a, calls, store⟩

theorem gives_pure (a : α) : (pure a : Course α).Gives w past a [] := fun _ => rfl

theorem gives_ask (q : Question) : (ask q).Gives w past (w.answer past q) [⟨q, w.answer past q⟩] := fun _ => rfl

/-- The same where the answer is known. -/
theorem gives_ask_of {q : Question} {a : q.Answer} (h : w.answer past q = a) : (ask q).Gives w past a [⟨q, a⟩] :=
  h ▸ gives_ask q

theorem Gives.bind {x : Course α} {f : α → Course β} {a : α} {b : β} {calls more : List Call}
    (hx : x.Gives w past a calls) (hf : (f a).Gives w (past ++ calls) b more) :
    (x >>= f).Gives w past b (calls ++ more) := fun store => by
  rw [upshot_bind_of (hx store), hf store]

/-- Such work leads to what it gives. -/
theorem Gives.leads {x : Course α} {a : α} {calls : List Call} (hx : x.Gives w past a calls)
    {Q : α → List Call → Store → Prop} (h : Q a calls store) : x.Leads w past store Q := by
  unfold Leads
  rw [hx store]
  exact h

end Course

/-! ## Work that may crash -/

namespace CycleM

/-- Nothing follows a crash. -/
theorem throw_bind {m : Type → Type} [Monad m] [LawfulMonad m] {α β : Type} (e : Crash) (f : α → CycleM m β) :
    (throw e : CycleM m α) >>= f = throw e := pure_bind (Except.error e) (ExceptT.bindCont f)

variable {α β : Type} {w : World} {past : List Call} {store : Store}

/-- Like `Course.Leads`; the result may be a crash. -/
def Leads (x : CycleM Course α) (w : World) (past : List Call) (store : Store)
    (Q : Except Crash α → List Call → Store → Prop) : Prop :=
  Course.Leads (ExceptT.run x) w past store Q

@[simp] theorem leads_pure {a : α} {Q : Except Crash α → List Call → Store → Prop} :
    (pure a : CycleM Course α).Leads w past store Q ↔ Q (.ok a) [] store := Iff.rfl

@[simp] theorem leads_throw {e : Crash} {Q : Except Crash α → List Call → Store → Prop} :
    (throw e : CycleM Course α).Leads w past store Q ↔ Q (.error e) [] store := Iff.rfl

@[simp] theorem leads_call {x : Course α} {Q : Except Crash α → List Call → Store → Prop} :
    (CycleM.call x).Leads w past store Q ↔ x.Leads w past store fun a calls store' => Q (.ok a) calls store' := by
  change Q _ (_ ++ []) _ ↔ _
  rw [List.append_nil]
  rfl

theorem leads_bind {x : CycleM Course α} {f : α → CycleM Course β} {Q : Except Crash β → List Call → Store → Prop} :
    (x >>= f).Leads w past store Q ↔ x.Leads w past store fun
      | .ok a, calls, store' => (f a).Leads w (past ++ calls) store' fun b more => Q b (calls ++ more)
      | .error e, calls, store' => Q (.error e) calls store' := by
  change Course.Leads (ExceptT.run x >>= ExceptT.bindCont f) w past store Q ↔ _
  rw [Course.leads_bind]
  unfold Leads Course.Leads
  cases (Course.upshot (ExceptT.run x) w past store).result with
  | ok a => exact Iff.rfl
  | error e =>
    have happ : ∀ calls store', Q (.error e) (calls ++ []) store' ↔ Q (.error e) calls store' := fun calls store' => by
      rw [List.append_nil]
    exact happ _ _

/-- Work of a collaborator never crashes. -/
theorem leads_call_bind {x : Course α} {f : α → CycleM Course β} {Q : Except Crash β → List Call → Store → Prop} :
    (CycleM.call x >>= f).Leads w past store Q ↔ x.Leads w past store fun a calls store' =>
      (f a).Leads w (past ++ calls) store' fun b more => Q b (calls ++ more) := by
  rw [leads_bind, leads_call]

theorem Leads.mono {x : CycleM Course α} {P Q : Except Crash α → List Call → Store → Prop}
    (hx : x.Leads w past store P) (h : ∀ a calls store', P a calls store' → Q a calls store') :
    x.Leads w past store Q := h _ _ _ hx

/-- Work of which two things are known. -/
theorem Leads.and {x : CycleM Course α} {P Q : Except Crash α → List Call → Store → Prop} (hp : x.Leads w past store P)
    (hq : x.Leads w past store Q) :
    x.Leads w past store fun a calls store' => P a calls store' ∧ Q a calls store' := ⟨hp, hq⟩

/-- Work followed by work that goes on from what it led to, unless it crashed. -/
theorem Leads.bind {x : CycleM Course α} {f : α → CycleM Course β} {P : Except Crash α → List Call → Store → Prop}
    {Q : Except Crash β → List Call → Store → Prop} (hx : x.Leads w past store P)
    (hf : ∀ a calls store', P (.ok a) calls store' →
      (f a).Leads w (past ++ calls) store' fun b more => Q b (calls ++ more))
    (he : ∀ e calls store', P (.error e) calls store' → Q (.error e) calls store') :
    (x >>= f).Leads w past store Q :=
  leads_bind.2 (hx.mono fun
    | .ok a, calls, store', h => hf a calls store' h
    | .error e, calls, store', h => he e calls store' h)

end CycleM

end Arbiter
