import Arbiter.Proofs.Pass.Durable
import Mathlib.Data.Finset.Card

/-!
# What a pass reads, it reads once

Between two calls nothing in the memory of a pass changes. Each call is for something that is not known yet: a success is
put into its table, and a failure changes nothing, so the same thing is asked for again. Hence the memory tells at every
moment which reads succeeded so far, and the number of its entries is their number.

* `Reading`: what can be read, as a table of the memory and a key. `Call.read?`: what a call read.
* `Memory.Step`, `Memory.Steps`: how one call changes the memory, and how several do.
* `Memory.Steps.knows_iff`, `Memory.Steps.reads_eq`, `Memory.Steps.unrepeated`: what the calls of a pass have in common.
* `each_read_once`: all of this for whatever a pass is consulted about.
-/

namespace Arbiter

/-! ## Readings -/

/-- What a pass can read: a table of its memory with a key. -/
inductive Reading where
  | current (id : String)
  | market (url : String)
  | user (name : String)
  | pull (request : PullRef)
deriving DecidableEq

namespace Reading

/-- The question for it in a pass over a market. -/
def question (market : Snapshot) : Reading → Question
  | .current _ => .currentValue market
  | .market url => .otherMarket url
  | .user name => .user name
  | .pull request => .pullRequest request

/-- The read of it in a pass. -/
def work {m : Type → Type} [Monad m] (p : Pass m) : Reading → PassM m Unit
  | .current _ => (fun _ => ()) <$> p.currentValue
  | .market url => (fun _ => ()) <$> p.otherMarket url
  | .user name => (fun _ => ()) <$> p.user name
  | .pull request => (fun _ => ()) <$> p.pullRequest request

end Reading

/-- What a question is for, if an answer to it is kept as something read. -/
def Question.reading? : Question → Option Reading
  | .currentValue market => some (.current market.id)
  | .otherMarket url => some (.market url)
  | .user name => some (.user name)
  | .pullRequest pull => some (.pull pull)
  | _ => none

/-- What a call read, if it was a read and succeeded. -/
def Call.read? : Call → Option Reading
  | ⟨.currentValue market, .ok _⟩ => some (.current market.id)
  | ⟨.otherMarket url, .ok _⟩ => some (.market url)
  | ⟨.user name, .ok _⟩ => some (.user name)
  | ⟨.pullRequest pull, .ok _⟩ => some (.pull pull)
  | _ => none

theorem Call.reading?_of_read? {c : Call} {r : Reading} (h : c.read? = some r) : c.question.reading? = some r := by
  unfold Call.read? at h
  split at h <;> first | exact h | cases h

namespace Memory

/-! ## One call -/

/-- Whether something was read and is remembered. -/
def knows (memory : Memory) : Reading → Bool
  | .current id => (memory.current.get? id).isSome
  | .market url => (memory.others.get? url).isSome
  | .user name => (memory.users.get? name).isSome
  | .pull pull => (memory.pulls.get? pull).isSome

/-- The memory with what a call read; a call that read nothing leaves it as it is. -/
def learn (memory : Memory) : Call → Memory
  | ⟨.currentValue market, .ok value⟩ => { memory with current := memory.current.insert market.id value }
  | ⟨.otherMarket url, .ok reference⟩ => { memory with others := memory.others.insert url reference }
  | ⟨.user name, .ok stats⟩ => { memory with users := memory.users.insert name stats }
  | ⟨.pullRequest pull, .ok request⟩ => { memory with pulls := memory.pulls.insert pull request }
  | _ => memory

theorem isSome_get?_insert {κ α : Type} [DecidableEq κ] (c : Cache κ α) (k j : κ) (v : α) :
    ((c.insert k v).get? j).isSome = true ↔ (c.get? j).isSome = true ∨ k = j := by
  by_cases h : j = k
  · subst h
    simp
  · simp [Cache.get?_insert_ne c v h, Ne.symm h]

/-- After a call exactly what it read is known besides what was known before. -/
theorem knows_learn (memory : Memory) (c : Call) (r : Reading) :
    (memory.learn c).knows r = true ↔ memory.knows r = true ∨ c.read? = some r := by
  unfold learn Call.read?
  split <;> cases r <;> simp [knows, isSome_get?_insert]

theorem learn_of_read?_eq_none (memory : Memory) {c : Call} (h : c.read? = none) : memory.learn c = memory := by
  unfold learn Call.read? at *
  split at h <;> first | rfl | cases h

/-- A call for something unknown adds one entry if it succeeds, and none if it fails. -/
theorem reads_learn {memory : Memory} {c : Call} {r : Reading} (about : c.question.reading? = some r)
    (unknown : memory.knows r = false) : (memory.learn c).reads = memory.reads + c.read?.toList.length := by
  have hsize : ∀ {κ α : Type} [DecidableEq κ] (t : Cache κ α) (k : κ) (v : α), (t.get? k).isSome = false →
      (t.insert k v).size = t.size + 1 := fun t k v h => by rw [Cache.size_insert, h, if_neg Bool.false_ne_true]
  unfold learn Call.read?
  split
  case h_5 => rfl
  -- a success in one of the four tables
  all_goals
    cases about
    simp only [reads, hsize _ _ _ unknown, Option.toList_some, List.length_singleton]
    omega

/-- What one call of a pass does. A read is for something unknown, and only what it read is added; a draw is for a node
without a seed, and only the seed is added. -/
inductive Step : Memory → Call → Memory → Prop where
  | read {memory : Memory} {c : Call} {r : Reading} (about : c.question.reading? = some r)
      (unknown : memory.knows r = false) : Step memory c (memory.learn c)
  | draw {memory : Memory} {node : List Nat} (word : UInt64) (unseeded : memory.seeds.get? node = none) :
      Step memory ⟨.entropy, word⟩ { memory with seeds := memory.seeds.insert node word }

namespace Step

variable {memory next : Memory} {c : Call} {r : Reading}

theorem unknown (h : Step memory c next) (about : c.question.reading? = some r) : memory.knows r = false := by
  cases h with
  | read about' unknown =>
    cases about.symm.trans about'
    exact unknown
  | draw => cases about

theorem knows_iff (h : Step memory c next) : next.knows r = true ↔ memory.knows r = true ∨ c.read? = some r := by
  cases h with
  | read => exact knows_learn memory c r
  | draw => cases r <;> simp [knows, Call.read?]

theorem reads_eq (h : Step memory c next) : next.reads = memory.reads + c.read?.toList.length := by
  cases h with
  | read about unknown => exact reads_learn about unknown
  | draw => rfl

end Step

/-! ## Several calls -/

/-- What several calls of a pass do, one after another. -/
inductive Steps : Memory → List Call → Memory → Prop where
  | done (memory : Memory) : Steps memory [] memory
  | next {memory middle last : Memory} {c : Call} {calls : List Call} :
      Step memory c middle → Steps middle calls last → Steps memory (c :: calls) last

namespace Steps

variable {memory middle last : Memory} {calls more : List Call} {r : Reading}

theorem append (h : Steps memory calls middle) (h' : Steps middle more last) : Steps memory (calls ++ more) last := by
  induction h with
  | done => exact h'
  | next hc _ ih => exact .next hc (ih h')

/-- Between two calls there is a memory. -/
theorem split : ∀ {calls : List Call} {memory : Memory}, Steps memory (calls ++ more) last →
    ∃ middle, Steps memory calls middle ∧ Steps middle more last
  | [], memory, h => ⟨memory, .done memory, h⟩
  | _ :: _, _, .next hc h => by
    obtain ⟨middle, hcalls, hmore⟩ := split h
    exact ⟨middle, .next hc hcalls, hmore⟩

theorem knows_iff (h : Steps memory calls last) :
    last.knows r = true ↔ memory.knows r = true ∨ r ∈ calls.filterMap Call.read? := by
  induction h with
  | done => simp
  | next hc _ ih => simp [ih, hc.knows_iff, or_assoc, List.mem_filterMap]

/-- Nothing is asked for that was known. -/
theorem unknown (h : Steps memory calls last) :
    ∀ c ∈ calls, ∀ r, c.question.reading? = some r → memory.knows r = false := by
  induction h with
  | done => simp
  | next hc _ ih =>
    refine List.forall_mem_cons.2 ⟨fun r => hc.unknown, fun c hmem r about => Bool.eq_false_iff.2 fun hknown => ?_⟩
    have hlater := ih c hmem r about
    rw [hc.knows_iff.2 (.inl hknown)] at hlater
    cases hlater

/-- Nothing is asked for again after it was read. -/
theorem unrepeated (h : Steps memory calls last) :
    calls.Pairwise fun earlier later => ∀ r, earlier.read? = some r → later.question.reading? ≠ some r := by
  induction h with
  | done => exact .nil
  | next hc hcalls ih =>
    refine List.pairwise_cons.2 ⟨fun c hmem r hread about => ?_, ih⟩
    have hunknown := hcalls.unknown c hmem r about
    rw [hc.knows_iff.2 (.inr hread)] at hunknown
    cases hunknown

/-- A read that failed leaves the memory as it was. -/
theorem after_failed {c : Call} (h : Steps memory (c :: calls) last) (about : c.question.reading? ≠ none)
    (failed : c.read? = none) : Steps memory calls last := by
  cases h with
  | next hc hcalls =>
    cases hc with
    | read => rwa [learn_of_read?_eq_none memory failed] at hcalls
    | draw => exact absurd rfl about

/-- What was read, in its order, holds nothing twice. -/
theorem nodup_read (h : Steps memory calls last) : (calls.filterMap Call.read?).Nodup := by
  refine List.pairwise_filterMap.2 (h.unrepeated.imp fun hne r hr r' hr' heq => ?_)
  subst heq
  exact hne r hr (Call.reading?_of_read? hr')

/-- Each success adds one entry, and nothing else does. -/
theorem reads_eq (h : Steps memory calls last) : last.reads = memory.reads + (calls.filterMap Call.read?).length := by
  induction h with
  | done => simp
  | @next _ _ _ c _ hc _ ih =>
    rw [ih, hc.reads_eq]
    cases hread : c.read? with
    | none => simp [hread]
    | some r =>
      rw [List.filterMap_cons_some hread, List.length_cons, Option.toList_some, List.length_singleton]
      omega

end Steps

end Memory

/-! ## Work that asks step by step -/

/-- Wherever it begins, the calls of the work lead from the memory before it to the one after it. -/
def PassM.Stepwise {α : Type} (x : PassM Course α) : Prop :=
  ∀ (w : World) (past : List Call) (memory : Memory) (store : Store),
    (x.runFrom memory).Leads w past store fun ends calls _ => Memory.Steps memory calls ends.2

namespace PassM.Stepwise

variable {α β κ : Type} [DecidableEq κ]

protected theorem pure (a : α) : Stepwise (Pure.pure a : PassM Course α) := fun _ _ memory _ => .done memory

protected theorem halt (h : Halt) : Stepwise (throw h : PassM Course α) := fun _ _ memory _ => .done memory

protected theorem bind {x : PassM Course α} {f : α → PassM Course β} (hx : Stepwise x) (hf : ∀ a, Stepwise (f a)) :
    Stepwise (x >>= f) := by
  intro w past memory store
  rw [PassM.runFrom_bind]
  refine (hx w past memory store).bind fun (result, middle) calls store' h => ?_
  cases result with
  | error halt => exact h.append (.done middle)
  | ok a => exact (hf a w (past ++ calls) middle store').mono fun _ _ _ h' => h.append h'

/-- A read makes one call if its key is unknown, and none otherwise. -/
protected theorem remember {table : Memory → Cache κ α} {store : Memory → Cache κ α → Memory} {key : κ}
    {read : Course (Except ReadFault α)} (r : Reading) (call : Except ReadFault α → Call)
    (hread : ∀ (w : World) (past : List Call) (s : Store),
      read.Leads w past s fun answer calls _ => calls = [call answer])
    (about : ∀ answer, (call answer).question.reading? = some r)
    (known : ∀ memory : Memory, memory.knows r = ((table memory).get? key).isSome)
    (kept : ∀ (memory : Memory) (value : α),
      memory.learn (call (.ok value)) = store memory ((table memory).insert key value))
    (missed : ∀ (memory : Memory) (fault : ReadFault), memory.learn (call (.error fault)) = memory) :
    Stepwise (remember table store key read) := by
  intro w past memory s
  rw [PassM.runFrom_remember]
  cases hk : (table memory).get? key with
  | some value => exact .done memory
  | none =>
    have unknown : memory.knows r = false := by rw [known, hk, Option.isSome_none]
    have single : ∀ answer, Memory.Steps memory [call answer] (memory.learn (call answer)) := fun answer =>
      .next (.read (about answer) unknown) (.done _)
    refine (hread w past s).bind fun answer calls _ hcalls => ?_
    subst hcalls
    cases answer with
    | ok value => exact (kept memory value ▸ single (.ok value)).append (.done _)
    | error fault => exact (missed memory fault ▸ single (.error fault)).append (.done _)

protected theorem entropy (market : Snapshot) (now : Instant) (node : List Nat) :
    Stepwise ((worldPass market now).entropy node) := by
  intro w past memory store
  unfold PassM.runFrom Pass.entropy
  cases hs : memory.seeds.get? node with
  | some seed => exact .done memory
  | none => exact .next (.draw _ hs) (.done _)

end PassM.Stepwise

/-- All work on rules asks step by step. -/
theorem stepwise (market : Snapshot) (now : Instant) : PassLaw (worldPass market now) PassM.Stepwise where
  pure := PassM.Stepwise.pure
  bind := PassM.Stepwise.bind
  halt := PassM.Stepwise.halt
  currentValue := .remember (.current market.id) (fun answer => ⟨.currentValue market, answer⟩) (fun _ _ _ => rfl)
    (fun _ => rfl) (fun _ => rfl) (fun _ _ => rfl) fun _ _ => rfl
  otherMarket url := .remember (.market url) (fun answer => ⟨.otherMarket url, answer⟩) (fun _ _ _ => rfl)
    (fun _ => rfl) (fun _ => rfl) (fun _ _ => rfl) fun _ _ => rfl
  user name := .remember (.user name) (fun answer => ⟨.user name, answer⟩) (fun _ _ _ => rfl)
    (fun _ => rfl) (fun _ => rfl) (fun _ _ => rfl) fun _ _ => rfl
  pullRequest pull := .remember (.pull pull) (fun answer => ⟨.pullRequest pull, answer⟩) (fun _ _ _ => rfl)
    (fun _ => rfl) (fun _ => rfl) (fun _ _ => rfl) fun _ _ => rfl
  entropy := .entropy market now

/-! ## Whole passes -/

/-- Whatever a pass is consulted about, its calls lead from the memory before it to the one after it. -/
theorem consultEach_steps (market : Snapshot) (now : Instant) (w : World) (past : List Call) (memory : Memory)
    (store : Store) (cs : List Consultation) :
    (consultEach (worldPass market now) memory cs).Leads w past store fun later calls _ =>
      Memory.Steps memory calls later :=
  consultEach_leads (R := Memory.Steps) .done .append
    (fun c past memory store => (stepwise market now).consultation c w past memory store) cs past memory store

theorem calls_remember {α κ : Type} [DecidableEq κ] {table : Memory → Cache κ α}
    {store : Memory → Cache κ α → Memory} {key : κ} {read : Course (Except ReadFault α)} (memory : Memory) (w : World)
    (past : List Call) (s : Store) :
    (((remember table store key read).runFrom memory).upshot w past s).calls =
      if ((table memory).get? key).isSome then [] else (read.upshot w past s).calls := by
  rw [PassM.runFrom_remember]
  cases (table memory).get? key with
  | some value => rfl
  | none =>
    rw [Course.upshot_bind]
    cases (read.upshot w past s).result with
    | ok value => exact List.append_nil _
    | error fault => exact List.append_nil _

/-- A read asks for what is unknown, and only for that. -/
theorem Reading.calls_work {market : Snapshot} {r : Reading} (hr : (r.question market).reading? = some r) (now : Instant)
    (memory : Memory) (w : World) (past : List Call) (store : Store) :
    (((r.work (worldPass market now)).runFrom memory).upshot w past store).calls =
      if memory.knows r then [] else [⟨r.question market, w.answer past (r.question market)⟩] := by
  have hmap : ∀ {α : Type} (x : PassM Course α),
      ((((fun _ => ()) <$> x).runFrom memory).upshot w past store).calls =
        ((x.runFrom memory).upshot w past store).calls := fun x => by
    rw [PassM.runFrom_map, Course.upshot_map]
  cases r with
  | current id =>
    cases hr
    exact (hmap _).trans (calls_remember memory w past store)
  | market _ | user _ | pull _ => exact (hmap _).trans (calls_remember memory w past store)

/-- In a pass each thing is read once. Whatever the pass is consulted about, and however the world answers, nothing is
asked for again after it was read. At every moment, be it in the middle of a consultation, there are as many entries in the
memory as different things were read so far; the memory is the same after a read that failed; and a read of anything asks
for it, unless it was read so far. -/
theorem each_read_once (market : Snapshot) (now : Instant) (cs : List Consultation) (w : World) (past : List Call)
    (store : Store) :
    let p := worldPass market now
    let run := (consultEach p .empty cs).upshot w past store
    (run.calls.Pairwise fun earlier later => ∀ r, earlier.read? = some r → later.question.reading? ≠ some r) ∧
    run.result.reads = (run.calls.filterMap Call.read?).toFinset.card ∧
    ∀ before after, run.calls = before ++ after → ∃ memory,
      Memory.Steps .empty before memory ∧ Memory.Steps memory after run.result ∧
      memory.reads = (before.filterMap Call.read?).toFinset.card ∧
      (∀ failed rest, after = failed :: rest → failed.question.reading? ≠ none → failed.read? = none →
        Memory.Steps memory rest run.result) ∧
      ∀ r, (r.question market).reading? = some r → ∀ (w' : World) (past' : List Call) (store' : Store),
        (((r.work p).runFrom memory).upshot w' past' store').calls =
          if r ∈ before.filterMap Call.read? then [] else [⟨r.question market, w'.answer past' (r.question market)⟩] := by
  intro p run
  have hrun : Memory.Steps .empty run.calls run.result := consultEach_steps market now w past .empty store cs
  have hreads : ∀ {calls : List Call} {memory : Memory}, Memory.Steps .empty calls memory →
      memory.reads = (calls.filterMap Call.read?).toFinset.card := fun {calls _} h => by
    have hempty : Memory.empty.reads = 0 := rfl
    rw [List.toFinset_card_of_nodup h.nodup_read, h.reads_eq, hempty, Nat.zero_add]
  refine ⟨hrun.unrepeated, hreads hrun, fun before after hsplit => ?_⟩
  rw [hsplit] at hrun
  obtain ⟨memory, hbefore, hafter⟩ := hrun.split
  refine ⟨memory, hbefore, hafter, hreads hbefore, ?_, fun r hr w' past' store' => ?_⟩
  · rintro failed rest rfl hquestion hfailed
    exact hafter.after_failed hquestion hfailed
  · have hnothing : Memory.empty.knows r = false := by cases r <;> rfl
    have hknown : memory.knows r = true ↔ r ∈ before.filterMap Call.read? := by simp [hbefore.knows_iff, hnothing]
    have hcalls := Reading.calls_work hr now memory w' past' store'
    simp only [hknown] at hcalls
    exact hcalls

/-- A market that could not be fetched is asked for again by the next rule, and not any more once it was fetched. -/
theorem secondTry_read :
    let now : Instant := ⟨1709298000, 0⟩
    let found : Reference := ⟨"Q?", true, false, .bool true⟩
    let w : World := ⟨fun
      | [], q => (World.still now).answer [] q
      | _ :: _, .otherMarket _ => .ok found
      | past, q => (World.still now).answer past q⟩
    let market : Snapshot := ⟨"m", "u", "M?", .binary, none, none, false, [], none, false⟩
    let closed := Consultation.trigger (.otherMarketClosed "a")
    let run := (consultEach (worldPass market now) .empty [closed, closed, closed]).upshot w [] .empty
    let failed : Call := ⟨.otherMarket "a", .error (.request "")⟩
    let read : Call := ⟨.otherMarket "a", .ok found⟩
    run.calls = [failed, read] ∧ run.result.reads = 1 ∧
    ∃ memory, Memory.Steps .empty [failed] memory ∧ memory.reads = 0 ∧
      ((((Reading.market "a").work (worldPass market now)).runFrom memory).upshot (World.still now) [] .empty).calls =
        [failed] := by
  intro now found w market closed run failed read
  obtain ⟨-, hreads, hmoments⟩ := each_read_once market now [closed, closed, closed] w [] .empty
  obtain ⟨memory, hsteps, -, hnone, -, hasks⟩ := hmoments [failed] [read] rfl
  exact ⟨rfl, hreads, memory, hsteps, hnone, hasks (.market "a") rfl (World.still now) [] .empty⟩

end Arbiter
