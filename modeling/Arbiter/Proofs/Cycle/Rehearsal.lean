import Arbiter.Proofs.Cycle.Visit

/-!
# A check and its rehearsal

In a rehearsal nothing is written to the platform. Apart from that it goes like the check itself, where what the check
writes to the platform succeeds: it reads the same in the same order, has the same proposal confirmed, and comes to the
same.

* `Rehearses`: how the calls of a rehearsal compare. `Rehearses.inquiries_eq`: both inquire the same in the same order.
* `Course.Rehearsal`: work and its rehearsal. `checkMarket_rehearsal`: a check with the rehearsal of it.
-/

namespace Arbiter

/-! ## The calls of a rehearsal -/

namespace Question

/-- Whether it only inquires, about the platform, the store, the time or a person's decision. -/
def isInquiry : Question → Bool
  | resolve _ _ | cancel _ | create _ | record _ | send _ => false
  | _ => true

/-- Whether it resolves or cancels a market. -/
def isApplication : Question → Bool
  | resolve _ _ | cancel _ => true
  | _ => false

theorem isInquiry_of_isReading {q : Question} (h : q.isReading = true) : q.isInquiry = true := by
  cases q <;> first | rfl | cases h

/-- What bears on a market is an inquiry, unless it resolves or cancels the market. -/
theorem isInquiry_of_bears {q : Question} (h : q.bears = true) : q.isInquiry = true ∨ q.isApplication = true := by
  cases q <;> first | exact .inl rfl | exact .inr rfl | cases h

theorem isWrite_of_isInquiry {q : Question} (h : q.isInquiry = true) : q.isWrite = false := by
  cases q <;> first | rfl | cases h

end Question

/-- The entry that a rehearsal makes in place of another one: nothing was applied. -/
def JournalEntry.unapplied : JournalEntry → JournalEntry
  | .decision time proposal answer _ => .decision time proposal answer false
  | .event time marketId text => .event time marketId text

/-- The calls that only inquire. -/
def inquiries (calls : List Call) : List Call := calls.filter (·.question.isInquiry)

theorem inquiries_append (calls more : List Call) : inquiries (calls ++ more) = inquiries calls ++ inquiries more :=
  List.filter_append ..

/-- The calls of some work, and those of its rehearsal: these leave out what is resolved or cancelled, and their entries
in the journal say that nothing was applied. -/
inductive Rehearses : List Call → List Call → Prop
  | stop : Rehearses [] []
  | inquire {c : Call} {calls calls' : List Call} (hc : c.question.isInquiry = true) (h : Rehearses calls calls') :
      Rehearses (c :: calls) (c :: calls')
  | apply {c : Call} {calls calls' : List Call} (hc : c.question.isApplication = true) (h : Rehearses calls calls') :
      Rehearses (c :: calls) calls'
  | record {entry : JournalEntry} (a a' : Except Failure Unit) {calls calls' : List Call} (h : Rehearses calls calls') :
      Rehearses (⟨.record entry, a⟩ :: calls) (⟨.record entry.unapplied, a'⟩ :: calls')

namespace Rehearses

variable {calls calls' more more' : List Call}

theorem append (h : Rehearses calls calls') (h' : Rehearses more more') :
    Rehearses (calls ++ more) (calls' ++ more') := by
  induction h with
  | stop => exact h'
  | inquire hc _ ih => exact .inquire hc ih
  | apply hc _ ih => exact .apply hc ih
  | record a a' _ ih => exact .record a a' ih

/-- Calls that only inquire are the same. -/
theorem same (h : ∀ c ∈ calls, c.question.isInquiry = true) : Rehearses calls calls := by
  induction calls with
  | nil => exact .stop
  | cons c rest ih =>
    obtain ⟨hc, hrest⟩ := List.forall_mem_cons.1 h
    exact .inquire hc (ih hrest)

/-- The inquiries are the same, in the same order and with the same answers. -/
theorem inquiries_eq (h : Rehearses calls calls') : inquiries calls = inquiries calls' := by
  unfold inquiries
  induction h with
  | stop => rfl
  | inquire hc _ ih =>
    simp only [List.filter_cons, hc, if_true, ih]
  | @apply c _ _ hc _ ih =>
    have hno : c.question.isInquiry = false := by
      revert hc
      cases c.question <;> simp [Question.isInquiry, Question.isApplication]
    simp only [List.filter_cons, hno, Bool.false_eq_true, if_false, ih]
  | record _ _ _ ih => exact ih

/-- A rehearsal writes nothing to the platform. -/
theorem unwritten (h : Rehearses calls calls') : ∀ c ∈ calls', c.question.isWrite = false := by
  induction h with
  | stop => simp
  | inquire hc _ ih => exact List.forall_mem_cons.2 ⟨Question.isWrite_of_isInquiry hc, ih⟩
  | apply _ _ ih => exact ih
  | record _ _ _ ih => exact List.forall_mem_cons.2 ⟨rfl, ih⟩

end Rehearses

/-! ## Work and its rehearsal -/

/-- Whatever is resolved or cancelled, that succeeds. -/
structure World.Applies (w : World) : Prop where
  resolve : ∀ past market value, w.answer past (.resolve market value) = .ok ()
  cancel : ∀ past market, w.answer past (.cancel market) = .ok ()

namespace Course

variable {α β : Type} {w : World} {past past' : List Call}

/-- Some work and its rehearsal: where the world answers them alike, and applies whatever is decided, they come to the
same. -/
def Rehearsal (real rehearsal : Course α) : Prop :=
  ∀ w past past', w.Applies → Alike w w past past' →
    ∃ a calls calls', real.Gives w past a calls ∧ rehearsal.Gives w past' a calls' ∧ Rehearses calls calls'

/-- Work that only inquires is its own rehearsal, also before work with a rehearsal. -/
def Inquires (x : Course α) : Prop :=
  ∀ w past past', Alike w w past past' →
    ∃ a calls, x.Gives w past a calls ∧ x.Gives w past' a calls ∧ ∀ c ∈ calls, c.question.isInquiry = true

theorem inquires_ask {q : Question} (hq : q.isInquiry = true) (hb : q.bears = true) : (ask q).Inquires := by
  intro w past past' h
  refine ⟨w.answer past q, [⟨q, w.answer past q⟩], gives_ask q, ?_, List.forall_mem_singleton.2 hq⟩
  rw [h.answer hb]
  exact gives_ask q

theorem inquiresLaw : CourseLaw fun x => x.Inquires where
  pure a _ _ _ _ := ⟨a, [], gives_pure a, gives_pure a, by simp⟩
  bind hx hf w past past' h := by
    obtain ⟨a, calls, ha, ha', hc⟩ := hx w past past' h
    obtain ⟨b, more, hb, hb', hm⟩ := hf a w (past ++ calls) (past' ++ calls) (h.append calls)
    exact ⟨b, calls ++ more, ha.bind hb, ha'.bind hb', List.forall_mem_append.2 ⟨hc, hm⟩⟩
  reads hx w past past' h := by
    obtain ⟨a, calls, ha, ha', hc⟩ := hx w w past past' h
    exact ⟨a, calls, ha, ha', fun c hmem => Question.isInquiry_of_isReading (hc c hmem)⟩

theorem Inquires.rehearsal {x : Course α} (hx : x.Inquires) : x.Rehearsal x := by
  intro w past past' _ h
  obtain ⟨a, calls, ha, ha', hc⟩ := hx w past past' h
  exact ⟨a, calls, calls, ha, ha', .same hc⟩

theorem rehearsal_pure (a : α) : (pure a : Course α).Rehearsal (pure a) := (inquiresLaw.pure a).rehearsal

theorem Inquires.bind_rehearsal {x : Course α} {f f' : α → Course β} (hx : x.Inquires)
    (hf : ∀ a, (f a).Rehearsal (f' a)) : (x >>= f).Rehearsal (x >>= f') := by
  intro w past past' hw h
  obtain ⟨a, calls, ha, ha', hc⟩ := hx w past past' h
  obtain ⟨b, more, more', hb, hb', hm⟩ := hf a w (past ++ calls) (past' ++ calls) hw (h.append calls)
  exact ⟨b, calls ++ more, calls ++ more', ha.bind hb, ha'.bind hb', (Rehearses.same hc).append hm⟩

theorem Rehearsal.map {x x' : Course α} (hx : x.Rehearsal x') (f : α → β) :
    (x >>= fun a => pure (f a)).Rehearsal (x' >>= fun a => pure (f a)) := by
  intro w past past' hw h
  obtain ⟨a, calls, calls', ha, ha', hc⟩ := hx w past past' hw h
  exact ⟨f a, calls ++ [], calls' ++ [], ha.bind (gives_pure _), ha'.bind (gives_pure _), hc.append .stop⟩

end Course

namespace CycleM

variable {α β : Type}

theorem rehearsal_call {x x' : Course α} (hx : x.Rehearsal x') :
    (ExceptT.run (CycleM.call x)).Rehearsal (ExceptT.run (CycleM.call x')) := hx.map Except.ok

theorem rehearsal_bind {x : CycleM Course α} {f f' : α → CycleM Course β} (hx : (ExceptT.run x).Inquires)
    (hf : ∀ a, (ExceptT.run (f a)).Rehearsal (ExceptT.run (f' a))) :
    (ExceptT.run (x >>= f)).Rehearsal (ExceptT.run (x >>= f')) :=
  hx.bind_rehearsal fun
    | .ok a => hf a
    | .error e => Course.rehearsal_pure (Except.error e)

end CycleM

/-! ## Checks -/

/-- The calls for an entry in the journal. -/
def journalCalls (journal : Bool) (entry : JournalEntry) (answer : Except Failure Unit) : List Call :=
  if journal then [⟨.record entry, answer⟩] else []

theorem journalCalls_rehearses (journal : Bool) (entry : JournalEntry) (a a' : Except Failure Unit) :
    Rehearses (journalCalls journal entry a) (journalCalls journal entry.unapplied a') := by
  cases journal with
  | false => exact .stop
  | true => exact .record a a' .stop

/-- An entry is made in the journal, and nothing depends on whether that worked. -/
theorem record_gives (w : World) (past : List Call) (entry : JournalEntry)
    {f : (Question.record entry).Answer → Course Unit} (hf : ∀ result, f result = pure ()) :
    (Course.ask (.record entry) >>= f).Gives w past () [⟨.record entry, w.answer past (.record entry)⟩] := by
  have hdone : (f (w.answer past (.record entry))).Gives w (past ++ [⟨.record entry, w.answer past (.record entry)⟩]) ()
      [] := by
    rw [hf]
    exact Course.gives_pure ()
  exact (Course.gives_ask (.record entry)).bind hdone

theorem recordDecision_gives (journal : Bool) (market : Market) (now : Instant) (proposal : Proposal)
    (decision : Decision) (applied : Bool) (w : World) (past : List Call) :
    (recordDecision (services journal) market now proposal decision applied).Gives w past ()
      (journalCalls journal (.decision now proposal decision applied)
        (w.answer past (.record (.decision now proposal decision applied)))) := by
  cases journal with
  | false => exact Course.gives_pure ()
  | true => exact record_gives w past _ fun
      | .ok () => rfl
      | .error _ => rfl

/-- The calls that apply a decision. -/
def applicationCalls (market : Snapshot) (value : Outcome) : Decision → List Call
  | .resolve => [⟨.resolve market value, .ok ()⟩]
  | .cancel => [⟨.cancel market, .ok ()⟩]
  | .skip => []

theorem applicationCalls_rehearses (market : Snapshot) (value : Outcome) (decision : Decision) :
    Rehearses (applicationCalls market value decision) [] := by
  cases decision with
  | resolve => exact .apply rfl .stop
  | cancel => exact .apply rfl .stop
  | skip => exact .stop

theorem applyDecision_gives {w : World} (hw : w.Applies) (journal : Bool) (market : Market) (proposal : Proposal)
    (decision : Decision) (past : List Call) :
    (applyDecision (services journal) false market proposal decision).Gives w past (.ok ())
      (applicationCalls market.snapshot proposal.value decision) := by
  cases decision with
  | resolve =>
    have h : (Course.ask (.resolve market.snapshot proposal.value)).Gives w past _ _ := Course.gives_ask _
    rw [hw.resolve] at h
    exact h
  | cancel =>
    have h : (Course.ask (.cancel market.snapshot)).Gives w past _ _ := Course.gives_ask _
    rw [hw.cancel] at h
    exact h
  | skip => exact (Course.gives_pure ()).bind (Course.gives_pure _)

/-- In a rehearsal nothing is called to apply a decision. -/
theorem applyDecision_gives_rehearsal (w : World) (journal : Bool) (market : Market) (proposal : Proposal)
    (decision : Decision) (past : List Call) :
    (applyDecision (services journal) true market proposal decision).Gives w past (.ok ()) [] := by
  cases decision <;> exact (Course.gives_pure ()).bind (Course.gives_pure _)

theorem settle_rehearsal (journal : Bool) (market : Market) (now : Instant) (proposal : Proposal) :
    (settle (services journal) false market now proposal).Rehearsal
      (settle (services journal) true market now proposal) := by
  refine (Course.inquiresLaw.pure ()).bind_rehearsal fun () => ?_
  refine (Course.inquires_ask (q := .confirm market.snapshot proposal) rfl rfl).bind_rehearsal fun
    | .error _ => Course.rehearsal_pure _
    | .ok answer => ?_
  -- The calls differ from here on, but only the journal is still asked for an answer, and what it says does not matter.
  intro w past past' hw _
  let decision := effectiveDecision answer proposal.value
  have happly := applyDecision_gives hw journal market proposal decision past
  have happly' := applyDecision_gives_rehearsal w journal market proposal decision past'
  have hrecord := recordDecision_gives journal market now proposal decision (!false && decision != .skip) w
    (past ++ applicationCalls market.snapshot proposal.value decision)
  have hrecord' := recordDecision_gives journal market now proposal decision false w (past' ++ [])
  refine ⟨_, _, _, happly.bind (hrecord.bind (Course.gives_pure _)),
    happly'.bind (hrecord'.bind (Course.gives_pure _)), ?_⟩
  exact (applicationCalls_rehearses market.snapshot proposal.value decision).append
    ((journalCalls_rehearses journal _ _ _).append .stop)

theorem checkFresh_rehearsal (journal : Bool) (market : Market) (now : Instant) :
    (ExceptT.run (checkFresh (services journal) false market now)).Rehearsal
      (ExceptT.run (checkFresh (services journal) true market now)) := by
  have law := Course.inquiresLaw
  unfold checkFresh
  split
  · exact ((law.call (law.pure ())).bind_rehearsal fun
      | .ok () => Course.rehearsal_pure _
      | .error _ => Course.rehearsal_pure _)
  · exact CycleM.rehearsal_bind (law.propose journal market now) fun
      | .error _ => Course.rehearsal_pure _
      | .ok none => Course.rehearsal_pure _
      | .ok (some proposal) => CycleM.rehearsal_call (settle_rehearsal journal market now proposal)

/-- A check has a rehearsal. -/
theorem checkMarket_rehearsal (journal : Bool) (market : Market) (refresh : Bool) (now : Instant) :
    (ExceptT.run (checkMarket (services journal) false market refresh now)).Rehearsal
      (ExceptT.run (checkMarket (services journal) true market refresh now)) := by
  have law := Course.inquiresLaw
  refine CycleM.rehearsal_bind (law.isWanted market refresh now) fun
    | false => Course.rehearsal_pure _
    | true => ?_
  refine CycleM.rehearsal_bind (law.call (Course.inquires_ask (q := .snapshot market.snapshot.id) rfl rfl)) fun
    | .error _ => Course.rehearsal_pure _
    | .ok snapshot => checkFresh_rehearsal journal (market.refresh snapshot) now

end Arbiter
