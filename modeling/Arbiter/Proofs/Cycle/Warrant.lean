import Arbiter.Proofs.Cycle.Proposal
import Mathlib.Data.List.Basic

/-!
# The warrant of a write

The platform cannot take a resolution back. So a check writes only where its market was fetched anew and is still open,
its rules propose a value, and the person who was asked about this very value agreed.

* `Warrant`: what allows for a write.
* `CheckOrderly`: what one check may do. `Checked`: the calls that it makes, which are orderly (`Checked.orderly`).
* `processMarket_leads`: what is done with a stored market is orderly.
-/

namespace Arbiter

variable {w : World} {past : List Call} {store : Store}

/-! ## One check -/

/-- Nobody is asked to decide, and nothing is changed on the platform. -/
def Quiet (calls : List Call) : Prop :=
  ∀ c ∈ calls, c.question.isConfirmation = false ∧ c.question.isWrite = false

theorem quiet_nil : Quiet [] := by simp [Quiet]

theorem Quiet.append {calls more : List Call} (h : Quiet calls) (h' : Quiet more) : Quiet (calls ++ more) :=
  List.forall_mem_append.2 ⟨h, h'⟩

theorem Quiet.cons {c : Call} {calls : List Call} (hc : c.question.isConfirmation = false ∧ c.question.isWrite = false)
    (h : Quiet calls) : Quiet (c :: calls) := List.forall_mem_cons.2 ⟨hc, h⟩

theorem Readings.quiet {calls : List Call} (h : Readings calls) : Quiet calls := fun c hc => by
  have := h c hc
  revert this
  cases c.question <;> simp [Question.isReading, Question.isConfirmation, Question.isWrite]

/-- What follows the answer of the person who was asked about `v`: no write, or the one write that the answer asks for.
To resolve to nothing is to cancel. -/
inductive Settled (dryRun : Bool) (m : Snapshot) (v : Outcome) : Except Failure Decision → List Call → Prop
  | unwritten {answer : Except Failure Decision} {calls : List Call} (h : Quiet calls) : Settled dryRun m v answer calls
  | resolved {calls : List Call} (a : Except Failure Unit) (hd : dryRun = false) (hv : v ≠ .cancel) (h : Quiet calls) :
      Settled dryRun m v (.ok .resolve) (⟨.resolve m v, a⟩ :: calls)
  | cancelled {d : Decision} {calls : List Call} (a : Except Failure Unit) (hd : dryRun = false)
      (hv : d = .cancel ∨ d = .resolve ∧ v = .cancel) (h : Quiet calls) :
      Settled dryRun m v (.ok d) (⟨.cancel m, a⟩ :: calls)

/-- The calls of one check: nobody is asked, or the market was fetched anew, is still open, its rules propose a value,
and a person is asked about it. -/
inductive Checked (w : World) (dryRun : Bool) (market : Market) (now : Instant) (past : List Call) : List Call → Prop
  | unasked {calls : List Call} (h : Quiet calls) : Checked w dryRun market now past calls
  | asked {m : Snapshot} {reading : List Call} {proposal : Proposal} {answer : Except Failure Decision} {rest : List Call}
      (hopen : m.isResolved = false) (hread : Readings reading)
      (hp : Proposes w (market.refresh m) now (past ++ [⟨.snapshot market.snapshot.id, .ok m⟩]) reading proposal.value)
      (hs : Settled dryRun m proposal.value answer rest) :
      Checked w dryRun market now past
        (⟨.snapshot market.snapshot.id, .ok m⟩ :: (reading ++ ⟨.confirm m proposal, answer⟩ :: rest))

/-- What allows for a write on `m` after the calls `before` of a check: the market was fetched anew and is still open,
its rules propose `v`, and the person who was asked about `v` gave the answer `d`. -/
def Warrant (w : World) (market : Market) (now : Instant) (past before : List Call) (m : Snapshot) (v : Outcome)
    (d : Decision) : Prop :=
  m.isResolved = false ∧ ∃ (reading : List Call) (proposal : Proposal),
    before = ⟨.snapshot market.snapshot.id, .ok m⟩ :: (reading ++ [⟨.confirm m proposal, .ok d⟩]) ∧
    Proposes w (market.refresh m) now (past ++ [⟨.snapshot market.snapshot.id, .ok m⟩]) reading v ∧
    proposal.value = v

/-- What one check may do: it asks one person at most and writes once at most, and each write has its warrant. -/
structure CheckOrderly (w : World) (dryRun : Bool) (market : Market) (now : Instant) (past calls : List Call) : Prop where
  asks_once : calls.countP (·.question.isConfirmation) ≤ 1
  writes_once : calls.countP (·.question.isWrite) ≤ 1
  resolves : ∀ before m v a after, calls = before ++ ⟨.resolve m v, a⟩ :: after →
    dryRun = false ∧ v ≠ .cancel ∧ Warrant w market now past before m v .resolve
  cancels : ∀ before m a after, calls = before ++ ⟨.cancel m, a⟩ :: after →
    dryRun = false ∧ ∃ v d, (d = .cancel ∨ d = .resolve ∧ v = .cancel) ∧ Warrant w market now past before m v d
  creates_nothing : ∀ c ∈ calls, ∀ request, c.question ≠ .create request

theorem Quiet.confirmations {calls : List Call} (h : Quiet calls) : calls.countP (·.question.isConfirmation) = 0 :=
  List.countP_eq_zero.2 fun c hc => Bool.eq_false_iff.1 (h c hc).1

/-- Where there is no write there is no place for one. -/
theorem not_write {calls before after : List Call} {c : Call} (h : ∀ x ∈ calls, x.question.isWrite = false)
    (hc : c.question.isWrite = true) : calls ≠ before ++ c :: after := fun heq => by
  have hmem : c ∈ calls := by simp [heq]
  exact absurd hc (Bool.eq_false_iff.1 (h c hmem))

/-- Where there is one write it is at one place. -/
theorem the_write {before before' rest after : List Call} {c c' : Call}
    (hb : ∀ x ∈ before, x.question.isWrite = false) (hr : ∀ x ∈ rest, x.question.isWrite = false)
    (hc : c'.question.isWrite = true) (heq : before ++ c :: rest = before' ++ c' :: after) :
    before' = before ∧ c' = c := by
  have hn : ∀ {l : List Call}, (∀ x ∈ l, x.question.isWrite = false) → c' ∉ l := fun h hm =>
    absurd hc (Bool.eq_false_iff.1 (h c' hm))
  obtain ⟨h₁, h₂, -⟩ := (List.append_cons_inj_of_notMem (hn hb) (hn hr)).1 heq
  exact ⟨h₁.symm, h₂.symm⟩

/-- A check that writes nothing is orderly if it asks only once. -/
theorem CheckOrderly.of_unwritten {dryRun : Bool} {market : Market} {now : Instant} {calls : List Call}
    (hc : calls.countP (·.question.isConfirmation) ≤ 1) (hw : ∀ x ∈ calls, x.question.isWrite = false) :
    CheckOrderly w dryRun market now past calls where
  asks_once := hc
  writes_once := by rw [List.countP_eq_zero.2 fun x hx => Bool.eq_false_iff.1 (hw x hx)]; exact Nat.zero_le _
  resolves _ _ _ _ _ heq := absurd heq (not_write hw rfl)
  cancels _ _ _ _ heq := absurd heq (not_write hw rfl)
  creates_nothing c hmem request he := by simpa [he, Question.isWrite] using hw c hmem

/-- A check with one write is orderly if it asks only once and the write has its warrant. -/
theorem CheckOrderly.of_written {dryRun : Bool} {market : Market} {now : Instant} {before rest : List Call} {c : Call}
    (hasks : (before ++ c :: rest).countP (·.question.isConfirmation) ≤ 1)
    (hb : ∀ x ∈ before, x.question.isWrite = false) (hr : ∀ x ∈ rest, x.question.isWrite = false)
    (hresolve : ∀ m v a, c = ⟨.resolve m v, a⟩ →
      dryRun = false ∧ v ≠ .cancel ∧ Warrant w market now past before m v .resolve)
    (hcancel : ∀ m a, c = ⟨.cancel m, a⟩ →
      dryRun = false ∧ ∃ v d, (d = .cancel ∨ d = .resolve ∧ v = .cancel) ∧ Warrant w market now past before m v d)
    (hcreate : ∀ request, c.question ≠ .create request) :
    CheckOrderly w dryRun market now past (before ++ c :: rest) where
  asks_once := hasks
  writes_once := by
    rw [List.countP_append, List.countP_cons, List.countP_eq_zero.2 fun x hx => Bool.eq_false_iff.1 (hb x hx),
      List.countP_eq_zero.2 fun x hx => Bool.eq_false_iff.1 (hr x hx)]
    split
    · exact Nat.le_refl 1
    · exact Nat.zero_le 1
  resolves before' m v a after heq := by
    obtain ⟨rfl, hc⟩ := the_write hb hr rfl heq
    exact hresolve m v a hc.symm
  cancels before' m a after heq := by
    obtain ⟨rfl, hc⟩ := the_write hb hr rfl heq
    exact hcancel m a hc.symm
  creates_nothing x hx request he := by
    obtain ⟨before', after, heq⟩ := List.append_of_mem hx
    obtain ⟨-, rfl⟩ := the_write hb hr (by rw [he]; rfl) heq
    exact hcreate request he

/-- The calls of a check are orderly. -/
theorem Checked.orderly {dryRun : Bool} {market : Market} {now : Instant} {calls : List Call}
    (h : Checked w dryRun market now past calls) : CheckOrderly w dryRun market now past calls := by
  cases h with
  | unasked h =>
    exact .of_unwritten (by rw [h.confirmations]; exact Nat.zero_le _) fun x hx => (h x hx).2
  | @asked m reading proposal answer rest hopen hread hp hs =>
    have hq := hread.quiet
    have hbefore : ∀ x ∈ ⟨.snapshot market.snapshot.id, .ok m⟩ :: (reading ++ [⟨.confirm m proposal, answer⟩]),
        x.question.isWrite = false := by
      intro x hx
      simp only [List.mem_cons, List.mem_append, List.not_mem_nil, or_false] at hx
      rcases hx with rfl | hx | rfl
      · rfl
      · exact (hq x hx).2
      · rfl
    -- the write, if there is one, comes right after the answer
    rw [List.append_cons, ← List.cons_append]
    cases hs with
    | unwritten h =>
      refine .of_unwritten ?_ (List.forall_mem_append.2 ⟨hbefore, fun x hx => (h x hx).2⟩)
      simp only [List.countP_cons, List.countP_append, hq.confirmations, h.confirmations]
      exact Nat.le_refl 1
    | resolved a hd hv h =>
      refine .of_written ?_ hbefore (fun x hx => (h x hx).2) (fun m' v a' he => ?_) (fun _ _ he => by cases he) ?_
      · simp only [List.countP_cons, List.countP_append, hq.confirmations, h.confirmations]
        exact Nat.le_refl 1
      · cases he
        exact ⟨hd, hv, hopen, reading, proposal, rfl, hp, rfl⟩
      · exact fun _ he => by cases he
    | @cancelled d rest a hd hv h =>
      refine .of_written ?_ hbefore (fun x hx => (h x hx).2) (fun _ _ _ he => by cases he) (fun m' a' he => ?_) ?_
      · simp only [List.countP_cons, List.countP_append, hq.confirmations, h.confirmations]
        exact Nat.le_refl 1
      · cases he
        exact ⟨hd, proposal.value, d, hv, hopen, reading, proposal, rfl, hp, rfl⟩
      · exact fun _ he => by cases he

/-! ## The checks of a cycle -/

theorem quiet_access (fault : Option StoreFault) : Quiet [⟨.access, fault⟩] := quiet_nil.cons ⟨rfl, rfl⟩

/-- Work on the store writes nothing. -/
theorem store_leads {α : Type} (journal : Bool) (work : StoreM α) :
    ((services journal).store work).Leads w past store fun _ calls _ => Quiet calls := by
  rw [Course.leads_store]
  split
  · exact quiet_access _
  · exact quiet_access _

theorem load_leads {α : Type} (journal : Bool) (table : TableName) (work : StoreM (Loaded α)) :
    ((services journal).load table work).Leads w past store fun _ calls _ => Quiet calls := by
  rw [Course.leads_load]
  split
  · exact quiet_access _
  · exact quiet_access _

/-- Nor does an entry of the journal. -/
theorem recordDecision_leads (journal : Bool) (market : Market) (now : Instant) (proposal : Proposal)
    (decision : Decision) (applied : Bool) :
    (recordDecision (services journal) market now proposal decision applied).Leads w past store
      fun _ calls store' => Quiet calls ∧ store' = store := by
  cases journal with
  | false => exact ⟨quiet_nil, rfl⟩
  | true =>
    have hq : ∀ a, Quiet [⟨.record (.decision now proposal decision applied), a⟩] := fun _ => quiet_nil.cons ⟨rfl, rfl⟩
    refine Course.leads_bind.2 (Course.leads_ask.2 ?_)
    split
    · exact ⟨(hq _).append quiet_nil, rfl⟩
    · exact ⟨(hq _).append quiet_nil, rfl⟩

theorem effectiveDecision_eq_resolve {d : Decision} {v : Outcome} (h : effectiveDecision d v = .resolve) :
    d = .resolve ∧ v ≠ .cancel := by
  unfold effectiveDecision at h
  split at h
  · cases h
  · rename_i hn
    exact ⟨h, fun hv => hn ⟨h, by rw [hv]; rfl⟩⟩

theorem effectiveDecision_eq_cancel {d : Decision} {v : Outcome} (h : effectiveDecision d v = .cancel) :
    d = .cancel ∨ d = .resolve ∧ v = .cancel := by
  unfold effectiveDecision at h
  split at h
  · rename_i hc
    obtain ⟨hd, hv⟩ := hc
    refine .inr ⟨hd, ?_⟩
    cases v with
    | cancel => rfl
    | _ => cases hv
  · exact .inl h

/-- A decision leads to the write that it stands for, and to none in a rehearsal. -/
theorem applyDecision_leads (journal dryRun : Bool) (market : Market) (proposal : Proposal) (answer : Decision) :
    (applyDecision (services journal) dryRun market proposal (effectiveDecision answer proposal.value)).Leads w past store
      fun _ calls _ => ∀ rest, Quiet rest →
        Settled dryRun market.snapshot proposal.value (.ok answer) (calls ++ rest) := by
  cases hd : effectiveDecision answer proposal.value with
  | skip => exact fun rest h => .unwritten h
  | resolve =>
    obtain ⟨rfl, hv⟩ := effectiveDecision_eq_resolve hd
    cases dryRun with
    | true => exact fun rest h => .unwritten h
    | false => exact fun rest h => .resolved _ rfl hv h
  | cancel =>
    cases dryRun with
    | true => exact fun rest h => .unwritten h
    | false => exact fun rest h => .cancelled _ rfl (effectiveDecision_eq_cancel hd) h

/-- A person is asked once, and then comes the one write that the answer asks for. -/
theorem settle_leads (journal dryRun : Bool) (market : Market) (now : Instant) (proposal : Proposal) :
    (settle (services journal) dryRun market now proposal).Leads w past store fun _ calls _ =>
      ∃ answer rest, calls = ⟨.confirm market.snapshot proposal, answer⟩ :: rest ∧
        ∀ more, Quiet more → Settled dryRun market.snapshot proposal.value answer (rest ++ more) := by
  unfold settle
  rw [Course.leads_notify]
  refine Course.leads_bind.2 (Course.leads_ask.2 ?_)
  generalize w.answer past (.confirm market.snapshot proposal) = answer
  match answer with
  | .error failure => exact ⟨.error failure, [], rfl, fun more h => .unwritten h⟩
  | .ok answer =>
    refine (applyDecision_leads journal dryRun market proposal answer).bind fun applied calls store' hs => ?_
    match applied with
    | .error failure =>
      exact ⟨.ok answer, calls ++ [], rfl, fun more h => by rw [List.append_nil]; exact hs more h⟩
    | .ok () =>
      refine (recordDecision_leads journal market now proposal _ _).bind fun _ recorded _ ⟨hr, _⟩ => ?_
      exact ⟨.ok answer, calls ++ (recorded ++ []), rfl, fun more h => by
        rw [List.append_nil, List.append_assoc]
        exact hs _ (hr.append h)⟩

/-- A check of a fresh market: nobody is asked, or one person after the rules of the open market proposed a value. -/
theorem checkFresh_leads (journal dryRun : Bool) (market : Market) (now : Instant) :
    (checkFresh (services journal) dryRun market now).Leads w past store fun _ calls _ => Quiet calls ∨
      ∃ reading proposal answer rest, calls = reading ++ ⟨.confirm market.snapshot proposal, answer⟩ :: rest ∧
        market.snapshot.isResolved = false ∧ Readings reading ∧ Proposes w market now past reading proposal.value ∧
        ∀ more, Quiet more → Settled dryRun market.snapshot proposal.value answer (rest ++ more) := by
  unfold checkFresh
  split
  · exact .inl quiet_nil
  refine (propose_leads journal market now).bind (fun proposed reading store' h => ?_) fun _ _ _ h => .inl h.1.quiet
  match proposed, h with
  | .error fault, ⟨hr, _⟩ => exact .inl (hr.quiet.append quiet_nil)
  | .ok none, ⟨hr, _⟩ => exact .inl (hr.quiet.append quiet_nil)
  | .ok (some proposal), ⟨hr, hp⟩ =>
    obtain ⟨hopen, hprop⟩ := hp proposal rfl
    rw [CycleM.leads_call]
    refine (settle_leads journal dryRun market now proposal).mono fun _ calls _ h => ?_
    obtain ⟨answer, rest, rfl, hs⟩ := h
    exact .inr ⟨reading, proposal, answer, rest, rfl, hopen, hr, hprop, hs⟩

/-- A market is wanted, or it is not due, or nobody can tell. -/
theorem isWanted_cases (market : Market) (refresh : Bool) (now : Instant) :
    (isWanted market refresh now = (pure true : CycleM Course Bool) ∧ (refresh = true ∨ market.isDue now = some true)) ∨
    (isWanted market refresh now = (pure false : CycleM Course Bool) ∧ refresh = false ∧ market.isDue now = some false) ∨
    isWanted market refresh now = (throw .outOfRange : CycleM Course Bool) := by
  unfold isWanted
  cases refresh with
  | true => exact .inl ⟨rfl, .inl rfl⟩
  | false =>
    cases hd : market.isDue now with
    | none => exact .inr (.inr rfl)
    | some due =>
      cases due with
      | true => exact .inl ⟨rfl, .inr rfl⟩
      | false => exact .inr (.inl ⟨rfl, rfl, rfl⟩)

/-- A check, with what is done quietly after it. -/
theorem checkMarket_leads (journal dryRun refresh : Bool) (market : Market) (now : Instant)
    (hw : isWanted market refresh now = (pure true : CycleM Course Bool)) :
    (checkMarket (services journal) dryRun market refresh now).Leads w past store fun _ calls _ =>
      ∀ more, Quiet more → Checked w dryRun market now past (calls ++ more) := by
  unfold checkMarket
  rw [hw, pure_bind, if_pos rfl, CycleM.leads_bind, CycleM.leads_call]
  refine Course.leads_ask.2 ?_
  have hq : ∀ a, Quiet [⟨.snapshot market.snapshot.id, a⟩] := fun _ => quiet_nil.cons ⟨rfl, rfl⟩
  generalize w.answer past (.snapshot market.snapshot.id) = fetched
  match fetched with
  | .error fault => exact fun more h => .unasked (((hq _).append quiet_nil).append h)
  | .ok m =>
    refine (checkFresh_leads journal dryRun (market.refresh m) now).mono fun _ calls _ h more hm => ?_
    rcases h with h | ⟨reading, proposal, answer, rest, rfl, hopen, hr, hp, hs⟩
    · exact .unasked (((hq _).append h).append hm)
    · rw [List.append_assoc, List.append_assoc]
      exact .asked hopen hr hp (hs more hm)

theorem reportFailure_leads (journal : Bool) (market : Market) (failure : Failure) :
    (reportFailure (services journal) market failure).Leads w past store
      fun _ calls store' => Quiet calls ∧ store' = store := by
  unfold reportFailure
  rw [Course.leads_notify]
  cases journal with
  | false => exact ⟨quiet_nil, rfl⟩
  | true =>
    refine Course.leads_bind.2 (Course.leads_ask.2 (Course.leads_bind.2 (Course.leads_ask.2 ?_)))
    have hq : ∀ (now : Instant) entry a, Quiet [⟨.clock, now⟩, ⟨.record entry, a⟩] := fun _ _ _ =>
      (quiet_nil.cons ⟨rfl, rfl⟩).cons ⟨rfl, rfl⟩
    split
    · exact ⟨hq _ _ _, rfl⟩
    · exact ⟨hq _ _ _, rfl⟩

theorem storeChecked_leads (journal dryRun : Bool) (row : Int) (market : Market) (state : CheckState) :
    (storeChecked (services journal) dryRun row market state).Leads w past store fun _ calls _ => Quiet calls := by
  have hw : (writeChecked (services journal) dryRun row market state).Leads w past store fun _ calls _ => Quiet calls := by
    unfold writeChecked
    split
    · refine (store_leads journal _).bind fun removed calls _ h => ?_
      cases removed with
      | ok _ => exact h.append quiet_nil
      | error _ => exact h.append quiet_nil
    · exact store_leads journal _
  refine hw.bind fun written calls _ h => ?_
  cases written with
  | ok _ => exact h.append quiet_nil
  | error _ => exact h.append quiet_nil

/-- What is done with one stored market is its check, if it is wanted, and nothing else that matters. -/
theorem processMarket_leads (journal dryRun refresh : Bool) (now : Instant) (summary : CycleSummary) (row : Int)
    (market : Market) (hw : isWanted market refresh now = (pure true : CycleM Course Bool)) :
    (processMarket (services journal) dryRun refresh now summary row market).Leads w past store fun _ calls _ =>
      CheckOrderly w dryRun market now past calls := by
  unfold processMarket
  rw [hw, pure_bind, if_pos rfl]
  refine (checkMarket_leads journal dryRun refresh market now hw).bind (fun checked calls store' h => ?_)
    fun _ calls _ h => ?_
  · match checked with
    | (.error failure, market') =>
      dsimp only
      rw [CycleM.leads_call_bind]
      refine (reportFailure_leads journal market' failure).mono fun _ more _ ⟨hm, _⟩ => ?_
      rw [CycleM.leads_pure, List.append_nil]
      exact (h more hm).orderly
    | (.ok state, market') =>
      dsimp only
      rw [CycleM.leads_call_bind]
      refine (storeChecked_leads journal dryRun row market' state).mono fun stored more _ hm => ?_
      have ho := (h _ (hm.append quiet_nil)).orderly
      split
      · exact ho
      · exact ho
  · have := (h [] quiet_nil).orderly
    rwa [List.append_nil] at this

end Arbiter
