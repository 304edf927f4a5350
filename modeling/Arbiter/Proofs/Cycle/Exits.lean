import Arbiter.Proofs.Cycle.Warrant

/-!
# How a check ends

A check ends before the market was fetched, with the market fetched but not checked, or with the market checked. Whichever
it is, only the snapshot and the time of the last check can differ afterwards.

* `FreshExit`, `CheckExit`: the ways in which a check ends, each with the market that it leaves.
* `checkMarket_exits`: every check that does not crash ends in one of them.
* `CheckFrame`: what such an end says about each field of the market. `checkMarket_frame`: it holds of every check.
-/

namespace Arbiter

variable {w : World} {past : List Call} {store : Store}

/-- A market is to be checked: it is due, or all markets are checked anyway. -/
def Market.Wanted (market : Market) (refresh : Bool) (now : Instant) : Prop :=
  refresh = true ∨ market.isDue now = some true

/-! ## Exits -/

/-- The ways in which the check of a fetched market ends. -/
inductive FreshExit (market : Market) (now : Instant) : Except Failure CheckState × Market → Prop where
  | resolved (h : market.snapshot.isResolved = true) : FreshExit market now (.ok .resolved, market)
  | failed (h : market.snapshot.isResolved = false) (failure : Failure) : FreshExit market now (.error failure, market)
  | checked (h : market.snapshot.isResolved = false) (state : CheckState) :
      FreshExit market now (.ok state, market.markChecked now)

/-- The ways in which the check of a market ends: it is left alone, it cannot be fetched, or it is fetched. -/
inductive CheckExit (w : World) (past : List Call) (market : Market) (refresh : Bool) (now : Instant) :
    Except Failure CheckState × Market → Prop where
  | notDue (hr : refresh = false) (hd : market.isDue now = some false) :
      CheckExit w past market refresh now (.ok .idle, market)
  | unread {fault : ReadFault} (hw : market.Wanted refresh now)
      (hf : w.answer past (.snapshot market.snapshot.id) = .error fault) (failure : Failure) :
      CheckExit w past market refresh now (.error failure, market)
  | fetched {fresh : Snapshot} {ends : Except Failure CheckState × Market} (hw : market.Wanted refresh now)
      (hf : w.answer past (.snapshot market.snapshot.id) = .ok fresh) (he : FreshExit (market.refresh fresh) now ends) :
      CheckExit w past market refresh now ends

/-- A proposal fails where the person cannot be asked or the platform does not do what was decided. Otherwise the market was
checked. -/
theorem settle_exits (journal dryRun : Bool) (market : Market) (now : Instant) (proposal : Proposal)
    (hopen : market.snapshot.isResolved = false) :
    (settle (services journal) dryRun market now proposal).Leads w past store fun ends _ _ => FreshExit market now ends := by
  unfold settle
  rw [Course.leads_notify]
  refine Course.leads_bind.2 (Course.leads_ask.2 ?_)
  generalize w.answer past (.confirm market.snapshot proposal) = answer
  match answer with
  | .error failure => exact Course.leads_pure.2 (.failed hopen failure)
  | .ok answer =>
    refine Course.leads_bind.2 (Course.leads_of_upshot fun applied _ _ _ => ?_)
    match applied with
    | .error failure => exact Course.leads_pure.2 (.failed hopen failure)
    | .ok () =>
      refine Course.leads_bind.2 (Course.leads_of_upshot fun _ _ _ _ => Course.leads_pure.2 ?_)
      exact .checked hopen _

theorem checkFresh_exits (journal dryRun : Bool) (market : Market) (now : Instant) :
    (checkFresh (services journal) dryRun market now).Leads w past store fun result _ _ =>
      ∀ ends, result = .ok ends → FreshExit market now ends := by
  unfold checkFresh
  by_cases hr : market.snapshot.isResolved = true
  · rw [if_pos hr, CycleM.leads_call_bind]
    refine Course.leads_pure.2 (CycleM.leads_pure.2 ?_)
    rintro _ ⟨⟩
    exact .resolved hr
  · have hopen := eq_false_of_ne_true hr
    rw [if_neg hr]
    refine CycleM.leads_bind.2 (Course.leads_of_upshot fun proposed _ _ _ => ?_)
    match proposed with
    | .error crash => exact fun _ he => nomatch he
    | .ok (.error fault) =>
      refine CycleM.leads_pure.2 ?_
      rintro _ ⟨⟩
      exact .failed hopen _
    | .ok (.ok none) =>
      refine CycleM.leads_pure.2 ?_
      rintro _ ⟨⟩
      exact .checked hopen _
    | .ok (.ok (some proposal)) =>
      dsimp only
      rw [CycleM.leads_call]
      refine (settle_exits journal dryRun market now proposal hopen).mono fun _ _ _ he => ?_
      rintro _ ⟨⟩
      exact he

/-- Every check that does not crash ends in one of the ways. -/
theorem checkMarket_exits (journal dryRun : Bool) (market : Market) (refresh : Bool) (now : Instant) :
    (checkMarket (services journal) dryRun market refresh now).Leads w past store fun result _ _ =>
      ∀ ends, result = .ok ends → CheckExit w past market refresh now ends := by
  unfold checkMarket
  rcases isWanted_cases market refresh now with ⟨hw, hwanted⟩ | ⟨hw, hr, hd⟩ | hw
  · rw [hw, pure_bind, if_pos rfl, CycleM.leads_call_bind]
    refine Course.leads_ask.2 ?_
    cases hf : w.answer past (.snapshot market.snapshot.id) with
    | error fault =>
      refine CycleM.leads_pure.2 ?_
      rintro _ ⟨⟩
      exact .unread hwanted hf _
    | ok fresh =>
      refine (checkFresh_exits journal dryRun (market.refresh fresh) now).mono fun _ _ _ h ends he => ?_
      exact .fetched hwanted hf (h ends he)
  · rw [hw, pure_bind, if_neg Bool.false_ne_true]
    refine CycleM.leads_pure.2 ?_
    rintro _ ⟨⟩
    exact .notDue hr hd
  · rw [hw, CycleM.throw_bind]
    exact CycleM.leads_throw.2 fun _ he => nomatch he

/-! ## The market afterwards -/

/-- The rules of a market and what was asked for when it was made. -/
structure Market.SamePlan (market after : Market) : Prop where
  triggers : after.triggers = market.triggers
  values : after.values = market.values
  checkRate : after.checkRate = market.checkRate
  notes : after.notes = market.notes
  initialValues : after.initialValues = market.initialValues

/-- What the end of a check says about the market after it, field by field. -/
structure CheckFrame (w : World) (past : List Call) (market : Market) (refresh : Bool) (now : Instant)
    (outcome : Except Failure CheckState) (after : Market) : Prop where
  plan : market.SamePlan after
  /-- A check that fails leaves the time of the last check alone. -/
  failed : ∀ failure, outcome = .error failure → after.lastChecked = market.lastChecked
  notDue : ¬market.Wanted refresh now →
    outcome = .ok .idle ∧ after.snapshot = market.snapshot ∧ after.lastChecked = market.lastChecked
  unread : ∀ fault, market.Wanted refresh now → w.answer past (.snapshot market.snapshot.id) = .error fault →
    (∃ failure, outcome = .error failure) ∧ after.snapshot = market.snapshot
  fetched : ∀ fresh, market.Wanted refresh now → w.answer past (.snapshot market.snapshot.id) = .ok fresh →
    after.snapshot = fresh
  resolved : ∀ fresh, market.Wanted refresh now → w.answer past (.snapshot market.snapshot.id) = .ok fresh →
    fresh.isResolved = true → outcome = .ok .resolved ∧ after.lastChecked = market.lastChecked
  checked : ∀ fresh, market.Wanted refresh now → w.answer past (.snapshot market.snapshot.id) = .ok fresh →
    fresh.isResolved = false → ∀ state, outcome = .ok state → after.lastChecked = some now

theorem isWanted_of_wanted {market : Market} {refresh : Bool} {now : Instant} (hw : market.Wanted refresh now) :
    (isWanted market refresh now : CycleM Course Bool) = pure true := by
  unfold isWanted
  cases refresh with
  | true => rfl
  | false =>
    rw [if_neg Bool.false_ne_true, hw.resolve_left Bool.false_ne_true]
    rfl

theorem Market.not_wanted {market : Market} {now : Instant} (hd : market.isDue now = some false) :
    ¬market.Wanted false now := by
  simp [Wanted, hd]

theorem CheckExit.frame {market : Market} {refresh : Bool} {now : Instant} {ends : Except Failure CheckState × Market}
    (h : CheckExit w past market refresh now ends) : CheckFrame w past market refresh now ends.1 ends.2 := by
  cases h with
  | notDue hr hd =>
    subst hr
    have hn := Market.not_wanted hd
    exact {
      plan := ⟨rfl, rfl, rfl, rfl, rfl⟩
      failed := fun _ _ => rfl
      notDue := fun _ => ⟨rfl, rfl, rfl⟩
      unread := fun _ hw => absurd hw hn
      fetched := fun _ hw => absurd hw hn
      resolved := fun _ hw => absurd hw hn
      checked := fun _ hw => absurd hw hn }
  | unread hw hf failure =>
    have hno : ∀ {fresh}, w.answer past (.snapshot market.snapshot.id) ≠ .ok fresh := fun hf' => by
      rw [hf] at hf'
      cases hf'
    exact {
      plan := ⟨rfl, rfl, rfl, rfl, rfl⟩
      failed := fun _ _ => rfl
      notDue := fun hn => absurd hw hn
      unread := fun _ _ _ => ⟨⟨failure, rfl⟩, rfl⟩
      fetched := fun _ _ hf' => absurd hf' hno
      resolved := fun _ _ hf' => absurd hf' hno
      checked := fun _ _ hf' => absurd hf' hno }
  | @fetched fresh _ hw hf he =>
    have hplan : market.SamePlan ends.2 ∧ ends.2.snapshot = fresh := by
      cases he <;> exact ⟨⟨rfl, rfl, rfl, rfl, rfl⟩, rfl⟩
    have hsame : ∀ {other}, w.answer past (.snapshot market.snapshot.id) = .ok other → other = fresh := fun hf' => by
      rw [hf] at hf'
      exact (Except.ok.inj hf').symm
    exact {
      plan := hplan.1
      failed := fun failure hfailure => by
        cases he with
        | resolved | checked => cases hfailure
        | failed => rfl
      notDue := fun hn => absurd hw hn
      unread := fun _ _ hf' => by rw [hf] at hf'; cases hf'
      fetched := fun other _ hf' => hplan.2.trans (hsame hf').symm
      resolved := fun other _ hf' hr => by
        obtain rfl := hsame hf'
        cases he with
        | resolved => exact ⟨rfl, rfl⟩
        | failed h | checked h => exact absurd hr (Bool.eq_false_iff.1 h)
      checked := fun other _ hf' hr state hstate => by
        obtain rfl := hsame hf'
        cases he with
        | resolved h => exact absurd h (Bool.eq_false_iff.1 hr)
        | failed => cases hstate
        | checked => rfl }

/-- A check leaves the market intact except for its snapshot and the time of its last check. It never changes the rules, the
rate, the notes or the opening weights. If it fails, or the market is not due, or the fetched market is resolved, the time
is what it was; if it ends well otherwise, the time is now. The snapshot becomes the fetched one, and stays what it was if
the market was not due or could not be fetched. -/
theorem checkMarket_frame (w : World) (past : List Call) (store : Store) (journal dryRun : Bool) (market : Market)
    (refresh : Bool) (now : Instant) :
    (checkMarket (services journal) dryRun market refresh now).Leads w past store fun result _ _ =>
      ∀ outcome after, result = .ok (outcome, after) → CheckFrame w past market refresh now outcome after :=
  (checkMarket_exits journal dryRun market refresh now).mono fun _ _ _ h outcome after he => (h (outcome, after) he).frame

end Arbiter
