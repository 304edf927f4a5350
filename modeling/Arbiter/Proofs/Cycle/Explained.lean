import Arbiter.Proofs.Explanation.Market

/-!
# Proposals are explained

A check explains a market only after its rules proposed a value for it. So the explanation never fails there, and the
summary of the rules that stands by for this case is never sent.

* `CycleM.bind_congr`: work that goes on alike after every result that may occur is the same.
* `propose_explained`: a proposal carries an explanation that agrees with it.
* `checkMarket_telling`: what would be told of an explanation that failed does not matter.
-/

namespace Arbiter

open PassM

variable {w : World} {past : List Call} {store : Store}

/-! ## Passes inside a cycle -/

namespace CycleM

variable {α β : Type}

/-- Work is the same if it goes on alike after every result that may occur. -/
theorem bind_congr {x : CycleM Course α} {f g : α → CycleM Course β}
    (h : ∀ {a w past store calls store'}, Course.upshot (ExceptT.run x) w past store = ⟨.ok a, calls, store'⟩ → f a = g a) :
    x >>= f = x >>= g := by
  change (ExceptT.run x >>= ExceptT.bindCont f : Course (Except Crash β)) = ExceptT.run x >>= ExceptT.bindCont g
  refine Course.ext fun w past store => ?_
  rcases hx : Course.upshot (ExceptT.run x) w past store with ⟨result, calls, store'⟩
  rw [Course.upshot_bind_of hx, Course.upshot_bind_of hx]
  cases result with
  | ok a => rw [ExceptT.bindCont, ExceptT.bindCont, h hx]
  | error e => rfl

/-- Work of a pass that comes to something at once does so in a cycle. -/
theorem inPass_settled {work : PassM Course α} {memory : Memory} {a : α}
    (h : work.runFrom memory = pure (.ok a, memory)) : inPass memory work = pure (.ok a, memory) := by
  unfold inPass
  rw [h]
  rfl

theorem leads_inPass {work : PassM Course α} {memory : Memory}
    {Q : Except Crash (Except RuleFault α × Memory) → List Call → Store → Prop} :
    (inPass memory work).Leads w past store Q ↔ (work.runFrom memory).Leads w past store fun ends calls store' =>
      Q (match ends with
        | (.ok a, later) => .ok (.ok a, later)
        | (.error (.fault fault), later) => .ok (.error fault, later)
        | (.error .crash, _) => .error .outOfRange) calls store' := by
  unfold inPass
  rw [leads_bind, leads_call]
  unfold Course.Leads
  rcases (work.runFrom memory).upshot w past store with ⟨⟨result, later⟩, calls, store'⟩
  cases result with
  | ok a => simp
  | error halt =>
    cases halt with
    | fault fault => simp
    | crash => simp

/-- Work of a pass in a cycle comes to what it comes to on its own. -/
theorem succeeds_of_inPass {work : PassM Course α} {memory later : Memory} {a : α} {calls : List Call} {store' : Store}
    (h : Course.upshot (ExceptT.run (inPass memory work)) w past store = ⟨.ok (.ok a, later), calls, store'⟩) :
    Succeeds w work ⟨past, memory, store⟩ a ⟨past ++ calls, later, store'⟩ := by
  have hleads : (inPass memory work).Leads w past store fun result calls' store'' =>
      result = .ok (.ok a, later) ∧ calls' = calls ∧ store'' = store' := by
    unfold Leads Course.Leads
    rw [h]
    exact ⟨rfl, rfl, rfl⟩
  rw [leads_inPass] at hleads
  unfold Course.Leads at hleads
  unfold Succeeds endsAt
  rcases hu : (work.runFrom memory).upshot w past store with ⟨⟨result, later'⟩, calls', store''⟩
  rw [hu] at hleads
  obtain ⟨hresult, rfl, rfl⟩ := hleads
  cases result with
  | ok b =>
    cases hresult
    rfl
  | error halt => cases halt <;> cases hresult

end CycleM

/-! ## Proposals -/

/-- The same collaborators, with another way to tell that an explanation failed. -/
def Services.telling {m : Type → Type} (s : Services m) (tell : String → RuleFault → m Unit) : Services m :=
  { s with
    notify := fun
      | .notExplained id fault => tell id fault
      | notice => s.notify notice }

variable {s : Services Course}

/-- What is proposed for a market in a check is what its rules came to, and carries an explanation that agrees with it. -/
theorem propose_explained (hs : s.sources = worldSources) (market : Market) (now : Instant) :
    (propose s market now).Leads w past store fun result _ _ => ∀ proposal, result = .ok (.ok (some proposal)) →
      ∃ t t' e, Succeeds w (market.shouldResolve (worldPass market.snapshot now)) ⟨past, .empty, store⟩ true t ∧
        Succeeds w (market.resolveTo (worldPass market.snapshot now)) t proposal.value t' ∧
        Agrees (worldPass market.snapshot now) market t'.memory proposal.value e ∧ proposal.explanation = e.text := by
  unfold propose
  rw [hs]
  refine CycleM.leads_bind.2 (Course.leads_of_upshot fun fires calls store' hfires => ?_)
  match fires, hfires with
  | .error e, _ => exact nofun
  | .ok (.error fault, memory), _ => exact nofun
  | .ok (.ok false, memory), _ => exact nofun
  | .ok (.ok true, memory), hfires =>
    refine CycleM.leads_bind.2 (Course.leads_of_upshot fun value more store'' hvalue => ?_)
    match value, hvalue with
    | .error e, _ => exact nofun
    | .ok (.error fault, later), _ => exact nofun
    | .ok (.ok v, later), hvalue =>
      have hfires := CycleM.succeeds_of_inPass hfires
      have hvalue := CycleM.succeeds_of_inPass hvalue
      obtain ⟨e, he⟩ := agrees_of_succeeds hfires (Memory.le_refl _) hvalue (Memory.le_refl _)
      change (CycleM.inPass later (market.explainIn (worldPass market.snapshot now)) >>= _).Leads _ _ _ _
      rw [CycleM.inPass_settled he.explained]
      simp only [pure_bind, CycleM.leads_pure]
      intro proposal hproposal
      cases hproposal
      exact ⟨_, _, e, hfires, hvalue, he, rfl⟩

/-- What would be told of an explanation that failed does not matter for a proposal. -/
theorem propose_telling (hs : s.sources = worldSources) (tell : String → RuleFault → Course Unit) (market : Market)
    (now : Instant) : propose s market now = propose (s.telling tell) market now := by
  have hs' : (s.telling tell).sources = worldSources := hs
  unfold propose
  rw [hs, hs']
  refine CycleM.bind_congr fun {first} _ _ _ _ _ hfires => ?_
  obtain ⟨fires, memory⟩ := first
  cases fires with
  | error fault => rfl
  | ok fired =>
    cases fired with
    | false => rfl
    | true =>
      refine CycleM.bind_congr fun {second} _ _ _ _ _ hvalue => ?_
      obtain ⟨value, later⟩ := second
      cases value with
      | error fault => rfl
      | ok v =>
        have hfires := CycleM.succeeds_of_inPass hfires
        have hvalue := CycleM.succeeds_of_inPass hvalue
        obtain ⟨e, he⟩ := agrees_of_succeeds hfires (Memory.le_refl memory) hvalue (Memory.le_refl later)
        change CycleM.inPass later (market.explainIn (worldPass market.snapshot now)) >>= _ =
          CycleM.inPass later (market.explainIn (worldPass market.snapshot now)) >>= _
        rw [CycleM.inPass_settled he.explained]
        simp only [pure_bind]

/-- What would be told of an explanation that failed does not matter for a check. -/
theorem checkMarket_telling (hs : s.sources = worldSources) (tell : String → RuleFault → Course Unit) (dryRun : Bool)
    (market : Market) (refresh : Bool) (now : Instant) :
    checkMarket s dryRun market refresh now = checkMarket (s.telling tell) dryRun market refresh now := by
  have hfresh : ∀ fresh : Market, checkFresh s dryRun fresh now = checkFresh (s.telling tell) dryRun fresh now := by
    intro fresh
    unfold checkFresh
    rw [propose_telling hs tell]
    rfl
  unfold checkMarket
  simp only [hfresh]
  rfl

end Arbiter
