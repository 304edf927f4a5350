import Arbiter.Proofs.World

/-!
# Where polling ends

A cycle asks each stored market whether it is due. There is no answer if the next check would lie outside the calendar,
and a cycle that gets no answer crashes. A rate of checks may be any number of hours, so this does happen.

* `Instant.addMillis?_isSome`: when an instant has a later one.
* `Market.nextCheckFits`: whether the next check lies in the calendar, in exact arithmetic (`Market.isDue_isSome`).
* `processMarkets_unforced`: the loop over any markets, up to the first one without an answer.
* `polling_up_to_misfit`: the loop over the markets of a store.
-/

namespace Arbiter

/-! ## The next check -/

namespace Instant

/-- The second of the instant that lies `ms` milliseconds later, whether the calendar has it or not. -/
def secondAfter (t : Instant) (ms : Nat) : Int :=
  t.seconds + ((t.nanos % nanosPerSecond + ms * 1000000) / nanosPerSecond : Nat)

theorem checked_isSome (t : Instant) : t.checked.isSome = decide t.InCalendar := by
  unfold checked
  split
  · rename_i h
    simp [h]
  · rename_i h
    simp [h]

/-- An instant of the calendar has a later one as long as that lies in the calendar too. -/
theorem addMillis?_isSome {t : Instant} (h : t.InCalendar) (ms : Nat) :
    (t.addMillis? ms).isSome = decide (t.secondAfter ms ≤ lastSecond) := by
  obtain ⟨hfirst, hlast, hnanos⟩ := h
  have hstart : (if nanosPerSecond ≤ t.nanos then t.nanos - nanosPerSecond else t.nanos) = t.nanos % nanosPerSecond := by
    unfold nanosPerSecond at *
    split <;> omega
  have hsum : (t.nanos % nanosPerSecond + ms * 1000000) / nanosPerSecond =
      ms / 1000 + (t.nanos % nanosPerSecond + ms % 1000 * 1000000) / nanosPerSecond := by
    unfold nanosPerSecond
    omega
  unfold addMillis? secondAfter
  simp only [hstart, hsum]
  unfold nanosPerSecond at *
  split
  · rename_i hleap
    -- still in the leap second, where nothing is checked
    have hle : t.seconds + ((ms / 1000 + (t.nanos % 1000000000 + ms % 1000 * 1000000) / 1000000000 : Nat) : Int) ≤
        lastSecond := by omega
    exact (decide_eq_true hle).symm
  · split
    · rw [checked_isSome]
      refine decide_eq_decide.2 ?_
      unfold InCalendar nanosPerSecond
      dsimp only
      omega
    · rw [checked_isSome]
      refine decide_eq_decide.2 ?_
      unfold InCalendar nanosPerSecond
      dsimp only
      omega

/-- What is kept of a moment lies in the calendar. -/
theorem inCalendar_of_checked {t t' : Instant} (h : t.checked = some t') : t'.InCalendar := by
  unfold checked at h
  split at h
  · rename_i hc
    cases h
    exact hc
  · cases h

theorem inCalendar_of_readRelaxed? {text : String} {t : Instant} (h : readRelaxed? text = some t) : t.InCalendar := by
  simp only [readRelaxed?, Option.bind_eq_bind, Option.bind_eq_some_iff] at h
  obtain ⟨_, _, _, _, _, _, ⟨offset, rest⟩, _, t', _, h⟩ := h
  dsimp only at h
  split at h
  · exact inCalendar_of_checked h
  · cases h

end Instant

/-- A moment of a record lies in the calendar. -/
theorem Decoded.inCalendar_of_moment {v : Json} {t : Instant} (h : Decoded.moment v = .ok t) : t.InCalendar := by
  unfold Decoded.moment at h
  split at h
  · split at h
    · rename_i hr
      cases h
      exact Instant.inCalendar_of_readRelaxed? hr
    · cases h
  · cases h

theorem Decoded.bind_ok {α β : Type} {x : Decoded α} {f : α → Decoded β} {b : β} (h : x >>= f = .ok b) :
    ∃ a, x = .ok a ∧ f a = .ok b := by
  cases x with
  | ok a => exact ⟨a, rfl, h⟩
  | error _ => cases h

theorem Record.inCalendar_of_optional {r : Record} {name : String} {t : Instant}
    (h : r.optional name Decoded.moment = .ok (some t)) : t.InCalendar := by
  unfold Record.optional Record.withDefault at h
  split at h
  · unfold Decoded.optional at h
    split at h
    · cases h
    · rename_i v _ _ _
      cases ht : Decoded.moment v with
      | error _ =>
        rw [ht] at h
        cases h
      | ok t' =>
        rw [ht] at h
        cases h
        exact Decoded.inCalendar_of_moment ht
  · cases h

namespace Market

/-- A stored market was last checked at a moment of the calendar. -/
theorem inCalendar_of_decode {v : Json} {market : Market} (h : Market.decode v = .ok market) {last : Instant}
    (hl : market.lastChecked = some last) : last.InCalendar := by
  unfold decode at h
  obtain ⟨r, _, h⟩ := Decoded.bind_ok h
  obtain ⟨snapshot, _, h⟩ := Decoded.bind_ok h
  obtain ⟨triggers, _, h⟩ := Decoded.bind_ok h
  obtain ⟨values, _, h⟩ := Decoded.bind_ok h
  obtain ⟨rate, _, h⟩ := Decoded.bind_ok h
  obtain ⟨lastChecked, hchecked, h⟩ := Decoded.bind_ok h
  obtain ⟨notes, _, h⟩ := Decoded.bind_ok h
  obtain ⟨initial, _, h⟩ := Decoded.bind_ok h
  split at h
  · cases h
    subst hl
    exact Record.inCalendar_of_optional hchecked
  · cases h

/-- Whether the next check of a market lies in the calendar. -/
def nextCheckFits (market : Market) : Bool :=
  market.lastChecked.all fun last => decide (last.secondAfter (checkMillis market.checkRate) ≤ Instant.lastSecond)

/-- A market of the calendar is due or not exactly if its next check lies in the calendar. -/
theorem isDue_isSome {market : Market} (h : ∀ last, market.lastChecked = some last → last.InCalendar) (now : Instant) :
    (market.isDue now).isSome = market.nextCheckFits := by
  unfold isDue nextCheckFits
  cases hl : market.lastChecked with
  | none => rfl
  | some last =>
    dsimp only
    rw [Option.isSome_map, Instant.addMillis?_isSome (h last hl)]
    rfl

end Market

theorem Store.inCalendar_of_readable {store : Store} {row : Int} {market : Market}
    (h : (row, market) ∈ store.readable) {last : Instant} (hl : market.lastChecked = some last) : last.InCalendar := by
  cases hm : store.markets with
  | none =>
    rw [readable, hm] at h
    cases h
  | some table =>
    rw [readable, hm] at h
    obtain ⟨kept, _, hk⟩ := Store.mem_found_decodeRows.1 h
    unfold decodeText at hk
    split at hk
    · exact Market.inCalendar_of_decode hk hl
    · cases hk

/-! ## The loop -/

section

variable {m : Type → Type} [Monad m] [LawfulMonad m] (s : Services m) (dryRun : Bool) (now : Instant)

omit [LawfulMonad m] in
/-- A market that is due is dealt with like one that is checked in any case. -/
theorem processMarket_due {market : Market} (h : market.isDue now = some true) (summary : CycleSummary) (row : Int) :
    processMarket s dryRun false now summary row market = processMarket s dryRun true now summary row market := by
  unfold processMarket checkMarket isWanted
  rw [h]
  rfl

/-- A market that is not due is left alone. -/
theorem processMarket_notDue {market : Market} (h : market.isDue now = some false) (summary : CycleSummary) (row : Int) :
    processMarket s dryRun false now summary row market = pure summary := by
  have hw : (isWanted market false now : CycleM m Bool) = pure false := by
    unfold isWanted
    rw [h]
    rfl
  unfold processMarket
  rw [hw, pure_bind, if_neg Bool.false_ne_true]

/-- A market of which nobody can tell whether it is due ends everything. -/
theorem processMarket_misfit {market : Market} (h : market.isDue now = none) (summary : CycleSummary) (row : Int) :
    processMarket s dryRun false now summary row market = throw .outOfRange := by
  have hw : (isWanted market false now : CycleM m Bool) = throw .outOfRange := by
    unfold isWanted
    rw [h]
    rfl
  unfold processMarket
  rw [hw]
  exact CycleM.throw_bind _ _

/-- The loop deals with the markets that are due, up to the first one without an answer, and crashes there. -/
theorem processMarkets_unforced (fits : Market → Bool) : ∀ (rows : List (Int × Market)) (summary : CycleSummary),
    (∀ e ∈ rows, (e.2.isDue now).isSome = fits e.2) →
    processMarkets s dryRun false now summary rows = (do
      let summary ← processMarkets s dryRun true now summary
        ((rows.takeWhile fun e => fits e.2).filter fun e => e.2.isDue now == some true)
      if rows.all fun e => fits e.2 then pure summary else throw .outOfRange)
  | [], summary, _ => (pure_bind summary _).symm
  | (row, market) :: rest, summary, hfits => by
    have ih := fun summary => processMarkets_unforced fits rest summary fun e he => hfits e (List.mem_cons_of_mem _ he)
    have hfit : (market.isDue now).isSome = fits market := hfits _ List.mem_cons_self
    rw [processMarkets, List.takeWhile_cons, List.all_cons, ← hfit]
    cases h : market.isDue now with
    | none =>
      rw [processMarket_misfit s dryRun now h, CycleM.throw_bind]
      simp only [Option.isSome_none, Bool.false_and, Bool.false_eq_true, if_false, List.filter_nil, processMarkets,
        pure_bind]
    | some due =>
      cases due with
      | true =>
        rw [processMarket_due s dryRun now h]
        simp only [Option.isSome_some, if_true, h, List.filter_cons, beq_self_eq_true, processMarkets, bind_assoc, ih,
          Bool.true_and]
      | false =>
        rw [processMarket_notDue s dryRun now h, pure_bind, ih]
        simp only [Option.isSome_some, if_true, h, List.filter_cons, Bool.true_and]
        rfl

end

/-- Polling goes as far as the next checks fit. A market that was last checked within the calendar is due or not exactly
if its next check lies there too. The loop over the markets of a store deals with all that are due before the first one
whose next check does not fit; if there is such a one it crashes there, and otherwise it comes to the end. -/
theorem polling_up_to_misfit (journal dryRun : Bool) (now : Instant) :
    (∀ market : Market, (∀ last, market.lastChecked = some last → last.InCalendar) →
      (market.isDue now).isSome = market.nextCheckFits) ∧
    ∀ (store : Store) (summary : CycleSummary),
      processMarkets (services journal) dryRun false now summary store.readable = (do
        let summary ← processMarkets (services journal) dryRun true now summary
          ((store.readable.takeWhile fun e => e.2.nextCheckFits).filter fun e => e.2.isDue now == some true)
        if store.readable.all fun e => e.2.nextCheckFits then pure summary else throw .outOfRange) := by
  refine ⟨fun market h => Market.isDue_isSome h now, fun store summary => ?_⟩
  exact processMarkets_unforced _ dryRun now Market.nextCheckFits store.readable summary fun e he =>
    Market.isDue_isSome (fun last hl => Store.inCalendar_of_readable he hl) now

/-- A market of yes and no that is checked every so many hours, and was checked once. -/
def checkedOnce (rate : Float) : Market :=
  ⟨⟨"a", "https://example.com/a", "A?", .binary, none, none, false, [], none, false⟩, [.atTime ⟨0, 0⟩], [.round], rate,
    some ⟨1709294400, 0⟩, "", none⟩

/-- Checked every hour it always has an answer. -/
theorem hourly_answers : ((checkedOnce 1).isDue ⟨1709298000, 0⟩).isSome = true :=
  ((polling_up_to_misfit false false ⟨1709298000, 0⟩).1 (checkedOnce 1) (fun last h => by cases h; decide +kernel)).trans
    (by decide +kernel)

/-- A market to be checked every five thousand million hours is accepted; once it was checked the loop crashes on it. -/
theorem seldom_crashes :
    Market.new (checkedOnce 5e9).snapshot (checkedOnce 5e9).triggers (checkedOnce 5e9).values
      (checkedOnce 5e9).checkRate = .ok { checkedOnce 5e9 with lastChecked := none } ∧
    (∀ last, (checkedOnce 5e9).lastChecked = some last → last.InCalendar) ∧
    ∀ now, (checkedOnce 5e9).isDue now = none ∧
      processMarkets (services false) false false now {} [(1, checkedOnce 5e9)] = throw .outOfRange := by
  have hnext : (⟨1709294400, 0⟩ : Instant).addMillis? (Market.checkMillis 5e9) = none := by decide +kernel
  refine ⟨rfl, fun last h => by cases h; decide +kernel, fun now => ?_⟩
  have hdue : (checkedOnce 5e9).isDue now = none := by
    unfold Market.isDue checkedOnce
    dsimp only
    rw [hnext]
    rfl
  exact ⟨hdue, by rw [processMarkets, processMarket_misfit _ _ _ hdue, CycleM.throw_bind]⟩

end Arbiter
