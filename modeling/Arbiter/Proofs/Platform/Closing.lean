import Arbiter.Proofs.Pass.Moment

/-!
# When a market is closed

That a market is closed is asked in two ways: of a market by itself, whose close time is compared with the moment of the
pass, and of a market by others, which is fetched and whose close time is compared with the clock as it is then. The first
counts the close time itself as closed, the second does not.

* `World.Lists`: a world that lists a market at an address. `PlatformClient.otherMarket_gives`: what is fetched there.
* `Trigger.endsAt_thisMarketClosed`, `Trigger.endsAt_otherMarketClosed`: what each way comes to.
* `Trigger.closed_alike_iff`: both agree at all moments but one.
-/

namespace Arbiter

/-! ## Earlier and later -/

namespace Instant

theorem not_lt_self (t : Instant) : ¬t < t := by
  rintro (h | ⟨-, h⟩) <;> omega

theorem le_iff_lt_or_eq {a b : Instant} : a ≤ b ↔ a < b ∨ a = b := by
  obtain ⟨s, n⟩ := a
  obtain ⟨s', n'⟩ := b
  change (s < s' ∨ s = s' ∧ n ≤ n') ↔ (s < s' ∨ s = s' ∧ n < n') ∨ _
  rw [Instant.mk.injEq]
  omega

end Instant

namespace Listing

variable {l : Listing} {t : Instant}

/-- Whether the close time is reached or has passed: the same, unless it is reached just now. -/
theorem reached_eq_isClosed_iff (hopen : l.isResolved = false) :
    (l.closeTime.any fun c => decide (c ≤ t)) = l.isClosed t ↔ l.closeTime ≠ some t := by
  unfold isClosed
  rw [hopen, Bool.false_or]
  cases l.closeTime with
  | none => simp
  | some c =>
    simp only [Option.any_some, decide_eq_decide, ne_eq, Option.some.injEq, Instant.le_iff_lt_or_eq]
    constructor
    · rintro h rfl
      exact Instant.not_lt_self c (h.1 (.inr rfl))
    · intro hne
      simp [hne]

end Listing

/-! ## What is fetched -/

/-- The request that reads a record. -/
def readRequest (baseUrl path : String) : HttpRequest :=
  ⟨.get, withoutFinalSlashes baseUrl ++ path, [("user-agent", agentName)], none⟩

/-- Asked for the market at an address after some calls, the platform answers with this one, and then the clock shows
`t`. -/
def World.Lists (w : World) (past : List Call) (baseUrl url : String) (l : Listing) (t : Instant) : Prop :=
  ∃ (slug body : String) (status : Nat), slugOf? url = some slug ∧
    statusFailure status (readRequest baseUrl ("/v0/slug/" ++ slug)).url = none ∧
    decodeText Listing.shape Listing.decode body = .ok l ∧
    w.answer past (.send (readRequest baseUrl ("/v0/slug/" ++ slug))) = HttpReply.answered status body ∧
    w.answer (past ++ [⟨.send (readRequest baseUrl ("/v0/slug/" ++ slug)), HttpReply.answered status body⟩]) .clock = t

/-- An address of a market. -/
def rainUrl : String := "https://manifold.markets/user/will-it-rain"

/-- A market of yes and no as the platform lists it. -/
def rainBody : String :=
  "\x7b\"id\":\"r\",\"url\":\"https://manifold.markets/user/will-it-rain\",\"question\":\"Will it rain?\"," ++
    "\"outcomeType\":\"BINARY\",\"probability\":0.42,\"closeTime\":1700000000000,\"isResolved\":false\x7d"

/-- A world that stands still at a moment, where every request is answered with this market. -/
def rainWorld (t : Instant) : World where
  answer past
    | .send _ => .answered 200 rainBody
    | q => (World.still t).answer past q

/-- An open market with a value that closes at a moment. -/
structure Listing.ClosesAt (l : Listing) (t : Instant) : Prop where
  isOpen : l.isResolved = false
  closeTime : l.closeTime = some t
  value : ∃ value, l.value = .ok value

set_option maxRecDepth 4000 in
theorem rainBody_closesAt : ∃ l, decodeText Listing.shape Listing.decode rainBody = .ok l ∧
    l.ClosesAt ⟨1700000000, 0⟩ := by
  have ht : rainBody = String.ofList _ ++ String.ofList _ := rfl
  obtain ⟨l, hdecode, hl⟩ : ∃ l, decodeText Listing.shape Listing.decode rainBody = .ok l ∧
      (!l.isResolved && l.closeTime == some ⟨1700000000, 0⟩ && l.value.isOk) = true := by
    refine Store.exists_decoded ?_
    rw [decodeText, Json.readAs?, ht, String.toList_append, String.toList_ofList, String.toList_ofList]
    decide +kernel
  rw [Bool.and_eq_true, Bool.and_eq_true, Bool.not_eq_true', beq_iff_eq] at hl
  obtain ⟨⟨hopen, hclose⟩, hvalue⟩ := hl
  refine ⟨l, hdecode, hopen, hclose, ?_⟩
  cases hv : l.value with
  | ok value => exact ⟨value, rfl⟩
  | error fault =>
    rw [hv] at hvalue
    cases hvalue

/-- This world lists the market at all times. -/
theorem rainWorld_lists : ∃ l : Listing, l.ClosesAt ⟨1700000000, 0⟩ ∧
    ∀ past t, (rainWorld t).Lists past "https://api.manifold.markets" rainUrl l t := by
  obtain ⟨l, hdecode, hl⟩ := rainBody_closesAt
  exact ⟨l, hl, fun _ _ => ⟨"will-it-rain", rainBody, 200, by decide +kernel, rfl, hdecode, rfl, rfl⟩⟩

section

variable {w : World} {past : List Call} {baseUrl url : String} {l : Listing} {t : Instant}

namespace PlatformClient

/-- A record that is answered is read. -/
theorem fetch_gives {α : Type} {shape : Json.Shape} {decode : Json → Decoded α} {path body : String} {status : Nat} {a : α}
    (apiKey : Option String) (hstatus : statusFailure status (readRequest baseUrl path).url = none)
    (hdecode : decodeText shape decode body = .ok a)
    (hanswer : w.answer past (.send (readRequest baseUrl path)) = HttpReply.answered status body) :
    ((worldClient baseUrl apiKey).fetch shape decode path).Gives w past (.ok a)
      [⟨.send (readRequest baseUrl path), HttpReply.answered status body⟩] := by
  refine (Course.gives_ask_of hanswer).bind ?_
  -- the client makes the same address as the request has
  replace hstatus : statusFailure status ((worldClient baseUrl apiKey).address path) = none := hstatus
  dsimp only
  rw [hstatus]
  dsimp only
  rw [decodeBody, hdecode]
  exact Course.gives_pure _

/-- A market that is listed is fetched as it is at that moment. -/
theorem otherMarket_gives (apiKey : Option String) (h : w.Lists past baseUrl url l t) :
    ∃ calls, ((worldClient baseUrl apiKey).otherMarket url).Gives w past (l.reference t) calls := by
  obtain ⟨slug, body, status, hslug, hstatus, hdecode, hanswer, hclock⟩ := h
  have hlisting := fetch_gives apiKey hstatus hdecode hanswer
  have hnow := Course.gives_ask_of hclock
  apply Exists.intro
  unfold otherMarket listingAt
  rw [hslug]
  exact hlisting.bind (hnow.bind (Course.gives_pure _))

end PlatformClient

/-! ## Both ways of asking -/

/-- A pass over a market at a moment that fetches other markets by the client of the platform. -/
def clientPass (baseUrl : String) (apiKey : Option String) (market : Snapshot) (now : Instant) : Pass Course :=
  ⟨market, now, { worldSources with otherMarket := (worldClient baseUrl apiKey).otherMarket }⟩

variable {s : Moment} (apiKey : Option String) (market : Snapshot) (now : Instant)

namespace PassM

/-- Another market that is not yet remembered is the one that is listed. -/
theorem endsAt_otherMarket (h : w.Lists s.past baseUrl url l t) (hnew : s.memory.others.get? url = none) :
    (((clientPass baseUrl apiKey market now).otherMarket url).endsAt w s).1 =
      (l.reference t).mapError fun fault => .fault (.read fault) := by
  obtain ⟨calls, hgives⟩ : ∃ calls, ((clientPass baseUrl apiKey market now).sources.otherMarket url).Gives w s.past
      (l.reference t) calls := PlatformClient.otherMarket_gives apiKey h
  unfold endsAt Pass.otherMarket
  rw [runFrom_remember, hnew]
  dsimp only
  rw [Course.upshot_bind_of (hgives s.store)]
  cases l.reference t <;> rfl

end PassM

namespace Trigger

/-- A market by itself is closed from its close time on. -/
theorem endsAt_thisMarketClosed (u : Moment) :
    ((thisMarketClosed none).evaluate (clientPass baseUrl apiKey market now)).endsAt w u =
      (.ok (market.closeTime.any fun c => decide (c ≤ now)), u) := by
  rw [evaluate]
  exact PassM.endsAt_pure _

/-- Another market whose value can be told is closed as it is listed. -/
theorem endsAt_otherMarketClosed (h : w.Lists s.past baseUrl url l t) (hnew : s.memory.others.get? url = none) :
    (((otherMarketClosed url).evaluate (clientPass baseUrl apiKey market now)).endsAt w s).1 =
      match l.value with
      | .ok _ => .ok (l.isClosed t)
      | .error fault => .error (.fault (.read fault)) := by
  have hfetched := PassM.endsAt_otherMarket apiKey market now h hnew
  rw [evaluate, PassM.endsAt_bind]
  generalize ((clientPass baseUrl apiKey market now).otherMarket url).endsAt w s = ends at hfetched
  obtain ⟨result, u⟩ := ends
  dsimp only at hfetched
  rw [hfetched, Listing.reference]
  cases l.value with
  | ok value => exact congrArg Prod.fst (PassM.endsAt_pure _)
  | error fault => rfl

/-- Whether both ways of asking agree. An open market is fetched while the clock shows `t`, and a pass at `t` is over this
market as it was fetched; there it always comes out whether the market is closed. Asked as another market, this comes out
too, unless the value of the market cannot be told, which then is the fault. Where it comes out, it comes out alike exactly
if `t` is not the close time. -/
theorem closed_alike_iff (h : w.Lists s.past baseUrl url l t) (hopen : l.isResolved = false)
    (hnew : s.memory.others.get? url = none) (u : Moment) :
    ∃ own, (((thisMarketClosed none).evaluate (clientPass baseUrl apiKey l.snapshot t)).endsAt w u).1 = .ok own ∧
      (∀ fault, l.value = .error fault →
        (((otherMarketClosed url).evaluate (clientPass baseUrl apiKey market now)).endsAt w s).1 =
          .error (.fault (.read fault))) ∧
      ∀ value, l.value = .ok value → ∃ other,
        (((otherMarketClosed url).evaluate (clientPass baseUrl apiKey market now)).endsAt w s).1 = .ok other ∧
          ((own = true ↔ other = true) ↔ l.closeTime ≠ some t) := by
  have hother := endsAt_otherMarketClosed apiKey market now h hnew
  refine ⟨l.closeTime.any fun c => decide (c ≤ t), ?_, ?_, ?_⟩
  · rw [endsAt_thisMarketClosed]
    rfl
  · intro fault hvalue
    rw [hother, hvalue]
  · intro value hvalue
    refine ⟨l.isClosed t, ?_, ?_⟩
    · rw [hother, hvalue]
    · rw [← Bool.eq_iff_iff]
      exact Listing.reached_eq_isClosed_iff hopen

/-- A millisecond after the close time both agree. -/
theorem closed_alike_later : ∃ l : Listing, l.ClosesAt ⟨1700000000, 0⟩ ∧
    let t : Instant := ⟨1700000000, 1000000⟩
    let pass := clientPass "https://api.manifold.markets" none l.snapshot t
    let s : Moment := ⟨[], .empty, .empty⟩
    ∃ own other, (((thisMarketClosed none).evaluate pass).endsAt (rainWorld t) s).1 = .ok own ∧
      (((otherMarketClosed rainUrl).evaluate pass).endsAt (rainWorld t) s).1 = .ok other ∧ (own = true ↔ other = true) := by
  obtain ⟨l, hl, hlists⟩ := rainWorld_lists
  obtain ⟨value, hvalue⟩ := hl.value
  refine ⟨l, hl, ?_⟩
  intro t pass s
  have hlate : l.closeTime ≠ some t := by
    rw [hl.closeTime]
    decide
  obtain ⟨own, hown, -, halike⟩ := closed_alike_iff none l.snapshot t (hlists s.past t) hl.isOpen rfl s
  obtain ⟨other, hother, hiff⟩ := halike value hvalue
  exact ⟨own, other, hown, hother, hiff.2 hlate⟩

/-- At the close time itself the market is closed by itself, and open as another one. -/
theorem closed_apart : ∃ l : Listing, l.ClosesAt ⟨1700000000, 0⟩ ∧
    let t : Instant := ⟨1700000000, 0⟩
    let pass := clientPass "https://api.manifold.markets" none l.snapshot t
    let s : Moment := ⟨[], .empty, .empty⟩
    (((thisMarketClosed none).evaluate pass).endsAt (rainWorld t) s).1 = .ok true ∧
      (((otherMarketClosed rainUrl).evaluate pass).endsAt (rainWorld t) s).1 = .ok false := by
  obtain ⟨l, hl, hlists⟩ := rainWorld_lists
  obtain ⟨value, hvalue⟩ := hl.value
  refine ⟨l, hl, ?_⟩
  intro t pass s
  constructor
  · rw [endsAt_thisMarketClosed]
    change Except.ok (l.closeTime.any _) = .ok true
    rw [hl.closeTime]
    rfl
  · rw [endsAt_otherMarketClosed none l.snapshot t (hlists s.past t) rfl, hvalue, Listing.isClosed, hl.isOpen, hl.closeTime]
    rfl

end Trigger

end

end Arbiter
