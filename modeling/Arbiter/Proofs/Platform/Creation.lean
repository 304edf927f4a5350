import Arbiter.Proofs.World

/-!
# Creations on the platform

A market is created where a creation is posted to the platform and the reply reports success and tells an identifier.
What comes after this reply can still fail, and then the whole creation has failed.

* `Call.creates`: a call that creates a market.
* `Course.LeavesQueue`: work that creates none, and leaves the queue as it is.
* `PlatformClient.create_leads`: a creation that comes to its end created one market; one that fails created at most one.
-/

namespace Arbiter

/-! ## Addresses -/

namespace PlatformClient

variable {m : Type → Type} (client : PlatformClient m)

theorem address_inj {path other : String} (h : client.address path = client.address other) : path = other :=
  (String.append_right_inj _).1 h

/-- A resolution is posted elsewhere than a creation. -/
theorem resolutionPath_ne (market : Snapshot) : resolutionPath market ≠ "/v0/market" := fun h => by
  have hlength := congrArg String.length h
  simp only [resolutionPath, String.length_append] at hlength
  have hstart : "/v0/market/".length = 11 := by decide
  have hwhole : "/v0/market".length = 10 := by decide
  omega

end PlatformClient

/-! ## Calls that create -/

/-- The identifier that the reply to a creation tells. -/
def HttpReply.createdId? : HttpReply → Option String
  | .answered status body =>
    if isSuccess status then (decodeText .whole .ok body).toOption.bind PlatformClient.createdId? else none
  | .failed _ => none

theorem HttpReply.createdId?_answered {status : Nat} {body : String} (h : isSuccess status = true) :
    (HttpReply.answered status body).createdId? = (decodeText .whole .ok body).toOption.bind PlatformClient.createdId? :=
  if_pos h

/-- Whether a call creates a market: it posts a creation, and the reply reports success and tells an identifier. -/
def Call.creates (baseUrl : String) : Call → Bool
  | ⟨.send request, reply⟩ =>
    request.method == .post && request.url == withoutFinalSlashes baseUrl ++ "/v0/market" &&
      (HttpReply.createdId? reply).isSome
  | _ => false

theorem Call.creates_send (baseUrl : String) (request : HttpRequest) (reply : HttpReply) :
    Call.creates baseUrl ⟨.send request, reply⟩ =
      (request.method == .post && request.url == withoutFinalSlashes baseUrl ++ "/v0/market" &&
        reply.createdId?.isSome) := rfl

/-- How many markets some calls create. -/
def creations (baseUrl : String) (calls : List Call) : Nat := calls.countP (Call.creates baseUrl)

section

variable {baseUrl : String}

theorem creations_append (calls more : List Call) :
    creations baseUrl (calls ++ more) = creations baseUrl calls + creations baseUrl more := List.countP_append

/-! ## Work that creates nothing -/

namespace Course

variable {α β : Type}

/-- Wherever it begins, the work creates nothing on the platform and leaves the queue as it is. -/
def LeavesQueue (baseUrl : String) (x : Course α) : Prop :=
  ∀ w past store, x.Leads w past store fun _ calls store' => creations baseUrl calls = 0 ∧ store'.pending = store.pending

theorem leavesQueue_pure (a : α) : (pure a : Course α).LeavesQueue baseUrl := fun _ _ _ => ⟨rfl, rfl⟩

theorem LeavesQueue.bind {x : Course α} {f : α → Course β} (hx : x.LeavesQueue baseUrl)
    (hf : ∀ a, (f a).LeavesQueue baseUrl) : (x >>= f).LeavesQueue baseUrl := fun w past store =>
  (hx w past store).bind fun a calls store' h => (hf a w (past ++ calls) store').mono fun _ more _ h' =>
    ⟨by rw [creations_append, h.1, h'.1], h'.2.trans h.2⟩

/-- Any question but a request to the platform. -/
theorem leavesQueue_ask {q : Question} (hq : ∀ a, Call.creates baseUrl ⟨q, a⟩ = false) :
    (ask q).LeavesQueue baseUrl := fun _ _ _ =>
  ⟨List.countP_eq_zero.2 (List.forall_mem_singleton.2 (Bool.eq_false_iff.1 (hq _))), rfl⟩

/-- Work on the store that leaves the queue alone. -/
theorem leavesQueue_onStore {work : StoreM α} (h : ∀ store, (Store.run work store).2.pending = store.pending) :
    (onStore work).LeavesQueue baseUrl := fun _ _ store => ⟨rfl, h store⟩

theorem leavesQueue_accessStore {work : StoreM α} (h : ∀ store, (Store.run work store).2.pending = store.pending) :
    (accessStore work).LeavesQueue baseUrl :=
  (leavesQueue_ask fun _ => rfl).bind fun
    | some _ => leavesQueue_pure _
    | none => leavesQueue_onStore h

end Course

/-! ## The client -/

namespace PlatformClient

variable {w : World} {past : List Call} {store : Store} (baseUrl : String) (apiKey : Option String)

/-- A post is one request; what it comes to is read from the reply. -/
theorem post_leads (path : String) (message : Json) :
    ((worldClient baseUrl apiKey).post path message).Leads w past store fun result calls store' => store' = store ∧
      ((calls = [] ∧ ∃ failure, result = .error failure) ∨
        ∃ (request : HttpRequest) (reply : HttpReply), calls = [⟨.send request, reply⟩] ∧ request.method = .post ∧
          request.url = (worldClient baseUrl apiKey).address path ∧
          reply.createdId? = result.toOption.bind PlatformClient.createdId?) := by
  unfold post
  cases apiKey with
  | none => exact ⟨rfl, .inl ⟨rfl, _, rfl⟩⟩
  | some key =>
    refine Course.leads_bind.2 (Course.leads_ask.2 ?_)
    generalize w.answer past (.send _) = reply
    match reply with
    | .failed causes => exact ⟨rfl, .inr ⟨_, _, rfl, rfl, rfl, rfl⟩⟩
    | .answered status body =>
      dsimp only
      by_cases hs : isSuccess status = true
      · rw [if_pos hs]
        refine ⟨rfl, .inr ⟨_, .answered status body, rfl, rfl, rfl, ?_⟩⟩
        change HttpReply.createdId? _ = (decodeBody _ _ _ body).toOption.bind _
        rw [HttpReply.createdId?_answered hs]
        unfold decodeBody
        cases decodeText .whole .ok body <;> rfl
      · rw [if_neg hs]
        exact ⟨rfl, .inr ⟨_, .answered status body, rfl, rfl, rfl, if_neg hs⟩⟩

/-- Whatever is posted elsewhere creates nothing. -/
theorem post_leavesQueue {path : String} (hp : path ≠ "/v0/market") (message : Json) :
    ((worldClient baseUrl apiKey).post path message).LeavesQueue baseUrl := fun w past store =>
  (post_leads baseUrl apiKey path message).mono fun result calls store' h => by
    obtain ⟨rfl, ⟨rfl, -⟩ | ⟨request, reply, rfl, -, hurl, -⟩⟩ := h
    · exact ⟨rfl, rfl⟩
    · have hne : (request.url == withoutFinalSlashes baseUrl ++ "/v0/market") = false :=
        beq_eq_false_iff_ne.2 fun h => hp (address_inj (worldClient baseUrl apiKey) (hurl.symm.trans h))
      refine ⟨List.countP_eq_zero.2 (List.forall_mem_singleton.2 ?_), rfl⟩
      change ¬(request.method == .post && _ && _) = true
      rw [hne, Bool.and_false, Bool.false_and]
      exact Bool.false_ne_true

/-- Nor does any read. -/
theorem listing_leavesQueue (id : String) :
    ((worldClient baseUrl apiKey).listing id).LeavesQueue baseUrl :=
  (Course.leavesQueue_ask fun _ => rfl).bind fun reply => by
    match reply with
    | .failed causes => exact Course.leavesQueue_pure _
    | .answered status body =>
      dsimp only
      split
      · exact Course.leavesQueue_pure _
      · exact Course.leavesQueue_pure _

theorem placeBets_leavesQueue : ∀ bets : List Json,
    ((worldClient baseUrl apiKey).placeBets bets).LeavesQueue baseUrl
  | [] => Course.leavesQueue_pure _
  | bet :: rest => (post_leavesQueue baseUrl apiKey (by decide) bet).bind fun
    | .error _ => Course.leavesQueue_pure _
    | .ok _ => placeBets_leavesQueue rest

/-- What follows the reply to a creation creates nothing. -/
theorem openMarket_leavesQueue (request : CreationRequest) (id : String) :
    ((worldClient baseUrl apiKey).openMarket request id).LeavesQueue baseUrl :=
  (listing_leavesQueue baseUrl apiKey id).bind fun
    | .error _ => Course.leavesQueue_pure _
    | .ok l => by
      dsimp only
      split
      · exact Course.leavesQueue_pure _
      · refine (placeBets_leavesQueue baseUrl apiKey _).bind fun
          | .error _ => Course.leavesQueue_pure _
          | .ok () => ?_
        dsimp only
        split
        · exact (Course.leavesQueue_pure ()).bind fun _ => Course.leavesQueue_pure _
        · exact Course.leavesQueue_pure _

theorem resolve_leavesQueue (market : Snapshot) (value : Outcome) :
    ((worldClient baseUrl apiKey).resolve market value).LeavesQueue baseUrl := by
  unfold resolve
  split
  · exact Course.leavesQueue_pure _
  · exact (post_leavesQueue baseUrl apiKey (resolutionPath_ne market) _).bind fun
      | .error _ => Course.leavesQueue_pure _
      | .ok _ => (Course.leavesQueue_pure ()).bind fun _ => Course.leavesQueue_pure _

theorem cancel_leavesQueue (market : Snapshot) :
    ((worldClient baseUrl apiKey).cancel market).LeavesQueue baseUrl :=
  (post_leavesQueue baseUrl apiKey (resolutionPath_ne market) _).bind fun
    | .error _ => Course.leavesQueue_pure _
    | .ok _ => (Course.leavesQueue_pure ()).bind fun _ => Course.leavesQueue_pure _

/-- Where a creation is posted a market is created exactly if an identifier comes back. -/
theorem postCreation_leads (message : Json) :
    ((worldClient baseUrl apiKey).post "/v0/market" message).Leads w past store fun result calls store' =>
      store' = store ∧ creations baseUrl calls =
        if (result.toOption.bind PlatformClient.createdId?).isSome then 1 else 0 :=
  (post_leads baseUrl apiKey "/v0/market" message).mono fun result calls store' h => by
    obtain ⟨hs, ⟨rfl, failure, rfl⟩ | ⟨request, reply, rfl, hmethod, hurl, hid⟩⟩ := h
    · exact ⟨hs, rfl⟩
    · have hurl : request.url = withoutFinalSlashes baseUrl ++ "/v0/market" := hurl
      refine ⟨hs, ?_⟩
      rw [← hid]
      simp [creations, Call.creates, List.countP_cons, hmethod, hurl]

/-- A creation creates at most one market, and one that comes to its end has created one. -/
theorem create_leads (request : CreationRequest) :
    ((worldClient baseUrl apiKey).create request).Leads w past store fun result calls store' =>
      creations baseUrl calls ≤ 1 ∧
        (result.isOk = true → creations baseUrl calls = 1) ∧ store'.pending = store.pending := by
  refine (postCreation_leads baseUrl apiKey (creationMessage request)).bind fun answer calls store' h => ?_
  obtain ⟨rfl, hcount⟩ := h
  match answer with
  | .error failure =>
    refine Course.leads_pure.2 ⟨?_, nofun, rfl⟩
    rw [List.append_nil, hcount]
    exact Nat.zero_le 1
  | .ok json =>
    change creations _ calls = if (createdId? json).isSome then 1 else 0 at hcount
    dsimp only
    cases hid : createdId? json with
    | none =>
      rw [hid] at hcount
      refine Course.leads_pure.2 ⟨?_, nofun, rfl⟩
      rw [List.append_nil, hcount]
      decide
    | some id =>
      rw [hid] at hcount
      refine Course.leads_bind.2 (Course.leads_pure.2 ?_)
      refine (openMarket_leavesQueue baseUrl apiKey request id w _ _).mono fun result more store' h => ?_
      have htotal : creations baseUrl (calls ++ ([] ++ more)) = 1 := by
        rw [List.nil_append, creations_append, hcount, h.1]
        rfl
      exact ⟨Nat.le_of_eq htotal, fun _ => htotal, h.2⟩

end PlatformClient

end

end Arbiter
