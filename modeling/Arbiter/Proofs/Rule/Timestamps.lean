import Arbiter.Proofs.Rule.RoundTrip
import Arbiter.Proofs.Time.Written

/-!
# Timestamps of rules that are stored

A timestamp is written with a signed year if its year in UTC has not four digits, and such a text is not read again. Then
neither is a rule with this timestamp.

* `Instant.IsWritten.read_text`: when a timestamp that was read is read again.
* `Rule.ensures_read_toJson`: a stored node is read only if its timestamps and the rules inside it are.
* `Rule.moments_read`: a stored rule is read only if all its timestamps are.
* `Rule.WellFormed.read_again`: exactly when a rule is read again.
-/

namespace Arbiter

/-! ## Timestamps -/

namespace Instant

/-- The year in UTC has four digits, so it is written without a sign. -/
def HasPlainYear (t : Instant) : Prop := 0 ≤ t.date.year ∧ t.date.year ≤ 9999

instance (t : Instant) : Decidable t.HasPlainYear := inferInstanceAs (Decidable (_ ∧ _))

variable {t : Instant}

theorem IsWritten.read_text (h : t.IsWritten) : readWritten? t.text = if t.HasPlainYear then some t else none := by
  obtain ⟨text, htext⟩ := h
  exact readWritten?_text (wellFormed_of_readWritten? htext)

theorem IsWritten.hasPlainYear (h : t.IsWritten) (hread : (readWritten? t.text).isSome) : t.HasPlainYear := by
  rw [h.read_text] at hread
  split at hread
  case isTrue hyear => exact hyear
  case isFalse => cases hread

end Instant

/-! ## Arguments of stored rules -/

/-- A rule can be read from a value. -/
def Json.IsRule (v : Json) : Prop := ∃ r, Rule.ofJson v = .ok r

namespace Arguments

variable {kind : Kind} {members : List (String × Json)} {name : String} {v : Json}

open Rule (stored argumentOf itemOf)

theorem ensures_required_stored (h : Json.lookup name members = some v) :
    Ensures ((stored kind members).required name) fun argument => argument = argumentOf v.canonical := by
  cases hv : v.canonical.isNull with
  | false => exact required_stored h hv ▸ ensures_ok rfl
  | true =>
    have hnone : (stored kind members).find? name = none := by
      rw [find?_stored, h, Option.map_some, Option.filter_some, if_neg (by simp [argumentOf, hv])]
    rw [required, hnone]
    exact ensures_fault _

section Get

variable {α : Type} {requirement : Requirement} {read : Json → Option α} {found : Option α}

theorem ensures_fitting_argumentOf (a : Arguments) (hread : read v = found) :
    Ensures (a.fitting name requirement read (argumentOf v)) fun _ => found.isSome := by
  subst hread
  unfold fitting argumentOf
  split
  case h_1 x hx => exact ensures_ok (Option.isSome_of_eq_some hx)
  case h_2 => exact ensures_fault _

theorem ensures_get_stored (h : Json.lookup name members = some v) (hread : read v.canonical = found) :
    Ensures ((stored kind members).get name requirement read) fun _ => found.isSome := by
  refine (ensures_required_stored h).bind fun argument hargument => ?_
  subst hargument
  exact ensures_fitting_argumentOf _ hread

theorem ensures_get?_stored (h : Json.lookup name members = some v) (hv : v.canonical.isNull = false)
    (hread : read v.canonical = found) :
    Ensures ((stored kind members).get? name requirement read) fun _ => found.isSome := by
  rw [get?, find?_stored_some h hv]
  exact Ensures.map (ensures_fitting_argumentOf _ hread)

end Get

theorem ensures_moment_stored {t : Instant} (h : Json.lookup name members = some t.toJson) :
    Ensures ((stored kind members).moment name) fun _ => (Instant.readWritten? t.text).isSome :=
  ensures_get_stored h rfl

theorem ensures_moment?_stored {t : Instant} (h : Json.lookup name members = some t.toJson) :
    Ensures ((stored kind members).moment? name) fun _ => (Instant.readWritten? t.text).isSome :=
  ensures_get?_stored h rfl rfl

theorem ensures_asTrigger_read (a : Arguments) (json : Json) :
    Ensures (a.asTrigger name json (Rule.read v.canonical)) fun _ => v.IsRule :=
  (ensures_asTrigger (P := fun _ => v.IsRule) (fun r hr => ⟨r, hr⟩) name json)

theorem ensures_asValue_read (a : Arguments) (json : Json) :
    Ensures (a.asValue name json (Rule.read v.canonical)) fun _ => v.IsRule :=
  (ensures_asValue (P := fun _ => v.IsRule) (fun r hr => ⟨r, hr⟩) name json)

theorem ensures_trigger_stored (h : Json.lookup name members = some v) :
    Ensures ((stored kind members).trigger name) fun _ => v.IsRule := by
  refine (ensures_required_stored h).bind fun argument hargument => ?_
  subst hargument
  exact ensures_asTrigger_read _ _

theorem ensures_value_stored (h : Json.lookup name members = some v) :
    Ensures ((stored kind members).value name) fun _ => v.IsRule := by
  refine (ensures_required_stored h).bind fun argument hargument => ?_
  subst hargument
  exact ensures_asValue_read _ _

theorem ensures_triggerPair_stored {first second : Json} (hfirst : Json.lookup "rule1" members = some first)
    (hsecond : Json.lookup "rule2" members = some second) :
    Ensures (stored kind members).triggerPair fun _ => first.IsRule ∧ second.IsRule :=
  (ensures_trigger_stored hfirst).bind fun _ hfirst => (ensures_trigger_stored hsecond).bind fun _ hsecond =>
    ensures_pure ⟨hfirst, hsecond⟩

theorem ensures_children_stored {α : Type} {take : Json → Except RuleFault Rule → Except RuleFault α} {vs : List Json}
    (h : Json.lookup "rules" members = some (.array vs))
    (htake : ∀ (v json : Json), Ensures (take json (Rule.read v.canonical)) fun _ => v.IsRule) :
    Ensures (do
      (stored kind members).several (← (← (stored kind members).items "rules").mapM fun i : Item => take i.json i.rule))
      fun _ => ∀ v ∈ vs, v.IsRule := by
  rw [bind_of_ok (items_stored h)]
  refine (ensures_mapM_map fun v _ => ?_).bind fun _ hvs => (ensures_any _).mono fun _ _ => hvs
  exact htake v _

theorem ensures_triggers_stored {vs : List Json} (h : Json.lookup "rules" members = some (.array vs)) :
    Ensures (stored kind members).triggers fun _ => ∀ v ∈ vs, v.IsRule :=
  ensures_children_stored h fun _ _ => ensures_asTrigger_read _ _

theorem ensures_values_stored {vs : List Json} (h : Json.lookup "rules" members = some (.array vs)) :
    Ensures (stored kind members).values fun _ => ∀ v ∈ vs, v.IsRule :=
  ensures_children_stored h fun _ _ => ensures_asValue_read _ _

theorem ensures_shares_stored {shares : List (Float × ValueRule)}
    (h : Json.lookup "shares" members = some (.array (shares.map shareJson))) :
    Ensures (stored kind members).shares fun _ => ∀ share ∈ shares, share.2.toJson.IsRule := by
  rw [Arguments.shares, bind_of_ok (items_stored h), List.map_map]
  refine (ensures_mapM_map fun share _ => ?_).bind fun _ hshares => (ensures_any _).mono fun _ _ => hshares
  exact (ensures_asValue_read (v := share.2.toJson) _ _).bind fun _ hshare => ensures_ok hshare

end Arguments

/-! ## Rules -/

namespace Rule

section Stored

variable {Q : Rule → Prop} {kind : Kind} {members : List (String × Json)}

theorem ensures_read_taggedJson (h : Ensures (build (stored kind members)) Q) :
    Ensures (read (taggedJson kind members).canonical) Q := read_taggedJson kind members ▸ h

end Stored

/-- The timestamps at the root and the rules inside it are read again from what they are stored as. -/
def PartsRead (r : Rule) : Prop :=
  (∀ t ∈ r.rootMoments, (Instant.readWritten? t.text).isSome) ∧ ∀ c ∈ r.subrules, c.toJson.IsRule

/-- A stored node is read only if its timestamps and the rules inside it are. -/
theorem ensures_read_toJson (r : Rule) : Ensures (read r.toJson.canonical) fun _ => r.PartsRead := by
  have leaf {r : Rule} (hmoments : r.rootMoments = []) (hsubrules : r.subrules = []) : r.PartsRead := by
    simp [PartsRead, hmoments, hsubrules]
  cases r with
  | trigger r =>
    cases r with
    | atTime time =>
      exact ensures_read_taggedJson ((Arguments.ensures_moment_stored rfl).bind fun _ ht =>
        ensures_pure ⟨List.forall_mem_singleton.2 ht, List.forall_mem_nil _⟩)
    | thisMarketClosed time =>
      cases time with
      | none => exact (ensures_any _).mono fun _ _ => leaf rfl rfl
      | some time =>
        exact ensures_read_taggedJson ((Arguments.ensures_moment?_stored rfl).bind fun _ ht =>
          ensures_pure ⟨List.forall_mem_singleton.2 ht, List.forall_mem_nil _⟩)
    | pullFinished _ | otherMarketClosed _ | otherMarketResolved _ => exact (ensures_any _).mono fun _ _ => leaf rfl rfl
    | not child =>
      exact ensures_read_taggedJson ((Arguments.ensures_trigger_stored rfl).bind fun _ hchild =>
        ensures_pure ⟨List.forall_mem_nil _, List.forall_mem_singleton.2 hchild⟩)
    | all children | any children | xor children | xnor children =>
      rw [toJson, Trigger.toJson, Trigger.listJson_eq_map]
      refine ensures_read_taggedJson ((Arguments.ensures_triggers_stored rfl).bind fun _ hchildren => ?_)
      exact ensures_pure ⟨List.forall_mem_nil _, List.forall_mem_map.2 (List.forall_mem_map.1 hchildren)⟩
    | both first second | either first second | nand first second | neither first second | implies first second =>
      refine ensures_read_taggedJson ((Arguments.ensures_triggerPair_stored rfl rfl).bind fun _ hpair => ?_)
      exact ensures_pure
        ⟨List.forall_mem_nil _, List.forall_mem_cons.2 ⟨hpair.1, List.forall_mem_singleton.2 hpair.2⟩⟩
  | value r =>
    cases r with
    | constant _ | currentValue | otherMarketValue _ | randomIndex _ | pullMerged _ | popular _ | fibonacci _ _ | round
    | amplifiedOdds _ _ _ | userStat _ _ _ => exact (ensures_any _).mono fun _ _ => leaf rfl rfl
    | negate child =>
      exact ensures_read_taggedJson ((Arguments.ensures_value_stored rfl).bind fun _ hchild =>
        ensures_pure ⟨List.forall_mem_nil _, List.forall_mem_singleton.2 hchild⟩)
    | sum children | product children | modulus children =>
      rw [toJson, ValueRule.toJson, ValueRule.listJson_eq_map]
      refine ensures_read_taggedJson ((Arguments.ensures_values_stored rfl).bind fun _ hchildren => ?_)
      exact ensures_pure ⟨List.forall_mem_nil _, List.forall_mem_map.2 (List.forall_mem_map.1 hchildren)⟩
    | multipleValues shares =>
      rw [toJson, ValueRule.toJson, ValueRule.shareJson_eq_map]
      refine ensures_read_taggedJson ((Arguments.ensures_shares_stored rfl).bind fun _ hshares => ?_)
      exact ensures_pure ⟨List.forall_mem_nil _, List.forall_mem_map.2 (List.forall_mem_map.2 hshares)⟩
    | pullDelta pull start =>
      refine ensures_read_taggedJson (ensures_bind fun _ => (Arguments.ensures_moment_stored rfl).bind fun _ ht => ?_)
      exact ensures_pure ⟨List.forall_mem_singleton.2 ht, List.forall_mem_nil _⟩
    | conditional premise child =>
      refine ensures_read_taggedJson ((Arguments.ensures_trigger_stored rfl).bind fun _ hpremise =>
        (Arguments.ensures_value_stored rfl).bind fun _ hchild => ?_)
      exact ensures_pure
        ⟨List.forall_mem_nil _, List.forall_mem_cons.2 ⟨hpremise, List.forall_mem_singleton.2 hchild⟩⟩

/-- Every timestamp of a stored rule that is read is read itself. -/
theorem moments_read {r : Rule} : r.toJson.IsRule → ∀ t ∈ r.moments, (Instant.readWritten? t.text).isSome := by
  induction r using subrules_induction with
  | step r ih =>
    rintro ⟨again, hagain⟩ t ht
    obtain ⟨hroot, hsubrules⟩ := ensures_read_toJson r again hagain
    rcases mem_moments.1 ht with ht | ⟨c, hc, ht⟩
    · exact hroot t ht
    · exact ih c hc (hsubrules c hc) t ht

theorem MeetsConditions.rootMoments {r : Rule} (h : r.MeetsConditions) : ∀ t ∈ r.rootMoments, t.IsWritten := by
  cases r with
  | trigger r =>
    cases r with
    | atTime time => exact List.forall_mem_singleton.2 h
    | thisMarketClosed time => exact fun t ht => h t (Option.mem_toList.1 ht)
    | _ => exact List.forall_mem_nil _
  | value r =>
    cases r with
    | pullDelta pull start => exact List.forall_mem_singleton.2 h
    | _ => exact List.forall_mem_nil _

namespace WellFormed

/-- Every timestamp of a well-formed rule was read. -/
theorem moments_written {r : Rule} : r.WellFormed → ∀ t ∈ r.moments, t.IsWritten := by
  induction r using subrules_induction with
  | step r ih =>
    intro h t ht
    rcases mem_moments.1 ht with ht | ⟨c, hc, ht⟩
    · exact h.root.rootMoments t ht
    · exact ih c hc (h.subrules c hc) t ht

/-- A well-formed rule is read again from its stored form if the years of its timestamps have four digits, and no rule is
read from it otherwise. -/
theorem read_again {r : Rule} (h : r.WellFormed) :
    if ∀ t ∈ r.moments, t.HasPlainYear then ofJson r.toJson = .ok r else ¬ r.toJson.IsRule := by
  split
  case isTrue hyears =>
    exact h.read_toJson fun t ht => (h.moments_written t ht).read_text.trans (if_pos (hyears t ht))
  case isFalse hyears =>
    exact fun hread => hyears fun t ht => (h.moments_written t ht).hasPlainYear (moments_read hread t ht)

end WellFormed

end Rule

end Arbiter
