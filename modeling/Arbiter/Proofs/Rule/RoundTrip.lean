import Arbiter.Proofs.Rule.Stored
import Mathlib.Logic.Basic

/-!
# Whole rules that are stored and read again

* `Rule.moments`: the timestamps in a rule. `Rule.mem_moments`: where they stand.
* `Rule.read_toJson`: a node is read again if its timestamps and the rules inside it are.
* `Rule.WellFormed.read_toJson`: a well-formed rule is read again if all its timestamps are.
* `Rule.stored_again`: every rule that was read is read again, if its timestamps are.
-/

namespace Arbiter

/-! ## Triggers -/

namespace Trigger

mutual

/-- The timestamps in a tree. -/
def moments : Trigger → List Instant
  | .atTime time => [time]
  | .thisMarketClosed time => time.toList
  | .not child => child.moments
  | .all children | .any children | .xor children | .xnor children => listMoments children
  | .both first second | .either first second | .nand first second | .neither first second
  | .implies first second => first.moments ++ second.moments
  | .pullFinished _ | .otherMarketClosed _ | .otherMarketResolved _ => []

/-- `moments` of several trees, one after the other. -/
def listMoments : List Trigger → List Instant
  | [] => []
  | r :: rest => r.moments ++ listMoments rest

end

theorem listJson_eq_map (rs : List Trigger) : listJson rs = rs.map toJson := by
  induction rs with
  | nil => rfl
  | cons r rest ih => rw [listJson, ih, List.map_cons]

theorem mem_listMoments {t : Instant} {rs : List Trigger} : t ∈ listMoments rs ↔ ∃ r ∈ rs, t ∈ r.moments := by
  induction rs with
  | nil => simp [listMoments]
  | cons r rest ih => simp [listMoments, ih]

end Trigger

/-! ## Value rules -/

namespace ValueRule

mutual

/-- The timestamps in a tree, those of the premise of a conditional among them. -/
def moments : ValueRule → List Instant
  | .pullDelta _ start => [start]
  | .negate child => child.moments
  | .sum children | .product children | .modulus children => listMoments children
  | .multipleValues shares => shareMoments shares
  | .conditional premise value => premise.moments ++ value.moments
  | .constant _ | .currentValue | .otherMarketValue _ | .randomIndex _ | .pullMerged _ | .popular _ | .fibonacci _ _
  | .round | .amplifiedOdds _ _ _ | .userStat _ _ _ => []

/-- `moments` of several trees, one after the other. -/
def listMoments : List ValueRule → List Instant
  | [] => []
  | r :: rest => r.moments ++ listMoments rest

/-- `moments` of the rules of a weighted union, one after the other. -/
def shareMoments : List (Float × ValueRule) → List Instant
  | [] => []
  | (_, r) :: rest => r.moments ++ shareMoments rest

end

theorem listJson_eq_map (rs : List ValueRule) : listJson rs = rs.map toJson := by
  induction rs with
  | nil => rfl
  | cons r rest ih => rw [listJson, ih, List.map_cons]

theorem shareJson_eq_map (shares : List (Float × ValueRule)) : shareJson shares = shares.map Arguments.shareJson := by
  induction shares with
  | nil => rfl
  | cons share rest ih => rw [shareJson, ih, List.map_cons, Arguments.shareJson]

theorem shareMoments_eq (shares : List (Float × ValueRule)) : shareMoments shares = listMoments (shares.map (·.2)) := by
  induction shares with
  | nil => rfl
  | cons share rest ih => rw [shareMoments, ih, List.map_cons, listMoments]

theorem mem_listMoments {t : Instant} {rs : List ValueRule} : t ∈ listMoments rs ↔ ∃ r ∈ rs, t ∈ r.moments := by
  induction rs with
  | nil => simp [listMoments]
  | cons r rest ih => simp [listMoments, ih]

end ValueRule

/-! ## Nodes -/

namespace Rule

/-- The timestamps in a rule. -/
def moments : Rule → List Instant
  | .trigger r => r.moments
  | .value r => r.moments

@[simp] theorem moments_trigger (r : Trigger) : (Rule.trigger r).moments = r.moments := rfl

@[simp] theorem moments_value (r : ValueRule) : (Rule.value r).moments = r.moments := rfl

/-- The timestamps at the root of a rule. -/
def rootMoments : Rule → List Instant
  | .trigger (.atTime time) => [time]
  | .trigger (.thisMarketClosed time) => time.toList
  | .value (.pullDelta _ start) => [start]
  | _ => []

/-- A timestamp stands at the root or in one of the rules inside the root. -/
theorem mem_moments {t : Instant} {r : Rule} : t ∈ r.moments ↔ t ∈ r.rootMoments ∨ ∃ c ∈ r.subrules, t ∈ c.moments := by
  cases r with
  | trigger r =>
    cases r with
    | all children | any children | xor children | xnor children =>
      simp [rootMoments, subrules, Trigger.moments, Trigger.children, Trigger.mem_listMoments]
    | _ => simp [rootMoments, subrules, Trigger.moments, Trigger.children]
  | value r =>
    cases r with
    | sum children | product children | modulus children =>
      simp [rootMoments, subrules, ValueRule.moments, ValueRule.children, ValueRule.mem_listMoments]
    | multipleValues shares =>
      change t ∈ ValueRule.shareMoments shares ↔ t ∈ [] ∨ ∃ c ∈ (shares.map (·.2)).map Rule.value, t ∈ c.moments
      rw [ValueRule.shareMoments_eq, ValueRule.mem_listMoments]
      generalize shares.map (·.2) = children
      simp
    | _ => simp [rootMoments, subrules, ValueRule.moments, ValueRule.children]

theorem randomAnswer_stored (answer : RandomAnswer) :
    randomAnswer (stored .randomIndex answer.arguments) = .ok answer := by
  have hflag : Json.asBool? (Json.bool answer.weighted).canonical = some answer.weighted := rfl
  obtain ⟨start, limit, weighted, seed⟩ := answer
  have hseed : (stored .randomIndex (RandomAnswer.arguments ⟨start, limit, weighted, seed⟩)).seed? = .ok seed := by
    cases limit <;> cases seed <;> first | exact Arguments.seed?_stored_none rfl | exact Arguments.seed?_stored rfl
  have hlimit : (stored .randomIndex (RandomAnswer.arguments ⟨start, limit, weighted, seed⟩)).natural? "limit" =
      .ok limit := by
    cases limit <;> cases seed <;> first | exact Arguments.natural?_stored_none rfl | exact Arguments.natural?_stored rfl
  have hstart : (stored .randomIndex (RandomAnswer.arguments ⟨start, limit, weighted, seed⟩)).natural? "start" =
      .ok (some start) := by
    cases limit <;> cases seed <;> exact Arguments.natural?_stored rfl
  have hweighted : (stored .randomIndex (RandomAnswer.arguments ⟨start, limit, weighted, seed⟩)).get? "weighted"
      .truth Json.asBool? = .ok (some weighted) := by
    cases limit <;> cases seed <;> exact Arguments.get?_stored rfl rfl hflag
  rw [randomAnswer, bind_of_ok hseed, bind_of_ok hstart, bind_of_ok hlimit, bind_of_ok hweighted]
  rfl

theorem amplifiedOdds_stored {url : String} {a : Nat} (ha : 1 ≤ a) (seed : Option Seed) :
    Rule.amplifiedOdds (stored .amplifiedOdds
      ([("url", .string url), ("a", .nat a)] ++ seed.toList.map fun s => ("seed", s.toJson))) =
      .ok (.value (.amplifiedOdds url a seed)) := by
  cases seed with
  | none =>
    rw [Rule.amplifiedOdds, bind_of_ok (Arguments.atLeastOne_stored rfl ha), bind_of_ok (Arguments.seed?_stored_none rfl),
      bind_of_ok (Arguments.text_stored rfl)]
    rfl
  | some seed =>
    rw [Rule.amplifiedOdds, bind_of_ok (Arguments.atLeastOne_stored rfl ha), bind_of_ok (Arguments.seed?_stored rfl),
      bind_of_ok (Arguments.text_stored rfl)]
    rfl

theorem userStat_stored (kind : Kind) (metric : UserMetric) (user : String) (period : Period) :
    Rule.userStat metric (stored kind [("user", .string user), ("field", .string period.name)]) =
      .ok (.value (.userStat user metric period)) := by
  rw [Rule.userStat, bind_of_ok (Arguments.get?_stored rfl rfl (Period.ofName?_name period)),
    bind_of_ok (Arguments.text_stored rfl)]
  rfl

/-- A node is read again if its timestamps are and the rules inside it are. -/
theorem read_toJson {r : Rule} (hroot : r.MeetsConditions)
    (hmoments : ∀ t ∈ r.rootMoments, Instant.readWritten? t.text = some t)
    (hread : ∀ c ∈ r.subrules, read c.toJson.canonical = .ok c) : read r.toJson.canonical = .ok r := by
  cases r with
  | trigger r =>
    have hchildren : ∀ c ∈ r.children, read c.toJson.canonical = .ok (.trigger c) := List.forall_mem_map.1 hread
    cases r with
    | atTime time =>
      have ht := hmoments time (List.mem_singleton_self time)
      exact (read_taggedJson _ _).trans (bind_of_ok (Arguments.moment_stored rfl ht) _)
    | thisMarketClosed time =>
      cases time with
      | none => exact (read_taggedJson _ _).trans (bind_of_ok (Arguments.get?_stored_none rfl) _)
      | some time =>
        have ht := hmoments time (List.mem_singleton_self time)
        exact (read_taggedJson _ _).trans (bind_of_ok (Arguments.moment?_stored rfl ht) _)
    | pullFinished pull => exact (read_taggedJson _ _).trans (bind_of_ok (Arguments.pull_stored rfl rfl rfl) _)
    | otherMarketClosed url | otherMarketResolved url =>
      exact (read_taggedJson _ _).trans (bind_of_ok (Arguments.text_stored rfl) _)
    | not child =>
      have hchild := hchildren child List.mem_cons_self
      exact (read_taggedJson _ _).trans (bind_of_ok (Arguments.trigger_stored rfl hchild) _)
    | all children | any children | xor children | xnor children =>
      rw [toJson, Trigger.toJson, Trigger.listJson_eq_map]
      exact (read_taggedJson _ _).trans (bind_of_ok (Arguments.triggers_stored rfl hroot hchildren) _)
    | both first second | either first second | nand first second | neither first second | implies first second =>
      obtain ⟨hfirst, hsecond⟩ := List.forall_mem_cons.1 hchildren
      exact (read_taggedJson _ _).trans (bind_of_ok
        (Arguments.triggerPair_stored rfl rfl hfirst (hsecond second List.mem_cons_self)) _)
  | value r =>
    cases r with
    | constant c =>
      have hsome : c.toJson.canonical.isNull = false := by cases c <;> rfl
      refine (read_taggedJson _ _).trans ((bind_of_ok (Arguments.required_stored rfl hsome) _).trans ?_)
      dsimp only [argumentOf]
      rw [Constant.ofJson_toJson hroot]
      rfl
    | currentValue | round => exact read_taggedJson _ _
    | otherMarketValue url => exact (read_taggedJson _ _).trans (bind_of_ok (Arguments.text_stored rfl) _)
    | negate child =>
      have hchild := hread (.value child) List.mem_cons_self
      exact (read_taggedJson _ _).trans (bind_of_ok (Arguments.value_stored rfl hchild) _)
    | sum children | product children | modulus children =>
      have hchildren := List.forall_mem_map.1 hread
      rw [toJson, ValueRule.toJson, ValueRule.listJson_eq_map]
      exact (read_taggedJson _ _).trans (bind_of_ok (Arguments.values_stored rfl hroot hchildren) _)
    | randomIndex answer => exact (read_taggedJson _ _).trans (bind_of_ok (randomAnswer_stored answer) _)
    | multipleValues shares =>
      have hshares := List.forall_mem_map.1 (List.forall_mem_map.1 hread)
      rw [toJson, ValueRule.toJson, ValueRule.shareJson_eq_map]
      exact (read_taggedJson _ _).trans (bind_of_ok (Arguments.shares_stored rfl hroot.1 hroot.2 hshares) _)
    | pullDelta pull start =>
      have ht := hmoments start (List.mem_singleton_self start)
      exact (read_taggedJson _ _).trans ((bind_of_ok (Arguments.pull_stored rfl rfl rfl) _).trans
        (bind_of_ok (Arguments.moment_stored rfl ht) _))
    | pullMerged pull => exact (read_taggedJson _ _).trans (bind_of_ok (Arguments.pull_stored rfl rfl rfl) _)
    | popular size => exact (read_taggedJson _ _).trans (bind_of_ok (Arguments.atLeastOne_stored rfl hroot) _)
    | fibonacci exclude leastShare =>
      have hshare : (Json.float leastShare).canonical.asFloat? = some leastShare := rfl
      exact (read_taggedJson _ _).trans ((bind_of_ok
        (Arguments.get?_stored rfl rfl (readIndexes?_keys exclude)) _).trans
          (bind_of_ok (Arguments.get?_stored rfl rfl hshare) _))
    | amplifiedOdds url a seed => exact (read_taggedJson _ _).trans (amplifiedOdds_stored hroot seed)
    | conditional premise child =>
      obtain ⟨hpremise, hchild⟩ := List.forall_mem_cons.1 hread
      exact (read_taggedJson _ _).trans ((bind_of_ok (Arguments.trigger_stored rfl hpremise) _).trans
        (bind_of_ok (Arguments.value_stored rfl (hchild _ List.mem_cons_self)) _))
    | userStat user metric period =>
      cases metric with
      | profit | createdVolume => exact (read_taggedJson _ _).trans (userStat_stored _ _ user period)

/-! ## Whole rules -/

/-- A rule is stored under the name of its kind. -/
theorem toJson_eq_taggedJson (r : Rule) : ∃ members, r.toJson = taggedJson r.kind members := by
  cases r with
  | trigger r =>
    cases r with
    | thisMarketClosed time => cases time <;> exact ⟨_, rfl⟩
    | _ => exact ⟨_, rfl⟩
  | value r =>
    cases r with
    | userStat user metric period => cases metric <;> exact ⟨_, rfl⟩
    | _ => exact ⟨_, rfl⟩

/-- A well-formed rule is read again from its stored form if its timestamps are. -/
theorem WellFormed.read_toJson {r : Rule} : r.WellFormed → (∀ t ∈ r.moments, Instant.readWritten? t.text = some t) →
    read r.toJson.canonical = .ok r := by
  induction r using subrules_induction with
  | step r ih =>
    intro h ht
    refine Rule.read_toJson h.root (fun t hroot => ht t (mem_moments.2 (.inl hroot))) fun c hc => ?_
    exact ih c hc (h.subrules c hc) fun t htc => ht t (mem_moments.2 (.inr ⟨c, hc, htc⟩))

/-- Rules are stored without loss. A rule of any kind and depth that was read from a value, and all of whose timestamps are
read again from their texts, is read again from its stored form, and from the name of its kind and its arguments apart. -/
theorem stored_again {v : Json} {r : Rule} (h : ofJson v = .ok r)
    (hmoments : ∀ t ∈ r.moments, Instant.readWritten? t.text = some t) :
    ofJson r.toJson = .ok r ∧
    ∃ members, r.toJson = .array [.string r.kind.name, .object members] ∧
      ofArguments r.kind.name (.object members) = .ok r := by
  have hread := (wellFormed_of_ofJson h).read_toJson hmoments
  obtain ⟨members, hmembers⟩ := toJson_eq_taggedJson r
  refine ⟨hread, members, hmembers, ?_⟩
  rw [ofArguments_object, ← read_taggedJson, ← hmembers]
  exact hread

/-- A conditional over a conjunction and a draw, written with an offset, in another order and without what is usual. -/
theorem conditional_stored_again :
    let t : Instant := ⟨1709244000, 0⟩
    let r : Rule := .value (.conditional (.both (.atTime t) (.not (.thisMarketClosed none)))
      (.randomIndex ⟨0, some 2, false, some (.text "x")⟩))
    let time := taggedJson .atTime [("resolve_at", .string "2024-03-01T00:00:00+02:00")]
    let closed := taggedJson .not [("child", .array [.string "manifold.this.ThisMarketClosed"])]
    let draw := taggedJson .randomIndex [("seed", .string "x"), ("limit", .int 2)]
    let v := taggedJson .conditional [("rule2", draw), ("rule1", taggedJson .both [("rule2", closed), ("rule1", time)])]
    ofJson v = .ok r ∧ r.moments = [t] ∧ t.text = "2024-02-29T22:00:00+00:00" ∧ ofJson r.toJson = .ok r := by
  intro t r time closed draw v
  have hwritten : Instant.readWritten? "2024-03-01T00:00:00+02:00" = some ⟨1709244000, 0⟩ := by decide +kernel
  have htime : read time.canonical = .ok (.trigger (.atTime t)) :=
    (read_taggedJson _ _).trans (bind_of_ok (Arguments.get_stored rfl rfl hwritten) _)
  have hclosed : read closed.canonical = .ok (.trigger (.not (.thisMarketClosed none))) := by rfl
  have hdraw : read draw.canonical = .ok (.value (.randomIndex ⟨0, some 2, false, some (.text "x")⟩)) := by rfl
  have hread : ofJson v = .ok r :=
    (read_taggedJson _ _).trans ((bind_of_ok (Arguments.trigger_stored rfl ((read_taggedJson _ _).trans
      (bind_of_ok (Arguments.triggerPair_stored rfl rfl htime hclosed) _))) _).trans
        (bind_of_ok (Arguments.value_stored rfl hdraw) _))
  have hmoments : r.moments = [t] := rfl
  have htext : Instant.text ⟨1709244000, 0⟩ = "2024-02-29T22:00:00+00:00" := by decide +kernel
  have hagain : Instant.readWritten? (Instant.text ⟨1709244000, 0⟩) = some ⟨1709244000, 0⟩ := by decide +kernel
  refine ⟨hread, hmoments, htext, (stored_again hread ?_).1⟩
  rw [hmoments]
  exact List.forall_mem_singleton.2 hagain

end Rule

end Arbiter
