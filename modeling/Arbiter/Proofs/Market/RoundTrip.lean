import Arbiter.Market.Request
import Arbiter.Proofs.Double.Kinds
import Arbiter.Proofs.Json.Written
import Arbiter.Proofs.Market.Stored

/-!
# Records that are decoded again

A market or a request that was decoded is decoded again from its record, if its timestamps are read again. Its text is
decoded with every number put for what it is read as, which is another one for some numbers of many digits. However a market
is come by, its rules and its rate have passed the checks of a new one.

* `MomentsRead`: all timestamps of a record are read again from their texts.
* `Market.ensures_decode`, `CreationRequest.ensures_decode`: what is known of a record that was decoded.
* `CreationRequest.decode_toJson`: a request is decoded again, if its timestamps and rules are read again.
* `decodeText_compact`: what a record is decoded as from its text.
* `Market.Obtained`: how markets are come by. `Market.Obtained.valid`: none of the ways leads past the checks.
* `records_decoded_again`: records that were decoded, and markets that were come by.
-/

namespace Arbiter

/-- All timestamps of a record are read again from their texts: those of its own fields and those of its rules. -/
structure MomentsRead (own : List Instant) (rules : List Rule) : Prop where
  own : ∀ t ∈ own, Instant.readRelaxed? t.fieldText = some t
  rules : ∀ r ∈ rules, ∀ t ∈ r.moments, Instant.readWritten? t.text = some t

/-- Well-formed rules are read again if their timestamps are. -/
theorem MomentsRead.read_rules {own : List Instant} {rules : List Rule} (h : MomentsRead own rules)
    (hrules : ∀ r ∈ rules, r.WellFormed) : ∀ r ∈ rules, Rule.ofJson r.toJson = .ok r :=
  fun r hr => (hrules r hr).read_toJson (h.rules r hr)

/-! ## What was decoded -/

section

variable {α : Type} {decode : Json → Decoded α} {Q : α → Prop}

theorem Decoded.ensures_list (h : ∀ v, Ensures (decode v) Q) (v : Json) :
    Ensures (list decode v) fun as => ∀ a ∈ as, Q a := by
  unfold list
  split
  · exact ensures_mapM fun a _ => h a
  · exact ensures_error _

theorem Decoded.number_of_asFloat? {v : Json} {x : Float} (h : v.asFloat? = some x) : number v = .ok x := by
  rw [number, h]

/-- A field that is decoded has no fault. -/
theorem Record.fault_eq_none {checks : List FieldCheck} {name : String} {shape : Json.Shape} {v : Json} {a : α}
    (h : checks.find? (fun c => c.name == name) = some (field name decode shape)) (hv : decode v = .ok a) :
    ((checks.find? fun c => c.name == name).bind fun c => c.fault v) = none := by
  rw [h]
  exact faultOf_ok hv

theorem Record.required_eq {r : Record} {name : String} {v : Json} {a : α}
    (h : Json.lookup name r.members = some v) (hv : decode v = .ok a) : r.required name decode = .ok a := by
  rw [required, h]
  exact hv

theorem Record.ensures_required {r : Record} {name : String} (h : ∀ v, Ensures (decode v) Q) :
    Ensures (r.required name decode) Q := by
  unfold required
  split
  · exact h _
  · exact ensures_error _

end

theorem Decoded.ensures_triggers (v : Json) :
    Ensures (list trigger v) fun rs => ∀ r ∈ rs.map Rule.trigger, r.WellFormed :=
  (ensures_list (fun _ _ hr => Rule.wellFormed_of_ofJson (ofJson_of_trigger hr)) v).mono fun _ => List.forall_mem_map.2

theorem Decoded.ensures_valueRules (v : Json) :
    Ensures (list valueRule v) fun rs => ∀ r ∈ rs.map Rule.value, r.WellFormed :=
  (ensures_list (fun _ _ hr => Rule.wellFormed_of_ofJson (ofJson_of_valueRule hr)) v).mono fun _ => List.forall_mem_map.2

/-- Rules pass the checks exactly if there are some of both families, and the rate is a number of hours. -/
theorem validateRules_eq_ok {triggers : List Trigger} {values : List ValueRule} {checkRate : Float} :
    validateRules triggers values checkRate = .ok () ↔
      triggers ≠ [] ∧ values ≠ [] ∧ checkRate.isFinite = true ∧ 0.0 ≤ checkRate := by
  have hrate : ((Dyadic.ofFloat? checkRate).isNone || decide (checkRate < 0.0)) = false ↔
      checkRate.isFinite = true ∧ 0.0 ≤ checkRate := by
    rw [Bool.or_eq_false_iff, Option.isNone_eq_false_iff, ofFloat?_isSome, decide_eq_false_iff_not]
    exact ⟨fun ⟨hf, hn⟩ => ⟨hf, zero_le_of_not_neg hf hn⟩, fun ⟨hf, hle⟩ => ⟨hf, not_neg_of_le hle⟩⟩
  rw [← hrate]
  unfold validateRules
  generalize ((Dyadic.ofFloat? checkRate).isNone || decide (checkRate < 0.0)) = refused
  cases triggers <;> cases values <;> cases refused <;> simp

namespace Market

/-- The rules and the rate pass the checks of a new market. -/
def Valid (m : Market) : Prop := validateRules m.triggers m.values m.checkRate = .ok ()

theorem ensures_new (snapshot : Snapshot) (triggers : List Trigger) (values : List ValueRule) (checkRate : Float) :
    Ensures (new snapshot triggers values checkRate) fun m =>
      m.Valid ∧ m.triggers = triggers ∧ m.values = values := by
  have hvalid : Ensures (validateRules triggers values checkRate) fun _ =>
      validateRules triggers values checkRate = .ok () := fun _ h => h
  exact hvalid.bind fun _ h => ensures_pure ⟨h, rfl, rfl⟩

theorem ensures_decode (v : Json) : Ensures (decode v) fun m => m.Valid ∧ ∀ r ∈ m.rules, r.WellFormed := by
  refine ensures_bind fun record => ensures_bind fun snapshot => ?_
  refine (Record.ensures_required Decoded.ensures_triggers).bind fun triggers htriggers => ?_
  refine (Record.ensures_required Decoded.ensures_valueRules).bind fun values hvalues => ?_
  refine ensures_bind fun checkRate => ensures_bind fun lastChecked => ensures_bind fun notes => ensures_bind fun odds => ?_
  split
  case h_1 m hm =>
    obtain ⟨hvalid, rfl, rfl⟩ := ensures_new snapshot triggers values checkRate m hm
    exact ensures_pure ⟨hvalid, List.forall_mem_append.2 ⟨htriggers, hvalues⟩⟩
  case h_2 => exact ensures_error _

end Market

namespace CreationRequest

/-- The rules of a request. -/
def rules (q : CreationRequest) : List Rule := q.triggers.map .trigger ++ q.values.map .value

theorem ensures_decode (v : Json) : Ensures (decode v) fun q => ∀ r ∈ q.rules, r.WellFormed := by
  refine ensures_bind fun record => ensures_bind fun question => ensures_bind fun description => ?_
  refine ensures_bind fun outcomeType => ensures_bind fun closeTime => ensures_bind fun initialProbability => ?_
  refine ensures_bind fun minValue => ensures_bind fun maxValue => ensures_bind fun initialValue => ?_
  refine ensures_bind fun isLogScale => ensures_bind fun answers => ensures_bind fun tags => ensures_bind fun bets => ?_
  refine (Record.ensures_required Decoded.ensures_triggers).bind fun triggers htriggers => ?_
  refine (Record.ensures_required Decoded.ensures_valueRules).bind fun values hvalues => ?_
  refine ensures_bind fun checkRate => ensures_bind fun notes => ?_
  exact ensures_pure (List.forall_mem_append.2 ⟨htriggers, hvalues⟩)

/-- A request is decoded again from its record if its timestamps and its rules are read again. -/
theorem decode_toJson {q : CreationRequest} (hclose : Instant.readRelaxed? q.closeTime.fieldText = some q.closeTime)
    (hread : ∀ r ∈ q.rules, Rule.ofJson r.toJson = .ok r) : decode q.toJson = .ok q := by
  obtain ⟨htriggers, hvalues⟩ := List.forall_mem_append.1 hread
  have hoptional := Decoded.optional_number
  have houtcome : OutcomeType.decode (.string q.outcomeType.name) = .ok q.outcomeType := by
    cases q.outcomeType <;> rfl
  have hclose := Decoded.moment_toField hclose
  have htexts : ∀ texts : List String, Decoded.list Decoded.text (.array (texts.map .string)) = .ok texts := fun _ =>
    Decoded.list_map fun _ _ => rfl
  have hbets := Decoded.table_weightsToJson q.initialValues
  have htriggers : Decoded.list Decoded.trigger (.array (q.triggers.map Trigger.toJson)) = .ok q.triggers :=
    Decoded.list_map fun r hr => Decoded.trigger_ok (List.forall_mem_map.1 htriggers r hr)
  have hvalues : Decoded.list Decoded.valueRule (.array (q.values.map ValueRule.toJson)) = .ok q.values :=
    Decoded.list_map fun r hr => Decoded.valueRule_ok (List.forall_mem_map.1 hvalues r hr)
  rw [decode, toJson]
  refine (bind_of_ok (Record.ofJson_object (by simp) ?fit) _).trans ?_
  case fit =>
    simp only [List.forall_mem_cons]
    exact ⟨rfl, rfl, faultOf_ok houtcome, Record.fault_eq_none rfl hclose, faultOf_ok (hoptional _), faultOf_ok (hoptional _),
      faultOf_ok (hoptional _), faultOf_ok (hoptional _), rfl, faultOf_ok (htexts _), faultOf_ok (htexts _),
      faultOf_ok hbets, faultOf_ok htriggers, faultOf_ok hvalues, rfl, rfl, List.forall_mem_nil _⟩
  refine (bind_of_ok (a := q.question) rfl _).trans ((bind_of_ok (a := q.description) rfl _).trans ?_)
  refine (bind_of_ok houtcome _).trans ((bind_of_ok (Record.required_eq rfl hclose) _).trans ?_)
  refine (bind_of_ok (hoptional q.initialProbability) _).trans ((bind_of_ok (hoptional q.minValue) _).trans ?_)
  refine (bind_of_ok (hoptional q.maxValue) _).trans ((bind_of_ok (hoptional q.initialValue) _).trans ?_)
  refine (bind_of_ok (a := q.isLogScale) rfl _).trans ((bind_of_ok (htexts q.answers) _).trans ?_)
  refine (bind_of_ok (htexts q.tags) _).trans ((bind_of_ok hbets _).trans ?_)
  refine (bind_of_ok htriggers _).trans ((bind_of_ok hvalues _).trans ?_)
  exact (bind_of_ok (a := q.checkRate) rfl _).trans (bind_of_ok (a := q.notes) rfl _)

end CreationRequest

/-! ## Texts of records -/

/-- The text of a value is decoded as the value that it is reread as. -/
theorem decodeText_compact {α : Type} (decode : Json → Decoded α) {shape : Json.Shape} {v : Json}
    (hasked : Json.Asked shape v) :
    decodeText shape decode v.compact = (v.reread? Json.maxDepth).elim (.error .notJson) decode := by
  rw [decodeText, Json.readAs?_compact hasked]
  cases v.reread? Json.maxDepth <;> rfl

theorem decodeText_of_reread {α : Type} {decode : Json → Decoded α} {shape : Json.Shape} {v w : Json}
    (hasked : Json.Asked shape v) (h : v.reread? Json.maxDepth = some w) :
    decodeText shape decode v.compact = decode w := by
  rw [decodeText_compact decode hasked, h, Option.elim_some]

theorem Snapshot.asked (s : Snapshot) : Json.Asked shape s.toJson := by
  have hwhole := Json.asked_whole
  exact ⟨⟨_, rfl, hwhole _⟩, ⟨_, rfl, hwhole _⟩, ⟨_, rfl, hwhole _⟩, ⟨_, rfl, hwhole _⟩, ⟨_, rfl, hwhole _⟩,
    ⟨_, rfl, hwhole _⟩, ⟨_, rfl, hwhole _⟩, ⟨_, rfl, hwhole _⟩, ⟨_, rfl, hwhole _⟩, ⟨_, rfl, hwhole _⟩, trivial⟩

theorem Market.asked (m : Market) : Json.Asked shape m.toJson := by
  have hwhole := Json.asked_whole
  exact ⟨⟨_, rfl, m.snapshot.asked⟩, ⟨_, rfl, hwhole _⟩, ⟨_, rfl, hwhole _⟩, ⟨_, rfl, hwhole _⟩, ⟨_, rfl, hwhole _⟩,
    ⟨_, rfl, hwhole _⟩, ⟨_, rfl, hwhole _⟩, trivial⟩

theorem CreationRequest.asked (q : CreationRequest) : Json.Asked shape q.toJson := by
  have hwhole := Json.asked_whole
  exact ⟨⟨_, rfl, hwhole _⟩, ⟨_, rfl, hwhole _⟩, ⟨_, rfl, hwhole _⟩, ⟨_, rfl, hwhole _⟩, ⟨_, rfl, hwhole _⟩,
    ⟨_, rfl, hwhole _⟩, ⟨_, rfl, hwhole _⟩, ⟨_, rfl, hwhole _⟩, ⟨_, rfl, hwhole _⟩, ⟨_, rfl, hwhole _⟩,
    ⟨_, rfl, hwhole _⟩, ⟨_, rfl, hwhole _⟩, ⟨_, rfl, hwhole _⟩, ⟨_, rfl, hwhole _⟩, ⟨_, rfl, hwhole _⟩,
    ⟨_, rfl, hwhole _⟩, trivial⟩

/-- The market is read back from its text. -/
def Market.ReadsBack (m : Market) : Prop := decodeText shape decode m.toJson.compact = .ok m

/-- The request is read back from its text. -/
def CreationRequest.ReadsBack (q : CreationRequest) : Prop := decodeText shape decode q.toJson.compact = .ok q

theorem Market.readsBack {m : Market} (h : decode m.toJson = .ok m) (hlegible : m.toJson.legible Json.maxDepth = true) :
    m.ReadsBack :=
  (decodeText_of_reread m.asked ((Json.reread?_eq_self _).2 hlegible)).trans h

theorem CreationRequest.readsBack {q : CreationRequest} (h : decode q.toJson = .ok q)
    (hlegible : q.toJson.legible Json.maxDepth = true) : q.ReadsBack :=
  (decodeText_of_reread q.asked ((Json.reread?_eq_self _).2 hlegible)).trans h

/-! ## Markets that were come by -/

/-- What was decoded from a text was decoded from a value. -/
theorem exists_value_of_decodeText {α : Type} {decode : Json → Decoded α} {shape : Json.Shape} {text : String} {a : α}
    (h : decodeText shape decode text = .ok a) : ∃ v, decode v = .ok a := by
  unfold decodeText at h
  split at h
  case h_1 v _ => exact ⟨v, h⟩
  case h_2 => cases h

namespace Market

/-- The ways in which markets are come by. -/
inductive Obtained : Market → Prop
  | made {snapshot : Snapshot} {triggers : List Trigger} {values : List ValueRule} {checkRate : Float} {m : Market}
      (h : new snapshot triggers values checkRate = .ok m) : Obtained m
  | decoded {v : Json} {m : Market} (h : decode v = .ok m) : Obtained m
  | created {q : CreationRequest} {snapshot : Snapshot} {m : Market} (h : q.intoMarket snapshot = .ok m) : Obtained m
  | found {store : Store} {row : Int} {m : Market} (h : (Store.run (Store.market? row) store).1 = .ok (some m)) :
      Obtained m
  | loaded {store : Store} {loaded : Loaded (Int × Market)} {row : Int} {m : Market}
      (h : (Store.run Store.loadMarkets store).1 = .ok loaded) (hm : (row, m) ∈ loaded.found) : Obtained m
  | refreshed {m : Market} (h : Obtained m) (snapshot : Snapshot) : Obtained (m.refresh snapshot)
  | checked {m : Market} (h : Obtained m) (time : Instant) : Obtained (m.markChecked time)
  | noted {m : Market} (h : Obtained m) (notes : String) : Obtained { m with notes }
  | weighted {m : Market} (h : Obtained m) (weights : SortedMap String Float) :
      Obtained { m with initialValues := some weights }

theorem valid_of_decodeText {text : String} {m : Market} (h : decodeText shape decode text = .ok m) : m.Valid := by
  obtain ⟨v, hv⟩ := exists_value_of_decodeText h
  exact (ensures_decode v m hv).1

theorem valid_of_market? {store : Store} {row : Int} {m : Market}
    (h : (Store.run (Store.market? row) store).1 = .ok (some m)) : m.Valid := by
  rw [Store.run_market?] at h
  cases hmarkets : store.markets with
  | none =>
    rw [hmarkets] at h
    cases h
  | some table =>
    rw [hmarkets] at h
    dsimp only [Option.elim_some] at h
    cases hkept : table.get? row with
    | none =>
      rw [hkept] at h
      cases h
    | some kept =>
      rw [hkept] at h
      dsimp only [Option.elim_some] at h
      cases hdecode : decodeText shape decode kept.text with
      | error fault =>
        rw [hdecode] at h
        cases h
      | ok found =>
        rw [hdecode] at h
        cases h
        exact valid_of_decodeText hdecode

theorem valid_of_loadMarkets {store : Store} {loaded : Loaded (Int × Market)} {row : Int} {m : Market}
    (h : (Store.run Store.loadMarkets store).1 = .ok loaded) (hm : (row, m) ∈ loaded.found) : m.Valid := by
  rw [Store.run_loadMarkets] at h
  cases hmarkets : store.markets with
  | none =>
    rw [hmarkets] at h
    cases h
  | some table =>
    rw [hmarkets] at h
    cases h
    obtain ⟨kept, -, hdecode⟩ := Store.mem_found_decodeRows.1 hm
    exact valid_of_decodeText hdecode

/-- None of the ways leads past the checks of a new market. -/
theorem Obtained.valid {m : Market} (h : m.Obtained) : m.Valid := by
  induction h with
  | made h => exact (ensures_new _ _ _ _ _ h).1
  | decoded h => exact (ensures_decode _ _ h).1
  | @created q snapshot m h =>
    have hmade : Ensures (q.intoMarket snapshot) Valid :=
      (ensures_new _ _ _ _).bind fun _ hvalid => ensures_pure hvalid.1
    exact hmade m h
  | found h => exact valid_of_market? h
  | loaded h hm => exact valid_of_loadMarkets h hm
  | refreshed _ _ ih | checked _ _ ih | noted _ _ ih | weighted _ _ ih => exact ih

end Market

/-- Records that were decoded, and all of whose timestamps are read again, are decoded again from what they are written as.
Their texts are decoded as if every number in them were put for what it is read as, so the records are read back if all
numbers are read again and nothing is nested too deep. However a market is come by, it has rules of both families, and a
finite rate that is not less than zero. -/
theorem records_decoded_again (v : Json) :
    (∀ m : Market, Market.decode v = .ok m → MomentsRead m.ownMoments m.rules →
      Market.decode m.toJson = .ok m ∧
      decodeText Market.shape Market.decode m.toJson.compact =
        (m.toJson.reread? Json.maxDepth).elim (.error .notJson) Market.decode ∧
      (m.toJson.legible Json.maxDepth = true → m.ReadsBack)) ∧
    (∀ q : CreationRequest, CreationRequest.decode v = .ok q → MomentsRead [q.closeTime] q.rules →
      CreationRequest.decode q.toJson = .ok q ∧
      decodeText CreationRequest.shape CreationRequest.decode q.toJson.compact =
        (q.toJson.reread? Json.maxDepth).elim (.error .notJson) CreationRequest.decode ∧
      (q.toJson.legible Json.maxDepth = true → q.ReadsBack)) ∧
    ∀ m : Market, m.Obtained →
      m.triggers ≠ [] ∧ m.values ≠ [] ∧ m.checkRate.isFinite = true ∧ 0.0 ≤ m.checkRate := by
  refine ⟨fun m hv hmoments => ?_, fun q hv hmoments => ?_, fun m hm => validateRules_eq_ok.1 hm.valid⟩
  · obtain ⟨hvalid, hrules⟩ := Market.ensures_decode v m hv
    have hagain := Market.decode_toJson hvalid hmoments.own (hmoments.read_rules hrules)
    exact ⟨hagain, decodeText_compact Market.decode m.asked, Market.readsBack hagain⟩
  · have hrules := CreationRequest.ensures_decode v q hv
    have hclose := hmoments.own q.closeTime List.mem_cons_self
    have hagain := CreationRequest.decode_toJson hclose (hmoments.read_rules hrules)
    exact ⟨hagain, decodeText_compact CreationRequest.decode q.asked, CreationRequest.readsBack hagain⟩

/-! ## A market and a request -/

/-- A request for a market that is resolved at the moment it closes and keeps its odds. -/
def CreationRequest.closingAt (time : Instant) : CreationRequest where
  question := "Q?"
  description := ""
  outcomeType := .binary
  closeTime := time
  initialProbability := some 40
  minValue := none
  maxValue := none
  initialValue := none
  isLogScale := false
  answers := []
  tags := ["t"]
  initialValues := SortedMap.empty
  triggers := [.atTime time]
  values := [.currentValue]
  checkRate := defaultCheckRate
  notes := ""

section

variable {time : Instant} (hwritten : Instant.readWritten? time.text = some time)

include hwritten

theorem closing_moments {own : List Instant} (hown : ∀ t ∈ own, Instant.readRelaxed? t.fieldText = some t) :
    MomentsRead own [.trigger (.atTime time), .value .currentValue] where
  own := hown
  rules := List.forall_mem_cons.2
    ⟨List.forall_mem_singleton.2 hwritten, List.forall_mem_singleton.2 (List.forall_mem_nil _)⟩

theorem closing_wellFormed : ∀ r ∈ [Rule.trigger (.atTime time), .value .currentValue], r.WellFormed :=
  List.forall_mem_cons.2 ⟨.node ⟨_, hwritten⟩ (List.forall_mem_nil _),
    List.forall_mem_singleton.2 (.node trivial (List.forall_mem_nil _))⟩

/-- A market at some rate, and checked at some moment or not at all, is decoded from its record. -/
theorem marketAt_decoded {rate : Float} (hfinite : rate.isFinite = true) (hrate : 0.0 ≤ rate) {last : Option Instant}
    (hlast : ∀ t ∈ last.toList, Instant.readRelaxed? t.fieldText = some t) :
    Market.decode { Instant.marketAt time with checkRate := rate, lastChecked := last }.toJson =
      .ok { Instant.marketAt time with checkRate := rate, lastChecked := last } := by
  have hvalid : validateRules [.atTime time] [.currentValue] rate = .ok () :=
    validateRules_eq_ok.2 ⟨List.cons_ne_nil _ _, List.cons_ne_nil _ _, hfinite, hrate⟩
  have hmoments := closing_moments hwritten hlast
  exact Market.decode_toJson hvalid hmoments.own (hmoments.read_rules (closing_wellFormed hwritten))

theorem closingAt_decoded (hclose : Instant.readRelaxed? time.fieldText = some time) :
    CreationRequest.decode (CreationRequest.closingAt time).toJson = .ok (.closingAt time) := by
  have hmoments := closing_moments hwritten (List.forall_mem_singleton.2 hclose)
  exact CreationRequest.decode_toJson hclose (hmoments.read_rules (closing_wellFormed hwritten))

end

/-- A market and a request with a moment on a leap day, and the market that is made of the request and checked. -/
theorem leapDay_records_decoded_again :
    let t : Instant := ⟨1709244000, 0⟩
    let m := Instant.marketAt t
    let q := CreationRequest.closingAt t
    (Market.decode m.toJson = .ok m ∧ m.ReadsBack) ∧ (CreationRequest.decode q.toJson = .ok q ∧ q.ReadsBack) ∧
    ∃ made, q.intoMarket m.snapshot = .ok made ∧ (made.markChecked t).triggers ≠ [] ∧
      (made.markChecked t).values ≠ [] ∧ (made.markChecked t).checkRate.isFinite = true ∧
      0.0 ≤ (made.markChecked t).checkRate := by
  intro t m q
  have hwritten : Instant.readWritten? (Instant.text ⟨1709244000, 0⟩) = some ⟨1709244000, 0⟩ := by decide +kernel
  have hclose : Instant.readRelaxed? (Instant.fieldText ⟨1709244000, 0⟩) = some ⟨1709244000, 0⟩ := by decide +kernel
  have hm : Market.decode m.toJson = .ok m :=
    marketAt_decoded hwritten (by decide +kernel) (by decide +kernel) (List.forall_mem_nil _)
  have hq : CreationRequest.decode q.toJson = .ok q := closingAt_decoded hwritten hclose
  obtain ⟨hmarkets, -, hobtained⟩ := records_decoded_again m.toJson
  obtain ⟨-, hrequests, -⟩ := records_decoded_again q.toJson
  have hvalid : validateRules q.triggers q.values q.checkRate = .ok () :=
    validateRules_eq_ok.2 ⟨List.cons_ne_nil _ _, List.cons_ne_nil _ _, by decide +kernel, by decide +kernel⟩
  obtain ⟨made, hmade⟩ : ∃ made, q.intoMarket m.snapshot = .ok made := by
    rw [CreationRequest.intoMarket, Market.new, bind_of_ok hvalid]
    exact ⟨_, rfl⟩
  have hmread := hmarkets m hm (closing_moments hwritten (List.forall_mem_nil _))
  have hqread := hrequests q hq (closing_moments hwritten (List.forall_mem_singleton.2 hclose))
  refine ⟨⟨hm, hmread.2.2 (by decide +kernel)⟩, ⟨hq, hqread.2.2 (by decide +kernel)⟩, made, hmade, ?_⟩
  exact hobtained _ ((Market.Obtained.created hmade).checked t)

theorem Market.not_readsBack {m : Market} {other : Float}
    (h : decodeText shape decode m.toJson.compact = .ok { m with checkRate := other }) (hne : m.checkRate ≠ other) :
    ¬ m.ReadsBack :=
  fun hback => hne (congrArg checkRate (Except.ok.inj (hback.symm.trans h)))

/-- A rate with more digits than a double keeps. Its nearest double is written with the fewest digits that stand for it,
and these are read as another double, so the market is not read back from its text. -/
theorem longRate_lost :
    let t : Instant := ⟨1709244000, 0⟩
    let rate : Float := 1930000786132947499
    let other : Float := 1.9300007861329477e18
    let m := { Instant.marketAt t with checkRate := rate }
    Decoded.number (.int 1930000786132947499) = .ok rate ∧ Market.decode m.toJson = .ok m ∧
    MomentsRead m.ownMoments m.rules ∧ m.checkRate ≠ other ∧
    decodeText Market.shape Market.decode m.toJson.compact = .ok { m with checkRate := other } ∧ ¬ m.ReadsBack := by
  intro t rate other m
  have hwritten : Instant.readWritten? (Instant.text ⟨1709244000, 0⟩) = some ⟨1709244000, 0⟩ := by decide +kernel
  have hnumber : (Json.int 1930000786132947499).asFloat? = some rate := by decide +kernel
  have hread : Json.floatReadAs rate other = true := by decide +kernel
  have hne : m.checkRate ≠ other := by decide +kernel
  have hm : Market.decode m.toJson = .ok m :=
    marketAt_decoded hwritten (by decide +kernel) (by decide +kernel) (List.forall_mem_nil _)
  have hother : Market.decode { m with checkRate := other }.toJson = .ok { m with checkRate := other } :=
    marketAt_decoded hwritten (by decide +kernel) (by decide +kernel) (List.forall_mem_nil _)
  have hreread : m.toJson.reread? Json.maxDepth = some { m with checkRate := other }.toJson := by
    have hrate : Json.reread? 126 (.float rate) = some (.float other) := Json.reread?_of_readAs hread
    have hbefore : Json.legibleMembers 126 [("market", m.snapshot.toJson),
      ("time_rules", .array (m.triggers.map Trigger.toJson)),
      ("value_rules", .array (m.values.map ValueRule.toJson))] = true := by decide +kernel
    have hafter : Json.legibleMembers 126 [("last_checked", .null), ("notes", .string ""), ("initial_values", .null)] =
      true := rfl
    exact congrArg (Option.map Json.object) (Json.rereadMembers?_replace hrate hafter hbefore)
  have htext := (decodeText_of_reread m.asked hreread).trans hother
  exact ⟨Decoded.number_of_asFloat? hnumber, hm, closing_moments hwritten (List.forall_mem_nil _), hne, htext,
    Market.not_readsBack htext hne⟩

end Arbiter
