import Arbiter.Proofs.Rule.Timestamps
import Arbiter.Proofs.Store.Rows

/-!
# Markets that are stored and loaded again

* `Record.ofJson_object`: a record with each of its fields once, all of them decodable, passes its checks.
* `Snapshot.decode_toJson`, `Market.decode_toJson`: a market with acceptable rules is decoded again, if its timestamps are.
* `Market.isRule_of_decode_toJson`: it is decoded only if all its rules are read.
* `Instant.written_again`: which timestamps, rules and markets are read again from what they are stored as.
-/

namespace Arbiter

/-! ## Records -/

namespace Record

variable {checks : List FieldCheck}

theorem firstFault_eq_none : ∀ {members : List (String × Json)} {seen : List String},
    (seen ++ members.map (·.1)).Nodup →
    (∀ m ∈ members, ((checks.find? fun c => c.name == m.1).bind fun c => c.fault m.2) = none) →
    firstFault checks seen members = none
  | [], _, _, _ => rfl
  | (name, v) :: rest, seen, hnames, hfit => by
    obtain ⟨hv, hrest⟩ := List.forall_mem_cons.1 hfit
    have hnames : (name :: seen ++ rest.map (·.1)).Nodup := List.perm_middle.nodup_iff.1 hnames
    obtain ⟨hnew, hlater⟩ := List.nodup_cons.1 hnames
    unfold firstFault
    split
    case h_1 => exact firstFault_eq_none hlater hrest
    case h_2 check hcheck =>
      rw [hcheck, Option.bind_some] at hv
      rw [if_neg (by simpa using fun h => hnew (List.mem_append_left _ h)), hv, Option.none_or]
      exact firstFault_eq_none hnames hrest

/-- A record with each field at most once, all of them decodable, passes its checks. -/
theorem ofJson_object {members : List (String × Json)} (hnames : (members.map (·.1)).Nodup)
    (hfit : ∀ m ∈ members, ((checks.find? fun c => c.name == m.1).bind fun c => c.fault m.2) = none) :
    ofJson checks (.object members) = .ok ⟨members, false⟩ := by
  rw [ofJson, firstFault_eq_none hnames hfit]

theorem ensures_ofJson_object (members : List (String × Json)) :
    Ensures (ofJson checks (.object members)) fun r => r = ⟨members, false⟩ := by
  unfold ofJson
  dsimp only
  split
  · exact ensures_error _
  · exact ensures_ok rfl

end Record

/-! ## Values of fields -/

theorem faultOf_ok {α : Type} {x : Decoded α} {a : α} (h : x = .ok a) : faultOf x = none := by rw [h]; rfl

namespace Decoded

variable {α : Type} {decode : Json → Decoded α} {write : α → Json}

theorem list_map {as : List α} (h : ∀ a ∈ as, decode (write a) = .ok a) :
    list decode (.array (as.map write)) = .ok as := mapM_map_of_ok h

/-- No value is written as `null`. -/
theorem optional_ofOption {found : Option α} (h : ∀ a ∈ found, decode (write a) = .ok a)
    (hsome : ∀ a, (write a).isNull = false) : optional decode (Json.ofOption write found) = .ok found := by
  cases found with
  | none => rfl
  | some a =>
    have hwritten := hsome a
    unfold Json.ofOption optional
    dsimp only
    split
    case h_1 hnull => rw [hnull] at hwritten; cases hwritten
    case h_2 => rw [h a rfl]; rfl

theorem optional_number (found : Option Float) : optional number (Json.ofOption .float found) = .ok found :=
  optional_ofOption (fun _ _ => rfl) fun _ => rfl

theorem moment_toField {t : Instant} (h : Instant.readRelaxed? t.fieldText = some t) : moment t.toField = .ok t := by
  unfold Instant.toField moment
  dsimp only
  rw [h]

theorem optional_moment {found : Option Instant} (h : ∀ t ∈ found, Instant.readRelaxed? t.fieldText = some t) :
    optional moment (Json.ofOption Instant.toField found) = .ok found :=
  optional_ofOption (fun t ht => moment_toField (h t ht)) fun _ => rfl

theorem table_weightsToJson (weights : SortedMap String Float) : table number (weightsToJson weights) = .ok weights := by
  have hmembers : (weights.entries.map fun e => (e.1, Json.float e.2)).mapM
      (fun member => (member.1, ·) <$> number member.2) = .ok weights.entries := mapM_map_of_ok fun _ _ => rfl
  change (do return SortedMap.ofList (← (weights.entries.map fun e => (e.1, Json.float e.2)).mapM
    (fun member => (member.1, ·) <$> number member.2)) : Decoded _) = _
  rw [bind_of_ok hmembers, SortedMap.ofList_perm (.refl _)]
  rfl

end Decoded

/-! ## Rules in fields -/

namespace Decoded

variable {v : Json}

theorem trigger_ok {r : Trigger} (h : Rule.ofJson v = .ok (.trigger r)) : trigger v = .ok r := by
  rw [trigger, Trigger.ofJson, bind_of_ok h]
  rfl

theorem valueRule_ok {r : ValueRule} (h : Rule.ofJson v = .ok (.value r)) : valueRule v = .ok r := by
  rw [valueRule, ValueRule.ofJson, bind_of_ok h]
  rfl

theorem ofJson_of_trigger {r : Trigger} (hr : trigger v = .ok r) : Rule.ofJson v = .ok (.trigger r) := by
  unfold trigger Trigger.ofJson at hr
  cases h : Rule.ofJson v with
  | error fault => rw [h] at hr; cases hr
  | ok found =>
    rw [h] at hr
    cases found with
    | trigger found => cases hr; rfl
    | value _ => cases hr

theorem ofJson_of_valueRule {r : ValueRule} (hr : valueRule v = .ok r) : Rule.ofJson v = .ok (.value r) := by
  unfold valueRule ValueRule.ofJson at hr
  cases h : Rule.ofJson v with
  | error fault => rw [h] at hr; cases hr
  | ok found =>
    rw [h] at hr
    cases found with
    | value found => cases hr; rfl
    | trigger _ => cases hr

theorem ensures_trigger (v : Json) : Ensures (trigger v) fun _ => v.IsRule := fun _ hr => ⟨_, ofJson_of_trigger hr⟩

theorem ensures_valueRule (v : Json) : Ensures (valueRule v) fun _ => v.IsRule := fun _ hr => ⟨_, ofJson_of_valueRule hr⟩

end Decoded

/-! ## Snapshots -/

theorem Snapshot.decode_toJson {s : Snapshot} (h : ∀ t ∈ s.closeTime, Instant.readRelaxed? t.fieldText = some t) :
    decode s.toJson = .ok s := by
  have hoptional := Decoded.optional_number
  have houtcome : OutcomeType.decode (.string s.outcomeType.name) = .ok s.outcomeType := by
    cases s.outcomeType <;> rfl
  have hanswers : Decoded.list Decoded.text (.array (s.answers.map .string)) = .ok s.answers :=
    Decoded.list_map fun _ _ => rfl
  have hclose := Decoded.optional_moment h
  rw [decode, toJson]
  refine (bind_of_ok (Record.ofJson_object (by simp) ?fit) _).trans ?_
  case fit =>
    simp only [List.forall_mem_cons]
    exact ⟨rfl, rfl, rfl, faultOf_ok houtcome, faultOf_ok (hoptional _), faultOf_ok (hoptional _), rfl,
      faultOf_ok hanswers, faultOf_ok hclose, rfl, List.forall_mem_nil _⟩
  refine (bind_of_ok (a := s.id) rfl _).trans ((bind_of_ok (a := s.url) rfl _).trans ?_)
  refine (bind_of_ok (a := s.question) rfl _).trans ((bind_of_ok houtcome _).trans ?_)
  refine (bind_of_ok (hoptional s.minValue) _).trans ((bind_of_ok (hoptional s.maxValue) _).trans ?_)
  refine (bind_of_ok (a := s.isLogScale) rfl _).trans ((bind_of_ok hanswers _).trans ?_)
  exact (bind_of_ok hclose _).trans (bind_of_ok (a := s.isResolved) rfl _)

/-! ## Markets -/

namespace Market

/-- The rules of a market. -/
def rules (m : Market) : List Rule := m.triggers.map .trigger ++ m.values.map .value

/-- The timestamps of a market that stand outside its rules. -/
def ownMoments (m : Market) : List Instant := m.snapshot.closeTime.toList ++ m.lastChecked.toList

theorem decode_toJson {m : Market} (hvalid : validateRules m.triggers m.values m.checkRate = .ok ())
    (hown : ∀ t ∈ m.ownMoments, Instant.readRelaxed? t.fieldText = some t)
    (hread : ∀ r ∈ m.rules, Rule.ofJson r.toJson = .ok r) : decode m.toJson = .ok m := by
  obtain ⟨hclose, hlast⟩ := List.forall_mem_append.1 hown
  obtain ⟨htriggers, hvalues⟩ := List.forall_mem_append.1 hread
  have hsnapshot := Snapshot.decode_toJson fun t ht => hclose t (Option.mem_toList.2 ht)
  have hlast := Decoded.optional_moment fun t ht => hlast t (Option.mem_toList.2 ht)
  have htriggers : Decoded.list Decoded.trigger (.array (m.triggers.map Trigger.toJson)) = .ok m.triggers :=
    Decoded.list_map fun r hr => Decoded.trigger_ok (List.forall_mem_map.1 htriggers r hr)
  have hvalues : Decoded.list Decoded.valueRule (.array (m.values.map ValueRule.toJson)) = .ok m.values :=
    Decoded.list_map fun r hr => Decoded.valueRule_ok (List.forall_mem_map.1 hvalues r hr)
  have hweights : Decoded.optional (Decoded.table Decoded.number) (Json.ofOption weightsToJson m.initialValues) =
      .ok m.initialValues :=
    Decoded.optional_ofOption (fun _ _ => Decoded.table_weightsToJson _) fun _ => rfl
  rw [decode, toJson]
  refine (bind_of_ok (Record.ofJson_object (by simp) ?fit) _).trans ?_
  case fit =>
    simp only [List.forall_mem_cons]
    exact ⟨faultOf_ok hsnapshot, faultOf_ok htriggers, faultOf_ok hvalues, rfl, faultOf_ok hlast, rfl,
      faultOf_ok hweights, List.forall_mem_nil _⟩
  refine (bind_of_ok hsnapshot _).trans ((bind_of_ok htriggers _).trans ((bind_of_ok hvalues _).trans ?_))
  refine (bind_of_ok (a := m.checkRate) rfl _).trans ((bind_of_ok hlast _).trans ?_)
  refine (bind_of_ok (a := m.notes) rfl _).trans ((bind_of_ok hweights _).trans ?_)
  rw [Market.new, bind_of_ok hvalid]
  rfl

/-- The record of a market is decoded only if all its rules are read from their stored forms. -/
theorem isRule_of_decode_toJson (m : Market) : Ensures (decode m.toJson) fun _ => ∀ r ∈ m.rules, r.toJson.IsRule := by
  have htriggers : Ensures (Decoded.list Decoded.trigger (.array (m.triggers.map Trigger.toJson)))
      fun _ => ∀ r ∈ m.triggers, r.toJson.IsRule := ensures_mapM_map fun _ _ => Decoded.ensures_trigger _
  have hvalues : Ensures (Decoded.list Decoded.valueRule (.array (m.values.map ValueRule.toJson)))
      fun _ => ∀ r ∈ m.values, r.toJson.IsRule := ensures_mapM_map fun _ _ => Decoded.ensures_valueRule _
  rw [decode, toJson]
  refine (Record.ensures_ofJson_object _).bind fun record hrecord => ?_
  subst hrecord
  refine ensures_bind fun _ => htriggers.bind fun _ htriggers => hvalues.bind fun _ hvalues => ?_
  exact (ensures_any _).mono fun _ _ => List.forall_mem_append.2
    ⟨List.forall_mem_map.2 htriggers, List.forall_mem_map.2 hvalues⟩

/-- A market with acceptable rules is decoded again from its record if the years of the timestamps in its rules have four
digits and its own timestamps are read again, and no market is decoded from the record if one of these years has not. -/
theorem decode_again {m : Market} (hvalid : validateRules m.triggers m.values m.checkRate = .ok ())
    (hrules : ∀ r ∈ m.rules, r.WellFormed) :
    if ∀ r ∈ m.rules, ∀ t ∈ r.moments, t.HasPlainYear then
      (∀ t ∈ m.ownMoments, Instant.readRelaxed? t.fieldText = some t) → decode m.toJson = .ok m
    else ∀ other, decode m.toJson ≠ .ok other := by
  split
  case isTrue hyears =>
    refine fun hown => decode_toJson hvalid hown fun r hr => ?_
    have hagain := (hrules r hr).read_again
    rwa [if_pos (hyears r hr)] at hagain
  case isFalse hyears =>
    refine fun other hother => hyears fun r hr t ht => ?_
    have hread := isRule_of_decode_toJson m other hother r hr
    exact ((hrules r hr).moments_written t ht).hasPlainYear (Rule.moments_read hread t ht)

end Market

/-- From the row of a market whose text stands for its record, the market is loaded that is decoded from the record. -/
theorem Store.mem_readable_row {store : Store} {row : Int} {m other : Market} (hrow : store.row? row = some (rowOfMarket m))
    (htext : Json.readAs? Market.shape m.toJson.compact = some m.toJson) :
    (row, other) ∈ store.readable ↔ Market.decode m.toJson = .ok other := by
  obtain ⟨table, htable, hrow⟩ := Option.bind_eq_some_iff.1 hrow
  have hdecode : decodeText Market.shape Market.decode (rowOfMarket m).text = Market.decode m.toJson := by
    rw [decodeText, rowOfMarket, htext]
  rw [readable, htable, Option.elim_some, decodedMarkets, mem_found_decodeRows, ← hdecode]
  constructor
  · rintro ⟨kept, hkept, hother⟩
    rw [Table.mem_toList, hrow] at hkept
    cases hkept
    exact hother
  · exact fun hother => ⟨_, Table.mem_toList.2 hrow, hother⟩

/-! ## Timestamps -/

namespace Instant

/-- Which timestamps survive. A timestamp that was read is read again from its text exactly if its year in UTC has four
digits. A rule that was read is read again, as itself, if this holds of all its timestamps, and refused otherwise. So is a
market with rules that were read, if its own timestamps are read again, and it is loaded from the store just so, if the
text of its row stands for its record. -/
theorem written_again {s : String} {t : Instant} (h : readWritten? s = some t) :
    (readWritten? t.text = if t.HasPlainYear then some t else none) ∧
    (∀ v r, Rule.ofJson v = .ok r → t ∈ r.moments →
      if ∀ u ∈ r.moments, u.HasPlainYear then Rule.ofJson r.toJson = .ok r else ¬ r.toJson.IsRule) ∧
    ∀ m : Market, validateRules m.triggers m.values m.checkRate = .ok () →
      (∀ r ∈ m.rules, ∃ v, Rule.ofJson v = .ok r) → (∃ r ∈ m.rules, t ∈ r.moments) →
      (if ∀ r ∈ m.rules, ∀ u ∈ r.moments, u.HasPlainYear then
        (∀ u ∈ m.ownMoments, readRelaxed? u.fieldText = some u) → Market.decode m.toJson = .ok m
      else ∀ other, Market.decode m.toJson ≠ .ok other) ∧
      ∀ (store : Store) (row : Int) (other : Market), store.row? row = some (Store.rowOfMarket m) →
        Json.readAs? Market.shape m.toJson.compact = some m.toJson →
        ((row, other) ∈ store.readable ↔ Market.decode m.toJson = .ok other) := by
  refine ⟨IsWritten.read_text ⟨s, h⟩, fun v r hr _ => (Rule.wellFormed_of_ofJson hr).read_again, ?_⟩
  refine fun m hvalid hrules _ => ⟨Market.decode_again hvalid fun r hr => ?_, ?_⟩
  · obtain ⟨v, hv⟩ := hrules r hr
    exact Rule.wellFormed_of_ofJson hv
  · exact fun store row other hrow htext => Store.mem_readable_row hrow htext

/-- A market that is resolved at a moment and keeps its odds. -/
def marketAt (time : Instant) : Market where
  snapshot := ⟨"m", "https://manifold.markets/test/m", "Q?", .binary, none, none, false, [], none, false⟩
  triggers := [.atTime time]
  values := [.currentValue]
  checkRate := 1.0
  lastChecked := none
  notes := ""
  initialValues := none

/-- The rule for a moment that is written in some way is accepted, and so is a market with it. -/
theorem marketAt_accepted {text : String} {t : Instant} (h : readWritten? text = some t) :
    Rule.ofJson (taggedJson .atTime [("resolve_at", .string text)]) = .ok (.trigger (.atTime t)) ∧
    validateRules (marketAt t).triggers (marketAt t).values (marketAt t).checkRate = .ok () ∧
    ∀ r ∈ (marketAt t).rules, ∃ v, Rule.ofJson v = .ok r := by
  have hrule : Rule.ofJson (taggedJson .atTime [("resolve_at", .string text)]) = .ok (.trigger (.atTime t)) :=
    (Rule.read_taggedJson _ _).trans (bind_of_ok (Arguments.get_stored rfl rfl h) _)
  have hvalue : Rule.ofJson (taggedJson .currentValue []) = .ok (.value .currentValue) := by rfl
  have hrate : ((Dyadic.ofFloat? 1.0).isNone || decide ((1.0 : Float) < 0.0)) = false := by decide +kernel
  have hvalid : validateRules [.atTime t] [.currentValue] 1.0 = .ok () := by
    unfold validateRules
    rw [hrate]
    rfl
  refine ⟨hrule, hvalid, ?_⟩
  exact List.forall_mem_cons.2 ⟨⟨_, hrule⟩, List.forall_mem_singleton.2 ⟨_, hvalue⟩⟩

/-- A moment on a leap day, written in another time zone. -/
theorem leapDay_written_again :
    let t : Instant := ⟨1709244000, 0⟩
    readWritten? "2024-03-01T00:00:00+02:00" = some t ∧ t.text = "2024-02-29T22:00:00+00:00" ∧
    readWritten? t.text = some t ∧ Market.decode (marketAt t).toJson = .ok (marketAt t) := by
  intro t
  have h : readWritten? "2024-03-01T00:00:00+02:00" = some ⟨1709244000, 0⟩ := by decide +kernel
  have htext : text ⟨1709244000, 0⟩ = "2024-02-29T22:00:00+00:00" := by decide +kernel
  have hyear : HasPlainYear ⟨1709244000, 0⟩ := by decide +kernel
  obtain ⟨hrule, hvalid, hrules⟩ := marketAt_accepted h
  obtain ⟨hagain, -, hmarket⟩ := written_again h
  have hyears : ∀ r ∈ (marketAt t).rules, ∀ u ∈ r.moments, u.HasPlainYear :=
    List.forall_mem_cons.2 ⟨List.forall_mem_singleton.2 hyear, List.forall_mem_singleton.2 (List.forall_mem_nil _)⟩
  obtain ⟨hdecode, -⟩ := hmarket (marketAt t) hvalid hrules
    ⟨.trigger (.atTime t), List.mem_cons_self, List.mem_singleton_self t⟩
  rw [if_pos hyear] at hagain
  rw [if_pos hyears] at hdecode
  exact ⟨h, htext, hagain, hdecode (List.forall_mem_nil _)⟩

/-- The last second of a year with four digits, an hour west of Greenwich, is a moment of the next year in UTC. The rule for
it is accepted, and so is a market with it, but neither is read again from what it is stored as. -/
theorem lastSecond_lost :
    let written := "9999-12-31T23:59:59-01:00"
    let t : Instant := ⟨253402304399, 0⟩
    readWritten? written = some t ∧ t.text = "+10000-01-01T00:59:59+00:00" ∧ readWritten? t.text = none ∧
    Rule.ofJson (taggedJson .atTime [("resolve_at", .string written)]) = .ok (.trigger (.atTime t)) ∧
    ¬ (Rule.trigger (.atTime t)).toJson.IsRule ∧
    Market.new (marketAt t).snapshot (marketAt t).triggers (marketAt t).values (marketAt t).checkRate = .ok (marketAt t) ∧
    ∀ other, Market.decode (marketAt t).toJson ≠ .ok other := by
  intro written t
  have h : readWritten? "9999-12-31T23:59:59-01:00" = some ⟨253402304399, 0⟩ := by decide +kernel
  have htext : text ⟨253402304399, 0⟩ = "+10000-01-01T00:59:59+00:00" := by decide +kernel
  have hlost : readWritten? (text ⟨253402304399, 0⟩) = none := by decide +kernel
  obtain ⟨hrule, hvalid, -⟩ := marketAt_accepted h
  have hrefused : ¬ (Rule.trigger (.atTime t)).toJson.IsRule := fun hread => by
    have hsome := Rule.moments_read hread t (List.mem_singleton_self t)
    rw [hlost] at hsome
    cases hsome
  refine ⟨h, htext, hlost, hrule, hrefused, ?_, fun other hother => hrefused ?_⟩
  · rw [Market.new, bind_of_ok hvalid]
    rfl
  · exact Market.isRule_of_decode_toJson _ other hother _ List.mem_cons_self

end Instant

end Arbiter
