import Arbiter.Proofs.Rule.Refusals

/-!
# What faults of reading are reported against

A stored rule that cannot be read is reported against one kind, and a value of this kind inside it is at fault: read
alone it comes to the same fault. A value that is no rule has no kind; inside another one it is reported against the
kind of the rule around it.

* `Json.tag?`, `Json.IsOperand`: the name that a value is tagged with, and the values that arguments hold where rules
  may stand. `Json.operands_induction`: induction over these.
* `Rule.Charge`: the faults of arguments, their own ones and those of their operands.
* `Json.Accused`, `Json.Blamed`: a value that is at fault itself, and what a fault of reading is reported against.
* `Rule.blames_ofJson`: every fault of reading is reported against the value itself or against one inside it.
* `faults_of_ofJson`: the faults that reading a value comes to, and those that each family adds.
-/

namespace Arbiter

/-! ## Values at fault -/

namespace Json

/-- The name of the kind that a value is tagged with: the first of a list of one or two. -/
def tag? : Json → Option String
  | .array [.string name] | .array [.string name, _] => some name
  | _ => none

/-- A value that arguments hold where a rule may stand: an argument of some name, an item of it, or the first of a pair
that is an item of it. -/
inductive IsOperand (w : Json) (name : String) : Json → Prop where
  | whole {members : List (String × Json)} (h : (name, w) ∈ members) : IsOperand w name (.object members)
  | item {members : List (String × Json)} {items : List Json} (h : (name, .array items) ∈ members) (hw : w ∈ items) :
      IsOperand w name (.object members)
  | pair {members : List (String × Json)} {items : List Json} {weight : Json} (h : (name, .array items) ∈ members)
      (hw : .array [w, weight] ∈ items) : IsOperand w name (.object members)

theorem IsOperand.standsIn {name : String} {w args : Json} (h : w.IsOperand name args) : w.StandsIn args := by
  cases h with
  | whole h => exact .member h .whole
  | item h hw => exact .member h (.item hw .whole)
  | pair h hw => exact .member h (.item hw (.item List.mem_cons_self .whole))

/-- Only an object has operands. -/
theorem IsOperand.ne_null {name : String} {w args : Json} (h : w.IsOperand name args) : args ≠ .null := by
  rintro rfl
  cases h

theorem StandsIn.sizeOf_le {u v : Json} (h : u.StandsIn v) : sizeOf u ≤ sizeOf v := by
  induction h with
  | whole => exact Nat.le_refl _
  | item hv _ ih =>
    have := List.sizeOf_lt_of_mem hv
    simp only [array.sizeOf_spec]
    omega
  | member hv _ ih =>
    have := List.sizeOf_lt_of_mem hv
    simp only [Prod.mk.sizeOf_spec] at this
    simp only [object.sizeOf_spec]
    omega

theorem IsOperand.sizeOf_lt {name : String} {w args : Json} (h : w.IsOperand name args) (tag : Json) :
    sizeOf w < sizeOf (array [tag, args]) := by
  have := h.standsIn.sizeOf_le
  simp only [array.sizeOf_spec, List.cons.sizeOf_spec]
  omega

/-- What holds of a value if it holds of the operands in its arguments, holds of every value. -/
theorem operands_induction {P : Json → Prop}
    (step : ∀ v, (∀ tag args, v = .array [tag, args] → ∀ name w, IsOperand w name args → P w) → P v) (v : Json) : P v :=
  step v fun tag args hv name w hw =>
    have : sizeOf w < sizeOf v := hv ▸ hw.sizeOf_lt tag
    operands_induction step w
termination_by sizeOf v

theorem tag?_canonical (v : Json) : v.canonical.tag? = v.tag? := by
  cases v with
  | array items =>
    match items with
    | [] => rfl
    | [first] => cases first <;> rfl
    | [first, _] => cases first <;> rfl
    | first :: _ :: _ :: _ => cases first <;> rfl
  | _ => rfl

/-- A value that is at fault itself: it is tagged with the kind that the fault is reported against, and read alone it
comes to the same fault, which is plain or says that an operand of it is no rule. -/
structure Accused (u : Json) (kind : Kind) (f : ArgumentFault) : Prop where
  tag : u.tag? = some kind.name
  fault : Rule.ofJson u = .error (.malformed (some kind) f)
  noRule : f.IsPlain ∨ ∃ args name, ∃ w : Json, u = .array [.string kind.name, args] ∧ w.IsOperand name args ∧
    w.tag? = none ∧ f = .childNotRule name w.canonical

/-- What the fault of reading a value is reported against: nothing if the value is no rule itself, otherwise a value
inside it. -/
inductive Blamed (v : Json) : RuleFault → Prop where
  | noRule (h : v.tag? = none) : Blamed v (.malformed none (.notRule v.canonical))
  | unknown {u : Json} {name : String} (hv : v.tag? ≠ none) (hu : u.StandsIn v) (htag : u.tag? = some name)
      (hname : Kind.ofName? name = none) : Blamed v (.unknownKind name)
  | malformed {u : Json} {kind : Kind} {f : ArgumentFault} (hv : v.tag? ≠ none) (hu : u.StandsIn v)
      (h : u.Accused kind f) : Blamed v (.malformed (some kind) f)

end Json

namespace Rule

theorem name_of_ofName? {name : String} {kind : Kind} (h : Kind.ofName? name = some kind) : kind.name = name := by
  simpa using List.find?_some h

/-- The faults of the arguments of a kind: plain ones, that an operand is no rule, and those of the operands. -/
inductive Charge (kind : Kind) (args : Json) : RuleFault → Prop where
  | plain {f : ArgumentFault} (h : f.IsPlain) : Charge kind args (.malformed (some kind) f)
  | noRule {name : String} {w : Json} {f : ArgumentFault} (h : w.IsOperand name args)
      (hw : ofJson w = .error (.malformed none f)) :
      Charge kind args (.malformed (some kind) (.childNotRule name w.canonical))
  | operand {name : String} {w : Json} {e : RuleFault} (h : w.IsOperand name args) (hw : ofJson w = .error e)
      (he : ∀ f, e ≠ .malformed none f) : Charge kind args e

theorem charge_child {kind : Kind} {args : Json} {name : String} {w : Json} {a : Arguments} (ha : a.kind = kind)
    (h : w.IsOperand name args) : Blames (a.child name w.canonical (ofJson w)) (Charge kind args) := by
  subst ha
  intro e he
  unfold Arguments.child at he
  split at he
  case h_1 f hf =>
    cases he
    exact .noRule h hf
  case h_2 hother =>
    exact .operand h he fun f hf => hother f (hf ▸ he)

/-- The arguments of a stored rule are the canonical forms of its members. -/
theorem mem_stored {kind : Kind} {members : List (String × Json)} {m : String × Argument}
    (h : m ∈ (stored kind members).members) : ∃ w, (m.1, w) ∈ members ∧ m.2 = argumentOf w.canonical := by
  change m ∈ readMembers _ at h
  rw [readMembers_eq_map, List.mem_map] at h
  obtain ⟨_, hm, rfl⟩ := h
  have hm := Json.mem_sortMembers hm
  rw [Json.canonicalMembers_eq_map, List.mem_map] at hm
  obtain ⟨⟨name, w⟩, hw, rfl⟩ := hm
  exact ⟨w, hw, rfl⟩

theorem items_canonical {w : Json} {items : List Item} (h : (argumentOf w.canonical).items = some items) :
    ∃ ws, w = .array ws ∧ items = ws.map fun u => itemOf u.canonical := by
  change readItems? w.canonical = some items at h
  cases w with
  | array ws =>
    rw [Json.canonical, readItems?, Json.canonicalItems_eq_map, readItems_eq_map, List.map_map] at h
    exact ⟨ws, rfl, (Option.some.inj h).symm⟩
  | _ => cases h

theorem pair_canonical {w json weight : Json} {rule : Except RuleFault Rule}
    (h : (itemOf w.canonical).pair = some (json, rule, weight)) :
    ∃ first second, w = .array [first, second] ∧ json = first.canonical ∧ rule = ofJson first := by
  change readPair? w.canonical = some (json, rule, weight) at h
  cases w with
  | array ws =>
    match ws with
    | [first, second] =>
      cases h
      exact ⟨first, second, rfl, rfl, rfl⟩
    | [] | [_] | _ :: _ :: _ :: _ => cases h
  | _ => cases h

theorem admits_stored (kind : Kind) (members : List (String × Json)) :
    (stored kind members).Admits (Charge kind (.object members)) where
  plain f hf := .plain hf
  whole m hm := by
    obtain ⟨w, hw, harg⟩ := mem_stored hm
    rw [harg]
    exact charge_child rfl (.whole hw)
  item m hm items hitems i hi := by
    obtain ⟨w, hw, harg⟩ := mem_stored hm
    rw [harg] at hitems
    obtain ⟨ws, rfl, rfl⟩ := items_canonical hitems
    obtain ⟨u, hu, rfl⟩ := List.mem_map.1 hi
    exact charge_child rfl (.item hw hu)
  pair m hm items hitems i hi json rule weight hpair := by
    obtain ⟨w, hw, harg⟩ := mem_stored hm
    rw [harg] at hitems
    obtain ⟨ws, rfl, rfl⟩ := items_canonical hitems
    obtain ⟨u, hu, rfl⟩ := List.mem_map.1 hi
    obtain ⟨first, second, rfl, rfl, rfl⟩ := pair_canonical hpair
    exact charge_child rfl (.pair hw hu)

/-- Without arguments there are no operands. -/
theorem admits_nil (kind : Kind) (args : Json) : (⟨kind, []⟩ : Arguments).Admits (Charge kind args) where
  plain _ hf := .plain hf
  whole _ hm := nomatch hm
  item _ hm := nomatch hm
  pair _ hm := nomatch hm

/-- Reading the arguments of a kind fails for a plain fault or that of an operand. -/
theorem blames_ofArguments {name : String} {kind : Kind} (hkind : Kind.ofName? name = some kind) (args : Json) :
    Blames (ofArguments name args) (Charge kind args) := by
  obtain rfl := name_of_ofName? hkind
  cases args with
  | object members =>
    rw [ofArguments_object]
    exact blames_build (admits_stored kind members)
  | null =>
    change Blames (buildNamed kind.name none) _
    rw [buildNamed, ofName?_name]
    exact blames_build (admits_nil kind .null)
  | _ =>
    change Blames (refuseArguments kind.name _) _
    rw [refuseArguments, ofName?_name]
    exact blames_error (.plain rfl)

theorem ofArguments_unknown {name : String} (h : Kind.ofName? name = none) (args : Json) :
    ofArguments name args = .error (.unknownKind name) := by
  unfold ofArguments buildNamed refuseArguments
  rw [h]
  split <;> rfl

theorem ofJson_alone (name : String) : ofJson (.array [.string name]) = ofArguments name .null := rfl

theorem ofJson_with (name : String) (args : Json) : ofJson (.array [.string name, args]) = ofArguments name args := by
  cases args <;> rfl

theorem read_untagged {v : Json} (h : v.tag? = none) : read v = .error (.malformed none (.notRule v)) := by
  unfold read
  split <;> first | rfl | cases h

theorem ofJson_untagged {v : Json} (h : v.tag? = none) : ofJson v = .error (.malformed none (.notRule v.canonical)) :=
  read_untagged (v.tag?_canonical.trans h)

/-- A tagged value is read from its arguments; without any from `null`. -/
theorem exists_ofArguments {v : Json} {name : String} (h : v.tag? = some name) :
    ∃ args, ofJson v = ofArguments name args ∧
      (v = .array [.string name] ∧ args = .null ∨ v = .array [.string name, args]) := by
  unfold Json.tag? at h
  split at h
  case h_1 => 
    cases h
    exact ⟨.null, ofJson_alone name, .inl ⟨rfl, rfl⟩⟩
  case h_2 args =>
    cases h
    exact ⟨args, ofJson_with name args, .inr rfl⟩
  case h_3 => cases h

/-- Every fault of reading is reported against the value itself or against one inside it. -/
theorem blames_ofJson (v : Json) : Blames (ofJson v) v.Blamed := by
  induction v using Json.operands_induction with
  | step v ih =>
    intro e he
    cases htag : v.tag? with
    | none =>
      rw [ofJson_untagged htag] at he
      cases he
      exact .noRule htag
    | some name =>
      obtain ⟨args, hread, hargs⟩ := exists_ofArguments htag
      have hv : v.tag? ≠ none := by simp [htag]
      cases hkind : Kind.ofName? name with
      | none =>
        rw [hread, ofArguments_unknown hkind] at he
        cases he
        exact .unknown hv .whole htag hkind
      | some kind =>
        obtain rfl := name_of_ofName? hkind
        -- arguments with operands are those of a list of two
        have hpair : ∀ {place : String} {w : Json}, w.IsOperand place args → v = .array [.string kind.name, args] :=
          fun hw => hargs.resolve_left fun h => hw.ne_null h.2
        cases blames_ofArguments hkind args e (hread ▸ he) with
        | plain hf => exact .malformed hv .whole ⟨htag, he, .inl hf⟩
        | @noRule place w f hw hnone =>
          have hwtag : w.tag? = none := by
            cases ih _ _ (hpair hw) place w hw _ hnone with
            | noRule h => exact h
          exact .malformed hv .whole ⟨htag, he, .inr ⟨args, place, w, hpair hw, hw, hwtag, rfl⟩⟩
        | @operand place w _ hw hfault hother =>
          have hin : w.StandsIn v := hpair hw ▸ hw.standsIn.trans (.item (by simp) .whole)
          cases ih _ _ (hpair hw) place w hw e hfault with
          | noRule => exact absurd rfl (hother _)
          | unknown _ hu hutag hname => exact .unknown hv (hu.trans hin) hutag hname
          | malformed _ hu hacc => exact .malformed hv (hu.trans hin) hacc

theorem ensures_ofArguments_kind {name : String} {kind : Kind} (hkind : Kind.ofName? name = some kind) (args : Json) :
    Ensures (ofArguments name args) fun r => r.kind = kind := by
  unfold ofArguments buildNamed refuseArguments
  rw [hkind]
  split
  · exact ensures_build_kind _
  · exact ensures_build_kind _
  · exact ensures_error _

/-- A rule that was read is of the kind that its value is tagged with. -/
theorem tag?_of_ofJson {v : Json} {r : Rule} (h : ofJson v = .ok r) : v.tag? = some r.kind.name := by
  cases htag : v.tag? with
  | none => exact nomatch (ofJson_untagged htag).symm.trans h
  | some name =>
    obtain ⟨args, hread, -⟩ := exists_ofArguments htag
    cases hkind : Kind.ofName? name with
    | none => exact nomatch (ofArguments_unknown hkind args).symm.trans (hread.symm.trans h)
    | some kind =>
      rw [hread] at h
      rw [ensures_ofArguments_kind hkind args r h, name_of_ofName? hkind]

end Rule

theorem Trigger.ofJson_eq_error_iff {v : Json} {e : RuleFault} : Trigger.ofJson v = .error e ↔
    Rule.ofJson v = .error e ∨ ∃ r : ValueRule, Rule.ofJson v = .ok (.value r) ∧ v.tag? = some r.kind.name ∧
      e = .malformed (some r.kind) (.family .trigger .value) := by
  unfold Trigger.ofJson
  cases hread : Rule.ofJson v with
  | error e' => simp [bind, Except.bind]
  | ok r =>
    cases r with
    | trigger r => simp [bind, Except.bind]
    | value r =>
      have htag : v.tag? = some r.kind.name := Rule.tag?_of_ofJson hread
      simp [bind, Except.bind, htag, eq_comm]

theorem ValueRule.ofJson_eq_error_iff {v : Json} {e : RuleFault} : ValueRule.ofJson v = .error e ↔
    Rule.ofJson v = .error e ∨ ∃ r : Trigger, Rule.ofJson v = .ok (.trigger r) ∧ v.tag? = some r.kind.name ∧
      e = .malformed (some r.kind) (.family .value .trigger) := by
  unfold ValueRule.ofJson
  cases hread : Rule.ofJson v with
  | error e' => simp [bind, Except.bind]
  | ok r =>
    cases r with
    | trigger r =>
      have htag : v.tag? = some r.kind.name := Rule.tag?_of_ofJson hread
      simp [bind, Except.bind, htag, eq_comm]
    | value r => simp [bind, Except.bind]

/-! ## What a reading comes to -/

/-- The name that a fault is reported under: that of the kind, and `rule` where there is none. -/
def reportedName (kind : Option Kind) : String := (kind.map Kind.name).getD "rule"

theorem reportedName_eq_rule_iff (kind : Option Kind) : reportedName kind = "rule" ↔ kind = none := by
  have h : ∀ k ∈ Kind.every, k.name ≠ "rule" := by decide +kernel
  cases kind with
  | none => simp [reportedName]
  | some k => simpa [reportedName] using h k k.mem_every

/-- A value is read as a rule, or a kind inside it is unknown, or arguments are malformed: against no kind exactly if
the value itself is tagged with none, otherwise against the kind of a value inside it that is at fault. A family only
adds that the rule of the value itself belongs to the other one. -/
theorem faults_of_ofJson (v : Json) :
    ((∃ r, Rule.ofJson v = .ok r) ∨
      (∃ name, Rule.ofJson v = .error (.unknownKind name) ∧ Kind.ofName? name = none ∧
        ∃ u : Json, u.StandsIn v ∧ u.tag? = some name) ∨
      ∃ kind f, Rule.ofJson v = .error (.malformed kind f) ∧ (reportedName kind = "rule" ↔ v.tag? = none) ∧
        (v.tag? ≠ none → ∃ k, ∃ u : Json, kind = some k ∧ u.StandsIn v ∧ u.Accused k f)) ∧
    (∀ e, Trigger.ofJson v = .error e ↔ Rule.ofJson v = .error e ∨
      ∃ r : ValueRule, Rule.ofJson v = .ok (.value r) ∧ v.tag? = some r.kind.name ∧
        e = .malformed (some r.kind) (.family .trigger .value)) ∧
    ∀ e, ValueRule.ofJson v = .error e ↔ Rule.ofJson v = .error e ∨
      ∃ r : Trigger, Rule.ofJson v = .ok (.trigger r) ∧ v.tag? = some r.kind.name ∧
        e = .malformed (some r.kind) (.family .value .trigger) := by
  refine ⟨?_, fun _ => Trigger.ofJson_eq_error_iff, fun _ => ValueRule.ofJson_eq_error_iff⟩
  cases hread : Rule.ofJson v with
  | ok r => exact .inl ⟨r, rfl⟩
  | error e =>
    refine .inr ?_
    cases Rule.blames_ofJson v e hread with
    | noRule h => exact .inr ⟨none, _, rfl, by simp [reportedName_eq_rule_iff, h], fun hv => absurd h hv⟩
    | @unknown u name _ hu htag hname => exact .inl ⟨name, rfl, hname, u, hu, htag⟩
    | @malformed u kind f hv hu h =>
      exact .inr ⟨some kind, f, rfl, by simp [reportedName_eq_rule_iff, hv], fun _ => ⟨kind, u, rfl, hu, h⟩⟩

end Arbiter
