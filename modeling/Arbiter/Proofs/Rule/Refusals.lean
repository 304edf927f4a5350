import Arbiter.Proofs.Rule.Nodes

/-!
# Why arguments are refused

The arguments of a rule are refused for a fault of their own or for that of a value in them that should be a rule,
whatever the kind.

* `Blames`: what holds of the fault of a computation, if it fails, with one rule for each way of putting these together.
* `ArgumentFault.IsPlain`: the faults that say nothing of such a value.
* `Arguments.Admits`: the faults that arguments may be refused for. `Arguments.Admits.trigger` and the lemmas beside it:
  one for each way of taking an argument.
* `Rule.blames_build`: there are no others, whatever the kind.
-/

namespace Arbiter

/-! ## Faults of computations -/

/-- If the computation fails, `Q` holds of the fault. -/
def Blames {ε α : Type} (x : Except ε α) (Q : ε → Prop) : Prop := ∀ e, x = .error e → Q e

section Blames

variable {ε α β : Type} {Q : ε → Prop}

theorem blames_ok (a : α) : Blames (.ok a : Except ε α) Q := fun _ h => nomatch h

theorem blames_pure (a : α) : Blames (pure a : Except ε α) Q := blames_ok a

theorem blames_error {e : ε} (h : Q e) : Blames (.error e : Except ε α) Q := fun _ heq => Except.error.inj heq ▸ h

/-- The second computation runs on what the first one comes to. -/
theorem Blames.bind_of {x : Except ε α} {f : α → Except ε β} (hx : Blames x Q) (hf : ∀ a, x = .ok a → Blames (f a) Q) :
    Blames (x >>= f) Q := by
  intro e he
  cases x with
  | error e' => exact hx e (by cases he; rfl)
  | ok a => exact hf a rfl e he

theorem Blames.bind {x : Except ε α} {f : α → Except ε β} (hx : Blames x Q) (hf : ∀ a, Blames (f a) Q) :
    Blames (x >>= f) Q := hx.bind_of fun a _ => hf a

theorem Blames.map {x : Except ε α} (hx : Blames x Q) (f : α → β) : Blames (f <$> x) Q := by
  intro e he
  cases x with
  | error e' => exact hx e (by cases he; rfl)
  | ok a => exact nomatch he

theorem blames_mapM {f : α → Except ε β} : ∀ {l : List α}, (∀ a ∈ l, Blames (f a) Q) → Blames (l.mapM f) Q
  | [], _ => by
    rw [List.mapM_nil]
    exact blames_pure []
  | a :: rest, h => by
    obtain ⟨ha, hrest⟩ := List.forall_mem_cons.1 h
    rw [List.mapM_cons]
    exact ha.bind fun _ => (blames_mapM hrest).bind fun _ => blames_pure _

end Blames

/-! ## Faults of arguments -/

/-- A fault that says nothing of a value inside the arguments that should be a rule. -/
def ArgumentFault.IsPlain : ArgumentFault → Bool
  | .notRule _ | .childNotRule .. => false
  | _ => true

/-- `P` holds of the plain faults of arguments and of those that come from the values that they hold as rules. -/
structure Arguments.Admits (P : RuleFault → Prop) (a : Arguments) : Prop where
  plain : ∀ f, f.IsPlain → P (.malformed (some a.kind) f)
  whole : ∀ m ∈ a.members, Blames (a.child m.1 m.2.json m.2.rule) P
  item : ∀ m ∈ a.members, ∀ items, m.2.items = some items → ∀ i ∈ items, Blames (a.child m.1 i.json i.rule) P
  pair : ∀ m ∈ a.members, ∀ items, m.2.items = some items → ∀ i ∈ items, ∀ json rule weight,
    i.pair = some (json, rule, weight) → Blames (a.child m.1 json rule) P

namespace Constant

theorem blames_readWeight (member : String × Json) : Blames (readWeight member) fun f => f.IsPlain := by
  unfold readWeight
  split
  · exact blames_error rfl
  · split
    · split
      · exact blames_ok _
      · exact blames_error rfl
    · exact blames_error rfl

theorem blames_ofJson (v : Json) : Blames (ofJson v) fun f => f.IsPlain := by
  unfold ofJson
  split
  case h_4 => exact (blames_mapM fun m _ => blames_readWeight m).bind fun _ => blames_pure _
  case h_6 => exact blames_error rfl
  all_goals exact blames_ok _

end Constant

namespace Arguments

variable {P : RuleFault → Prop} {a : Arguments}

theorem Admits.fault {α : Type} (h : a.Admits P) {f : ArgumentFault} (hf : f.IsPlain) :
    Blames (a.fault f : Except _ α) P :=
  blames_error (h.plain f hf)

theorem Admits.required (h : a.Admits P) (name : String) : Blames (a.required name) P := by
  unfold Arguments.required
  split
  · exact blames_ok _
  · exact h.fault rfl

section Get

variable {α : Type} (name : String) (requirement : Requirement) (read : Json → Option α)

theorem Admits.fitting (h : a.Admits P) (argument : Argument) :
    Blames (a.fitting name requirement read argument) P := by
  unfold Arguments.fitting
  split
  · exact blames_ok _
  · exact h.fault rfl

theorem Admits.get (h : a.Admits P) : Blames (a.get name requirement read) P :=
  (h.required name).bind fun argument => h.fitting name requirement read argument

theorem Admits.get? (h : a.Admits P) : Blames (a.get? name requirement read) P := by
  unfold Arguments.get?
  split
  · exact blames_ok _
  · exact (h.fitting name requirement read _).map some

end Get

theorem Admits.pull (h : a.Admits P) : Blames a.pull P :=
  (h.get "owner" .text _).bind fun _ => (h.get "repo" .text _).bind fun _ =>
    (h.get "number" .natural _).bind fun _ => blames_pure _

theorem Admits.seed? (h : a.Admits P) : Blames a.seed? P := by
  unfold Arguments.seed?
  split
  · exact blames_ok _
  · split
    · exact blames_ok _
    · exact h.fault rfl

theorem Admits.atLeastOne (h : a.Admits P) (name : String) : Blames (a.atLeastOne name) P := by
  refine (h.get? name .natural _).bind fun n => ?_
  dsimp only
  split
  · exact h.fault rfl
  · exact blames_ok _

theorem Admits.asTrigger (h : a.Admits P) {name : String} {json : Json} {rule : Except RuleFault Rule}
    (hrule : Blames (a.child name json rule) P) : Blames (a.asTrigger name json rule) P := by
  refine hrule.bind fun r => ?_
  cases r with
  | trigger r => exact blames_ok r
  | value r => exact h.fault rfl

theorem Admits.asValue (h : a.Admits P) {name : String} {json : Json} {rule : Except RuleFault Rule}
    (hrule : Blames (a.child name json rule) P) : Blames (a.asValue name json rule) P := by
  refine hrule.bind fun r => ?_
  cases r with
  | trigger r => exact h.fault rfl
  | value r => exact blames_ok r

theorem Admits.trigger (h : a.Admits P) (name : String) : Blames (a.trigger name) P :=
  (h.required name).bind_of fun argument hfound =>
    h.asTrigger (h.whole (name, argument) (ensures_required_mem name argument hfound))

theorem Admits.value (h : a.Admits P) (name : String) : Blames (a.value name) P :=
  (h.required name).bind_of fun argument hfound =>
    h.asValue (h.whole (name, argument) (ensures_required_mem name argument hfound))

theorem Admits.triggerPair (h : a.Admits P) : Blames a.triggerPair P :=
  (h.trigger "rule1").bind fun _ => (h.trigger "rule2").bind fun _ => blames_pure _

theorem Admits.items (h : a.Admits P) (name : String) : Blames (a.items name) P := by
  refine (h.required name).bind fun argument => ?_
  split
  · exact blames_ok _
  · exact h.fault rfl

/-- The items of a list are those of the argument of its name. -/
theorem ensures_items_mem (name : String) :
    Ensures (a.items name) fun items => ∃ argument, (name, argument) ∈ a.members ∧ argument.items = some items := by
  refine (ensures_required_mem name).bind fun argument hargument => ?_
  split
  case h_1 items hitems => exact ensures_ok ⟨argument, hargument, hitems⟩
  case h_2 => exact ensures_fault _

theorem Admits.several {α : Type} (h : a.Admits P) (rules : List α) : Blames (a.several rules) P := by
  unfold Arguments.several
  split
  · exact h.fault rfl
  · exact blames_ok _

theorem Admits.triggers (h : a.Admits P) : Blames a.triggers P := by
  refine (h.items "rules").bind_of fun items hfound => ?_
  obtain ⟨argument, hargument, hitems⟩ := ensures_items_mem "rules" items hfound
  refine (blames_mapM fun i hi => ?_).bind fun rules => h.several rules
  exact h.asTrigger (h.item _ hargument items hitems i hi)

theorem Admits.values (h : a.Admits P) : Blames a.values P := by
  refine (h.items "rules").bind_of fun items hfound => ?_
  obtain ⟨argument, hargument, hitems⟩ := ensures_items_mem "rules" items hfound
  refine (blames_mapM fun i hi => ?_).bind fun rules => h.several rules
  exact h.asValue (h.item _ hargument items hitems i hi)

theorem Admits.share (h : a.Admits P) {i : Item}
    (hpair : ∀ json rule weight, i.pair = some (json, rule, weight) → Blames (a.child "shares" json rule) P) :
    Blames (a.share i) P := by
  unfold Arguments.share
  split
  case h_1 json rule weight hfound =>
    refine (h.asValue (hpair json rule weight hfound)).bind fun r => ?_
    split
    · exact blames_ok _
    · exact h.fault rfl
  case h_2 => exact h.fault rfl

theorem Admits.shares (h : a.Admits P) : Blames a.shares P := by
  refine (h.items "shares").bind_of fun items hfound => ?_
  obtain ⟨argument, hargument, hitems⟩ := ensures_items_mem "shares" items hfound
  refine (blames_mapM fun i hi => h.share (h.pair _ hargument items hitems i hi)).bind fun shares => ?_
  dsimp only
  split
  · exact (h.fault rfl).bind_of fun _ hnone => nomatch hnone
  · split
    · exact h.fault rfl
    · exact blames_ok _

end Arguments

namespace Rule

variable {P : RuleFault → Prop} {a : Arguments}

theorem blames_ofPair (h : a.Admits P) (make : Trigger → Trigger → Trigger) : Blames (ofPair make a) P :=
  h.triggerPair.bind fun _ => blames_pure _

theorem blames_randomAnswer (h : a.Admits P) : Blames (randomAnswer a) P :=
  h.seed?.bind fun _ => (h.get? "start" .natural _).bind fun _ => (h.get? "limit" .natural _).bind fun _ =>
    (h.get? "weighted" .truth _).bind fun _ => blames_pure _

theorem blames_userStat (h : a.Admits P) (metric : UserMetric) : Blames (userStat metric a) P :=
  (h.get? "field" .period _).bind fun _ => (h.get "user" .text _).bind fun _ => blames_pure _

theorem blames_amplifiedOdds (h : a.Admits P) : Blames (amplifiedOdds a) P :=
  (h.atLeastOne "a").bind fun _ => h.seed?.bind fun _ => (h.get "url" .text _).bind fun _ => blames_pure _

/-- Whatever the kind, arguments are only refused for plain faults and for those of the rules in them. -/
theorem blames_build (h : a.Admits P) : Blames (build a) P := by
  obtain ⟨kind, members⟩ := a
  cases kind with
  | currentValue | round => exact blames_ok _
  | atTime => exact (h.get "resolve_at" .timestamp _).bind fun _ => blames_pure _
  | thisMarketClosed => exact (h.get? "resolve_at" .timestamp _).bind fun _ => blames_pure _
  | pullFinished | pullMerged => exact h.pull.bind fun _ => blames_pure _
  | otherMarketClosed | otherMarketResolved | otherMarketValue =>
    exact (h.get "url" .text _).bind fun _ => blames_pure _
  | not => exact (h.trigger "child").bind fun _ => blames_pure _
  | negate => exact (h.value "child").bind fun _ => blames_pure _
  | all | any | xor | xnor => exact h.triggers.bind fun _ => blames_pure _
  | both | either | nand | neither | implies => exact blames_ofPair h _
  | sum | product | modulus => exact h.values.bind fun _ => blames_pure _
  | constant =>
    refine (h.required "resolve_value").bind fun argument => ?_
    split
    · exact blames_pure _
    · rename_i f hf
      exact h.fault (Constant.blames_ofJson argument.json f hf)
  | randomIndex => exact (blames_randomAnswer h).bind fun _ => blames_pure _
  | multipleValues => exact h.shares.bind fun _ => blames_pure _
  | pullDelta => exact h.pull.bind fun _ => (h.get "start" .timestamp _).bind fun _ => blames_pure _
  | popular => exact (h.atLeastOne "size").bind fun _ => blames_pure _
  | fibonacci =>
    exact (h.get? "exclude" .indexes _).bind fun _ => (h.get? "min_rewarded" .number _).bind fun _ => blames_pure _
  | amplifiedOdds => exact blames_amplifiedOdds h
  | conditional => exact (h.trigger "rule1").bind fun _ => (h.value "rule2").bind fun _ => blames_pure _
  | userProfit | userCreatedVolume => exact blames_userStat h _

end Rule

end Arbiter
