import Arbiter.Rule.Reader

/-!
# What holds of rules that are read

Whatever each kind hands on from the rules inside its arguments to its own rule, holds of every rule that is read.

* `Ensures`: what holds of the result of a computation that may fail, with one rule for each way of putting these together.
* `Arguments.Carries`: what holds of all rules inside arguments. `Arguments.ensures_trigger` and the lemmas beside it: what
  then holds of the children that are taken out of them.
* `Rule.ensures_ofJson`: induction over the reading of a rule, whatever its kind.
-/

namespace Arbiter

/-! ## Results -/

/-- If there is a result, `Q` holds of it. -/
def Ensures {ε α : Type} (x : Except ε α) (Q : α → Prop) : Prop := ∀ a, x = .ok a → Q a

section Ensures

variable {ε α β : Type} {Q : α → Prop} {Q' : β → Prop}

theorem ensures_ok {a : α} (h : Q a) : Ensures (.ok a : Except ε α) Q := fun _ heq => Except.ok.inj heq ▸ h

theorem ensures_pure {a : α} (h : Q a) : Ensures (pure a : Except ε α) Q := ensures_ok h

theorem ensures_error (e : ε) : Ensures (.error e : Except ε α) Q := fun _ heq => nomatch heq

theorem ensures_any (x : Except ε α) : Ensures x fun _ => True := fun _ _ => trivial

theorem Ensures.mono {x : Except ε α} {Q₂ : α → Prop} (hx : Ensures x Q) (h : ∀ a, Q a → Q₂ a) : Ensures x Q₂ :=
  fun a ha => h a (hx a ha)

theorem Ensures.bind {x : Except ε α} {f : α → Except ε β} (hx : Ensures x Q) (hf : ∀ a, Q a → Ensures (f a) Q') :
    Ensures (x >>= f) Q' := by
  intro b hb
  cases x with
  | error e => exact nomatch hb
  | ok a => exact hf a (hx a rfl) b hb

/-- The same where nothing has to be known of the first result. -/
theorem ensures_bind {x : Except ε α} {f : α → Except ε β} (hf : ∀ a, Ensures (f a) Q') : Ensures (x >>= f) Q' :=
  (ensures_any x).bind fun a _ => hf a

theorem Ensures.map {x : Except ε α} {f : α → β} (hx : Ensures x fun a => Q' (f a)) : Ensures (f <$> x) Q' := by
  intro b hb
  cases x with
  | error e => exact nomatch hb
  | ok a => exact Except.ok.inj hb ▸ hx a rfl

theorem ensures_mapM {f : α → Except ε β} : ∀ {l : List α}, (∀ a ∈ l, Ensures (f a) Q') →
    Ensures (l.mapM f) fun bs => ∀ b ∈ bs, Q' b
  | [], _ => by
    rw [List.mapM_nil]
    exact ensures_pure (by simp)
  | a :: rest, h => by
    obtain ⟨ha, hrest⟩ := List.forall_mem_cons.1 h
    rw [List.mapM_cons]
    exact ha.bind fun b hb => (ensures_mapM hrest).bind fun bs hbs => ensures_pure (List.forall_mem_cons.2 ⟨hb, hbs⟩)

theorem ensures_mapM_map {γ : Type} {f : α → Except ε β} {g : γ → α} {R : γ → Prop} {l : List γ}
    (h : ∀ c ∈ l, Ensures (f (g c)) fun _ => R c) : Ensures ((l.map g).mapM f) fun _ => ∀ c ∈ l, R c := by
  induction l with
  | nil => exact (ensures_any _).mono fun _ _ => by simp
  | cons c rest ih =>
    obtain ⟨hc, hrest⟩ := List.forall_mem_cons.1 h
    rw [List.map_cons, List.mapM_cons]
    exact hc.bind fun _ hc => (ih hrest).bind fun _ hrest => ensures_pure (List.forall_mem_cons.2 ⟨hc, hrest⟩)

/-- Each item of a list that is read is read itself. -/
theorem ensures_mapM_eq {f : α → Except ε β} : ∀ {l : List α}, Ensures (l.mapM f) fun bs => l.map f = bs.map .ok
  | [] => by
    rw [List.mapM_nil]
    exact ensures_pure rfl
  | a :: rest => by
    have ha : Ensures (f a) fun b => f a = .ok b := fun _ h => h
    rw [List.mapM_cons]
    exact ha.bind fun b hb => ensures_mapM_eq.bind fun bs hbs => ensures_pure (by
      rw [List.map_cons, List.map_cons, hb, hbs])

theorem bind_of_ok {x : Except ε α} {a : α} (h : x = .ok a) (f : α → Except ε β) : x >>= f = f a := by
  rw [h]
  rfl

theorem mapM_map_of_ok {f : β → Except ε α} {g : α → β} : ∀ {l : List α}, (∀ a ∈ l, f (g a) = .ok a) →
    (l.map g).mapM f = .ok l
  | [], _ => by rw [List.map_nil, List.mapM_nil]; rfl
  | a :: rest, h => by
    obtain ⟨ha, hrest⟩ := List.forall_mem_cons.1 h
    rw [List.map_cons, List.mapM_cons, ha, mapM_map_of_ok hrest]
    rfl

end Ensures

/-! ## Rules inside arguments -/

section Carries

variable (P : Rule → Prop)

/-- `P` holds of the rules that an item stands for or begins with. -/
structure Item.Carries (i : Item) : Prop where
  rule : Ensures i.rule P
  pair : ∀ json rule weight, i.pair = some (json, rule, weight) → Ensures rule P

/-- `P` holds of the rules that an argument stands for or lists. -/
structure Argument.Carries (argument : Argument) : Prop where
  rule : Ensures argument.rule P
  items : ∀ items, argument.items = some items → ∀ i ∈ items, i.Carries P

/-- `P` holds of all rules inside arguments. -/
def Arguments.Carries (a : Arguments) : Prop := ∀ m ∈ a.members, m.2.Carries P

end Carries

namespace Arguments

variable {P : Rule → Prop} {a : Arguments}

theorem ensures_fault {α : Type} {Q : α → Prop} (f : ArgumentFault) : Ensures (a.fault f) Q := ensures_error _

section Get

variable {α : Type} (name : String) (requirement : Requirement) (read : Json → Option α)

theorem ensures_get : Ensures (a.get name requirement read) fun x => ∃ v, read v = some x := by
  refine ensures_bind fun argument => ?_
  unfold fitting
  split
  case h_1 x hx => exact ensures_ok ⟨_, hx⟩
  case h_2 => exact ensures_fault _

theorem ensures_get? : Ensures (a.get? name requirement read) fun found => ∀ x ∈ found, ∃ v, read v = some x := by
  unfold get?
  split
  case h_1 => exact ensures_ok (by simp)
  case h_2 argument _ =>
    refine Ensures.map ?_
    unfold fitting
    split
    case h_1 x hx => exact ensures_ok fun y hy => ⟨argument.json, hx.trans hy⟩
    case h_2 => exact ensures_fault _

end Get

theorem ensures_required (h : a.Carries P) (name : String) : Ensures (a.required name) fun argument => argument.Carries P := by
  unfold required
  split
  case h_1 argument hfound =>
    obtain ⟨m, hm, rfl⟩ := Option.map_eq_some_iff.1 (Option.filter_eq_some_iff.1 hfound).1
    exact ensures_ok (h m (List.mem_of_find?_eq_some hm))
  case h_2 => exact ensures_fault _

theorem ensures_child {rule : Except RuleFault Rule} (h : Ensures rule P) (name : String) (json : Json) :
    Ensures (a.child name json rule) P := by
  unfold child
  split
  · exact ensures_fault _
  · exact h

theorem ensures_asTrigger {rule : Except RuleFault Rule} (h : Ensures rule P) (name : String) (json : Json) :
    Ensures (a.asTrigger name json rule) fun r => P (.trigger r) := by
  refine (ensures_child h name json).bind fun r hr => ?_
  cases r with
  | trigger r => exact ensures_ok hr
  | value r => exact ensures_fault _

theorem ensures_asValue {rule : Except RuleFault Rule} (h : Ensures rule P) (name : String) (json : Json) :
    Ensures (a.asValue name json rule) fun r => P (.value r) := by
  refine (ensures_child h name json).bind fun r hr => ?_
  cases r with
  | trigger r => exact ensures_fault _
  | value r => exact ensures_ok hr

theorem ensures_items (h : a.Carries P) (name : String) : Ensures (a.items name) fun items => ∀ i ∈ items, i.Carries P := by
  refine (ensures_required h name).bind fun argument hargument => ?_
  split
  case h_1 items hitems => exact ensures_ok (hargument.items items hitems)
  case h_2 => exact ensures_fault _

theorem ensures_trigger (h : a.Carries P) (name : String) : Ensures (a.trigger name) fun r => P (.trigger r) :=
  (ensures_required h name).bind fun _ hargument => ensures_asTrigger hargument.rule name _

theorem ensures_value (h : a.Carries P) (name : String) : Ensures (a.value name) fun r => P (.value r) :=
  (ensures_required h name).bind fun _ hargument => ensures_asValue hargument.rule name _

theorem ensures_several {α : Type} {Q : α → Prop} {rules : List α} (h : ∀ r ∈ rules, Q r) :
    Ensures (a.several rules) fun rules => 2 ≤ rules.length ∧ ∀ r ∈ rules, Q r := by
  unfold several
  split
  · exact ensures_fault _
  · exact ensures_ok ⟨by omega, h⟩

theorem ensures_triggers (h : a.Carries P) :
    Ensures a.triggers fun rules => 2 ≤ rules.length ∧ ∀ r ∈ rules, P (.trigger r) :=
  (ensures_items h "rules").bind fun _ hitems =>
    (ensures_mapM fun i hi => ensures_asTrigger (hitems i hi).rule "rules" i.json).bind fun _ => ensures_several

theorem ensures_values (h : a.Carries P) :
    Ensures a.values fun rules => 2 ≤ rules.length ∧ ∀ r ∈ rules, P (.value r) :=
  (ensures_items h "rules").bind fun _ hitems =>
    (ensures_mapM fun i hi => ensures_asValue (hitems i hi).rule "rules" i.json).bind fun _ => ensures_several

theorem ensures_triggerPair (h : a.Carries P) : Ensures a.triggerPair fun pair => P (.trigger pair.1) ∧ P (.trigger pair.2) :=
  (ensures_trigger h "rule1").bind fun _ hfirst => (ensures_trigger h "rule2").bind fun _ hsecond =>
    ensures_pure ⟨hfirst, hsecond⟩

theorem ensures_share {item : Item} (h : item.Carries P) : Ensures (a.share item) fun share => P (.value share.2) := by
  unfold share
  split
  case h_1 json rule weight hpair =>
    refine (ensures_asValue (h.pair json rule weight hpair) "shares" json).bind fun r hr => ?_
    split
    · exact ensures_ok hr
    · exact ensures_fault _
  case h_2 => exact ensures_fault _

theorem ensures_shares (h : a.Carries P) :
    Ensures a.shares fun shares => shares ≠ [] ∧ ∀ share ∈ shares, isShareWeight share.1 = true ∧ P (.value share.2) := by
  refine (ensures_items h "shares").bind fun _ hitems => ?_
  refine (ensures_mapM fun i hi => ensures_share (hitems i hi)).bind fun shares hshares => ?_
  dsimp only
  split
  · exact (ensures_fault (Q := fun _ => False) _).bind fun _ h => h.elim
  case isFalse hempty =>
    split
    · exact ensures_fault _
    case h_2 hnone =>
      rw [List.find?_eq_none] at hnone
      exact ensures_ok
        ⟨by simpa using hempty, fun share hshare => ⟨by simpa using hnone share hshare, hshares share hshare⟩⟩

theorem ensures_atLeastOne (name : String) : Ensures (a.atLeastOne name) fun n => 1 ≤ n := by
  refine ensures_bind fun n => ?_
  dsimp only
  split
  · exact ensures_fault _
  · exact ensures_ok (by omega)

end Arguments

/-! ## Reading -/

namespace Rule

variable {P : Rule → Prop}

theorem ensures_buildNamed {Q : Rule → Prop} (step : ∀ a : Arguments, a.Carries P → Ensures (build a) Q) {name : String}
    {members : Option (List (String × Argument))} (h : ∀ ms, members = some ms → ∀ m ∈ ms, m.2.Carries P) :
    Ensures (buildNamed name members) Q := by
  unfold buildNamed
  split
  case h_1 kind _ =>
    refine step _ fun m hm => ?_
    cases members with
    | none => cases hm
    | some ms => exact h ms rfl m hm
  case h_2 => exact ensures_error _

theorem ensures_refuseArguments (name : String) (found : Json) : Ensures (refuseArguments name found) P := by
  unfold refuseArguments
  split <;> exact ensures_error _

/-- What every kind hands on holds of every rule that is read, and of all rules inside arguments that are read. -/
theorem ensures_read_and_readMembers (step : ∀ a : Arguments, a.Carries P → Ensures (build a) P) :
    (∀ v, Ensures (read v) P) ∧ ∀ members, ∀ m ∈ readMembers members, m.2.Carries P := by
  have h := Rule.read.mutual_induct (fun v => Ensures (read v) P) (fun members => ∀ m ∈ readMembers members, m.2.Carries P)
    (fun v => ∀ items, readItems? v = some items → ∀ i ∈ items, i.Carries P)
    (fun items => ∀ i ∈ readItems items, i.Carries P)
    (fun v => ∀ json rule weight, readPair? v = some (json, rule, weight) → Ensures rule P)
    ?object ?null ?alone ?refused ?other ?list ?noList ?pair ?noPair ?noItems ?item ?noMembers ?member
  · exact ⟨h.1, h.2.1⟩
  case object =>
    intro name members ih
    exact ensures_buildNamed step fun ms hms => Option.some.inj hms ▸ ih
  case null => exact fun name => ensures_buildNamed step fun ms hms => nomatch hms
  case alone => exact fun name => ensures_buildNamed step fun ms hms => nomatch hms
  case refused =>
    intro name found hobject hnull
    rw [read.eq_4 name found hobject hnull]
    exact ensures_refuseArguments name found
  case other =>
    intro found hobject hnull halone hrefused
    rw [read.eq_5 found hobject hnull halone hrefused]
    exact ensures_error _
  case list =>
    intro items ih found hfound
    cases hfound
    exact ih
  case noList =>
    intro v hlist items hitems
    rw [readItems?.eq_2 v hlist] at hitems
    cases hitems
  case pair =>
    intro first second ih json rule weight hpair
    cases hpair
    exact ih
  case noPair =>
    intro v hnone json rule weight hpair
    rw [readPair?.eq_2 v hnone] at hpair
    cases hpair
  case noItems => simp [readItems]
  case item =>
    intro v rest hv hpair hrest
    exact List.forall_mem_cons.2 ⟨⟨hv, hpair⟩, hrest⟩
  case noMembers => simp [readMembers]
  case member =>
    intro name v rest hv hitems hrest
    exact List.forall_mem_cons.2 ⟨⟨hv, hitems⟩, hrest⟩

theorem ensures_ofJson (step : ∀ a : Arguments, a.Carries P → Ensures (build a) P) (v : Json) : Ensures (ofJson v) P :=
  (ensures_read_and_readMembers step).1 v.canonical

end Rule

end Arbiter
