import Arbiter.Proofs.Json.Canonical
import Arbiter.Proofs.Rule.WellFormed
import Arbiter.Proofs.Text.Digits

/-!
# Rules that are stored and read again

The arguments of a stored rule are what they were, if the values and the rules in them are read again.

* `Rule.stored`: the arguments of a stored rule as they are read. `Arguments.find?_stored`: what is found there.
* `Arguments.text_stored` and the lemmas beside it: one for each kind of argument.
* `Constant.ofJson_toJson`: constants are read again, though their weights are read in another order.
-/

namespace Arbiter

/-! ## Arguments -/

theorem asNat?_nat (n : Nat) : (Json.nat n).asNat? = some n := by
  simp [Json.nat, Json.asNat?]

namespace Rule

/-- A value as an argument. -/
def argumentOf (v : Json) : Argument := ⟨v, read v, readItems? v⟩

/-- A value as an item. -/
def itemOf (v : Json) : Item := ⟨v, read v, readPair? v⟩

theorem readMembers_eq_map (members : List (String × Json)) :
    readMembers members = members.map fun m => (m.1, argumentOf m.2) := by
  induction members with
  | nil => rfl
  | cons m rest ih => rw [readMembers, ih, List.map_cons, argumentOf]

theorem readItems_eq_map (items : List Json) : readItems items = items.map itemOf := by
  induction items with
  | nil => rfl
  | cons v rest ih => rw [readItems, ih, List.map_cons, itemOf]

/-- The arguments of a stored rule as they are read. -/
def stored (kind : Kind) (members : List (String × Json)) : Arguments :=
  ⟨kind, readMembers (Json.sortMembers (Json.canonicalMembers members))⟩

theorem ofName?_name (kind : Kind) : Kind.ofName? kind.name = some kind := by
  have h : ∀ k ∈ Kind.every, Kind.ofName? k.name = some k := by decide +kernel
  exact h kind kind.mem_every

theorem buildNamed_name (kind : Kind) (members : List (String × Json)) :
    buildNamed kind.name (some (readMembers (Json.sortMembers (Json.canonicalMembers members)))) =
      build (stored kind members) := by
  rw [buildNamed, ofName?_name]
  rfl

/-- A stored rule is built from its stored arguments. -/
theorem read_taggedJson (kind : Kind) (members : List (String × Json)) :
    read (taggedJson kind members).canonical = build (stored kind members) := buildNamed_name kind members

theorem ofArguments_object (kind : Kind) (members : List (String × Json)) :
    ofArguments kind.name (.object members) = build (stored kind members) := buildNamed_name kind members

end Rule

namespace Arguments

variable {kind : Kind} {members : List (String × Json)} {name : String} {v : Json}

open Rule (stored argumentOf itemOf)

/-- Of several members with one name the last one counts, and one that is `null` is absent. -/
theorem find?_stored (kind : Kind) (members : List (String × Json)) (name : String) :
    (stored kind members).find? name =
      ((Json.lookup name members).map fun v => argumentOf v.canonical).filter fun argument => !argument.json.isNull := by
  have hfind : ((stored kind members).members.find? (·.1 == name)).map (·.2) =
      (((Json.sortMembers (Json.canonicalMembers members)).find? (·.1 == name)).map (·.2)).map argumentOf := by
    rw [stored, Rule.readMembers_eq_map, List.find?_map, Option.map_map, Option.map_map]
    rfl
  rw [find?, hfind, Json.find?_canonical, Option.map_map]
  rfl

theorem find?_stored_some (h : Json.lookup name members = some v) (hv : v.canonical.isNull = false) :
    (stored kind members).find? name = some (argumentOf v.canonical) := by
  rw [find?_stored, h, Option.map_some, Option.filter_some, if_pos (by simp [argumentOf, hv])]

theorem find?_stored_none (h : Json.lookup name members = none) : (stored kind members).find? name = none := by
  rw [find?_stored, h, Option.map_none, Option.filter_none]

theorem required_stored (h : Json.lookup name members = some v) (hv : v.canonical.isNull = false) :
    (stored kind members).required name = .ok (argumentOf v.canonical) := by
  rw [required, find?_stored_some h hv]

section Get

variable {α : Type} {requirement : Requirement} {read : Json → Option α} {a : α}

theorem fitting_argumentOf {args : Arguments} (h : read v = some a) :
    args.fitting name requirement read (argumentOf v) = .ok a := by
  rw [fitting, argumentOf, h]

theorem get_stored (h : Json.lookup name members = some v) (hv : v.canonical.isNull = false)
    (hread : read v.canonical = some a) : (stored kind members).get name requirement read = .ok a := by
  rw [get, required_stored h hv]
  exact fitting_argumentOf hread

theorem get?_stored (h : Json.lookup name members = some v) (hv : v.canonical.isNull = false)
    (hread : read v.canonical = some a) : (stored kind members).get? name requirement read = .ok (some a) := by
  rw [get?, find?_stored_some h hv]
  dsimp only
  rw [fitting_argumentOf hread]
  rfl

theorem get?_stored_none (h : Json.lookup name members = none) :
    (stored kind members).get? name requirement read = .ok none := by
  rw [get?, find?_stored_none h]

end Get

theorem text_stored {s : String} (h : Json.lookup name members = some (.string s)) :
    (stored kind members).text name = .ok s := get_stored h rfl rfl

theorem natural_stored {n : Nat} (h : Json.lookup name members = some (.nat n)) :
    (stored kind members).natural name = .ok n := get_stored h rfl (asNat?_nat n)

theorem natural?_stored {n : Nat} (h : Json.lookup name members = some (.nat n)) :
    (stored kind members).natural? name = .ok (some n) := get?_stored h rfl (asNat?_nat n)

theorem natural?_stored_none (h : Json.lookup name members = none) :
    (stored kind members).natural? name = .ok none := get?_stored_none h

theorem moment_stored {t : Instant} (h : Json.lookup name members = some t.toJson)
    (ht : Instant.readWritten? t.text = some t) : (stored kind members).moment name = .ok t := get_stored h rfl ht

theorem moment?_stored {t : Instant} (h : Json.lookup name members = some t.toJson)
    (ht : Instant.readWritten? t.text = some t) : (stored kind members).moment? name = .ok (some t) := get?_stored h rfl ht

theorem atLeastOne_stored {n : Nat} (h : Json.lookup name members = some (.nat n)) (hn : 1 ≤ n) :
    (stored kind members).atLeastOne name = .ok n := by
  rw [atLeastOne, natural?_stored h]
  exact if_neg (by simp; omega)

theorem readSeed?_toJson (seed : Seed) : readSeed? seed.toJson.canonical = some seed := by
  cases seed with
  | number n => simp [Seed.toJson, Json.nat, Json.canonical, readSeed?, Json.asNat?]
  | text s => rfl

theorem seed?_stored {seed : Seed} (h : Json.lookup "seed" members = some seed.toJson) :
    (stored kind members).seed? = .ok (some seed) := by
  have hv : seed.toJson.canonical.isNull = false := by cases seed <;> rfl
  rw [seed?, find?_stored_some h hv]
  dsimp only [argumentOf]
  rw [readSeed?_toJson]

theorem seed?_stored_none (h : Json.lookup "seed" members = none) : (stored kind members).seed? = .ok none := by
  rw [seed?, find?_stored_none h]

theorem pull_stored {p : PullRef} (howner : Json.lookup "owner" members = some (.string p.owner))
    (hrepo : Json.lookup "repo" members = some (.string p.repo))
    (hnumber : Json.lookup "number" members = some (.nat p.number)) : (stored kind members).pull = .ok p := by
  rw [pull, text_stored howner, text_stored hrepo, natural_stored hnumber]
  rfl

/-! ## Children -/

theorem isNull_of_read {r : Rule} (h : Rule.read v = .ok r) : v.isNull = false := by
  cases v with
  | null => cases h
  | _ => rfl

theorem trigger_stored {r : Trigger} (h : Json.lookup name members = some v)
    (hread : Rule.read v.canonical = .ok (.trigger r)) : (stored kind members).trigger name = .ok r := by
  rw [trigger, required_stored h (isNull_of_read hread)]
  change (stored kind members).asTrigger name v.canonical (Rule.read v.canonical) = _
  rw [hread]
  rfl

theorem value_stored {r : ValueRule} (h : Json.lookup name members = some v)
    (hread : Rule.read v.canonical = .ok (.value r)) : (stored kind members).value name = .ok r := by
  rw [value, required_stored h (isNull_of_read hread)]
  change (stored kind members).asValue name v.canonical (Rule.read v.canonical) = _
  rw [hread]
  rfl

theorem items_stored {vs : List Json} (h : Json.lookup name members = some (.array vs)) :
    (stored kind members).items name = .ok (vs.map fun v => itemOf v.canonical) := by
  rw [items, required_stored h rfl]
  change Except.ok (Rule.readItems (Json.canonicalItems vs)) = _
  rw [Json.canonicalItems_eq_map, Rule.readItems_eq_map, List.map_map]
  rfl

theorem several_eq {α : Type} {args : Arguments} {rules : List α} (h : 2 ≤ rules.length) :
    args.several rules = .ok rules := if_neg (by omega)

/-- Children of one family, taken from the items in the way of that family. -/
theorem children_stored {α : Type} (take : Json → Except RuleFault Rule → Except RuleFault α) {write : α → Json}
    {rs : List α} (h : Json.lookup "rules" members = some (.array (rs.map write))) (hlength : 2 ≤ rs.length)
    (htake : ∀ r ∈ rs, take (write r).canonical (Rule.read (write r).canonical) = .ok r) :
    (do (stored kind members).several (← (← (stored kind members).items "rules").mapM fun i : Item => take i.json i.rule)) =
      .ok rs := by
  have hall : ((rs.map write).map fun v => itemOf v.canonical).mapM (fun i => take i.json i.rule) = .ok rs := by
    rw [List.map_map]
    exact mapM_map_of_ok htake
  rw [bind_of_ok (items_stored h), bind_of_ok hall, several_eq hlength]

theorem triggers_stored {rs : List Trigger} (h : Json.lookup "rules" members = some (.array (rs.map Trigger.toJson)))
    (hlength : 2 ≤ rs.length) (hread : ∀ r ∈ rs, Rule.read r.toJson.canonical = .ok (.trigger r)) :
    (stored kind members).triggers = .ok rs :=
  children_stored ((stored kind members).asTrigger "rules") h hlength fun r hr => by rw [hread r hr]; rfl

theorem values_stored {rs : List ValueRule} (h : Json.lookup "rules" members = some (.array (rs.map ValueRule.toJson)))
    (hlength : 2 ≤ rs.length) (hread : ∀ r ∈ rs, Rule.read r.toJson.canonical = .ok (.value r)) :
    (stored kind members).values = .ok rs :=
  children_stored ((stored kind members).asValue "rules") h hlength fun r hr => by rw [hread r hr]; rfl

theorem triggerPair_stored {first second : Trigger} {v' : Json} (hfirst : Json.lookup "rule1" members = some v)
    (hsecond : Json.lookup "rule2" members = some v') (hread : Rule.read v.canonical = .ok (.trigger first))
    (hread' : Rule.read v'.canonical = .ok (.trigger second)) :
    (stored kind members).triggerPair = .ok (first, second) := by
  rw [triggerPair, trigger_stored hfirst hread, trigger_stored hsecond hread']
  rfl

/-- A weight and a rule as they are stored. -/
def shareJson (share : Float × ValueRule) : Json := .array [share.2.toJson, .float share.1]

theorem shares_stored {shares : List (Float × ValueRule)}
    (h : Json.lookup "shares" members = some (.array (shares.map shareJson))) (hne : shares ≠ [])
    (hweights : ∀ share ∈ shares, isShareWeight share.1 = true)
    (hread : ∀ share ∈ shares, Rule.read share.2.toJson.canonical = .ok (.value share.2)) :
    (stored kind members).shares = .ok shares := by
  have hall : ((shares.map shareJson).map fun v => itemOf v.canonical).mapM (stored kind members).share = .ok shares := by
    rw [List.map_map]
    refine mapM_map_of_ok fun share hshare => ?_
    change (do
      let r ← (stored kind members).asValue "shares" _ (Rule.read share.2.toJson.canonical)
      (Except.ok (share.1, r) : Except RuleFault (Float × ValueRule))) = _
    rw [hread share hshare]
    rfl
  have hfind : shares.find? (fun s => !isShareWeight s.1) = none :=
    List.find?_eq_none.2 fun share hshare => by simp [hweights share hshare]
  rw [Arguments.shares, bind_of_ok (items_stored h), bind_of_ok hall]
  dsimp only
  rw [if_neg (by simpa using hne), hfind]

end Arguments

/-! ## Values -/

/-- The weight of an answer as it is stored. -/
def weightJson (e : Nat × Float) : String × Json := (toString e.1, .float e.2)

theorem readWeight_weightJson {e : Nat × Float} (h : e.1 ≤ word64Max ∧ 0.0 ≤ e.2) :
    Constant.readWeight (weightJson e) = .ok e := by
  rw [Constant.readWeight, weightJson, readWord?_toString h.1]
  exact if_pos h.2

theorem toString_nat_injective {m n : Nat} (h : toString m = toString n) : m = n := by
  have hdigits := congrArg (fun s : String => digitsValue s.toList) h
  simpa [Nat.toString_eq_repr] using hdigits

/-- What is in another order than the images of some items are the images of these items in another order. -/
theorem exists_map_of_perm {α β : Type} {f : α → β} : ∀ {images : List β} {l : List α}, images.Perm (l.map f) →
    ∃ l' : List α, l'.Perm l ∧ l'.map f = images
  | [], l, h => by
    have hnil : l = [] := List.map_eq_nil_iff.1 h.nil_eq.symm
    exact ⟨[], hnil ▸ .refl _, rfl⟩
  | b :: rest, l, h => by
    obtain ⟨a, ha, rfl⟩ := List.mem_map.1 (h.mem_iff.1 List.mem_cons_self)
    obtain ⟨before, after, rfl⟩ := List.append_of_mem ha
    have hmiddle : (before ++ a :: after).Perm (a :: (before ++ after)) := List.perm_middle
    obtain ⟨l', hl', rfl⟩ := exists_map_of_perm (List.Perm.cons_inv (h.trans (hmiddle.map f)))
    exact ⟨a :: l', (hl'.cons a).trans hmiddle.symm, rfl⟩

/-- The weights of a stored constant are members with different names, so they are read in another order, but all of them
are read. -/
theorem Constant.ofJson_toJson {c : Constant} (h : c.WellFormed) : ofJson c.toJson.canonical = .ok c := by
  cases c with
  | distribution weights =>
    have hcanonical : Json.canonicalMembers (weights.entries.map weightJson) = weights.entries.map weightJson := by
      rw [Json.canonicalMembers_eq_map, List.map_map]
      rfl
    have hnames : ((weights.entries.map weightJson).map (·.1)).Nodup := by
      rw [List.map_map]
      refine List.pairwise_map.2 (weights.ascending.imp fun {a b} hlt heq => ?_)
      exact absurd (toString_nat_injective heq) (Nat.ne_of_lt (Nat.compare_eq_lt.1 hlt))
    obtain ⟨entries, hperm, hentries⟩ := exists_map_of_perm (Json.sortMembers_perm hnames)
    have hread : (Json.sortMembers (weights.entries.map weightJson)).mapM readWeight = .ok entries := by
      rw [← hentries]
      exact mapM_map_of_ok fun e he => readWeight_weightJson (h e (hperm.mem_iff.1 he))
    change ofJson (.object (Json.sortMembers (Json.canonicalMembers (weights.entries.map weightJson)))) = _
    rw [hcanonical, ofJson, bind_of_ok hread, SortedMap.ofList_perm hperm]
    rfl
  | _ => rfl

theorem Rule.readIndexes?_keys (exclude : SortedMap Nat Unit) :
    readIndexes? (Json.array (exclude.keys.map .nat)).canonical = some exclude := by
  have hcanonical : Json.canonicalItems (exclude.keys.map Json.nat) = exclude.keys.map Json.nat := by
    rw [Json.canonicalItems_eq_map, List.map_map]
    rfl
  have hitems : (exclude.keys.map Json.nat).mapM Json.asNat? = some exclude.keys := by
    generalize exclude.keys = keys
    induction keys with
    | nil => rfl
    | cons n rest ih => simp [asNat?_nat, ih]
  have hentries : exclude.keys.map (fun i => (i, ())) = exclude.entries := by
    rw [SortedMap.keys, List.map_map]
    exact List.map_id _
  rw [Json.canonical, hcanonical, readIndexes?, Json.asArray?]
  simp only [Option.bind_eq_bind, Option.bind_some, hitems, hentries, SortedMap.ofList_perm (.refl _), Option.pure_def]

theorem Period.ofName?_name (period : Period) : Period.ofName? period.name = some period := by
  cases period <;> rfl

end Arbiter
