import Arbiter.Market.Basic
import Arbiter.Proofs.Rule.Nodes
import Mathlib.Data.List.Basic
import Mathlib.Data.List.Induction
import Mathlib.Data.List.Nodup

/-!
# The glossary of an explanation

The explanation of a set of rules ends with one line for each kind of rule that it has, in the order in which a walk over
the trees first meets the kinds.

* `Rule.Walk`: the nodes of trees as a depth-first walk meets them. There is one walk, and it meets every node.
* `firstOccurrences_sorted`: what is kept of a list stands where it first occurred.
* `explainRules_glossary`: the glossary of an explanation.
-/

namespace Arbiter

/-! ## First occurrences -/

section FirstOccurrences

variable {α : Type} [DecidableEq α] {items : List α}

theorem firstOccurrences_snoc (items : List α) (a : α) :
    firstOccurrences (items ++ [a]) =
      if a ∈ firstOccurrences items then firstOccurrences items else firstOccurrences items ++ [a] := by
  rw [firstOccurrences, List.foldl_append]
  rfl

theorem mem_firstOccurrences {a : α} : a ∈ firstOccurrences items ↔ a ∈ items := by
  induction items using List.reverseRecOn with
  | nil => simp [firstOccurrences]
  | append_singleton items b ih =>
    rw [firstOccurrences_snoc]
    split
    case isTrue hb =>
      constructor
      · intro ha
        exact List.mem_append_left _ (ih.1 ha)
      · intro ha
        rcases List.mem_append.1 ha with ha | ha
        · exact ih.2 ha
        · exact List.mem_singleton.1 ha ▸ hb
    case isFalse => simp [ih]

/-- What is kept of a list stands in the order of the first occurrences. -/
theorem firstOccurrences_sorted (items : List α) :
    (firstOccurrences items).Pairwise fun a b => items.idxOf a < items.idxOf b := by
  induction items using List.reverseRecOn with
  | nil => simp [firstOccurrences]
  | append_singleton items b ih =>
    -- an item behind the others moves no first occurrence
    have hkept : (firstOccurrences items).Pairwise fun x y => (items ++ [b]).idxOf x < (items ++ [b]).idxOf y := by
      refine ih.imp_of_mem fun hx hy hlt => ?_
      rwa [List.idxOf_append_of_mem (mem_firstOccurrences.1 hx), List.idxOf_append_of_mem (mem_firstOccurrences.1 hy)]
    rw [firstOccurrences_snoc]
    split
    case isTrue => exact hkept
    case isFalse hb =>
      refine List.pairwise_append.2 ⟨hkept, List.pairwise_singleton _ _, fun x hx y hy => ?_⟩
      obtain rfl := List.mem_singleton.1 hy
      have hnew : y ∉ items := fun hmem => hb (mem_firstOccurrences.2 hmem)
      have hold := mem_firstOccurrences.1 hx
      rw [List.idxOf_append_of_mem hold, List.idxOf_append_of_notMem hnew]
      have hlt := List.idxOf_lt_length_of_mem hold
      omega

theorem nodup_firstOccurrences (items : List α) : (firstOccurrences items).Nodup :=
  (firstOccurrences_sorted items).imp fun hlt heq => by simp [heq] at hlt

end FirstOccurrences

/-! ## Walks -/

namespace Trigger

theorem listKinds_eq_flatMap (rs : List Trigger) : listKinds rs = rs.flatMap nodeKinds := by
  induction rs with
  | nil => rfl
  | cons r rest ih => simp [listKinds, ih]

theorem nodeKinds_eq_cons (r : Trigger) : r.nodeKinds = r.kind :: r.children.flatMap nodeKinds := by
  cases r <;> simp [nodeKinds, kind, children, listKinds_eq_flatMap]

end Trigger

namespace ValueRule

theorem listKinds_eq_flatMap (rs : List ValueRule) : listKinds rs = rs.flatMap nodeKinds := by
  induction rs with
  | nil => rfl
  | cons r rest ih => simp [listKinds, ih]

theorem shareKinds_eq_flatMap (shares : List (Float × ValueRule)) :
    shareKinds shares = (shares.map (·.2)).flatMap nodeKinds := by
  induction shares with
  | nil => rfl
  | cons share rest ih => simp [shareKinds, ih]

end ValueRule

namespace Rule

theorem nodeKinds_eq_cons (r : Rule) : r.nodeKinds = r.kind :: r.subrules.flatMap nodeKinds := by
  cases r with
  | trigger r => simp [nodeKinds, kind, subrules, Trigger.nodeKinds_eq_cons r, List.flatMap_map]
  | value r =>
    -- only here a child belongs to the other family: the premise, which stands before the value
    cases r with
    | userStat _ metric _ => cases metric <;> rfl
    | _ =>
      simp [nodeKinds, kind, subrules, ValueRule.nodeKinds, ValueRule.kind, ValueRule.children, List.flatMap_map,
        ValueRule.listKinds_eq_flatMap, ValueRule.shareKinds_eq_flatMap]

/-- The nodes of trees in the order in which a depth-first walk meets them: each node, what stands below it, and then the
trees that follow. -/
inductive Walk : List Rule → List Rule → Prop
  | nil : Walk [] []
  | cons {r : Rule} {rest below later : List Rule} (hbelow : Walk r.subrules below) (hlater : Walk rest later) :
      Walk (r :: rest) (r :: (below ++ later))

namespace Walk

variable {forest nodes : List Rule}

theorem exists_of_below (h : ∀ r ∈ forest, ∃ below, Walk r.subrules below) : ∃ nodes, Walk forest nodes := by
  induction forest with
  | nil => exact ⟨[], .nil⟩
  | cons r rest ih =>
    obtain ⟨below, hbelow⟩ := h r List.mem_cons_self
    obtain ⟨later, hlater⟩ := ih fun c hc => h c (List.mem_cons_of_mem r hc)
    exact ⟨r :: (below ++ later), .cons hbelow hlater⟩

/-- Every list of trees has a walk. -/
theorem exists_nodes (forest : List Rule) : ∃ nodes, Walk forest nodes :=
  exists_of_below fun r _ =>
    subrules_induction (motive := fun r => ∃ below, Walk r.subrules below) (fun _ ih => exists_of_below ih) r

/-- There is only one walk. -/
theorem unique {others : List Rule} (h : Walk forest nodes) (h' : Walk forest others) : nodes = others := by
  induction h generalizing others with
  | nil => cases h'; rfl
  | cons _ _ ihbelow ihlater =>
    cases h' with
    | cons hbelow hlater => rw [ihbelow hbelow, ihlater hlater]

theorem map_kind (h : Walk forest nodes) : nodes.map kind = forest.flatMap nodeKinds := by
  induction h with
  | nil => rfl
  | @cons r _ _ _ _ _ ihbelow ihlater => simp [nodeKinds_eq_cons r, ihbelow, ihlater]

/-- A walk meets the nodes of the trees and nothing else. -/
theorem mem_iff {node : Rule} (h : Walk forest nodes) : node ∈ nodes ↔ ∃ root ∈ forest, node.StandsIn root := by
  induction h with
  | nil => simp
  | @cons r rest below later _ _ ihbelow ihlater =>
    have hroot : node.StandsIn r ↔ node = r ∨ ∃ child ∈ r.subrules, node.StandsIn child := by
      constructor
      · intro hin
        cases hin with
        | root => exact .inl rfl
        | inner hchild hin => exact .inr ⟨_, hchild, hin⟩
      · rintro (rfl | ⟨child, hchild, hin⟩)
        · exact .root
        · exact .inner hchild hin
    rw [List.exists_mem_cons_iff, hroot, ← ihbelow, ← ihlater]
    simp [or_assoc]

end Walk

end Rule

/-! ## The glossary -/

theorem Kind.name_injective : Function.Injective Kind.name := fun k l h => by
  have hread := Rule.ofName?_name k
  rw [h, Rule.ofName?_name l] at hread
  exact (Option.some.inj hread).symm

/-- The line of a kind in a glossary. -/
def Kind.glossaryLine (k : Kind) : String := "- `" ++ k.name ++ "`: " ++ k.summary

/-- The kinds that an explanation lists. -/
def glossaryKinds (triggers : List Trigger) (values : List ValueRule) : List Kind :=
  firstOccurrences (triggers.flatMap Trigger.nodeKinds ++ values.flatMap ValueRule.nodeKinds)

/-- The lines of a glossary, each with its end. -/
def glossary (kinds : List Kind) : String := String.join (kinds.map fun k => k.glossaryLine ++ "\n")

theorem Kind.glossaryLine_free (k : Kind) : '\n' ∉ k.glossaryLine.toList := by
  have hname : '\n' ∉ k.name.toList := by
    cases k <;> · rw [name, String.toList_ofList]; decide
  have hsummary : '\n' ∉ k.summary.toList := by
    cases k <;> · rw [summary, String.toList_ofList]; decide
  simp [glossaryLine, hname, hsummary]

/-- The lines of a glossary can be told apart. -/
theorem glossary_splitOn (kinds : List Kind) :
    (glossary kinds).toList.splitOn '\n' = kinds.map (·.glossaryLine.toList) ++ [[]] := by
  have hjoin : (glossary kinds).toList = ['\n'].intercalate (kinds.map (·.glossaryLine.toList) ++ [[]]) := by
    induction kinds with
    | nil => rfl
    | cons k rest ih =>
      have hmore : rest.map (·.glossaryLine.toList) ++ [[]] ≠ [] := by simp
      have hline : (glossary (k :: rest)).toList = k.glossaryLine.toList ++ ['\n'] ++ (glossary rest).toList := by
        simp [glossary]
      rw [hline, ih, List.map_cons, List.cons_append, List.intercalate_cons_of_ne_nil hmore]
  rw [hjoin, List.splitOn_intercalate]
  · intro line hline
    rcases List.mem_append.1 hline with hline | hline
    · obtain ⟨k, -, rfl⟩ := List.mem_map.1 hline
      exact k.glossaryLine_free
    · simp [List.mem_singleton.1 hline]
  · simp

theorem glossaryKinds_eq {triggers : List Trigger} {values : List ValueRule} {nodes : List Rule}
    (h : Rule.Walk (triggers.map .trigger ++ values.map .value) nodes) :
    glossaryKinds triggers values = firstOccurrences (nodes.map Rule.kind) := by
  rw [h.map_kind]
  simp [glossaryKinds, List.flatMap_map, Rule.nodeKinds]

/-- The glossary of an explanation has a line for every kind that some node has, whatever the trees are: for each kind
one line, and the lines in the order in which a walk over the triggers and then the value rules first meets the kinds. -/
theorem explainRules_glossary (triggers : List Trigger) (values : List ValueRule) :
    ∃ nodes before,
      Rule.Walk (triggers.map .trigger ++ values.map .value) nodes ∧
      (∀ node, node ∈ nodes ↔
        (∃ r ∈ triggers, node.StandsIn (.trigger r)) ∨ ∃ r ∈ values, node.StandsIn (.value r)) ∧
      (∀ k, k ∈ glossaryKinds triggers values ↔ ∃ node ∈ nodes, node.kind = k) ∧
      ((glossaryKinds triggers values).map Kind.name).Nodup ∧
      (glossaryKinds triggers values).Pairwise
        (fun k l => (nodes.map Rule.kind).idxOf k < (nodes.map Rule.kind).idxOf l) ∧
      explainRules triggers values = before ++ "\nRules used:\n" ++ glossary (glossaryKinds triggers values) ∧
      (glossary (glossaryKinds triggers values)).toList.splitOn '\n' =
        (glossaryKinds triggers values).map (·.glossaryLine.toList) ++ [[]] := by
  obtain ⟨nodes, hwalk⟩ := Rule.Walk.exists_nodes (triggers.map .trigger ++ values.map .value)
  refine ⟨nodes, _, hwalk, fun node => ?nodes, fun k => ?kinds, ?once, ?order, rfl, glossary_splitOn _⟩
  case nodes => simp [hwalk.mem_iff, or_and_right, exists_or]
  case kinds => simp [glossaryKinds_eq hwalk, mem_firstOccurrences]
  case once => exact List.Nodup.map Kind.name_injective (nodup_firstOccurrences _)
  case order =>
    rw [glossaryKinds_eq hwalk]
    exact firstOccurrences_sorted _

/-- The premise of a conditional inside a blend counts, and it stands before the value. -/
example :
    glossaryKinds [.not (.thisMarketClosed none)]
      [.multipleValues [(1, .conditional (.not (.otherMarketClosed "")) .round), (2, .round)], .currentValue] =
    [.not, .thisMarketClosed, .multipleValues, .conditional, .otherMarketClosed, .round, .currentValue] := by
  decide

end Arbiter
