import Arbiter.Outcome.Conform
import Arbiter.Platform.Message

/-!
# The shape that a value is proposed in

The last check of a value and the message that resolves a market to it are two tables over the types of markets and the
kinds of values. They agree on every value that passes the check.

* `Conforms`: what the last check lets pass, and in what shape (`conform_eq_ok_iff`).
* `Sendable`: the values of a market's own shape. What passes the check is one (`Conforms.sendable`), and its message
  exists and names only answers that the market has (`Sendable.message`).
-/

namespace Arbiter

variable {m : Snapshot} {raw v : Outcome}

/-! ## The last check -/

/-- The value, as it came from the rules, passes the last check of the market in this shape. -/
inductive Conforms (m : Snapshot) : (raw v : Outcome) → Prop
  | cancel : Conforms m .cancel .cancel
  | certainty (hm : m.outcomeType = .binary) (b : Bool) : Conforms m (.bool b) (.probability (certainty b))
  | probability {p : Float} (hm : m.outcomeType = .binary) (hp : 0.0 ≤ p ∧ p ≤ 100.0) :
      Conforms m (.probability p) (.probability p)
  | numeric (hm : m.outcomeType = .pseudoNumeric) (x : Float) : Conforms m (.numeric x)
      (.numeric (floatMin (floatMax x (m.minValue.getD (-1.0 / 0.0))) (m.maxValue.getD (1.0 / 0.0))))
  | distribution {weights scaled : Distribution Float} (hm : m.outcomeType.isCategorical = true)
      (hc : Distribution.checkAnswers weights m.answers.length = .ok ())
      (hn : Distribution.normalize weights = .ok scaled) : Conforms m (.distribution weights) (.distribution scaled)

/-- Weights of a categorical market are checked and then scaled. -/
theorem conform_distribution (hm : m.outcomeType.isCategorical = true) (weights : Distribution Float) :
    Outcome.conform m (.distribution weights) =
      (Distribution.checkAnswers weights m.answers.length).bind fun () =>
        match Distribution.normalize weights with
        | .ok scaled => .ok (.distribution scaled)
        | .error fault => .error (.value fault) := by
  unfold Outcome.conform
  cases ht : m.outcomeType with
  | binary | pseudoNumeric => rw [ht] at hm; cases hm
  | freeResponse | multipleChoice => rfl

theorem conforms_of_distribution (hm : m.outcomeType.isCategorical = true) {weights : Distribution Float}
    (h : Outcome.conform m (.distribution weights) = .ok v) : Conforms m (.distribution weights) v := by
  rw [conform_distribution hm] at h
  cases hc : Distribution.checkAnswers weights m.answers.length with
  | error fault => rw [hc] at h; cases h
  | ok _ =>
    rw [hc] at h
    cases hn : Distribution.normalize weights with
    | error fault => simp only [Except.bind, hn] at h; cases h
    | ok scaled =>
      simp only [Except.bind, hn] at h
      cases h
      exact .distribution hm hc hn

theorem conform_eq_ok_iff : Outcome.conform m raw = .ok v ↔ Conforms m raw v := by
  constructor
  · intro h
    have hd := h
    unfold Outcome.conform at h
    split at h
    · cases h
      exact .cancel
    · rename_i b hm
      cases h
      exact .certainty hm b
    · rename_i p hm
      split at h
      · rename_i hp
        cases h
        exact .probability hm hp
      · cases h
    · rename_i x hm
      cases h
      exact .numeric hm x
    · rename_i weights hm
      exact conforms_of_distribution (by rw [hm]; rfl) hd
    · rename_i weights hm
      exact conforms_of_distribution (by rw [hm]; rfl) hd
    · cases h
  · intro h
    cases h with
    | cancel => unfold Outcome.conform; rfl
    | certainty hm b => unfold Outcome.conform; rw [hm]
    | probability hm hp => unfold Outcome.conform; rw [hm]; exact if_pos hp
    | numeric hm x => unfold Outcome.conform; rw [hm]
    | distribution hm hc hn => rw [conform_distribution hm, hc]; simp only [Except.bind, hn]

/-- Weights that pass the check are on answers of the market. -/
theorem checkAnswers_eq_ok_iff {ν : Type} {weights : Distribution ν} {count : Nat} :
    Distribution.checkAnswers weights count = .ok () ↔ ∀ index ∈ SortedMap.keys weights, index < count := by
  have hnone : Distribution.unknownAnswer? weights count = none ↔
      ∀ index ∈ SortedMap.keys weights, index < count := by
    simp [Distribution.unknownAnswer?, List.find?_eq_none]
  rw [← hnone]
  unfold Distribution.checkAnswers
  cases Distribution.unknownAnswer? weights count with
  | some index => exact ⟨nofun, nofun⟩
  | none => exact ⟨fun _ => rfl, fun _ => rfl⟩

/-- To scale weights changes no answer. -/
theorem normalize_keys {weights scaled : Distribution Float} (h : Distribution.normalize weights = .ok scaled) :
    SortedMap.keys scaled = SortedMap.keys weights := by
  unfold Distribution.normalize at h
  dsimp only at h
  split at h
  · cases h
  · cases h
    exact SortedMap.keys_mapValues _ _

/-! ## The message -/

/-- A value that the market can be resolved to. -/
inductive Sendable (m : Snapshot) : Outcome → Prop
  | cancel : Sendable m .cancel
  | probability {p : Float} (hm : m.outcomeType = .binary) (hp : 0.0 ≤ p ∧ p ≤ 100.0) : Sendable m (.probability p)
  | numeric {x : Float} (hm : m.outcomeType = .pseudoNumeric) : Sendable m (.numeric x)
  | distribution {weights : Distribution Float} (hm : m.outcomeType.isCategorical = true)
      (hi : ∀ index ∈ SortedMap.keys weights, index < m.answers.length) : Sendable m (.distribution weights)

/-- What passes the last check is of the market's shape. -/
theorem Conforms.sendable (h : Conforms m raw v) : Sendable m v := by
  cases h with
  | cancel => exact .cancel
  | certainty hm b => exact .probability hm (by cases b <;> decide)
  | probability hm hp => exact .probability hm hp
  | numeric hm x => exact .numeric hm
  | distribution hm hc hn => exact .distribution hm (by rw [normalize_keys hn]; exact checkAnswers_eq_ok_iff.1 hc)

/-- The answers that an object names, of those that a market is resolved to. -/
def namedAnswer? : Json → Option Json
  | .object members => Json.lookup "answer" members
  | _ => none

/-- The answers that a message resolves a market to. -/
def namedAnswers : Json → List Json
  | .object members =>
    match Json.lookup "resolutions" members with
    | some (.array items) => items.filterMap namedAnswer?
    | _ => []
  | _ => []

/-- The message to a market with answers. -/
theorem resolutionMessage_distribution (hm : m.outcomeType.isCategorical = true) (weights : Distribution Float) :
    resolutionMessage m (.distribution weights) = .ok (.object [("outcome", .string "MKT"),
      ("resolutions", .array ((weights.entries.filter fun e => decide (0 < e.2)).map fun e =>
        .object [("answer", .nat e.1), ("pct", finiteJson e.2)]))]) := by
  unfold resolutionMessage
  cases ht : m.outcomeType with
  | binary | pseudoNumeric => rw [ht] at hm; cases hm
  | freeResponse | multipleChoice => rfl

/-- A value of the market's shape has its message, and this names only answers that the market has. -/
theorem Sendable.message (h : Sendable m v) : ∃ message,
    resolutionMessage m v = .ok message ∧ ∀ answer ∈ namedAnswers message, ∃ i < m.answers.length, answer = .nat i := by
  cases h with
  | cancel =>
    refine ⟨cancellationMessage, by unfold resolutionMessage; rfl, ?_⟩
    simp [namedAnswers, cancellationMessage, Json.lookup]
  | @probability p hm hp =>
    unfold resolutionMessage
    rw [hm]
    dsimp only
    split
    · exact ⟨_, rfl, by simp [namedAnswers, Json.lookup]⟩
    · split
      · exact ⟨_, rfl, by simp [namedAnswers, Json.lookup]⟩
      · exact ⟨_, rfl, by simp [namedAnswers, Json.lookup]⟩
  | @numeric x hm =>
    unfold resolutionMessage
    rw [hm]
    exact ⟨_, rfl, by simp [namedAnswers, Json.lookup]⟩
  | @distribution weights hm hi =>
    refine ⟨_, resolutionMessage_distribution hm weights, fun answer ha => ?_⟩
    simp only [namedAnswers, Json.lookup, List.reverse_cons, List.reverse_nil, List.nil_append, List.cons_append,
      List.find?_cons, beq_self_eq_true, Option.map_some, List.filterMap_map, List.mem_filterMap, List.mem_filter,
      Function.comp_apply, namedAnswer?] at ha
    obtain ⟨e, ⟨he, -⟩, ha⟩ := ha
    simp at ha
    exact ⟨e.1, hi e.1 (List.mem_map_of_mem he), ha.symm⟩

end Arbiter
