import Arbiter.Proofs.Explanation.Value

/-!
# The explanation of a market agrees with its resolution

Once a market was found to resolve, and to what, all that its explanation needs is remembered. So the explanation succeeds,
asks nothing, and shows what the rules came to.

* `Trigger.headed_of_explained`, `Shown.headed`: the explanation of a tree begins with its root and value.
* `Agrees`: an explanation agrees with a value to resolve to. `agrees_of_succeeds`: that of the market does.
-/

namespace Arbiter

open PassM

variable {w : World} {s t : Moment} {snapshot : Snapshot} {now : Instant}

/-! ## Roots of explained trees -/

namespace Trigger

theorem deep_explainParts {r : Trigger} {depth : Nat} {parts : List (Part Course Bool)}
    (hskipped : ∀ part ∈ parts, Deep depth part.skipped)
    (hparts : ∀ part ∈ parts, ∀ {s t lines b}, Succeeds w part.explained s (lines, b) t → Deep depth lines) :
    ∀ {seen s t lines values}, Succeeds w (r.explainParts seen parts) s (lines, values) t → Deep depth lines := by
  induction parts with
  | nil =>
    intro seen s t lines values h
    obtain ⟨heq, -⟩ := succeeds_pure.1 h
    cases heq
    exact deep_nil
  | cons part rest ih =>
    intro seen s t lines values h
    obtain ⟨⟨first, value⟩, u, hfirst, h⟩ := succeeds_bind.1 h
    have hdeep : Deep depth first := hparts part List.mem_cons_self hfirst
    have hrest : ∀ other ∈ rest, other ∈ part :: rest := fun other ho => List.mem_cons_of_mem part ho
    dsimp only at h
    split at h
    · obtain ⟨heq, -⟩ := succeeds_pure.1 h
      cases heq
      exact hdeep.append (List.forall_mem_flatMap.2 fun other ho => hskipped other (hrest other ho))
    · obtain ⟨⟨more, seen'⟩, _, hmore, h⟩ := succeeds_bind.1 h
      obtain ⟨heq, -⟩ := succeeds_pure.1 h
      cases heq
      exact hdeep.append (ih (fun other ho => hskipped other (hrest other ho))
        (fun other ho => hparts other (hrest other ho)) hmore)

theorem headed_explainLeaf {p : Pass Course} {r : Trigger} {depth : Nat} {question : Option String} {lines : List Line}
    {b : Bool} (h : Succeeds w (explainLeaf p r depth question) s (lines, b) t) :
    Headed depth r.phrase (.value (toString b)) lines := by
  obtain ⟨value, _, -, h⟩ := succeeds_bind.1 h
  obtain ⟨heq, -⟩ := succeeds_pure.1 h
  cases heq
  exact ⟨question, [], rfl, deep_nil⟩

/-- The explanation of a trigger begins with its root and its value. -/
theorem headed_of_explained {p : Pass Course} (r : Trigger) : ∀ {depth s t lines b},
    Succeeds w (r.explainIn p depth) s (lines, b) t → Headed depth r.phrase (.value (toString b)) lines := by
  induction r using children_induction with
  | step r ih =>
    intro depth s t lines b h
    cases hr : r.isJoint with
    | true =>
      rw [explainIn_joint p hr] at h
      obtain ⟨⟨below, values⟩, _, hbelow, h⟩ := succeeds_bind.1 h
      obtain ⟨heq, -⟩ := succeeds_pure.1 h
      cases heq
      refine ⟨none, below, rfl, deep_explainParts ?_ ?_ hbelow⟩
      · exact List.forall_mem_map.2 fun c _ => (c.skipped_explainSkipped (depth + 1)).headed.deep
      · exact List.forall_mem_map.2 fun c hc _ _ _ _ h => (ih c hc h).deep
    | false =>
      cases r with
      | atTime _ | thisMarketClosed _ | pullFinished _ => exact headed_explainLeaf h
      | otherMarketClosed url | otherMarketResolved url =>
        obtain ⟨reference, _, -, h⟩ := succeeds_bind.1 h
        exact headed_explainLeaf h
      | _ => cases hr

end Trigger

/-- The children of a node are explained deeper than the node. -/
theorem ValueRule.deep_placed {node : List Nat} {depth : Nat} {r : ValueRule} :
    ∀ c ∈ r.placed node depth, depth + 1 ≤ c.depth ∧ Deep (depth + 1) c.above := by
  intro c hc
  cases r with
  | negate child =>
    cases List.mem_singleton.1 hc
    exact ⟨Nat.le_refl _, deep_nil⟩
  | sum children | product children | modulus children =>
    obtain ⟨habove, hdepth, -⟩ := mem_placedEach hc
    rw [habove, hdepth]
    exact ⟨Nat.le_refl _, deep_nil⟩
  | multipleValues shares =>
    obtain ⟨weight, habove, hdepth, -⟩ := mem_placedShares hc
    rw [habove, hdepth]
    exact ⟨Nat.le_succ _, List.forall_mem_singleton.2 (Nat.le_refl (depth + 1))⟩
  | _ => cases hc

mutual

/-- The explanation of a value rule begins with its root and its value. -/
theorem Shown.headed {p : Pass Course} {node : List Nat} {depth : Nat} {r : ValueRule} {s t : Moment} {v : Outcome}
    {lines : List Line} : Shown w p node depth r s v t lines → Headed depth r.phrase (.value v.text) lines
  | .node _ _ under => ⟨_, _, rfl, (r.bare_steps (depth + 1)).deep.append under.deep⟩

theorem ShownUnder.deep {p : Pass Course} {node : List Nat} {depth : Nat} {r : ValueRule} {s t : Moment}
    {lines : List Line} : ShownUnder w p node depth r s t lines → Deep (depth + 1) lines
  | .leaf _ => deep_nil
  | .joint _ children => children.deep ValueRule.deep_placed
  | .held holds child => (Trigger.headed_of_explained _ holds).deep.append child.headed.deep
  | .failed fails =>
    (Trigger.headed_of_explained _ fails).deep.append (ValueRule.skipped_explainSkipped _ (depth + 1)).headed.deep

theorem ShownEach.deep {p : Pass Course} {cs : List Placed} {depth : Nat} {s t : Moment} {lines : List Line}
    (hcs : ∀ c ∈ cs, depth ≤ c.depth ∧ Deep depth c.above) : ShownEach w p cs s t lines → Deep depth lines
  | .done => deep_nil
  | .cancels first => by
    obtain ⟨⟨hc, habove⟩, hrest⟩ := List.forall_mem_cons.1 hcs
    refine (habove.append (first.headed.deep.mono hc)).append (List.forall_mem_flatMap.2 fun c hm => ?_)
    obtain ⟨hc, habove⟩ := hrest c hm
    exact habove.append ((c.rule.skipped_explainSkipped c.depth).headed.deep.mono hc)
  | .next first _ others => by
    obtain ⟨⟨hc, habove⟩, hrest⟩ := List.forall_mem_cons.1 hcs
    exact (habove.append (first.headed.deep.mono hc)).append (others.deep hrest)

end

/-! ## Agreement with a proposal -/

/-- At a later time of a pass one of the triggers holds and those before it do not. The lines show these as false, that one
as true and those after it as not evaluated. -/
def FirstShown (p : Pass Course) (later : Memory) (rs : List Trigger) (lines : List Line) : Prop :=
  ∃ before fired after, rs = before ++ fired :: after ∧
    (∀ r ∈ before, (r.evaluate p).runFrom later = pure (.ok false, later)) ∧
    (fired.evaluate p).runFrom later = pure (.ok true, later) ∧
    roots lines = before.map (fun r => (r.phrase, some (.value "false"))) ++
      (fired.phrase, some (.value "true")) :: after.map fun r => (r.phrase, some .notEvaluated)

/-- At a later time of a pass the explanation of a market is at hand, without a question, and agrees with a proposal of `v`:
it shows the first trigger that holds, and the one value rule with a value whose shape in the market is `v`. -/
structure Agrees (p : Pass Course) (market : Market) (later : Memory) (v : Outcome) (e : MarketExplanation) : Prop where
  explained : (market.explainIn p).runFrom later = pure (.ok e, later)
  triggers : FirstShown p later market.triggers e.triggers
  value : ∃ r raw, market.values = [r] ∧ (r.evaluate p [0]).runFrom later = pure (.ok raw, later) ∧
    Outcome.conform p.market raw = .ok v ∧ roots e.values = [(r.phrase, some (.value raw.text))]

/-- After a trigger that fired all lines are known. -/
theorem explainTriggers_fired (p : Pass Course) (rs : List Trigger) :
    explainTriggers p true rs = pure (rs.flatMap (Trigger.explainSkipped 0)) := by
  induction rs with
  | nil => rfl
  | cons r rest ih =>
    simp only [explainTriggers, ih, if_true, pure_bind]
    rfl

theorem roots_skipped (rs : List Trigger) :
    roots (rs.flatMap (Trigger.explainSkipped 0)) = rs.map fun r => (r.phrase, some .notEvaluated) := by
  induction rs with
  | nil => rfl
  | cons r rest ih =>
    rw [List.flatMap_cons, roots_append, ih, (r.skipped_explainSkipped 0).headed.roots]
    rfl

/-- The explanation of triggers goes on after one of them by the value that it was shown with. -/
theorem explainTriggers_next {p : Pass Course} {r : Trigger} {rest : List Trigger} {b : Bool} {lines more : List Line}
    {later : Memory} (hr : (r.explainIn p 0).runFrom later = pure (.ok (lines, b), later))
    (hrest : (explainTriggers p b rest).runFrom later = pure (.ok more, later)) :
    (explainTriggers p false (r :: rest)).runFrom later = pure (.ok (lines ++ more), later) := by
  rw [explainTriggers, if_neg Bool.false_ne_true, PassM.runFrom_bind_of hr, PassM.runFrom_bind_of hrest]
  rfl

/-- Once a trigger fired, the triggers are explained as they came out. -/
theorem explainTriggers_later {rs : List Trigger} :
    ∀ {s : Moment}, Succeeds w (anyTrue (rs.map fun r => r.evaluate (worldPass snapshot now))) s true t →
      ∃ lines, ∀ later, t.memory ≤ later → FirstShown (worldPass snapshot now) later rs lines ∧
        (explainTriggers (worldPass snapshot now) false rs).runFrom later = pure (.ok lines, later) := by
  have law := durableReads snapshot now
  induction rs with
  | nil =>
    intro s h
    exact absurd (succeeds_pure.1 h).1 Bool.false_ne_true
  | cons r rest ih =>
    intro s h
    obtain ⟨b, u, hr, h⟩ := succeeds_bind.1 h
    obtain ⟨lines, hlines, hexplained⟩ := r.explained_later 0 hr
    have hroots : roots lines = [(r.phrase, some (.value (toString b)))] := (r.headed_of_explained hlines).roots
    have hvalue := ((law.trigger r).settled hr).2
    cases b with
    | true =>
      obtain ⟨-, rfl⟩ := succeeds_pure.1 h
      refine ⟨lines ++ rest.flatMap (Trigger.explainSkipped 0), fun later hlater => ⟨?_, ?_⟩⟩
      · refine ⟨[], r, rest, rfl, by simp, hvalue later hlater, ?_⟩
        rw [roots_append, hroots, roots_skipped]
        rfl
      · refine explainTriggers_next (hexplained later hlater) ?_
        rw [explainTriggers_fired]
        rfl
    | false =>
      obtain ⟨more, hmore⟩ := ih h
      have hrest : u.memory ≤ t.memory :=
        ((law.anyTrue _ (List.forall_mem_map.2 fun r _ => law.trigger r)).settled h).1
      refine ⟨lines ++ more, fun later hlater => ?_⟩
      have hu : u.memory ≤ later := Memory.le_trans hrest hlater
      obtain ⟨⟨before, fired, after, hsplit, hbefore, hfired, hshown⟩, hexplain⟩ := hmore later hlater
      refine ⟨⟨r :: before, fired, after, ?_, ?_, hfired, ?_⟩, explainTriggers_next (hexplained later hu) hexplain⟩
      · rw [hsplit, List.cons_append]
      · exact List.forall_mem_cons.2 ⟨hvalue later hu, hbefore⟩
      · rw [roots_append, hroots, hshown]
        rfl

/-- Once the one value rule came to a value, it is explained with this value. -/
theorem explainValues_later {r : ValueRule} {raw : Outcome}
    (h : Succeeds w (r.evaluate (worldPass snapshot now) [0]) s raw t) :
    ∃ lines, roots lines = [(r.phrase, some (.value raw.text))] ∧ ∀ later, t.memory ≤ later →
      (explainValues (worldPass snapshot now) 0 [r]).runFrom later = pure (.ok lines, later) := by
  obtain ⟨lines, hshown, hlater⟩ := r.explained_later [0] 0 h
  refine ⟨lines, hshown.headed.roots, fun later h => ?_⟩
  rw [explainValues, PassM.runFrom_bind_of (hlater later h)]
  simp only [explainValues, pure_bind, List.append_nil, PassM.runFrom_pure]

/-- Whatever is remembered since a market was found to resolve, and then to what, its explanation agrees. -/
theorem agrees_of_succeeds {market : Market} {w' : World} {s' t' : Moment} {v : Outcome} {later : Memory}
    (hfires : Succeeds w (market.shouldResolve (worldPass snapshot now)) s true t) (hmeanwhile : t.memory ≤ s'.memory)
    (hvalue : Succeeds w' (market.resolveTo (worldPass snapshot now)) s' v t') (ht' : t'.memory ≤ later) :
    ∃ e, Agrees (worldPass snapshot now) market later v e := by
  have hgrows : s'.memory ≤ t'.memory := (((durableReads snapshot now).resolveTo market).settled hvalue).1
  have ht : t.memory ≤ later := Memory.le_trans hmeanwhile (Memory.le_trans hgrows ht')
  unfold Market.shouldResolve at hfires
  split at hfires
  · exact absurd (succeeds_pure.1 hfires).1 Bool.false_ne_true
  unfold Market.resolveTo at hvalue
  split at hvalue
  · rename_i r hr
    obtain ⟨raw, u, hraw, hfits⟩ := succeeds_bind.1 hvalue
    obtain ⟨hconform, rfl⟩ := succeeds_ofExcept.1 hfits
    obtain ⟨lines, hlines⟩ := explainTriggers_later hfires
    obtain ⟨shown, hshown, hvalues⟩ := explainValues_later hraw
    obtain ⟨hfirst, hexplain⟩ := hlines later ht
    have hlater := (((durableReads snapshot now).value [0] r).settled hraw).2 later ht'
    have hexplained : (market.explainIn (worldPass snapshot now)).runFrom later = pure (.ok ⟨lines, shown⟩, later) := by
      rw [Market.explainIn, PassM.runFrom_bind_of hexplain, hr, PassM.runFrom_bind_of (hvalues later ht')]
      rfl
    exact ⟨⟨lines, shown⟩, hexplained, hfirst, r, raw, hr, hlater, hconform, hshown⟩
  · exact absurd hvalue not_succeeds_fail

end Arbiter
