import Arbiter.Json.Reader
import Arbiter.Proofs.Json.Numeral
import Mathlib.Tactic.IntervalCases

/-!
# JSON that is written and read again

* `Json.reread?`: what a value is read as from its text, unless something is nested too deep or a number does not fit.
* `Json.legible`: whether that is the value itself.
* `Json.Asked`: all members of the value are asked for by a shape.
* `Json.readAs?_compact`: a value whose members are all asked for is read as this from its text.
-/

namespace Arbiter.Json

/-! ## Texts -/

section

variable {fuel : Nat} {seen : List Char}

/-- A control is read from the escape that is written for it. -/
theorem readEscapedUnit_fourHex {n : Nat} (h : n < 0x20) (rest : List Char) :
    readEscapedUnit ((fourHex n).toList ++ rest) = some (Char.ofNat n, rest) := by
  interval_cases n <;> rfl

/-- A character is read as it is written. -/
theorem readText_escapedChar (c : Char) (rest : List Char) :
    readText (fuel + 1) seen ((escapedChar c).toList ++ rest) = readText fuel (c :: seen) rest := by
  unfold escapedChar
  split
  case h_8 hquote hslash hn hr ht hb hf =>
    by_cases hcontrol : c.toNat < 0x20
    · have hread := readEscapedUnit_fourHex hcontrol rest
      have hmark : "\\u".toList = ['\\', 'u'] := rfl
      rw [Char.ofNat_toNat] at hread
      rw [if_pos hcontrol, String.toList_append, hmark, List.append_assoc]
      simp only [List.cons_append, List.nil_append, readText, hread]
      rfl
    · have htext : c.toString.toList = [c] := by simp [Char.toString]
      rw [if_neg hcontrol, htext, List.singleton_append, readText.eq_def]
      dsimp only
      rw [if_neg hquote, if_neg hslash, if_neg hcontrol]
  all_goals rfl

theorem escapedChar_ne_nil (c : Char) : (escapedChar c).toList ≠ [] := by
  unfold escapedChar
  split
  case h_8 => split <;> simp [Char.toString]
  all_goals simp

/-- A text is read as it is written, if the fuel lasts for its characters. -/
theorem readText_escaped : ∀ (s : List Char) (fuel : Nat) (seen rest : List Char), s.length < fuel →
    readText fuel seen (s.flatMap (fun c => (escapedChar c).toList) ++ '"' :: rest) =
      some (String.ofList (seen.reverse ++ s), rest)
  | [], 0, _, _, h => absurd h (Nat.not_lt_zero _)
  | [], fuel + 1, seen, rest, _ => by
    rw [List.flatMap_nil, List.nil_append, List.append_nil]
    rfl
  | _ :: _, 0, _, _, h => absurd h (Nat.not_lt_zero _)
  | c :: s, fuel + 1, seen, rest, h => by
    rw [List.flatMap_cons, List.append_assoc, readText_escapedChar,
      readText_escaped s fuel _ rest (Nat.lt_of_succ_lt_succ h)]
    simp

theorem length_le_flatMap_escapedChar : ∀ s : List Char, s.length ≤ (s.flatMap fun c => (escapedChar c).toList).length
  | [] => Nat.le_refl _
  | c :: s => by
    have hpos := List.length_pos_iff.2 (escapedChar_ne_nil c)
    have ih := length_le_flatMap_escapedChar s
    rw [List.flatMap_cons, List.length_append, List.length_cons]
    omega

theorem toList_stringText (s : String) :
    (stringText s).toList = '"' :: (s.toList.flatMap (fun c => (escapedChar c).toList) ++ ['"']) := by
  unfold stringText
  rw [String.toList_append, String.toList_append, String.toList_join, List.flatMap_map]
  rfl

end

/-! ## Values -/

mutual

/-- What a value is read as from its text: numbers are what their texts are read as, a double that is not finite is written
as `null`, and at most so many lists and objects stand inside each other. -/
def reread? : (depth : Nat) → Json → Option Json
  | _, .null => some .null
  | _, .bool b => some (.bool b)
  | _, .int n => rereadNumber? (toString n)
  | _, .float x => if (Dyadic.ofFloat? x).isSome then rereadNumber? (floatText x) else some .null
  | _, .string s => some (.string s)
  | 0, .array _ | 0, .object _ => none
  | depth + 1, .array items => (rereadItems? depth items).map .array
  | depth + 1, .object members => (rereadMembers? depth members).map .object

/-- `reread?` of each item. -/
def rereadItems? (depth : Nat) : List Json → Option (List Json)
  | [] => some []
  | v :: rest => (reread? depth v).bind fun w => (rereadItems? depth rest).map (w :: ·)

/-- `reread?` of each member's value. -/
def rereadMembers? (depth : Nat) : List (String × Json) → Option (List (String × Json))
  | [] => some []
  | (name, v) :: rest => (reread? depth v).bind fun w => (rereadMembers? depth rest).map ((name, w) :: ·)

end

section

variable {depth : Nat}

theorem reread?_int (n : Int) : reread? depth (.int n) = rereadNumber? (toString n) := by cases depth <;> rfl

theorem reread?_float {x : Float} (hx : (Dyadic.ofFloat? x).isSome = true) :
    reread? depth (.float x) = rereadNumber? (floatText x) := by
  cases depth <;> exact if_pos hx

theorem reread?_float_null {x : Float} (hx : ¬(Dyadic.ofFloat? x).isSome = true) :
    reread? depth (.float x) = some .null := by
  cases depth <;> exact if_neg hx

theorem reread?_string (s : String) : reread? depth (.string s) = some (.string s) := by cases depth <;> rfl

end

/-- Whether a double is read as another one from its text. -/
def floatReadAs (x y : Float) : Bool :=
  match rereadNumber? (floatText x) with
  | some (.float z) => decide (z = y)
  | _ => false

theorem floatReadAs_iff {x y : Float} : floatReadAs x y = true ↔ rereadNumber? (floatText x) = some (.float y) := by
  unfold floatReadAs
  split
  case h_1 z hread => simp [hread]
  case h_2 hread => exact ⟨nofun, fun h => absurd h (hread y)⟩

theorem reread?_of_readAs {x y : Float} (h : floatReadAs x y = true) {depth : Nat} :
    reread? depth (.float x) = some (.float y) := by
  have hread := floatReadAs_iff.1 h
  by_cases hx : (Dyadic.ofFloat? x).isSome = true
  · rw [reread?_float hx, hread]
  · have hnull : floatText x = "null" := if_neg hx
    rw [hnull] at hread
    cases hread

mutual

/-- Whether a value is read again from its text. -/
def legible : (depth : Nat) → Json → Bool
  | _, .null | _, .bool _ | _, .string _ => true
  | _, .int n => decide (int64Min ≤ n ∧ n ≤ word64Max)
  | _, .float x => floatReadAs x x
  | 0, .array _ | 0, .object _ => false
  | depth + 1, .array items => legibleItems depth items
  | depth + 1, .object members => legibleMembers depth members

/-- `legible` of each item. -/
def legibleItems (depth : Nat) : List Json → Bool
  | [] => true
  | v :: rest => legible depth v && legibleItems depth rest

/-- `legible` of each member's value. -/
def legibleMembers (depth : Nat) : List (String × Json) → Bool
  | [] => true
  | (_, v) :: rest => legible depth v && legibleMembers depth rest

end

theorem reread?_float_eq_self {x : Float} {depth : Nat} :
    reread? depth (.float x) = some (.float x) ↔ floatReadAs x x = true := by
  refine ⟨fun h => ?_, fun h => reread?_of_readAs h⟩
  by_cases hx : (Dyadic.ofFloat? x).isSome = true
  · exact floatReadAs_iff.2 ((reread?_float hx).symm.trans h)
  · rw [reread?_float_null hx] at h
    cases h

mutual

theorem reread?_eq_self : ∀ (v : Json) {depth : Nat}, reread? depth v = some v ↔ legible depth v = true
  | .null, depth | .bool _, depth | .string _, depth => by cases depth <;> exact ⟨fun _ => rfl, fun _ => rfl⟩
  | .int n, depth => by
    have hlegible : legible depth (.int n) = decide (int64Min ≤ n ∧ n ≤ word64Max) := by cases depth <;> rfl
    rw [reread?_int, hlegible, decide_eq_true_iff]
    exact ⟨word_of_rereadNumber?, rereadNumber?_toString⟩
  | .float x, depth => by
    have hlegible : legible depth (.float x) = floatReadAs x x := by cases depth <;> rfl
    rw [hlegible]
    exact reread?_float_eq_self
  | .array _, 0 | .object _, 0 => ⟨nofun, nofun⟩
  | .array items, depth + 1 => by
    rw [reread?, legible, ← rereadItems?_eq_self items]
    cases rereadItems? depth items <;> simp
  | .object members, depth + 1 => by
    rw [reread?, legible, ← rereadMembers?_eq_self members]
    cases rereadMembers? depth members <;> simp

theorem rereadItems?_eq_self : ∀ (items : List Json) {depth : Nat},
    rereadItems? depth items = some items ↔ legibleItems depth items = true
  | [], _ => ⟨fun _ => rfl, fun _ => rfl⟩
  | v :: rest, depth => by
    rw [rereadItems?, legibleItems, Bool.and_eq_true, ← reread?_eq_self v, ← rereadItems?_eq_self rest]
    cases reread? depth v <;> cases rereadItems? depth rest <;> simp

theorem rereadMembers?_eq_self : ∀ (members : List (String × Json)) {depth : Nat},
    rereadMembers? depth members = some members ↔ legibleMembers depth members = true
  | [], _ => ⟨fun _ => rfl, fun _ => rfl⟩
  | (_, v) :: rest, depth => by
    rw [rereadMembers?, legibleMembers, Bool.and_eq_true, ← reread?_eq_self v, ← rereadMembers?_eq_self rest]
    cases reread? depth v <;> cases rereadMembers? depth rest <;> simp

end

/-- A member that is read as something else among legible ones. -/
theorem rereadMembers?_replace {depth : Nat} {name : String} {v w : Json} {after : List (String × Json)}
    (hv : reread? depth v = some w) (hafter : legibleMembers depth after = true) :
    ∀ {before : List (String × Json)}, legibleMembers depth before = true →
      rereadMembers? depth (before ++ (name, v) :: after) = some (before ++ (name, w) :: after)
  | [], _ => by
    rw [List.nil_append, List.nil_append, rereadMembers?, hv, (rereadMembers?_eq_self after).2 hafter]
    rfl
  | (_, u) :: rest, h => by
    obtain ⟨hu, hrest⟩ := Bool.and_eq_true_iff.1 h
    rw [List.cons_append, List.cons_append, rereadMembers?, (reread?_eq_self u).2 hu,
      rereadMembers?_replace hv hafter hrest]
    rfl

mutual

/-- All members of the value are asked for. -/
def Asked : Shape → Json → Prop
  | shape, .array items => AskedItems shape items
  | shape, .object members => AskedMembers shape members
  | _, _ => True

/-- `Asked` of each item. -/
def AskedItems : Shape → List Json → Prop
  | _, [] => True
  | shape, v :: rest => Asked shape.first v ∧ AskedItems shape.later rest

/-- `Asked` of each member's value, and all names are asked for. -/
def AskedMembers : Shape → List (String × Json) → Prop
  | _, [] => True
  | shape, (name, v) :: rest => (∃ inner, shape.member? name = some inner ∧ Asked inner v) ∧ AskedMembers shape rest

end

/-- Texts with commas between them and a closing character behind. -/
def closed (close : Char) : List String → List Char
  | [] => [close]
  | [s] => s.toList ++ [close]
  | s :: t :: rest => s.toList ++ ',' :: closed close (t :: rest)

theorem toList_intercalate_append (close : Char) : ∀ texts : List String,
    (",".intercalate texts ++ close.toString).toList = closed close texts
  | [] => by simp [closed, Char.toString]
  | [s] => by simp [closed, Char.toString]
  | s :: t :: rest => by
    have ih := toList_intercalate_append close (t :: rest)
    rw [closed, ← ih, String.intercalate_cons_cons]
    simp

/-- A value does not begin with a blank or a closing bracket. -/
def Begins (s : List Char) : Prop := ∃ c t, s = c :: t ∧ isGap c = false ∧ c ≠ ']'

theorem skipGaps_cons {c : Char} (h : isGap c = false) (s : List Char) : skipGaps (c :: s) = c :: s :=
  List.dropWhile_cons_of_neg (by simp [h])

theorem Begins.append {s : List Char} (h : Begins s) (rest : List Char) : Begins (s ++ rest) := by
  obtain ⟨c, t, rfl, hc⟩ := h
  exact ⟨c, t ++ rest, rfl, hc⟩

theorem isGap_of_number {c : Char} (h : c = '-' ∨ c.isDigit = true) :
    isGap c = false ∧ c ∉ ['n', 't', 'f', '"', '[', ']', '\x7b'] := by
  have hne : ∀ d : Char, d.isDigit = false → d ≠ '-' → c ≠ d := by
    rintro d hd hminus rfl
    rcases h with h | h
    · exact hminus h
    · rw [hd] at h
      cases h
  constructor
  · unfold isGap
    simp [hne ' ' rfl (by decide), hne '\n' rfl (by decide), hne '\t' rfl (by decide), hne '\r' rfl (by decide)]
  · simp [hne 'n' rfl (by decide), hne 't' rfl (by decide), hne 'f' rfl (by decide), hne '"' rfl (by decide),
      hne '[' rfl (by decide), hne ']' rfl (by decide), hne '\x7b' rfl (by decide)]

theorem begins_of_readNumeral {s : List Char} {p : Numeral × List Char} (h : readNumeral s = some p) : Begins s := by
  obtain ⟨c, t, hs, hc⟩ := head_of_readNumeral h
  obtain ⟨hgap, hne⟩ := isGap_of_number hc
  refine ⟨c, t, hs, hgap, fun hclose => hne ?_⟩
  rw [hclose]
  decide

section

variable {shape : Shape} {fuel depth : Nat}

/-- What begins as a number is read as one. -/
theorem readValue_eq_readNumber {s : List Char} {p : Numeral × List Char} (h : readNumeral s = some p) :
    readValue shape (fuel + 1) depth s = readNumber s := by
  obtain ⟨c, t, rfl, hc⟩ := head_of_readNumeral h
  obtain ⟨hgap, hne⟩ := isGap_of_number hc
  simp only [List.mem_cons, List.not_mem_nil, or_false, not_or] at hne
  rw [readValue, skipGaps_cons hgap]
  split
  case h_1 heq => cases heq
  case h_8 => rfl
  all_goals
    rename_i heq
    simp [hne] at heq

/-- The text of a number is read up to what follows it. -/
theorem readValue_numeral {text : String} {n : Numeral} (h : readNumeral text.toList = some (n, [])) {rest : List Char}
    (hrest : Delimited rest) : readValue shape (fuel + 1) depth (text.toList ++ rest) =
      (rereadNumber? text).map fun v => (v, rest) := by
  have hnumeral := readNumeral_append hrest text.toList
  rw [h] at hnumeral
  rw [readValue_eq_readNumber hnumeral, readNumber_append hrest, readNumber_of_readNumeral h, Option.map_map]
  rfl

/-- The items of a list are read behind its bracket. -/
theorem readValue_bracket {s : List Char} (h : Begins s) : readValue shape (fuel + 1) (depth + 1) ('[' :: s) =
    (readItems shape fuel depth s).map fun p => (.array p.1, p.2) := by
  obtain ⟨c, t, rfl, hgap, hclose⟩ := h
  rw [readValue, skipGaps_cons rfl]
  simp only [skipGaps_cons hgap]
  split
  case h_1 heq => exact absurd (List.cons.inj heq).1 hclose
  case h_2 => rfl

/-- The members of an object are read behind its brace. -/
theorem readValue_brace (s : List Char) : readValue shape (fuel + 1) (depth + 1) ('\x7b' :: '"' :: s) =
    (readMembers shape fuel depth ('"' :: s)).map fun p => (.object p.1, p.2) := rfl

/-- One item and the bracket behind it. -/
theorem readItems_last {s rest : List Char} {found : Option Json}
    (h : readValue shape.first fuel depth s = found.map fun v => (v, ']' :: rest)) :
    readItems shape (fuel + 1) depth s = found.map fun v => ([v], rest) := by
  rw [readItems, h]
  cases found <;> rfl

/-- One item and a comma behind it. -/
theorem readItems_cons {s more rest : List Char} {found : Option Json} {later : Option (List Json)}
    (h : readValue shape.first fuel depth s = found.map fun v => (v, ',' :: more))
    (hmore : readItems shape.later fuel depth more = later.map fun items => (items, rest)) :
    readItems shape (fuel + 1) depth s =
      (found.bind fun v => later.map fun items => v :: items).map fun items => (items, rest) := by
  rw [readItems, h]
  cases found with
  | none => rfl
  | some v =>
    change (readItems shape.later fuel depth more).bind _ = _
    rw [hmore]
    cases later <;> rfl

/-- One member that is asked for and the brace behind it. -/
theorem readMembers_last {name : String} {inner : Shape} {s t rest : List Char} {found : Option Json}
    (hname : shape.member? name = some inner) (htext : readText fuel [] s = some (name, ':' :: t))
    (hvalue : readValue inner fuel depth t = found.map fun v => (v, '\x7d' :: rest)) :
    readMembers shape (fuel + 1) depth ('"' :: s) = found.map fun v => ([(name, v)], rest) := by
  have hcolon : skipGaps (':' :: t) = ':' :: t := skipGaps_cons rfl t
  rw [readMembers, skipGaps_cons rfl]
  simp only [htext, hcolon, hname, hvalue, Option.bind_eq_bind, Option.bind_some]
  cases found <;> rfl

/-- One member that is asked for and a comma behind it. -/
theorem readMembers_cons {name : String} {inner : Shape} {s t more rest : List Char} {found : Option Json}
    {later : Option (List (String × Json))} (hname : shape.member? name = some inner)
    (htext : readText fuel [] s = some (name, ':' :: t))
    (hvalue : readValue inner fuel depth t = found.map fun v => (v, ',' :: more))
    (hmore : readMembers shape fuel depth more = later.map fun members => (members, rest)) :
    readMembers shape (fuel + 1) depth ('"' :: s) =
      (found.bind fun v => later.map fun members => (name, v) :: members).map fun members => (members, rest) := by
  have hcolon : skipGaps (':' :: t) = ':' :: t := skipGaps_cons rfl t
  rw [readMembers, skipGaps_cons rfl]
  simp only [htext, hcolon, hname, hvalue, Option.bind_eq_bind, Option.bind_some]
  cases found with
  | none => rfl
  | some v =>
    change (readMembers shape fuel depth more).bind _ = _
    rw [hmore]
    cases later <;> rfl

/-- A text is read behind its opening quote. -/
theorem readText_stringText (s : String) (rest : List Char) (h : (stringText s).toList.length ≤ fuel) :
    ∃ t, (stringText s).toList ++ rest = '"' :: t ∧ readText fuel [] t = some (s, rest) := by
  have hlength := length_le_flatMap_escapedChar s.toList
  rw [toList_stringText] at h ⊢
  rw [List.cons_append, List.append_assoc, List.singleton_append]
  refine ⟨_, rfl, ?_⟩
  rw [readText_escaped s.toList fuel [] rest ?_]
  · simp
  · rw [List.length_cons, List.length_append, List.length_singleton] at h
    omega

end

theorem begins_compact (v : Json) : Begins (compact v).toList := by
  cases v with
  | null => exact ⟨'n', _, rfl, rfl, by decide⟩
  | bool b =>
    cases b with
    | true => exact ⟨'t', _, rfl, rfl, by decide⟩
    | false => exact ⟨'f', _, rfl, rfl, by decide⟩
  | int n => exact begins_of_readNumeral (readNumeral_toString n)
  | float x =>
    by_cases hx : (Dyadic.ofFloat? x).isSome = true
    · obtain ⟨n, hn, -⟩ := readNumeral_floatText hx
      exact begins_of_readNumeral hn
    · have hnull : compact (.float x) = "null" := if_neg hx
      rw [hnull]
      exact ⟨'n', _, rfl, rfl, by decide⟩
  | string s =>
    rw [compact, toList_stringText]
    exact ⟨'"', _, rfl, rfl, by decide⟩
  | array items =>
    rw [compact, String.append_assoc, String.toList_append]
    exact ⟨'[', _, rfl, rfl, by decide⟩
  | object members =>
    rw [compact, String.append_assoc, String.toList_append]
    exact ⟨'\x7b', _, rfl, rfl, by decide⟩

theorem toList_compact_array (items : List Json) :
    (compact (.array items)).toList = '[' :: closed ']' (compactItems items) := by
  rw [compact, String.append_assoc, String.toList_append, ← toList_intercalate_append]
  rfl

theorem toList_compact_object (members : List (String × Json)) :
    (compact (.object members)).toList = '\x7b' :: closed '\x7d' (compactMembers members) := by
  rw [compact, String.append_assoc, String.toList_append, ← toList_intercalate_append]
  rfl

theorem length_closed_pos (close : Char) : ∀ texts : List String, 0 < (closed close texts).length
  | [] => Nat.zero_lt_one
  | [s] => by simp [closed]
  | s :: t :: rest => by simp [closed]

theorem begins_closed {s : String} (h : Begins s.toList) (close : Char) (rest : List String) :
    Begins (closed close (s :: rest)) := by
  cases rest with
  | nil => exact h.append [close]
  | cons t rest => exact h.append _

theorem closed_stringText (close : Char) (name behind : String) (rest : List String) :
    ∃ t, closed close ((stringText name ++ behind) :: rest) = '"' :: t := by
  cases rest <;> rw [closed, String.toList_append, toList_stringText] <;> exact ⟨_, rfl⟩

/-- The fuel of two steps for each character lasts for two steps. -/
theorem exists_fuel (fuel : Nat) {n : Nat} (hn : 0 < n) (hfuel : 2 * n ≤ fuel) : ∃ k, fuel = k + 2 :=
  Nat.exists_eq_add_of_le' (by omega)

mutual

/-- A value is read as it is reread, up to what follows it. -/
theorem readValue_compact : ∀ (v : Json) {shape : Shape} {depth fuel : Nat} {rest : List Char}, Asked shape v →
    Delimited rest → 2 * (compact v).toList.length ≤ fuel + 1 →
      readValue shape (fuel + 1) depth ((compact v).toList ++ rest) = (reread? depth v).map fun w => (w, rest)
  | .null, _, depth, _, _, _, _, _ => by cases depth <;> rfl
  | .bool b, _, depth, _, _, _, _, _ => by cases depth <;> cases b <;> rfl
  | .int n, _, _, _, _, _, hrest, _ => by
    rw [reread?_int]
    exact readValue_numeral (readNumeral_toString n) hrest
  | .float x, _, _, _, _, _, hrest, _ => by
    by_cases hx : (Dyadic.ofFloat? x).isSome = true
    · obtain ⟨n, hn, -⟩ := readNumeral_floatText hx
      rw [reread?_float hx]
      exact readValue_numeral hn hrest
    · have hnull : compact (.float x) = "null" := if_neg hx
      rw [reread?_float_null hx, hnull]
      rfl
  | .string s, _, _, fuel, rest, _, _, hfuel => by
    rw [compact] at hfuel ⊢
    have hpos : 0 < (stringText s).toList.length := by
      rw [toList_stringText]
      exact Nat.succ_pos _
    obtain ⟨t, htext, hread⟩ := @readText_stringText fuel s rest (by omega)
    rw [htext, reread?_string, readValue, skipGaps_cons rfl]
    simp only [hread]
    rfl
  | .array items, shape, depth, fuel, rest, hasked, _, hfuel => by
    cases depth with
    | zero =>
      rw [toList_compact_array]
      rfl
    | succ depth =>
      cases items with
      | nil => rfl
      | cons v items =>
        rw [toList_compact_array] at hfuel ⊢
        rw [List.length_cons] at hfuel
        obtain ⟨fuel, rfl⟩ := exists_fuel fuel (length_closed_pos ']' (compactItems (v :: items))) (by omega)
        have hread := readItems_compact (v :: items) shape depth fuel rest (List.cons_ne_nil _ _) hasked (by omega)
        have hbegins : Begins (closed ']' (compactItems (v :: items)) ++ rest) :=
          (begins_closed (begins_compact v) _ _).append rest
        rw [List.cons_append, readValue_bracket hbegins, hread, reread?, Option.map_map, Option.map_map]
        rfl
  | .object members, shape, depth, fuel, rest, hasked, _, hfuel => by
    cases depth with
    | zero =>
      rw [toList_compact_object]
      rfl
    | succ depth =>
      cases members with
      | nil => rfl
      | cons member members =>
        obtain ⟨name, v⟩ := member
        rw [toList_compact_object] at hfuel ⊢
        rw [List.length_cons] at hfuel
        obtain ⟨fuel, rfl⟩ := exists_fuel fuel (length_closed_pos '\x7d' (compactMembers ((name, v) :: members))) (by omega)
        have hread := readMembers_compact ((name, v) :: members) shape depth fuel rest (List.cons_ne_nil _ _) hasked
          (by omega)
        obtain ⟨t, hquote⟩ := closed_stringText '\x7d' name (":" ++ compact v) (compactMembers members)
        rw [compactMembers, String.append_assoc, hquote] at hread ⊢
        rw [List.cons_append, List.cons_append, readValue_brace]
        rw [List.cons_append] at hread
        rw [hread, reread?, Option.map_map, Option.map_map]
        rfl

/-- The items of a list are read as they are reread, up to the bracket behind them. -/
theorem readItems_compact : ∀ (items : List Json) (shape : Shape) (depth fuel : Nat) (rest : List Char), items ≠ [] →
    AskedItems shape items → 2 * (closed ']' (compactItems items)).length ≤ fuel + 2 →
      readItems shape (fuel + 2) depth (closed ']' (compactItems items) ++ rest) =
        (rereadItems? depth items).map fun ws => (ws, rest)
  | [] => fun _ _ _ _ hne => absurd rfl hne
  | [v] => by
    intro _ _ _ _ _ hasked hfuel
    simp only [compactItems, closed, List.append_assoc, List.singleton_append, List.length_append,
      List.length_singleton] at hfuel ⊢
    rw [readItems_last (readValue_compact v hasked.1 (by simp [Delimited]) (by omega)), rereadItems?, rereadItems?]
    cases reread? _ v <;> rfl
  | v :: v' :: items => by
    intro _ _ fuel _ _ hasked hfuel
    have hpos := length_closed_pos ']' (compactItems (v' :: items))
    rw [compactItems, compactItems, closed, ← compactItems] at hfuel ⊢
    simp only [List.append_assoc, List.cons_append, List.length_append, List.length_cons] at hfuel ⊢
    obtain ⟨fuel, rfl⟩ := exists_fuel fuel hpos (by omega)
    exact readItems_cons (readValue_compact v hasked.1 (by simp [Delimited]) (by omega))
      (readItems_compact (v' :: items) _ _ _ _ (List.cons_ne_nil _ _) hasked.2 (by omega))

/-- The members of an object are read as they are reread, up to the brace behind them. -/
theorem readMembers_compact : ∀ (members : List (String × Json)) (shape : Shape) (depth fuel : Nat) (rest : List Char),
    members ≠ [] → AskedMembers shape members → 2 * (closed '\x7d' (compactMembers members)).length ≤ fuel + 2 →
      readMembers shape (fuel + 2) depth (closed '\x7d' (compactMembers members) ++ rest) =
        (rereadMembers? depth members).map fun ws => (ws, rest)
  | [] => fun _ _ _ _ hne => absurd rfl hne
  | [(name, v)] => by
    intro _ _ fuel rest _ hasked hfuel
    obtain ⟨⟨inner, hname, hinner⟩, -⟩ := hasked
    simp only [compactMembers, closed, String.toList_append, List.append_assoc, List.singleton_append, List.length_append,
      List.length_singleton] at hfuel ⊢
    obtain ⟨t, htext, hread⟩ := @readText_stringText (fuel + 1) name
      (":".toList ++ ((compact v).toList ++ '\x7d' :: rest)) (by omega)
    rw [htext, readMembers_last hname hread (readValue_compact v hinner (by simp [Delimited]) (by omega)),
      rereadMembers?, rereadMembers?]
    cases reread? _ v <;> rfl
  | (name, v) :: (other, v') :: members => by
    intro _ _ fuel rest _ hasked hfuel
    obtain ⟨⟨inner, hname, hinner⟩, hasked⟩ := hasked
    have hpos := length_closed_pos '\x7d' (compactMembers ((other, v') :: members))
    rw [compactMembers, compactMembers, closed, ← compactMembers] at hfuel ⊢
    simp only [String.toList_append, List.append_assoc, List.cons_append, List.length_append, List.length_cons]
      at hfuel ⊢
    obtain ⟨fuel, rfl⟩ := exists_fuel fuel hpos (by omega)
    obtain ⟨t, htext, hread⟩ := @readText_stringText (fuel + 3) name
      (":".toList ++ ((compact v).toList ++ ',' :: (closed '\x7d' (compactMembers ((other, v') :: members)) ++ rest)))
      (by omega)
    rw [htext]
    exact readMembers_cons hname hread (readValue_compact v hinner (by simp [Delimited]) (by omega))
      (readMembers_compact ((other, v') :: members) _ _ _ _ (List.cons_ne_nil _ _) hasked (by omega))

end

/-- A value is read from its text as it is reread, by any shape that asks for all its members. -/
theorem readAs?_compact {v : Json} {shape : Shape} (hasked : Asked shape v) :
    readAs? shape v.compact = reread? maxDepth v := by
  have hread := @readValue_compact v shape maxDepth (2 * v.compact.toList.length + 1) [] hasked (by simp [Delimited])
    (by omega)
  rw [List.append_nil] at hread
  unfold readAs?
  simp only [hread, Option.bind_eq_bind]
  cases reread? maxDepth v <;> rfl

mutual

/-- A shape that asks for everything asks for all members. -/
theorem asked_whole : ∀ v : Json, Asked .whole v
  | .null | .bool _ | .int _ | .float _ | .string _ => trivial
  | .array items => askedItems_whole items
  | .object members => askedMembers_whole members

theorem askedItems_whole (items : List Json) : AskedItems .whole items := by
  cases items with
  | nil => trivial
  | cons v rest => exact ⟨asked_whole v, askedItems_whole rest⟩

theorem askedMembers_whole : ∀ members : List (String × Json), AskedMembers .whole members
  | [] => trivial
  | (_, v) :: rest => ⟨⟨.whole, rfl, asked_whole v⟩, askedMembers_whole rest⟩

end

end Arbiter.Json
