import Arbiter.Platform.Slug
import Arbiter.Proofs.Text.Runs
import Mathlib.Data.Set.Function

/-!
# The addresses of markets

An address of a market can be taken apart in one way only, and its slug is the part that `slugOf?` finds.

* `MarketAddress`: an address in its parts. `MarketAddress.text_injective`: there is one way to take it apart.
* `afterScheme?_eq_some_iff`, `afterSegment?_eq_some_iff`: what each step of the reading takes away.
* `slugOf?_grammar`: slugs are found in addresses of markets and nowhere else, and nothing behind a slug changes it.
-/

namespace Arbiter

/-- Nothing follows, or what follows begins with a character that no slug has. -/
def EndsSlug (rest : String) : Prop := ∀ c ∈ rest.toList.head?, c = '/' ∨ c = '?' ∨ c = '#'

/-- The address of a market in its parts. -/
@[ext] structure MarketAddress where
  scheme : String
  host : String
  user : String
  slug : String
  /-- More segments, a query or a fragment. -/
  rest : String
  scheme_known : scheme = "http" ∨ scheme = "https"
  host_ne : host ≠ ""
  host_free : '/' ∉ host.toList
  user_ne : user ≠ ""
  user_free : '/' ∉ user.toList
  slug_ne : slug ≠ ""
  slug_free : ∀ c ∈ slug.toList, c ≠ '/' ∧ c ≠ '?' ∧ c ≠ '#'
  rest_ends : EndsSlug rest

/-- The address as it is written. -/
def MarketAddress.text (a : MarketAddress) : String :=
  a.scheme ++ "://" ++ a.host ++ "/" ++ a.user ++ "/" ++ a.slug ++ a.rest

/-! ## The steps of the reading -/

section

variable {s rest : List Char}

theorem afterScheme?_eq_some_iff :
    afterScheme? s = some rest ↔
      ∃ scheme : String, (scheme = "http" ∨ scheme = "https") ∧ s = scheme.toList ++ "://".toList ++ rest := by
  constructor
  · intro h
    unfold afterScheme? at h
    split at h
    · obtain rfl := Option.some.inj h
      exact ⟨"http", .inl rfl, rfl⟩
    · obtain rfl := Option.some.inj h
      exact ⟨"https", .inr rfl, rfl⟩
    · cases h
  · rintro ⟨_, rfl | rfl, rfl⟩
    · rfl
    · rfl

/-- A segment reaches up to the first slash. -/
theorem afterSegment?_eq_some_iff :
    afterSegment? s = some rest ↔ ∃ segment, segment ≠ [] ∧ '/' ∉ segment ∧ s = segment ++ '/' :: rest := by
  constructor
  · intro h
    unfold afterSegment? at h
    split at h
    case isTrue => cases h
    case isFalse hne =>
    refine ⟨s.takeWhile (· ≠ '/'), by simpa using hne, fun hmem => ?_, ?_⟩
    · simpa using List.mem_takeWhile_imp hmem
    · split at h
      case h_2 => cases h
      case h_1 c after hafter =>
      obtain rfl := Option.some.inj h
      have hslash := head?_dropWhile_eq_false (s := s) (p := (· ≠ '/')) (c := c) (by rw [hafter]; rfl)
      obtain rfl : c = '/' := by simpa using hslash
      rw [← hafter, List.takeWhile_append_dropWhile]
  · rintro ⟨segment, hne, hfree, rfl⟩
    have hall : ∀ c ∈ segment, decide (c ≠ '/') = true := fun c hc => by
      rw [decide_eq_true_iff]
      rintro rfl
      exact hfree hc
    have hnext : ∀ c ∈ ('/' :: rest).head?, decide (c ≠ '/') = false := by simp
    unfold afterSegment?
    rw [takeWhile_run hall hnext, dropWhile_run hall hnext]
    simp [hne]

theorem isSlugChar_iff {c : Char} : isSlugChar c = true ↔ c ≠ '/' ∧ c ≠ '?' ∧ c ≠ '#' := by
  simp [isSlugChar, and_assoc]

theorem isSlugChar_eq_false_iff {c : Char} : isSlugChar c = false ↔ c = '/' ∨ c = '?' ∨ c = '#' := by
  rw [← Bool.not_eq_true, isSlugChar_iff]
  tauto

/-- A slug reaches up to the first character that no slug has. -/
theorem slug_eq_takeWhile {slug rest : String} (hs : ∀ c ∈ slug.toList, c ≠ '/' ∧ c ≠ '?' ∧ c ≠ '#')
    (hr : EndsSlug rest) :
    (slug.toList ++ rest.toList).takeWhile isSlugChar = slug.toList ∧
      (slug.toList ++ rest.toList).dropWhile isSlugChar = rest.toList := by
  have hword : ∀ c ∈ slug.toList, isSlugChar c = true := fun c hc => isSlugChar_iff.2 (hs c hc)
  have hend : ∀ c ∈ rest.toList.head?, isSlugChar c = false := fun c hc => isSlugChar_eq_false_iff.2 (hr c hc)
  exact ⟨takeWhile_run hword hend, dropWhile_run hword hend⟩

end

/-! ## Addresses -/

namespace MarketAddress

variable {url slug : String}

theorem toList_text (a : MarketAddress) :
    a.text.toList = a.scheme.toList ++ "://".toList ++
      (a.host.toList ++ '/' :: (a.user.toList ++ '/' :: (a.slug.toList ++ a.rest.toList))) := by
  simp [text]

theorem afterScheme?_text (a : MarketAddress) :
    afterScheme? a.text.toList = some (a.host.toList ++ '/' :: (a.user.toList ++ '/' :: (a.slug.toList ++ a.rest.toList))) :=
  afterScheme?_eq_some_iff.2 ⟨a.scheme, a.scheme_known, a.toList_text⟩

theorem afterSegment?_host (a : MarketAddress) (s : List Char) : afterSegment? (a.host.toList ++ '/' :: s) = some s :=
  afterSegment?_eq_some_iff.2 ⟨_, by simpa using a.host_ne, a.host_free, rfl⟩

theorem afterSegment?_user (a : MarketAddress) (s : List Char) : afterSegment? (a.user.toList ++ '/' :: s) = some s :=
  afterSegment?_eq_some_iff.2 ⟨_, by simpa using a.user_ne, a.user_free, rfl⟩

/-- The slug of an address is found in it. -/
theorem slugOf?_text (a : MarketAddress) : slugOf? a.text = some a.slug := by
  have hslug := (slug_eq_takeWhile a.slug_free a.rest_ends).1
  have hne : ¬a.slug.toList.isEmpty = true := by simpa using a.slug_ne
  unfold slugOf?
  simp only [a.afterScheme?_text, a.afterSegment?_host, a.afterSegment?_user, Option.bind_eq_bind, Option.bind_some,
    hslug]
  rw [if_neg hne, String.ofList_toList]

/-- A slug is found in addresses of markets only. -/
theorem of_slugOf?_eq_some (h : slugOf? url = some slug) : ∃ a : MarketAddress, a.text = url ∧ a.slug = slug := by
  unfold slugOf? at h
  simp only [Option.bind_eq_bind, Option.bind_eq_some_iff] at h
  obtain ⟨s₁, hscheme, s₂, hhost, s₃, huser, h⟩ := h
  split at h
  case isTrue => cases h
  case isFalse hne =>
  obtain rfl := Option.some.inj h
  obtain ⟨scheme, hknown, hurl⟩ := afterScheme?_eq_some_iff.1 hscheme
  obtain ⟨host, hhost_ne, hhost_free, rfl⟩ := afterSegment?_eq_some_iff.1 hhost
  obtain ⟨user, huser_ne, huser_free, rfl⟩ := afterSegment?_eq_some_iff.1 huser
  refine ⟨{ scheme, host := String.ofList host, user := String.ofList user,
            slug := String.ofList (s₃.takeWhile isSlugChar), rest := String.ofList (s₃.dropWhile isSlugChar),
            scheme_known := hknown, host_ne := ?_, host_free := ?_, user_ne := ?_, user_free := ?_, slug_ne := ?_,
            slug_free := ?_, rest_ends := ?_ }, ?_, rfl⟩
  · simpa using hhost_ne
  · simpa using hhost_free
  · simpa using huser_ne
  · simpa using huser_free
  · simpa using hne
  · intro c hc
    rw [String.toList_ofList] at hc
    exact isSlugChar_iff.1 (List.mem_takeWhile_imp hc)
  · intro c hc
    rw [String.toList_ofList] at hc
    exact isSlugChar_eq_false_iff.1 (head?_dropWhile_eq_false hc)
  · rw [← String.toList_inj, toList_text, hurl]
    simp

/-- An address can be taken apart in one way only. -/
theorem text_injective : Function.Injective text := by
  intro a b h
  -- what is left behind a part is the same in both addresses, and so is the part itself
  have hall := a.toList_text.symm.trans (h ▸ b.toList_text)
  have hhost := Option.some.inj (a.afterScheme?_text.symm.trans (h ▸ b.afterScheme?_text))
  have huser := Option.some.inj ((a.afterSegment?_host _).symm.trans (hhost ▸ b.afterSegment?_host _))
  have hslug := Option.some.inj ((a.afterSegment?_user _).symm.trans (huser ▸ b.afterSegment?_user _))
  obtain ⟨hslug_a, hrest_a⟩ := slug_eq_takeWhile a.slug_free a.rest_ends
  obtain ⟨hslug_b, hrest_b⟩ := slug_eq_takeWhile b.slug_free b.rest_ends
  rw [hhost, List.append_assoc, List.append_assoc] at hall
  rw [huser] at hhost
  rw [hslug] at huser hslug_a hrest_a
  ext1
  · exact String.toList_inj.1 (List.append_cancel_right hall)
  · exact String.toList_inj.1 (List.append_cancel_right hhost)
  · exact String.toList_inj.1 (List.append_cancel_right huser)
  · exact String.toList_inj.1 (hslug_a.symm.trans hslug_b)
  · exact String.toList_inj.1 (hrest_a.symm.trans hrest_b)

end MarketAddress

/-- **A slug is found exactly in the addresses of markets, and it is the one of the address.** There is one way only to take
an address apart, and queries, fragments and more segments behind the slug do not change it. -/
theorem slugOf?_grammar :
    (∀ url slug, slugOf? url = some slug ↔ ∃ a : MarketAddress, a.text = url ∧ a.slug = slug) ∧
    Function.Injective MarketAddress.text ∧
    ∀ (a : MarketAddress) (rest : String), EndsSlug rest →
      slugOf? (a.scheme ++ "://" ++ a.host ++ "/" ++ a.user ++ "/" ++ a.slug ++ rest) = some a.slug := by
  refine ⟨fun url slug => ⟨MarketAddress.of_slugOf?_eq_some, ?_⟩, MarketAddress.text_injective, fun a rest h => ?_⟩
  · rintro ⟨a, rfl, rfl⟩
    exact a.slugOf?_text
  · exact MarketAddress.slugOf?_text { a with rest, rest_ends := h }

/-- The slug of an address stays the same with a query that holds all the marks of the grammar. -/
theorem slugOf?_withQuery :
    EndsSlug "?r=a/b://c#d?e" ∧
      slugOf? "https://manifold.markets/user/will-it-rain?r=a/b://c#d?e" = some "will-it-rain" ∧
      ∃ a : MarketAddress, a.text = "https://manifold.markets/user/will-it-rain" ∧ a.slug = "will-it-rain" := by
  have hends : EndsSlug "?r=a/b://c#d?e" := by
    intro c hc
    obtain rfl : '?' = c := Option.some.inj hc
    exact .inr (.inl rfl)
  obtain ⟨hgrammar, -, hrest⟩ := slugOf?_grammar
  let a : MarketAddress :=
    { scheme := "https", host := "manifold.markets", user := "user", slug := "will-it-rain", rest := "",
      scheme_known := .inr rfl, host_ne := by decide, host_free := by simp, user_ne := by decide, user_free := by simp,
      slug_ne := by decide, slug_free := by simp, rest_ends := nofun }
  have htext : a.text = "https://manifold.markets/user/will-it-rain" := by decide +kernel
  have hquery : a.scheme ++ "://" ++ a.host ++ "/" ++ a.user ++ "/" ++ a.slug ++ "?r=a/b://c#d?e" =
      "https://manifold.markets/user/will-it-rain?r=a/b://c#d?e" := by decide +kernel
  have hslug := hrest a "?r=a/b://c#d?e" hends
  rw [hquery] at hslug
  exact ⟨hends, hslug, a, htext, rfl⟩

end Arbiter
