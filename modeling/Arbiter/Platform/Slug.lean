/-!
# Slugs

The address of a market is a scheme, a host, a user and a slug, each after a slash; more segments, a query or a fragment
may follow.

* `slugOf?`: the slug in an address.
-/

namespace Arbiter

/-- What follows a scheme and the two slashes after it. -/
def afterScheme? : List Char → Option (List Char)
  | 'h' :: 't' :: 't' :: 'p' :: ':' :: '/' :: '/' :: rest => some rest
  | 'h' :: 't' :: 't' :: 'p' :: 's' :: ':' :: '/' :: '/' :: rest => some rest
  | _ => none

/-- What follows a segment that is not empty and the slash after it. -/
def afterSegment? (s : List Char) : Option (List Char) :=
  if (s.takeWhile (· ≠ '/')).isEmpty then none
  else
    match s.dropWhile (· ≠ '/') with
    | _ :: rest => some rest
    | [] => none

/-- Whether a character can be part of a slug. -/
def isSlugChar (c : Char) : Bool :=
  c != '/' && c != '?' && c != '#'

/-- The slug in the address of a market. -/
def slugOf? (url : String) : Option String := do
  let s ← afterScheme? url.toList
  let s ← afterSegment? s
  let s ← afterSegment? s
  let slug := s.takeWhile isSlugChar
  if slug.isEmpty then none else some (String.ofList slug)

end Arbiter
