import Arbiter.Address.Basic

/-!
# Reading addresses

* `Address.read`: the address that a text stands for, or why it is none. Blanks around it and tabs and line ends within
  it do not count. Where the scheme is a known one, any number of slashes and backslashes may stand before the host, and
  a backslash is a slash.
-/

namespace Arbiter.Address

/-- The known schemes with their ports; files have none. -/
def knownSchemes : List (String × Option Nat) :=
  [("http", some 80), ("https", some 443), ("ws", some 80), ("wss", some 443), ("ftp", some 21), ("file", none)]

/-- Whether a scheme is a known one. -/
def isKnown (scheme : String) : Bool := (knownSchemes.lookup scheme).isSome

/-- Whether a character may stand in a scheme behind the first letter. -/
def isSchemeChar (c : Char) : Bool := c.isAlphanum || c == '+' || c == '-' || c == '.'

/-- The scheme at the beginning of a text, in small letters, and what follows its colon. -/
def splitScheme? (s : List Char) : Option (String × List Char) :=
  let scheme := s.takeWhile isSchemeChar
  match s.dropWhile isSchemeChar with
  | ':' :: rest => if scheme.head?.any Char.isAlpha then some (String.ofList (scheme.map Char.toLower), rest) else none
  | _ => none

/-- Whether a character separates segments. -/
def isSlash (known : Bool) (c : Char) : Bool := c == '/' || (known && c == '\\')

/-- Whether a segment is a point, perhaps escaped. -/
def isPoint (segment : List Char) : Bool :=
  [".", "%2e"].contains (String.ofList (segment.map Char.toLower))

/-- Whether a segment is two points, perhaps escaped. -/
def isTwoPoints (segment : List Char) : Bool :=
  ["..", ".%2e", "%2e.", "%2e%2e"].contains (String.ofList (segment.map Char.toLower))

/-- The segments of a path without single and double points; at the end they leave an empty segment. `kept` holds the
segments so far, the last one first. -/
def plainSegments (kept : List (List Char)) : List (List Char) → List (List Char)
  | [] => kept.reverse
  | [last] =>
    if isPoint last then ([] :: kept).reverse
    else if isTwoPoints last then ([] :: kept.drop 1).reverse
    else (last :: kept).reverse
  | segment :: rest =>
    if isPoint segment then plainSegments kept rest
    else if isTwoPoints segment then plainSegments (kept.drop 1) rest
    else plainSegments (segment :: kept) rest

/-- The path behind a first slash. -/
def readSegments (known : Bool) (s : List Char) : AddressPath :=
  .rooted (plainSegments [] ((pieces (isSlash known) s).map (escapeUnless isPathChar)))

/-- A path whose first slash may be missing. -/
def readPath (known : Bool) : List Char → AddressPath
  | [] => if known then .rooted [[]] else .rooted []
  | c :: rest => readSegments known (if isSlash known c then rest else c :: rest)

/-- An address from its scheme, its authority and its path, the query and the fragment still to be read. -/
def withTail (scheme : String) (authority : Option Authority) (path : AddressPath) (tail : List Char) : Address :=
  -- a known scheme takes no apostrophe in a query
  let keep (c : Char) : Bool := isQueryChar c && !(isKnown scheme && c == '\'')
  let query := tail.takeWhile (· ≠ '#')
  let fragment := tail.dropWhile (· ≠ '#')
  { scheme, authority, path
    query := if query.isEmpty then none else some (escapeUnless keep (query.drop 1))
    fragment := if fragment.isEmpty then none else some (escapeUnless isFragmentChar (fragment.drop 1)) }

/-- Whether a character ends a path. -/
def endsPath (c : Char) : Bool := c == '?' || c == '#'

/-- The text of a host at the beginning of a text: up to a colon that is not between brackets. -/
def hostText (bracketed : Bool) : List Char → List Char
  | [] => []
  | c :: rest => if c = ':' ∧ !bracketed then [] else c :: hostText (c = '[' || (bracketed && c != ']')) rest

/-- The port behind a colon, and what follows its digits. A port that the scheme has anyway counts as none. -/
def readPort (scheme : String) (s : List Char) : Except AddressFault (Option Nat × List Char) :=
  let digits := s.takeWhile Char.isDigit
  let rest := s.dropWhile Char.isDigit
  let n := digitsValue digits
  if 0xFFFF < n || !(rest.isEmpty || rest.head? == some '\\') then .error .port
  else if digits.isEmpty || knownSchemes.lookup scheme == some (some n) then .ok (none, rest)
  else .ok (some n, rest)

/-- The credentials before the last at sign, if there is one, and what follows it. -/
def splitCredentials (s : List Char) : Option (List Char) × List Char :=
  let after := (s.reverse.takeWhile (· ≠ '@')).reverse
  if after.length = s.length then (none, s) else (some (s.take (s.length - after.length - 1)), after)

/-- An address from its authority on. -/
def readAuthority (scheme : String) (s : List Char) : Except AddressFault Address := do
  let known := isKnown scheme
  let isEnd (c : Char) : Bool := isSlash known c || endsPath c
  let rest := s.dropWhile (!isEnd ·)
  let (credentials, place) := splitCredentials (s.takeWhile (!isEnd ·))
  if credentials = some [] && place.isEmpty && !rest.isEmpty then throw .emptyHost
  let written := hostText false place
  let host ← if known then Host.read written else Host.readAny written
  let (port, stray) ← match place.drop written.length with
    | ':' :: digits => if written.isEmpty then throw .emptyHost else readPort scheme digits
    | _ => pure (none, [])
  let credentials := credentials.getD []
  let authority : Authority := {
    user := escapeUnless isCredentialChar (credentials.takeWhile (· ≠ ':'))
    password := escapeUnless isCredentialChar ((credentials.dropWhile (· ≠ ':')).drop 1)
    host := host.text
    port }
  if written.isEmpty && !(authority.user.isEmpty && authority.password.isEmpty) then throw .emptyHost
  let rest := stray ++ rest
  return withTail scheme (some authority) (readPath known (rest.takeWhile (!endsPath ·))) (rest.dropWhile (!endsPath ·))

/-- The host of a file; the own machine counts as none. -/
def readFileHost (s : List Char) : Except AddressFault String := do
  if s.isEmpty then return ""
  let host := (← Host.read s).text
  return if host = "localhost" then "" else host

/-- The address of a file behind its scheme: no empty segment stands at the beginning of its path. -/
def readFile (s : List Char) : Except AddressFault Address := do
  let isEnd (c : Char) : Bool := isSlash true c || endsPath c
  let (host, rest) ← match s with
    | a :: b :: rest =>
      if isSlash true a && isSlash true b then
        pure (← readFileHost (rest.takeWhile (!isEnd ·)), rest.dropWhile (!isEnd ·))
      else pure ("", s)
    | _ => pure ("", s)
  let path := match readPath true (rest.takeWhile (!endsPath ·)) with
    | .rooted segments =>
      let kept := segments.dropWhile List.isEmpty
      .rooted (if kept.isEmpty then [[]] else kept)
    | path => path
  return withTail "file" (some (.bare host)) path (rest.dropWhile (!endsPath ·))

/-- The address that a text stands for. -/
def read (text : String) : Except AddressFault Address := do
  let isEdge (c : Char) : Bool := c.toNat ≤ 0x20
  let trimmed := ((text.toList.dropWhile isEdge).reverse.dropWhile isEdge).reverse
  match splitScheme? (trimmed.filter fun c => c != '\t' && c != '\n' && c != '\r') with
  | none => throw .relative
  | some (scheme, rest) =>
    if scheme = "file" then readFile rest
    else if isKnown scheme then readAuthority scheme (rest.dropWhile (isSlash true))
    else
      match rest with
      | '/' :: '/' :: rest => readAuthority scheme rest
      | '/' :: rest =>
        return withTail scheme none (readSegments false (rest.takeWhile (!endsPath ·))) (rest.dropWhile (!endsPath ·))
      | _ =>
        let path := escapeUnless isPrintable (rest.takeWhile (!endsPath ·))
        return withTail scheme none (.rootless path) (rest.dropWhile (!endsPath ·))

end Arbiter.Address
