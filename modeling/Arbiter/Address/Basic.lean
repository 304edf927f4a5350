import Arbiter.Address.Host

/-!
# Addresses

An address has a scheme, perhaps an authority with credentials, a host and a port, then a path, and perhaps a query and
a fragment.

* `Address.text`: an address in its standard form.
* `Address.withoutCredentials`: what is left of an address when its credentials go into a header.
-/

namespace Arbiter

/-- Who is asked, and in whose name. The texts hold escapes. -/
structure Authority where
  user : List Char
  password : List Char
  /-- The text of the host, empty if there is none. -/
  host : String
  /-- The port, if it is not the one that the scheme has anyway. -/
  port : Option Nat
deriving DecidableEq, Repr

/-- Where something lies. The texts hold escapes. -/
inductive AddressPath where
  /-- A text without a root. -/
  | rootless (text : List Char)
  /-- Each segment behind a slash. -/
  | rooted (segments : List (List Char))
deriving DecidableEq, Repr

/-- An address. -/
structure Address where
  scheme : String
  authority : Option Authority
  path : AddressPath
  /-- The text behind the question mark. -/
  query : Option (List Char)
  /-- The text behind the number sign. -/
  fragment : Option (List Char)
deriving DecidableEq, Repr

namespace Authority

/-- An authority without a name and a password. -/
def bare (host : String) : Authority := ⟨[], [], host, none⟩

/-- The text of an authority behind its two slashes. -/
def text (a : Authority) : String :=
  let password := if a.password.isEmpty then "" else ":" ++ String.ofList a.password
  let credentials := if a.user.isEmpty && a.password.isEmpty then "" else String.ofList a.user ++ password ++ "@"
  "//" ++ credentials ++ a.host ++ a.port.elim "" fun n => ":" ++ toString n

/-- Whether the credentials can be put into a header: the name is text, or there is none but a password that is. -/
def hasCredentials (a : Authority) : Bool :=
  (unescape? a.user).any fun user => !user.isEmpty || (!a.password.isEmpty && (unescape? a.password).isSome)

end Authority

namespace AddressPath

/-- The text of a path. -/
def text : AddressPath → String
  | .rootless text => String.ofList text
  | .rooted segments => String.join (segments.map fun s => "/" ++ String.ofList s)

end AddressPath

namespace Address

/-- Whether an address names a host. -/
def hasHost (a : Address) : Bool :=
  a.authority.any fun authority => !authority.host.isEmpty

/-- An address without the credentials that can be put into a header. -/
def withoutCredentials (a : Address) : Address :=
  { a with authority := a.authority.map fun authority =>
      if authority.hasCredentials then { authority with user := [], password := [] } else authority }

/-- What keeps a path without an authority from being read as one. -/
def pathGuard (a : Address) : String :=
  match a.authority, a.path with
  | none, .rooted ([] :: _ :: _) => "/."
  | _, _ => ""

/-- An address in its standard form. -/
def text (a : Address) : String :=
  a.scheme ++ ":" ++ a.authority.elim "" Authority.text ++ a.pathGuard ++ a.path.text
    ++ (a.query.elim "" fun q => "?" ++ String.ofList q) ++ a.fragment.elim "" fun f => "#" ++ String.ofList f

end Address

end Arbiter
