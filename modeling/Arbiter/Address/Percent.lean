import Arbiter.Text.Number

/-!
# Escapes in addresses

A character that has no place in a part of an address is written by its bytes, each as a percent sign and two
hexadecimal digits.

* `escapeUnless`: a text with the characters escaped that a part does not take.
* `unescape?`: the text that a text with escapes stands for.
-/

namespace Arbiter

/-- The bytes of a character. -/
def utf8Bytes (c : Char) : List Nat :=
  (String.singleton c).toUTF8.toList.map UInt8.toNat

/-- A byte as a percent sign and two hexadecimal digits. -/
def escapedByte (b : Nat) : List Char :=
  let digit (n : Nat) : Char := (Nat.digitChar n).toUpper
  ['%', digit (b / 16), digit (b % 16)]

/-- Characters with those that `keep` refuses escaped. -/
def escapeUnless (keep : Char → Bool) (s : List Char) : List Char :=
  s.flatMap fun c => if keep c then [c] else (utf8Bytes c).flatMap escapedByte

/-- The bytes that a text with escapes stands for; a percent sign without two digits behind it stands for itself. -/
def unescapedBytes : List Char → List Nat
  | [] => []
  | '%' :: a :: b :: rest =>
    match hexDigit? a, hexDigit? b with
    | some high, some low => (high * 16 + low) :: unescapedBytes rest
    | _, _ => '%'.toNat :: unescapedBytes (a :: b :: rest)
  | c :: rest => utf8Bytes c ++ unescapedBytes rest

/-- The text that a text with escapes stands for, if its bytes are one. -/
def unescape? (s : List Char) : Option (List Char) :=
  (String.fromUTF8? ⟨((unescapedBytes s).map UInt8.ofNat).toArray⟩).map String.toList

/-- Whether a character is of the basic set and no control. -/
def isPrintable (c : Char) : Bool := 0x20 ≤ c.toNat && c.toNat ≤ 0x7E

/-- Whether a character may stand in a query. -/
def isQueryChar (c : Char) : Bool := isPrintable c && !" \"#<>".toList.contains c

/-- Whether a character may stand in a fragment. -/
def isFragmentChar (c : Char) : Bool := isPrintable c && !" \"<>`".toList.contains c

/-- Whether a character may stand in a path. -/
def isPathChar (c : Char) : Bool := isFragmentChar c && !"#?\x7b\x7d".toList.contains c

/-- Whether a character may stand in a name or a password. -/
def isCredentialChar (c : Char) : Bool := isPathChar c && !"/:;=@[\\]^|".toList.contains c

end Arbiter
