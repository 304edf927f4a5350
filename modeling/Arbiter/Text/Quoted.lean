import Arbiter.Text.Hidden

/-!
# Quoted texts

* `quoted` puts a text between double quotes. Quotes and backslashes take a backslash, four controls have a letter, and
  every other hidden character is written by its code point in braces.
-/

namespace Arbiter

/-- The digits of a number in base sixteen, small letters. -/
def hexText (n : Nat) : String :=
  String.ofList (Nat.toDigits 16 n)

/-- A character as it stands inside quotes. -/
def quotedChar (c : Char) : String :=
  match c with
  | '\u0000' => "\\0"
  | '\t' => "\\t"
  | '\r' => "\\r"
  | '\n' => "\\n"
  | '\\' => "\\\\"
  | '"' => "\\\""
  | _ => if isHidden c then "\\u\x7b" ++ hexText c.toNat ++ "\x7d" else c.toString

/-- A text between double quotes. -/
def quoted (s : String) : String :=
  "\"" ++ String.join (s.toList.map quotedChar) ++ "\""

end Arbiter
