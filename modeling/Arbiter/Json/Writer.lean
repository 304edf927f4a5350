import Arbiter.Json.Basic

/-!
# Writing JSON

* `Json.compact` writes a value without blanks, its members in their order; a double that is not finite is `null`.
-/

namespace Arbiter.Json

/-- A code unit as four digits in base sixteen. -/
def fourHex (n : Nat) : String :=
  let digits := Nat.toDigits 16 n
  String.ofList (List.replicate (4 - digits.length) '0' ++ digits)

/-- A character as it stands in a JSON text: quotes, backslashes and controls are escaped, all else is itself. -/
def escapedChar (c : Char) : String :=
  match c with
  | '"' => "\\\""
  | '\\' => "\\\\"
  | '\n' => "\\n"
  | '\r' => "\\r"
  | '\t' => "\\t"
  | '\u0008' => "\\b"
  | '\u000c' => "\\f"
  | _ => if c.toNat < 0x20 then "\\u" ++ fourHex c.toNat else c.toString

/-- A text between double quotes. -/
def stringText (s : String) : String :=
  "\"" ++ String.join (s.toList.map escapedChar) ++ "\""

/-- A double: the fewest digits that read back, `null` for what JSON has no number for. -/
def floatText (x : Float) : String :=
  if (Dyadic.ofFloat? x).isSome then Layout.json.text x else "null"

mutual

/-- The text of a value, without blanks. -/
def compact : Json → String
  | .null => "null"
  | .bool b => if b then "true" else "false"
  | .int n => toString n
  | .float x => floatText x
  | .string s => stringText s
  | .array items => "[" ++ ",".intercalate (compactItems items) ++ "]"
  | .object members => "\x7b" ++ ",".intercalate (compactMembers members) ++ "\x7d"

/-- `compact` on each item. -/
def compactItems : List Json → List String
  | [] => []
  | v :: rest => compact v :: compactItems rest

/-- Each member as its quoted name, a colon and its value. -/
def compactMembers : List (String × Json) → List String
  | [] => []
  | (name, v) :: rest => (stringText name ++ ":" ++ compact v) :: compactMembers rest

end

/-- The text of a value with sorted members, as it stands inside a message. -/
def sortedText (v : Json) : String :=
  compact (canonical v)

end Arbiter.Json
