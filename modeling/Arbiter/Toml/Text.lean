import Arbiter.Text.Number

/-!
# Texts in settings files

A text stands between double quotes, where a backslash begins an escape, or between single quotes, where it does not.
Between three quotes it may have several lines. A reader takes the characters behind the opening quotes and gives the
text with the characters after the closing ones, or nothing.

* `readText`, `readPlainText`: texts in one line.
* `readLongText`, `readLongPlainText`: texts of several lines.
-/

namespace Arbiter.Toml

/-- Whether a character is a blank inside a line. -/
def isBlankInLine (c : Char) : Bool := c == ' ' || c == '\t'

/-- Whether a character may stand in a comment or in a text. -/
def isPlain (c : Char) : Bool := c == '\t' || (0x20 ≤ c.toNat && c.toNat != 0x7F)

/-- The character that digits in base sixteen stand for. -/
def scalar? (digits : List Char) : Option Char := do
  let n ← digits.foldlM (fun n c => (hexDigit? c).map fun d => n * 16 + d) 0
  if n < 0xD800 ∨ (0xDFFF < n ∧ n < 0x110000) then some (Char.ofNat n) else none

/-- The character behind a backslash. -/
def escaped? (c : Char) : Option Char :=
  match c with
  | '"' => some '"'
  | '\\' => some '\\'
  | 'b' => some '\x08'
  | 't' => some '\t'
  | 'n' => some '\n'
  | 'f' => some '\x0c'
  | 'r' => some '\r'
  | _ => none

/-- The rest of a text between double quotes; `seen` holds the characters so far, the last one first. -/
def readText (seen : List Char) : List Char → Option (String × List Char)
  | [] => none
  | '"' :: rest => some (String.ofList seen.reverse, rest)
  | '\\' :: 'u' :: a :: b :: c :: d :: rest => do readText ((← scalar? [a, b, c, d]) :: seen) rest
  | '\\' :: 'U' :: a :: b :: c :: d :: e :: f :: g :: h :: rest => do
    readText ((← scalar? [a, b, c, d, e, f, g, h]) :: seen) rest
  | '\\' :: c :: rest => do readText ((← escaped? c) :: seen) rest
  | c :: rest => if isPlain c then readText (c :: seen) rest else none

/-- The sign of a text without escapes. -/
def singleQuote : Char := Char.ofNat 39

/-- The rest of a text between single quotes. -/
def readPlainText (s : List Char) : Option (String × List Char) :=
  match s.dropWhile fun c => isPlain c && c != singleQuote with
  | c :: rest =>
    if c = singleQuote then some (String.ofList (s.takeWhile fun c => isPlain c && c != singleQuote), rest) else none
  | [] => none

/-- What is left after the end of a line at the beginning of a text. -/
def afterLineEnd? : List Char → Option (List Char)
  | '\n' :: rest => some rest
  | '\r' :: '\n' :: rest => some rest
  | _ => none

/-- What is left after the lines that a backslash at the end of one joins: blanks, the end of the line, and all blanks
and ends of lines that follow. -/
def afterJoint? (s : List Char) : Option (List Char) :=
  (afterLineEnd? (s.dropWhile isBlankInLine)).map fun rest =>
    rest.dropWhile fun c => isBlankInLine c || c == '\n' || c == '\r'

/-- The quotes at the beginning of a text that close a longer one: how many of them belong to it, and what follows.
The last three of at most five close it. -/
def closing? (quote : Char) (s : List Char) : Option (Nat × List Char) :=
  let count := min 5 (s.takeWhile (· == quote)).length
  if count < 3 then none else some (count - 3, s.drop count)

/-- The rest of a text of several lines between three double quotes. -/
def readLongText : (fuel : Nat) → (seen : List Char) → List Char → Option (String × List Char)
  | 0, _, _ => none
  | fuel + 1, seen, s =>
    match closing? '"' s, afterLineEnd? s with
    | some (quotes, rest), _ => some (String.ofList (seen.reverse ++ List.replicate quotes '"'), rest)
    | none, some rest => readLongText fuel ('\n' :: seen) rest
    | none, none =>
      match s with
      | '\\' :: 'u' :: a :: b :: c :: d :: rest => do readLongText fuel ((← scalar? [a, b, c, d]) :: seen) rest
      | '\\' :: 'U' :: a :: b :: c :: d :: e :: f :: g :: h :: rest => do
        readLongText fuel ((← scalar? [a, b, c, d, e, f, g, h]) :: seen) rest
      | '\\' :: c :: rest =>
        match escaped? c, afterJoint? (c :: rest) with
        | some c, _ => readLongText fuel (c :: seen) rest
        | none, some rest => readLongText fuel seen rest
        | none, none => none
      | c :: rest => if isPlain c then readLongText fuel (c :: seen) rest else none
      | [] => none

/-- The rest of a text of several lines between three single quotes. -/
def readLongPlainText : (fuel : Nat) → (seen : List Char) → List Char → Option (String × List Char)
  | 0, _, _ => none
  | fuel + 1, seen, s =>
    match closing? singleQuote s, afterLineEnd? s with
    | some (quotes, rest), _ => some (String.ofList (seen.reverse ++ List.replicate quotes singleQuote), rest)
    | none, some rest => readLongPlainText fuel ('\n' :: seen) rest
    | none, none =>
      match s with
      | c :: rest => if isPlain c then readLongPlainText fuel (c :: seen) rest else none
      | [] => none

end Arbiter.Toml
