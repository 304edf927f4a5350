import Arbiter.Toml.Table
import Arbiter.Toml.Text
import Arbiter.Toml.Word

/-!
# Reading settings files

A settings file has lines that open tables and lines that give names their values. A reader takes the characters that
are left and gives a result with the characters after it, or nothing.

* `Toml.read?`: the table that a whole file describes.
-/

namespace Arbiter.Toml

/-- What is left after blanks. -/
def skipBlanks (s : List Char) : List Char := s.dropWhile isBlankInLine

/-- What is left after the end of the line, if a comment at most stands before it. -/
def endLine (s : List Char) : Option (List Char) :=
  let s := skipBlanks s
  let s := match s with
    | '#' :: rest => rest.dropWhile isPlain
    | s => s
  match s with
  | [] => some []
  | '\n' :: rest => some rest
  | '\r' :: '\n' :: rest => some rest
  | _ => none

/-- What is left after blanks, ends of lines and comments. -/
def skipSpace : (inComment : Bool) → List Char → List Char
  | _, [] => []
  | _, '\n' :: rest => skipSpace false rest
  | _, '\r' :: '\n' :: rest => skipSpace false rest
  | true, c :: rest => if isPlain c then skipSpace true rest else c :: rest
  | false, c :: rest =>
    if c = '#' then skipSpace true rest else if isBlankInLine c then skipSpace false rest else c :: rest

/-- Whether a character may stand in a name without quotes. -/
def isNameChar (c : Char) : Bool := c.isAlphanum || c == '_' || c == '-'

/-- One part of a name. -/
def readPart (s : List Char) : Option (String × List Char) :=
  match s with
  | '"' :: rest => readText [] rest
  | c :: rest =>
    if c = singleQuote then readPlainText rest
    else if isNameChar c then some (String.ofList (s.takeWhile isNameChar), s.dropWhile isNameChar)
    else none
  | [] => none

/-- The parts of a name, with points between them. -/
def readParts : (fuel : Nat) → List Char → Option (List String × List Char)
  | 0, _ => none
  | fuel + 1, s => do
    let (part, rest) ← readPart (skipBlanks s)
    match skipBlanks rest with
    | '.' :: more => do
      let (parts, rest) ← readParts fuel more
      pure (part :: parts, rest)
    | rest => pure ([part], rest)

/-- How deep tables and lists may stand inside each other, and how many parts a name may have. -/
def maxDepth : Nat := 79

/-- A name: its parts. -/
def readName (s : List Char) : Option (List String × List Char) := do
  let (parts, rest) ← readParts s.length s
  if parts.length ≤ maxDepth then some (parts, rest) else none

mutual

/-- A value. `depth` is how many more tables and lists may stand inside each other. No setting is a moment, so of a
moment only remains that it was there. -/
def readValue : (fuel depth : Nat) → List Char → Option (Json × List Char)
  | 0, _, _ => none
  | fuel + 1, depth, s =>
    match s with
    | '"' :: '"' :: '"' :: rest =>
      (readLongText (rest.length + 1) [] ((afterLineEnd? rest).getD rest)).map fun (text, rest) => (.string text, rest)
    | '"' :: rest => (readText [] rest).map fun (text, rest) => (.string text, rest)
    | '[' :: rest =>
      match depth with
      | 0 => none
      | depth + 1 => readItems fuel depth [] (skipSpace false rest)
    | '\x7b' :: rest =>
      match depth with
      | 0 => none
      | depth + 1 =>
        match skipBlanks rest with
        | '\x7d' :: rest => some (.object [], rest)
        | rest => readMembers fuel depth [] rest
    | c :: rest =>
      if c = singleQuote then
        match rest with
        | a :: b :: more =>
          if a = singleQuote ∧ b = singleQuote then
            (readLongPlainText (more.length + 1) [] ((afterLineEnd? more).getD more)).map fun (text, rest) =>
              (.string text, rest)
          else (readPlainText rest).map fun (text, rest) => (.string text, rest)
        | _ => (readPlainText rest).map fun (text, rest) => (.string text, rest)
      else
        match afterMoment? s with
        | some rest => some (.null, rest)
        | none => (readWord? (s.takeWhile isWordChar)).map (·, s.dropWhile isWordChar)
    | [] => none

/-- The rest of a list; `seen` holds the items so far, the last one first. -/
def readItems : (fuel depth : Nat) → (seen : List Json) → List Char → Option (Json × List Char)
  | 0, _, _, _ => none
  | _, _, seen, ']' :: rest => some (.array seen.reverse, rest)
  | fuel + 1, depth, seen, s => do
    let (v, rest) ← readValue fuel depth s
    match skipSpace false rest with
    | ',' :: rest => readItems fuel depth (v :: seen) (skipSpace false rest)
    | ']' :: rest => pure (.array (v :: seen).reverse, rest)
    | _ => none

/-- The rest of a table that stands in one line. -/
def readMembers : (fuel depth : Nat) → (seen : Entries) → List Char → Option (Json × List Char)
  | 0, _, _, _ => none
  | fuel + 1, depth, seen, s => do
    let (name, rest) ← readName s
    match rest with
    | '=' :: rest => do
      let (v, rest) ← readValue fuel depth (skipBlanks rest)
      let seen ← place name v [] seen
      match skipBlanks rest with
      | ',' :: rest => readMembers fuel depth seen rest
      | '\x7d' :: rest => pure (.object (membersOf seen), rest)
      | _ => none
    | _ => none

end

/-- The lines of a file; `path` is the table that is open. -/
def readLines : (fuel : Nat) → (path : List String) → Entries → List Char → Option Entries
  | 0, _, _, _ => none
  | _, _, entries, [] => some entries
  | fuel + 1, path, entries, s =>
    match endLine s with
    | some rest => readLines fuel path entries rest
    | none =>
      match skipBlanks s with
      | '[' :: '[' :: rest => do
        let (path, rest) ← readName rest
        match rest with
        | ']' :: ']' :: rest => do readLines fuel path (← openItem path entries) (← endLine rest)
        | _ => none
      | '[' :: rest => do
        let (path, rest) ← readName rest
        match rest with
        | ']' :: rest => do readLines fuel path (← openTable path entries) (← endLine rest)
        | _ => none
      | s => do
        let (name, rest) ← readName s
        match rest with
        | '=' :: rest => do
          let (v, rest) ← readValue s.length maxDepth (skipBlanks rest)
          readLines fuel path (← place name v path entries) (← endLine rest)
        | _ => none

/-- The table that a file describes. -/
def read? (text : String) : Option Json :=
  let s := match text.toList with
    | '\uFEFF' :: rest => rest
    | s => s
  (readLines (s.length + 1) [] [] s).map fun entries => .object (membersOf entries)

end Arbiter.Toml
