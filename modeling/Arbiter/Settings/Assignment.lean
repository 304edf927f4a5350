import Arbiter.Text.Blank

/-!
# Assignments of variables

A file of assignments gives one variable a value in each line, perhaps behind the word `export`. A value may stand in
quotes; outside of single quotes a dollar sign names another variable, in braces or without.

* `readAssignment`: the assignment of a line.
* `readAssignments`: the assignments of a file up to the first line that is none.
-/

namespace Arbiter

/-- A piece of a value. -/
inductive Piece where
  | char (c : Char)
  /-- The value of a variable. -/
  | variable (name : String)
deriving DecidableEq, Repr

/-- A name with its value. -/
structure Assignment where
  name : String
  value : List Piece
deriving DecidableEq, Repr

namespace Assignment

/-- The quotes that a character stands in. -/
inductive Quotes where
  | none
  | single
  | double
deriving DecidableEq, Repr

/-- What comes next in a value. -/
inductive Place where
  | text (quotes : Quotes)
  /-- The character behind a backslash. -/
  | escape (quotes : Quotes)
  /-- The name of a variable, the last character first. -/
  | name (quotes : Quotes) (seen : List Char)
  | bracedName (quotes : Quotes) (seen : List Char)
  /-- Nothing but a comment. -/
  | ended

/-- The sign of a text without escapes. -/
def apostrophe : Char := Char.ofNat 39

/-- A variable by the characters of its name, the last one first. -/
def variableOf (seen : List Char) : Piece := .variable (String.ofList seen.reverse)

/-- The character that an escape stands for. -/
def escaped? (c : Char) : Option Char :=
  if c = 'n' then some '\n'
  else if c = apostrophe ∨ "\\\"$ ".toList.contains c then some c
  else none

/-- The pieces of a value. -/
def readPieces : Place → List Char → Option (List Piece)
  | .text .none, [] | .escape .none, [] | .ended, [] => some []
  | .name .none seen, [] => some [variableOf seen]
  | _, [] => none
  | .ended, c :: rest =>
    if c = ' ' ∨ c = '\t' then readPieces .ended rest else if c = '#' then some [] else none
  | .escape q, c :: rest => do
    let c ← escaped? c
    return .char c :: (← readPieces (.text q) rest)
  | .name q seen, c :: rest =>
    if c.isAlphanum then readPieces (.name q (c :: seen)) rest
    else if c = '{' ∧ seen = [] then readPieces (.bracedName q []) rest
    else if c = '$' then return variableOf seen :: (← readPieces (.name q []) rest)
    else return variableOf seen :: .char c :: (← readPieces (.text q) rest)
  | .bracedName q seen, c :: rest =>
    if c = '}' then return variableOf seen :: (← readPieces (.text q) rest)
    else readPieces (.bracedName q (c :: seen)) rest
  | .text .single, c :: rest =>
    if c = apostrophe then readPieces (.text .none) rest
    else return .char c :: (← readPieces (.text .single) rest)
  | .text .double, c :: rest =>
    if c = '$' then readPieces (.name .double []) rest
    else if c = '"' then readPieces (.text .none) rest
    else if c = '\\' then readPieces (.escape .double) rest
    else return .char c :: (← readPieces (.text .double) rest)
  | .text .none, c :: rest =>
    if c = '$' then readPieces (.name .none []) rest
    else if c = apostrophe then readPieces (.text .single) rest
    else if c = '"' then readPieces (.text .double) rest
    else if c = '\\' then readPieces (.escape .none) rest
    else if c = ' ' ∨ c = '\t' then readPieces .ended rest
    else return .char c :: (← readPieces (.text .none) rest)

/-- Whether a name may begin with a character. -/
def startsName (c : Char) : Bool := c.isAlpha || c == '_'

/-- Whether a character may stand in a name. -/
def isNameChar (c : Char) : Bool := c.isAlphanum || c == '_' || c == '.'

/-- A name, and what is left after it and blanks. -/
def readName (s : List Char) : Option (String × List Char) :=
  if (s.head?).any startsName then
    some (String.ofList (s.takeWhile isNameChar), trimStart (s.dropWhile isNameChar))
  else none

/-- A name and the characters behind the equals sign. -/
def readTarget (s : List Char) : Option (String × List Char) := do
  let (name, rest) ← readName s
  match rest with
  | '=' :: rest => pure (name, rest)
  | _ =>
    if name = "export" then
      let (name, rest) ← readName rest
      match rest with
      | '=' :: rest => pure (name, rest)
      | _ => none
    else none

/-- The assignment that stands in a line without blanks around it. -/
def ofLine? (s : List Char) : Option Assignment := do
  let (name, rest) ← readTarget s
  match trimStart rest with
  | [] | '#' :: _ => pure ⟨name, []⟩
  | rest => return ⟨name, ← readPieces (.text .none) rest⟩

end Assignment

/-- The assignments in lines, up to the first line that is none; blank lines and comments are passed over. -/
def readAssignments : (lines : List String) → List Assignment
  | [] => []
  | line :: rest =>
    match (trim line).toList with
    | [] | '#' :: _ => readAssignments rest
    | s =>
      match Assignment.ofLine? s with
      | some assignment => assignment :: readAssignments rest
      | none => []

end Arbiter
