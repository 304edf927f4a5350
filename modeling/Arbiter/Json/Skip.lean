import Arbiter.Json.Numeral
import Arbiter.Json.Quoted

/-!
# Passing over JSON

A value that nobody asks for is passed over: it has to be written as JSON is written, and nothing is asked of its
meaning. Numbers may have any size, escapes may name any code unit, and lists and objects may be nested at any depth.

* `skipValue`: what is left after a value.
-/

namespace Arbiter.Json

/-- The blanks that JSON knows. -/
def isGap (c : Char) : Bool :=
  c == ' ' || c == '\n' || c == '\t' || c == '\r'

/-- What is left after blanks. -/
def skipGaps (s : List Char) : List Char :=
  s.dropWhile isGap

/-- What is left after `word`, if the text begins with it. -/
def afterWord (word : String) (s : List Char) : Option (List Char) :=
  if word.toList.isPrefixOf s then some (s.drop word.length) else none

mutual

/-- What is left after a value. -/
def skipValue : (fuel : Nat) → List Char → Option (List Char)
  | 0, _ => none
  | fuel + 1, s =>
    match skipGaps s with
    | [] => none
    | 'n' :: rest => afterWord "ull" rest
    | 't' :: rest => afterWord "rue" rest
    | 'f' :: rest => afterWord "alse" rest
    | '"' :: rest => skipText fuel rest
    | '[' :: rest =>
      match skipGaps rest with
      | ']' :: rest => some rest
      | rest => skipItems fuel rest
    | '\x7b' :: rest =>
      match skipGaps rest with
      | '\x7d' :: rest => some rest
      | rest => skipMembers fuel rest
    | s => (readNumeral s).map (·.2)

/-- What is left after the items of a list, from the first one to the closing bracket. -/
def skipItems : (fuel : Nat) → List Char → Option (List Char)
  | 0, _ => none
  | fuel + 1, s => do
    match skipGaps (← skipValue fuel s) with
    | ',' :: rest => skipItems fuel rest
    | ']' :: rest => pure rest
    | _ => none

/-- What is left after the members of an object, from the first one to the closing brace. -/
def skipMembers : (fuel : Nat) → List Char → Option (List Char)
  | 0, _ => none
  | fuel + 1, s =>
    match skipGaps s with
    | '"' :: rest => do
      match skipGaps (← skipText fuel rest) with
      | ':' :: rest => do
        match skipGaps (← skipValue fuel rest) with
        | ',' :: rest => skipMembers fuel rest
        | '\x7d' :: rest => pure rest
        | _ => none
      | _ => none
    | _ => none

end

end Arbiter.Json
