import Arbiter.Json.Shape
import Arbiter.Json.Skip

/-!
# Reading JSON

A reader takes the characters that are left and gives a result with the characters after it, or nothing.

* `Json.read?` reads a whole text: one value with blanks around it. At most 127 lists and objects stand inside each
  other, an escape never leaves half a surrogate pair, and a number has to fit a double.
* `Json.readAs?` reads what is asked for and passes over the other members of records.
-/

namespace Arbiter.Json

mutual

/-- One value. `depth` is how many more lists and objects may be opened. -/
def readValue (shape : Shape) : (fuel depth : Nat) → List Char → Option (Json × List Char)
  | 0, _, _ => none
  | fuel + 1, depth, s =>
    match skipGaps s with
    | [] => none
    | 'n' :: rest => (afterWord "ull" rest).map (.null, ·)
    | 't' :: rest => (afterWord "rue" rest).map (.bool true, ·)
    | 'f' :: rest => (afterWord "alse" rest).map (.bool false, ·)
    | '"' :: rest => (readText fuel [] rest).map fun (t, rest) => (.string t, rest)
    | '[' :: rest =>
      match depth with
      | 0 => none
      | depth + 1 =>
        match skipGaps rest with
        | ']' :: rest => some (.array [], rest)
        | rest => (readItems shape fuel depth rest).map fun (items, rest) => (.array items, rest)
    | '\x7b' :: rest =>
      match depth with
      | 0 => none
      | depth + 1 =>
        match skipGaps rest with
        | '\x7d' :: rest => some (.object [], rest)
        | rest => (readMembers shape fuel depth rest).map fun (members, rest) => (.object members, rest)
    | s => readNumber s

/-- The items of a list from its first one to the closing bracket. -/
def readItems (shape : Shape) : (fuel depth : Nat) → List Char → Option (List Json × List Char)
  | 0, _, _ => none
  | fuel + 1, depth, s => do
    let (v, rest) ← readValue shape.first fuel depth s
    match skipGaps rest with
    | ',' :: rest => do
      let (items, rest) ← readItems shape.later fuel depth rest
      pure (v :: items, rest)
    | ']' :: rest => pure ([v], rest)
    | _ => none

/-- The members of an object from its first one to the closing brace, without those that are not asked for. -/
def readMembers (shape : Shape) : (fuel depth : Nat) → List Char → Option (List (String × Json) × List Char)
  | 0, _, _ => none
  | fuel + 1, depth, s =>
    match skipGaps s with
    | '"' :: rest => do
      let (name, rest) ← readText fuel [] rest
      match skipGaps rest with
      | ':' :: rest => do
        let (member, rest) ← match shape.member? name with
          | some shape => (readValue shape fuel depth rest).map fun (v, rest) => ([(name, v)], rest)
          | none => (skipValue fuel rest).map ([], ·)
        match skipGaps rest with
        | ',' :: rest => do
          let (members, rest) ← readMembers shape fuel depth rest
          pure (member ++ members, rest)
        | '\x7d' :: rest => pure (member, rest)
        | _ => none
      | _ => none
    | _ => none

end

/-- The deepest nesting that is read. -/
def maxDepth : Nat := 127

/-- The value of a whole text as far as it is asked for, its members as they were written. -/
def readAs? (shape : Shape) (text : String) : Option Json := do
  let s := text.toList
  let (v, rest) ← readValue shape (2 * s.length + 2) maxDepth s
  if (skipGaps rest).isEmpty then some v else none

/-- The value of a whole text. -/
def read? (text : String) : Option Json := readAs? .whole text

end Arbiter.Json
