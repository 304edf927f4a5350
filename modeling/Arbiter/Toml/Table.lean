import Arbiter.Json.Basic

/-!
# Tables of settings as they grow

The lines of a settings file build one table of tables. How a table came to be decides what may still be added to it:
a table that was opened in a line of its own is opened once, and a name has one value.

* `openTable` and `openItem`: open the table of a path, the only one or one more.
* `place`: gives a name in an open table its value.
* `Entry.toJson`: what was built, as a value.
-/

namespace Arbiter.Toml

/-- How a table came to be. -/
inductive Origin where
  /-- By a line that opens a table inside it. -/
  | implied
  /-- By a name with points. -/
  | pointed
  /-- By a line that opens it. -/
  | opened
deriving DecidableEq, Repr

/-- What stands under a name. -/
inductive Entry where
  | value (v : Json)
  | table (origin : Origin) (entries : List (String × Entry))
  /-- Tables opened one by one, the last one first. -/
  | tables (last : List (String × Entry)) (others : List (List (String × Entry)))

/-- The entries of a table in their order. -/
abbrev Entries := List (String × Entry)

/-- The entry of a name. -/
def Entries.find? (name : String) (entries : Entries) : Option Entry :=
  (List.find? (·.1 == name) entries).map (·.2)

/-- The entries with one in place of that of the same name, or at the end. -/
def Entries.set (name : String) (entry : Entry) : Entries → Entries
  | [] => [(name, entry)]
  | (other, old) :: rest =>
    if other = name then (name, entry) :: rest else (other, old) :: Entries.set name entry rest

/-- Changes the table of a path, and makes the tables on the way to it. Of tables opened one by one the last counts. -/
def within (change : Entries → Option Entries) : (path : List String) → Entries → Option Entries
  | [], entries => change entries
  | name :: rest, entries =>
    match entries.find? name with
    | none => (within change rest []).map fun inner => entries.set name (.table .implied inner)
    | some (.table origin inner) =>
      (within change rest inner).map fun inner => entries.set name (.table origin inner)
    | some (.tables last others) => (within change rest last).map fun last => entries.set name (.tables last others)
    | some (.value _) => none

/-- Opens a table under a name. -/
def openNamed (name : String) (entries : Entries) : Option Entries :=
  match entries.find? name with
  | none => some (entries.set name (.table .opened []))
  | some (.table .implied inner) => some (entries.set name (.table .opened inner))
  | some _ => none

/-- Opens one more table under a name. -/
def openAnother (name : String) (entries : Entries) : Option Entries :=
  match entries.find? name with
  | none => some (entries.set name (.tables [] []))
  | some (.tables last others) => some (entries.set name (.tables [] (last :: others)))
  | some _ => none

/-- Opens the table of a path. -/
def openTable (path : List String) (entries : Entries) : Option Entries := do
  within (openNamed (← path.getLast?)) path.dropLast entries

/-- Opens one more table of a path. -/
def openItem (path : List String) (entries : Entries) : Option Entries := do
  within (openAnother (← path.getLast?)) path.dropLast entries

/-- Gives the last part of a name with points its value. -/
def placePointed (v : Json) : (parts : List String) → Entries → Option Entries
  | [], _ => none
  | [name], entries =>
    match entries.find? name with
    | none => some (entries.set name (.value v))
    | some _ => none
  | name :: rest, entries =>
    match entries.find? name with
    | none => (placePointed v rest []).map fun inner => entries.set name (.table .pointed inner)
    | some (.table .opened _) | some (.value _) => none
    | some (.table origin inner) =>
      (placePointed v rest inner).map fun inner => entries.set name (.table origin inner)
    | some (.tables last others) => (placePointed v rest last).map fun last => entries.set name (.tables last others)

/-- Gives a name its value in the table of a path. -/
def place (parts : List String) (v : Json) (path : List String) (entries : Entries) : Option Entries :=
  within (placePointed v parts) path entries

mutual

/-- An entry as a value. -/
def Entry.toJson : Entry → Json
  | .value v => v
  | .table _ entries => .object (membersOf entries)
  | .tables last others => .array (itemsOf others ++ [.object (membersOf last)])

/-- Entries as the members of an object. -/
def membersOf : List (String × Entry) → List (String × Json)
  | [] => []
  | (name, entry) :: rest => (name, entry.toJson) :: membersOf rest

/-- Tables opened one by one, the last one first, as the items of a list. -/
def itemsOf : List (List (String × Entry)) → List Json
  | [] => []
  | last :: others => itemsOf others ++ [.object (membersOf last)]

end

end Arbiter.Toml
