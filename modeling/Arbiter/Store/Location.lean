import Arbiter.Address.Percent
import Arbiter.Store.Record

/-!
# Where a store is kept

The settings name a store by a path, or by an address of the form `file:path?name=value&…` with escapes. An empty path
and `:memory:` stand for a store that is kept nowhere.

* `StoreLocation.ofName?`: the place that a name stands for, if it is one.
* `StoreAccess.run`: work on a store that may have to stay as it is.
-/

namespace Arbiter

/-- What may be done with the file of a store. -/
inductive StoreAccess where
  | readOnly
  /-- The file has to be there. -/
  | existing
  /-- The file is made if it is absent. -/
  | making
deriving DecidableEq, Repr

/-- Where a store is kept. -/
inductive StoreLocation where
  /-- Nowhere: a store that begins empty and is lost in the end. -/
  | nowhere
  | file (path : String) (access : StoreAccess)
deriving DecidableEq, Repr

/-- The steps of a path without those that lead nowhere; a step up takes back the step before it. `taken` holds the
steps so far, the last one first. -/
def plainSteps (taken : List String) : List String → List String
  | [] => taken.reverse
  | step :: rest =>
    if step = "" ∨ step = "." then plainSteps taken rest
    else if step = ".." then
      match taken with
      | last :: before => plainSteps (if last = ".." then ".." :: taken else before) rest
      | [] => plainSteps [".."] rest
    else plainSteps (step :: taken) rest

/-- The plain form of a path. -/
def plainPath (path : String) : String :=
  let text := "/".intercalate (plainSteps [] (path.splitOn "/"))
  if path.startsWith "/" then "/" ++ text else if text.isEmpty then "." else text

namespace StoreLocation

/-- The place of a path. -/
def ofPath (path : String) (access : StoreAccess) : StoreLocation :=
  if path = "" ∨ path = ":memory:" then .nowhere else .file (plainPath path) access

/-- A part of an address without escapes; an escaped null ends it. -/
def part? (s : List Char) : Option String :=
  (unescape? s).map fun text => String.ofList (text.takeWhile (· ≠ '\x00'))

/-- The names and values behind the question mark of an address; what has no name does not count. -/
def optionsOf (query : String) : Option (List (String × String)) := do
  let options ← (query.splitOn "&").mapM fun option => do
    let name := option.toList.takeWhile (· ≠ '=')
    pure (← part? name, ← part? ((option.toList.dropWhile (· ≠ '=')).drop 1))
  pure (options.filter fun option => option.1 != "")

/-- The ways of opening a store by their names; one of them keeps it nowhere. -/
def modes : List (String × Option StoreAccess) :=
  [("ro", some .readOnly), ("rw", some .existing), ("rwc", some .making), ("memory", none)]

/-- The ways of locking a file by their names. -/
def lockings : List String := ["unix", "unix-dotfile", "unix-excl", "unix-none"]

/-- Whether an option may have its value. -/
def isOption (name value : String) : Bool :=
  if name = "mode" then (modes.lookup value).isSome
  else if name = "cache" then value = "shared" || value = "private"
  else if name = "vfs" then lockings.contains value
  else true

/-- The place that an address without its scheme stands for. -/
def ofAddress? (s : List Char) : Option StoreLocation := do
  let s ← match s with
    | '/' :: '/' :: rest =>
      let machine := String.ofList (rest.takeWhile (· ≠ '/'))
      if machine = "" ∨ machine = "localhost" then some (rest.dropWhile (· ≠ '/')) else none
    | s => some s
  let s := s.takeWhile (· ≠ '#')
  let path ← part? (s.takeWhile (· ≠ '?'))
  let options ← optionsOf (String.ofList ((s.dropWhile (· ≠ '?')).drop 1))
  if !options.all fun option => isOption option.1 option.2 then none
  let mode := ((options.reverse.lookup "mode").bind fun value => modes.lookup value).getD (some .making)
  match mode with
  | some access => pure (ofPath path access)
  | none => pure .nowhere

/-- The place that a name stands for. -/
def ofName? (name : String) : Option StoreLocation :=
  if name.toList.contains '\x00' then none
  else if name.startsWith "file:" then ofAddress? (name.toList.drop 5)
  else some (ofPath name .making)

end StoreLocation

/-- Work on a store; where it may only be read, work that would change it fails. -/
def StoreAccess.run {α : Type} (access : StoreAccess) (work : StoreM α) (store : Store) :
    Except StoreFault α × Store :=
  let (result, changed) := (ExceptT.run work).run store
  if access = .readOnly ∧ changed.text ≠ store.text then (.error .readOnly, store) else (result, changed)

end Arbiter
