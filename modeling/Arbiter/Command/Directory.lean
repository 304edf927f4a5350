import Arbiter.Command.Host
import Arbiter.Http.Offline

/-!
# A machine in memory

A directory with files and stores, a console, a clock that stands still, and no network. Commands can be carried out in
it without an operating system.

* `Directory.host`: the machine as commands see it.
-/

namespace Arbiter

/-- A directory with files and stores, and the console. Paths are in their plain form and begin in the directory. -/
structure Directory where
  files : SortedMap String String
  stores : SortedMap String Store := SortedMap.empty
  /-- The open store that is kept nowhere. -/
  passing : Store := Store.empty
  /-- What is still to be read from the console. -/
  input : List Char := []
  /-- What was written to the console. -/
  output : String := ""

namespace Directory

variable (d : Directory)

/-- Whether a path leads to the directory itself or to one in it. -/
def isFolder (path : String) : Bool :=
  path == "." || d.files.keys.any fun file => file.startsWith (path ++ "/")

/-- Whether a file can be made: the directory that it goes into is there, and none has its name. -/
def canMake (path : String) : Bool :=
  let steps := path.splitOn "/"
  !d.isFolder path && !path.startsWith "/" && steps.head? != some ".." &&
    d.isFolder (plainPath ("/".intercalate steps.dropLast))

/-- The file that a path leads to. No step may lead up, since the directory before it would have to be there. -/
def fileName? (path : String) : Option String :=
  if path.endsWith "/" || path.isEmpty || path.toList.contains '\x00' || (path.splitOn "/").contains ".." then none
  else some (plainPath path)

/-- The text of a file. -/
def contentOf (path : String) : Option String := (fileName? path).bind d.files.lookup

/-- Whether something is there under a path. -/
def hasPath (path : String) : Bool :=
  (fileName? path).any fun file => d.isFolder file || (d.files.lookup file).isSome || (d.stores.lookup file).isSome

/-- The directory with a text at the end of a file, if there is such a file or one can be made. -/
def append? (path text : String) : Option Directory := do
  let file ← fileName? path
  if !d.canMake file then none
  pure { d with files := d.files.insert file ((d.files.lookup file).getD "" ++ text) }

/-- The directory with the store in a place open. -/
def openStore : StoreLocation → Except OpenFault Directory
  | .nowhere => .ok { d with passing := Store.empty }
  | .file path access =>
    match d.stores.lookup path, d.files.lookup path with
    | some store, _ => .ok { d with stores := d.stores.insert path store.reopen }
    | none, some text =>
      if !text.isEmpty then .error .foreign
      else if access = .readOnly then .error .readOnly
      else .ok { d with stores := d.stores.insert path Store.empty }
    | none, none =>
      if access = .making && d.canMake path then .ok { d with stores := d.stores.insert path Store.empty }
      else .error .noFile

/-- Work on the open store in a place. -/
def onStore {α : Type} (work : StoreM α) : StoreLocation → Except StoreFault α × Directory
  | .nowhere =>
    let (result, passing) := StoreAccess.making.run work d.passing
    (result, { d with passing })
  | .file path access =>
    let (result, store) := access.run work ((d.stores.lookup path).getD Store.empty)
    (result, { d with stores := d.stores.insert path store })

/-- The next line on the console with its end, and what is left. -/
def nextLine : String × Directory :=
  let line := d.input.takeWhile (· ≠ '\n')
  let rest := d.input.dropWhile (· ≠ '\n')
  (String.ofList (line ++ rest.take 1), { d with input := rest.drop 1 })

/-- The machine with a directory, at some moment and with some variables. -/
def host (now : Instant) (environment : String → Option String) : Host (StateM Directory) where
  contentOf path := return (← get).contentOf path
  hasPath path := return (← get).hasPath path
  appendTo path text := do
    match (← get).append? path text with
    | some d => set d *> pure true
    | none => pure false
  environment name := pure (environment name)
  print text := modify fun d => { d with output := d.output ++ text }
  readLine := modifyGet nextLine
  clock := pure now
  entropy := pure 0
  transport := Transport.offline
  notify _ := pure ()
  pause _ := pure ()
  openStore location := do
    match (← get).openStore location with
    | .ok d => set d *> pure (.ok ())
    | .error fault => pure (.error fault)
  onStore location {_} work := modifyGet fun d => d.onStore work location

end Directory

end Arbiter
