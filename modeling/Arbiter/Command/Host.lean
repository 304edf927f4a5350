import Arbiter.Http.Message
import Arbiter.Notice
import Arbiter.Store.Location

/-!
# The machine that the program runs on

* `Host`: files, the environment, the console, the clock, the network and the files of stores.
-/

namespace Arbiter

/-- Why the file of a store cannot be opened. -/
inductive OpenFault where
  | noFile
  /-- The file holds something else. -/
  | foreign
  /-- The file holds nothing and may only be read. -/
  | readOnly
deriving DecidableEq, Repr

/-- The failure to open a store. -/
def OpenFault.failure (path : String) : OpenFault → Failure
  | .noFile => ⟨["Failed to open database: " ++ path], .said ["unable to open database file: " ++ path]⟩
  | .foreign => .ofText "file is not a database"
  | .readOnly => .ofCause (.store .readOnly)

/-- What the program needs from the machine that it runs on. -/
structure Host (m : Type → Type) where
  /-- The content of a file, if it can be read. -/
  contentOf : String → m (Option String)
  /-- Whether something is there under a path. -/
  hasPath : String → m Bool
  /-- Appends a text to a file, which is made if it is absent; whether that worked. -/
  appendTo : String → String → m Bool
  /-- A variable of the environment. -/
  environment : String → m (Option String)
  /-- Writes to the standard output. -/
  print : String → m Unit
  /-- The next line of the standard input with its end; the empty text if there is none. -/
  readLine : m String
  clock : m Instant
  /-- A word by chance. -/
  entropy : m UInt64
  transport : Transport m
  notify : Notice → m Unit
  /-- Waits for some seconds. -/
  pause : Nat → m Unit
  /-- Opens the store in a place. -/
  openStore : StoreLocation → m (Except OpenFault Unit)
  /-- Works on the open store in a place, all at once. -/
  onStore : StoreLocation → {α : Type} → StoreM α → m (Except StoreFault α)

end Arbiter
