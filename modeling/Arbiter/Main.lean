import Arbiter.Command.Help
import Arbiter.Command.Run
import Arbiter.Http.Offline
import Std.Time.DateTime

/-!
# The program

The machine as the operating system gives it: files, the environment, the console and the clock. No network is at
hand, so every request fails as it does where no host can be reached.
-/

namespace Arbiter

/-- A result, or nothing if the work fails. -/
def quietly {α : Type} (work : IO α) : IO (Option α) :=
  try some <$> work catch _ => pure none

/-- The present moment. -/
def presentMoment : IO Instant := do
  let now ← Std.Time.Timestamp.now
  let nanos := now.toNanosecondsSinceUnixEpoch.val
  pure ⟨nanos.fdiv Instant.nanosPerSecond, (nanos.fmod Instant.nanosPerSecond).toNat⟩

/-- A word by chance. -/
def chanceWord : IO UInt64 := do
  return (← IO.getRandomBytes 8).toList.foldl (fun n b => n * 256 + b.toUInt64) 0

/-- Opens the store in a file. -/
def openStoreFile (path : String) (access : StoreAccess) : IO (Except OpenFault Unit) := do
  let write (store : Store) : IO (Except OpenFault Unit) := do
    let written ← quietly (IO.FS.writeFile path store.text)
    pure (if written.isSome then .ok () else .error .noFile)
  match ← quietly (IO.FS.readFile path) with
  | none => if access = .making then write Store.empty else pure (.error .noFile)
  | some "" => if access = .readOnly then pure (.error .readOnly) else write Store.empty
  | some text =>
    match Store.ofText? text with
    | some store => if access = .readOnly then pure (.ok ()) else write store.reopen
    | none => pure (.error .foreign)

/-- Works on the store in a file. -/
def onStoreFile (path : String) (access : StoreAccess) {α : Type} (work : StoreM α) : IO (Except StoreFault α) := do
  let text ← IO.FS.readFile path
  let (result, store) := access.run work ((Store.ofText? text).getD Store.empty)
  if access ≠ .readOnly then IO.FS.writeFile path store.text
  pure result

/-- The machine that the program runs on; `passing` holds the open store if that is kept nowhere. -/
def thisMachine (input output errors : IO.FS.Stream) (passing : IO.Ref Store) : Host IO where
  contentOf path := quietly (IO.FS.readFile path)
  hasPath path := return (← quietly (IO.FS.Handle.mk path .read)).isSome
  appendTo path text := do
    let appended ← quietly do
      let file ← IO.FS.Handle.mk path .append
      file.putStr text
    pure appended.isSome
  environment name := IO.getEnv name
  print text := do
    output.putStr text
    output.flush
  readLine := input.getLine
  clock := presentMoment
  entropy := chanceWord
  transport := Transport.offline
  notify notice := errors.putStrLn (notice.level.name ++ " " ++ notice.text)
  pause seconds := IO.sleep (UInt32.ofNat (min (seconds * 1000) (0xFFFFFFFF)))
  openStore
    | .nowhere => passing.set Store.empty *> pure (.ok ())
    | .file path access => openStoreFile path access
  onStore location {_} work :=
    match location with
    | .nowhere => passing.modifyGet (StoreAccess.making.run work)
    | .file path access => onStoreFile path access work

end Arbiter

open Arbiter in
/-- Carries out the command line. -/
def main (words : List String) : IO UInt32 := do
  let output ← IO.getStdout
  let errors ← IO.getStderr
  let passing ← IO.mkRef Store.empty
  let exit ← execute (thisMachine (← IO.getStdin) output errors passing) 0x10000000000000000 words
  match exit with
  | .refused .help => output.putStr helpText
  | exit => exit.messages.forM errors.putStrLn
  pure (UInt32.ofNat exit.code)
