import Arbiter.Text.Number

/-!
# The command line

* `Invocation.ofWords`: what the words of a command line ask for.
* `Form`: which switches, options and plain words may follow the name of a command.
-/

namespace Arbiter

/-- What the program is asked to do. -/
inductive Command where
  /-- Runs cycles: one, or one after another. -/
  | run (refresh once : Bool)
  /-- Takes a market of the platform into the store. -/
  | add (target triggers values : String) (checkRate : Float) (notes : String)
  /-- Queues the request in a file. -/
  | queue (path : String) (priority : Float)
  /-- Shows what the store holds. -/
  | list
  /-- Removes markets by their row numbers. -/
  | remove (rows : List Int)
  /-- Shows what the rules of a market mean and how they come out now. -/
  | explain (row : Int)

/-- A command together with the file of its settings. -/
structure Invocation where
  settingsPath : String
  command : Command

/-- Why the words of a command line ask for nothing. -/
inductive Misuse where
  | noCommand
  | unexpected (word : String)
  | repeated (option : String)
  | missing (argument : String)
  /-- An option without the value that it needs, or a switch with one. -/
  | wrongValue (option : String)
  | notNumber (word : String)
deriving DecidableEq, Repr

/-- Why the words of a command line are not carried out. -/
inductive Refusal where
  | help
  | misuse (m : Misuse)
deriving DecidableEq, Repr

/-- What may follow the name of a command. -/
structure Form where
  /-- Options without a value. -/
  switches : List String := []
  /-- Options with a value. -/
  options : List String := []
  /-- The greatest number of plain words, if there is one. -/
  words : Option Nat := some 0

/-- What follows the name of a command. -/
structure Given where
  switches : List String := []
  options : List (String × String) := []
  words : List String := []

/-- What a word of a command line is. -/
inductive Word where
  | plain
  /-- From here on all words are plain. -/
  | separator
  | help
  | named (name : String) (value : Option String)
  | unknown

/-- What a word is by its looks. -/
def Word.ofText (text : String) : Word :=
  match text.toList with
  | ['-', '-'] => .separator
  | '-' :: '-' :: rest =>
    let name := String.ofList (rest.takeWhile (· ≠ '='))
    match rest.dropWhile (· ≠ '=') with
    | [] => if name = "help" then .help else .named name none
    | _ :: value => .named name (some (String.ofList value))
  | '-' :: 'h' :: _ => .help
  | '-' :: _ :: _ => .unknown
  | _ => .plain

namespace Given

/-- Adds a switch. -/
def addSwitch (given : Given) (name : String) : Except Refusal Given :=
  if given.switches.contains name then .error (.misuse (.repeated name))
  else .ok { given with switches := name :: given.switches }

/-- Adds an option with its value. -/
def addOption (given : Given) (name value : String) : Except Refusal Given :=
  if given.options.any fun o => o.1 == name then .error (.misuse (.repeated name))
  else .ok { given with options := (name, value) :: given.options }

end Given

namespace Form

variable (form : Form)

/-- Adds a plain word. -/
def addWord (given : Given) (word : String) : Except Refusal Given :=
  if form.words.any fun most => most ≤ given.words.length then .error (.misuse (.unexpected word))
  else .ok { given with words := given.words ++ [word] }

/-- Adds plain words. -/
def addWords (given : Given) (words : List String) : Except Refusal Given :=
  words.foldlM form.addWord given

/-- Sorts words into switches, options and plain words; `pending` is an option that waits for its value. -/
def sort : (given : Given) → (pending : Option String) → List String → Except Refusal Given
  | given, none, [] => .ok given
  | _, some name, [] => .error (.misuse (.wrongValue name))
  | given, some name, word :: rest => do
    match Word.ofText word with
    | .plain => sort (← given.addOption name word) none rest
    | _ => .error (.misuse (.wrongValue name))
  | given, none, word :: rest => do
    match Word.ofText word with
    | .plain => sort (← form.addWord given word) none rest
    | .separator => form.addWords given rest
    | .help => .error .help
    | .unknown => .error (.misuse (.unexpected word))
    | .named name value =>
      if form.switches.contains name then
        match value with
        | none => sort (← given.addSwitch name) none rest
        | some _ => .error (.misuse (.wrongValue name))
      else if form.options.contains name then
        match value with
        | none => sort given (some name) rest
        | some value => sort (← given.addOption name value) none rest
      else .error (.misuse (.unexpected word))

end Form

namespace Given

/-- Whether a switch is given. -/
def has (given : Given) (name : String) : Bool := given.switches.contains name

/-- The value of an option. -/
def option? (given : Given) (name : String) : Option String := (given.options.find? (·.1 == name)).map (·.2)

/-- The value of an option that has to be there. -/
def option (given : Given) (name : String) : Except Refusal String :=
  match given.option? name with
  | some value => .ok value
  | none => .error (.misuse (.missing name))

/-- The number that an option gives, or another one without it. -/
def number (given : Given) (name : String) (fallback : Float) : Except Refusal Float :=
  match given.option? name with
  | none => .ok fallback
  | some text =>
    match readFloat? text with
    | some x => .ok x
    | none => .error (.misuse (.notNumber text))

/-- The first plain word. -/
def word (given : Given) (name : String) : Except Refusal String :=
  match given.words with
  | word :: _ => .ok word
  | [] => .error (.misuse (.missing name))

end Given

/-- The row number that a word gives. -/
def readRow (word : String) : Except Refusal Int :=
  match readInteger? word with
  | some row => .ok row
  | none => .error (.misuse (.notNumber word))

namespace Command

/-- A command by its name: what may follow it, and what that means. -/
def forms : List (String × Form × (Given → Except Refusal Command)) :=
  [("run", { switches := ["refresh", "once"] }, fun g => .ok (.run (g.has "refresh") (g.has "once"))),
    ("add", { options := ["time-rules", "value-rules", "check-rate", "notes"], words := some 1 }, fun g => do
      return .add (← g.word "market") (← g.option "time-rules") (← g.option "value-rules")
        (← g.number "check-rate" 24.0) ((g.option? "notes").getD "")),
    ("queue", { options := ["priority"], words := some 1 }, fun g => do
      return .queue (← g.word "request") (← g.number "priority" 0.0)),
    ("list", {}, fun _ => .ok .list),
    ("remove", { words := none }, fun g => do return .remove (← g.words.mapM readRow)),
    ("explain", { words := some 1 }, fun g => do return .explain (← readRow (← g.word "id")))]

/-- What help with the words behind it asks for: at most one word, which names a command or help itself. -/
def helpOn : List String → Refusal
  | [] => .help
  | name :: rest =>
    if name = "help" ∨ forms.any fun form => form.1 == name then
      match rest with
      | [] => .help
      | word :: _ => .misuse (.unexpected word)
    else .misuse (.unexpected name)

/-- The command of a name with the words behind it. -/
def ofWords (name : String) (words : List String) : Except Refusal Command :=
  match forms.find? (·.1 == name) with
  | some (_, form, build) => do build (← form.sort {} none words)
  | none => .error (if name = "help" then helpOn words else .misuse (.unexpected name))

end Command

namespace Invocation

/-- The path of the settings unless the command line names another one. -/
def defaultPath : String := "config.toml"

/-- The invocation in words; `path` is the path of the settings, if it was given. -/
def readWords : (path : Option String) → List String → Except Refusal Invocation
  | _, [] => .error (.misuse .noCommand)
  | path, word :: rest =>
    match Word.ofText word, rest with
    | .plain, rest => do return ⟨path.getD defaultPath, ← Command.ofWords word rest⟩
    | .help, _ => .error .help
    | .named "config" none, value :: rest =>
      match path, Word.ofText value with
      | none, .plain => readWords (some value) rest
      | some _, _ => .error (.misuse (.repeated "config"))
      | _, _ => .error (.misuse (.wrongValue "config"))
    | .named "config" none, [] => .error (.misuse (.wrongValue "config"))
    | .named "config" (some value), rest =>
      match path with
      | none => readWords (some value) rest
      | some _ => .error (.misuse (.repeated "config"))
    | _, _ => .error (.misuse (.unexpected word))

/-- What the words of a command line ask for. -/
def ofWords (words : List String) : Except Refusal Invocation := readWords none words

end Invocation

end Arbiter
