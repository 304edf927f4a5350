import Arbiter.Failure
import Arbiter.Settings.Assignment
import Arbiter.SortedMap

/-!
# Secrets

Keys and names that come from the environment, and from a file of assignments for variables that the environment does
not have.

* `Secrets.ofVariables`: the secrets among variables; the key of the platform has to be there.
* `Secrets.chat`: the key of the chat and its name, both of which have to be there.
* `assignVariables`: the variables that a file of assignments adds to the environment, if they can hold its values.
-/

namespace Arbiter

/-- Keys and names from the environment. -/
structure Secrets where
  platformKey : String
  codeHostUser : Option String
  codeHostToken : Option String
  chatKey : Option String
  chatName : Option String

namespace Secrets

/-- What is said of a variable that has to be there. -/
def notSet (name : String) : String := name ++ " not set"

/-- The user of the code host together with the token. -/
def codeHostCredentials (s : Secrets) : Option (String × String) :=
  s.codeHostUser.bind fun user => s.codeHostToken.map fun token => (user, token)

/-- The key of the chat and its name. -/
def chat (s : Secrets) : Except Failure (String × String) :=
  match s.chatKey, s.chatName with
  | some key, some name => .ok (key, name)
  | none, _ => .error (.ofText (notSet "TELEGRAM_API_KEY"))
  | _, none => .error (.ofText (notSet "TELEGRAM_CHAT_ID"))

variable {m : Type → Type} [Monad m]

/-- The secrets among the variables. -/
def ofVariables (find : String → m (Option String)) : m (Except Failure Secrets) := do
  match ← find "MANIFOLD_API_KEY" with
  | none => pure (.error ⟨[notSet "MANIFOLD_API_KEY"], .said ["environment variable not found"]⟩)
  | some platformKey =>
    let codeHostUser ← find "GITHUB_USERNAME"
    let codeHostToken ← find "GITHUB_TOKEN"
    let chatKey ← find "TELEGRAM_API_KEY"
    let chatName ← find "TELEGRAM_CHAT_ID"
    pure (.ok { platformKey, codeHostUser, codeHostToken, chatKey, chatName })

end Secrets

section

variable {m : Type → Type} [Monad m] (outer : String → m (Option String))

/-- A variable of the environment, or else one that was added to it. -/
def findVariable (added : SortedMap String String) (name : String) : m (Option String) := do
  match ← outer name with
  | some value => pure (some value)
  | none => pure (added.lookup name)

/-- The text of a value; a variable that nothing is known of is empty. -/
def valueText (added : SortedMap String String) : List Piece → m String
  | [] => pure ""
  | .char c :: rest => return String.singleton c ++ (← valueText added rest)
  | .variable name :: rest => do
    let value ← findVariable outer added name
    return value.getD "" ++ (← valueText added rest)

/-- The variables that assignments add to the environment, if no value holds the character that ends the value of a
variable; the first assignment of a name counts. -/
def assignVariables : (added : SortedMap String String) → List Assignment → m (Option (SortedMap String String))
  | added, [] => pure (some added)
  | added, a :: rest => do
    match ← findVariable outer added a.name with
    | some _ => assignVariables added rest
    | none =>
      let value ← valueText outer added a.value
      if value.toList.contains '\x00' then pure none else assignVariables (added.insert a.name value) rest

end

end Arbiter
