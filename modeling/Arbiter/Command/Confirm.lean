import Arbiter.Chat.Conversation
import Arbiter.Command.Host
import Arbiter.Settings.Basic
import Arbiter.Settings.Secrets

/-!
# Where decisions come from

* `askConsole`: shows a proposal on the console and asks until a decision is given. The end of the input skips.
* `confirmer`: the channel that the settings name.
-/

namespace Arbiter

variable {m : Type → Type} [Monad m]

/-- The question behind a proposal. -/
def promptText : String := "[r]esolve, [c]ancel or [s]kip? "

/-- Asks for a decision up to `tries` times, and skips after that. -/
def readDecision (host : Host m) : (tries : Nat) → m Decision
  | 0 => pure .skip
  | tries + 1 => do
    host.print promptText
    let line ← host.readLine
    if line.isEmpty then pure .skip
    else
      match Decision.ofText? line with
      | some decision => pure decision
      | none =>
        host.print (Decision.unknownText line ++ "\n")
        readDecision host tries

/-- How often a decision is asked for at most. -/
def mostTries : Nat := 0x100000000

/-- Shows a proposal on the console and asks for a decision. -/
def askConsole (host : Host m) (proposal : Proposal) : m Decision := do
  host.print ("\n" ++ proposal.text ++ "\n\n")
  readDecision host mostTries

/-- What makes the decisions. -/
def confirmer (host : Host m) (settings : Settings) (secrets : Secrets) :
    Except Failure (Snapshot → Proposal → m (Except Failure Decision)) :=
  let s := settings.confirmation
  match s.channel with
  | .console => .ok fun _ proposal => .ok <$> askConsole host proposal
  | .fixed => .ok fun _ _ => pure (.ok s.fixedDecision)
  | .telegram => do
    let (key, chat) ← secrets.chat
    let client : ChatClient m :=
      { transport := host.transport, notify := host.notify, pause := host.pause, key, chat
        pollSeconds := s.chatPoll, timeoutSeconds := s.chatTimeout }
    return client.ask

end Arbiter
