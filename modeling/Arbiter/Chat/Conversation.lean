import Arbiter.Chat.Message
import Arbiter.Http.Message
import Arbiter.Notice

/-!
# Asking in a chat

* `ChatClient.ask`: puts a proposal to a chat and waits for the answer. Without one in time the market is skipped.
-/

namespace Arbiter

/-- A client of the chat. -/
structure ChatClient (m : Type → Type) where
  transport : Transport m
  notify : Notice → m Unit
  /-- Waits for some seconds. -/
  pause : Nat → m Unit
  key : String
  chat : String
  /-- Seconds between two questions for news. -/
  pollSeconds : Nat
  /-- Seconds after which a proposal is given up. -/
  timeoutSeconds : Nat

namespace ChatClient

variable {m : Type → Type} [Monad m] (c : ChatClient m)

/-- The result in a reply to a call. -/
def resultOf {α : Type} (call : String) (reply : ChatReply α) : Except Failure α :=
  if reply.ok then
    match reply.result with
    | some result => .ok result
    | none => .error (.ofText ("Telegram " ++ call ++ " returned no result"))
  else .error (.ofText ("Telegram " ++ call ++ " failed: " ++ reply.description.getD ""))

/-- Makes a call. -/
def call {α : Type} (shape : Json.Shape) (decode : Json → Decoded α) (name : String) (message : Json) :
    m (Except Failure α) := do
  let url := "https://api.telegram.org/bot" ++ c.key ++ "/" ++ name
  match ← c.transport.send ⟨.post, url, [("content-type", "application/json")], some message⟩ with
  | .failed causes => pure (.error ⟨["Failed to call Telegram " ++ name], .said causes⟩)
  | .answered _ body =>
    let context := "Failed to parse Telegram " ++ name ++ " response"
    return (decodeBody (ChatReply.shape shape) (ChatReply.decode decode) context body).bind (resultOf name)

/-- Tells the chat that an answer has arrived. -/
def acknowledge (press : String) (decision : Decision) : m Unit := do
  match ← c.call .whole Decoded.truth "answerCallbackQuery"
      (.object [("callback_query_id", .string press), ("text", .string decision.name)]) with
  | .ok _ => pure ()
  | .error failure => c.notify (.notAcknowledged failure)

/-- Asks for news up to `rounds` times, leaving out what came before `offset`. -/
def await (marketId : String) (message : SentMessage) : (rounds : Nat) → (offset : Int) → m (Except Failure Decision)
  | 0, _ => do
    c.notify (.unanswered marketId c.timeoutSeconds)
    pure (.ok .skip)
  | rounds + 1, offset => do
    match ← c.call (.listOf ChatUpdate.shape) (Decoded.list ChatUpdate.decode) "getUpdates"
        (.object [("offset", .int offset), ("allowed_updates", .array [.string "callback_query"])]) with
    | .error failure => pure (.error failure)
    | .ok updates =>
      match findAnswer message updates with
      | some (press, decision) =>
        c.acknowledge press decision
        pure (.ok decision)
      | none =>
        c.pause c.pollSeconds
        await marketId message rounds (updates.getLast?.elim offset fun update => update.id + 1)

/-- How often the chat is asked for news before the time is over. -/
def rounds : Nat := (c.timeoutSeconds + max 1 c.pollSeconds - 1) / max 1 c.pollSeconds

/-- Puts a proposal to the chat and waits for the answer. -/
def ask (market : Snapshot) (proposal : Proposal) : m (Except Failure Decision) := do
  match ← c.call SentMessage.shape SentMessage.decode "sendMessage"
      (.object [("chat_id", .string c.chat), ("text", .string proposal.text), ("reply_markup", keyboard)]) with
  | .error failure => pure (.error failure)
  | .ok message =>
    c.notify (.asked market.id message.id)
    c.await market.id message c.rounds 0

end ChatClient

end Arbiter
