import Arbiter.Cycle.Decision

/-!
# Messages of a chat

A proposal can be put to a chat, with one button for each decision. The chat is asked for what happened since; a button
that was pressed under the proposal is the answer to it.

* `keyboard`: the buttons.
* `findAnswer`: the first button that was pressed under a message, as a decision.
-/

namespace Arbiter

/-- The text on the button of a decision. -/
def Decision.label : Decision → String
  | .resolve => "Resolve"
  | .cancel => "Cancel"
  | .skip => "Skip"

/-- The buttons under a proposal, all in one row. -/
def keyboard : Json :=
  .object [("inline_keyboard", .array [.array (Decision.all.map fun d =>
    .object [("text", .string d.label), ("callback_data", .string d.name)])])]

/-- A message that was sent. -/
structure SentMessage where
  id : Int
deriving DecidableEq, Repr

/-- A button that was pressed. -/
structure ButtonPress where
  id : String
  /-- What the button stands for. -/
  data : Option String
  /-- The message under which it stands. -/
  message : Option SentMessage
deriving DecidableEq, Repr

/-- Something that happened in a chat. -/
structure ChatUpdate where
  id : Int
  press : Option ButtonPress
deriving DecidableEq, Repr

/-- What the chat says to a call. -/
structure ChatReply (α : Type) where
  ok : Bool
  result : Option α
  description : Option String

namespace SentMessage

/-- The fields of a message. -/
def fields : List FieldCheck := [field "message_id" Decoded.integer]

/-- What is expected of a message. -/
def shape : Json.Shape := recordShape fields

/-- A message that was sent. -/
def decode (v : Json) : Decoded SentMessage := do
  let r ← Record.ofJson fields v
  return ⟨← r.required "message_id" Decoded.integer⟩

end SentMessage

namespace ButtonPress

/-- The fields of a pressed button. -/
def fields : List FieldCheck :=
  [field "id" Decoded.text, field "data" (Decoded.optional Decoded.text),
    field "message" (Decoded.optional SentMessage.decode) SentMessage.shape]

/-- What is expected of a pressed button. -/
def shape : Json.Shape := recordShape fields

/-- A pressed button. -/
def decode (v : Json) : Decoded ButtonPress := do
  let r ← Record.ofJson fields v
  return {
    id := ← r.required "id" Decoded.text
    data := ← r.optional "data" Decoded.text
    message := ← r.optional "message" SentMessage.decode }

/-- The decision that a press under a message stands for. -/
def decision? (press : ButtonPress) (message : SentMessage) : Option Decision :=
  if press.message = some message then press.data.bind Decision.ofText? else none

end ButtonPress

namespace ChatUpdate

/-- The fields of an update. -/
def fields : List FieldCheck :=
  [field "update_id" Decoded.integer,
    field "callback_query" (Decoded.optional ButtonPress.decode) ButtonPress.shape]

/-- What is expected of an update. -/
def shape : Json.Shape := recordShape fields

/-- An update. -/
def decode (v : Json) : Decoded ChatUpdate := do
  let r ← Record.ofJson fields v
  return {
    id := ← r.required "update_id" Decoded.integer
    press := ← r.optional "callback_query" ButtonPress.decode }

end ChatUpdate

namespace ChatReply

/-- The fields of a reply. -/
def fields {α : Type} (shape : Json.Shape) (decode : Json → Decoded α) : List FieldCheck :=
  [field "ok" Decoded.truth, field "result" (Decoded.optional decode) shape,
    field "description" (Decoded.optional Decoded.text)]

/-- What is expected of a reply with a result of some shape. -/
def shape (result : Json.Shape) : Json.Shape := recordShape (fields result Except.ok)

/-- A reply with a result of some form. -/
def decode {α : Type} (decodeResult : Json → Decoded α) (v : Json) : Decoded (ChatReply α) := do
  let r ← Record.ofJson (fields .whole decodeResult) v
  let ok ← r.required "ok" Decoded.truth
  -- in a list every place up to the last one without a value of its own has to be there
  let result ← if r.positional then r.required "result" (Decoded.optional decodeResult)
    else r.optional "result" decodeResult
  return { ok, result, description := ← r.optional "description" Decoded.text }

end ChatReply

/-- The first button that was pressed under a message and stands for a decision. -/
def findAnswer (message : SentMessage) (updates : List ChatUpdate) : Option (String × Decision) :=
  updates.findSome? fun update => update.press.bind fun press => (press.decision? message).map (press.id, ·)

end Arbiter
