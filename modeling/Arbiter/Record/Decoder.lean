import Arbiter.Json.Reader
import Arbiter.Rule.Reader
import Arbiter.SortedMap
import Arbiter.Time.Writer

/-!
# Reading stored records

A record is an object with named fields, or a list of its fields in their order. Fields are decoded in the order in
which they are written, and the first fault counts; what is absent is noticed after that. Unknown fields are ignored, a
field that is written twice is a fault.

* `Record.ofJson`: the fields of a record, all of them checked.
* `Record.required`, `Record.withDefault`: one field of a checked record.
* `decodeText`: a record from JSON text; unknown fields of it are passed over, whatever they hold.
-/

namespace Arbiter

/-- Why a stored record cannot be read. -/
inductive DecodeFault where
  /-- The text is no JSON, or a name in it is no number where one is needed. -/
  | notJson
  | shape
  | missing (field : String)
  | rule (fault : RuleFault)

/-- The result of reading a value of a record. -/
abbrev Decoded := Except DecodeFault

namespace Decoded

/-- A text. -/
def text : Json → Decoded String
  | .string s => .ok s
  | _ => .error .shape

/-- A truth value. -/
def truth : Json → Decoded Bool
  | .bool b => .ok b
  | _ => .error .shape

/-- A number. -/
def number (v : Json) : Decoded Float :=
  match v.asFloat? with
  | some x => .ok x
  | none => .error .shape

/-- A natural number. -/
def natural (v : Json) : Decoded Nat :=
  match v.asNat? with
  | some n => .ok n
  | none => .error .shape

/-- An integer of a signed 64-bit word. -/
def integer : Json → Decoded Int
  | .int n => if int64Min ≤ n ∧ n ≤ int64Max then .ok n else .error .shape
  | _ => .error .shape

/-- A moment. -/
def moment : Json → Decoded Instant
  | .string s =>
    match Instant.readRelaxed? s with
    | some t => .ok t
    | none => .error .shape
  | _ => .error .shape

/-- A value that may be `null`. -/
def optional {α : Type} (decode : Json → Decoded α) : Json → Decoded (Option α)
  | .null => .ok none
  | v => some <$> decode v

/-- A list. -/
def list {α : Type} (decode : Json → Decoded α) : Json → Decoded (List α)
  | .array items => items.mapM decode
  | _ => .error .shape

/-- Values by name; the last one of a name counts. -/
def table {α : Type} (decode : Json → Decoded α) : Json → Decoded (SortedMap String α)
  | .object members => do
    return SortedMap.ofList (← members.mapM fun member => (member.1, ·) <$> decode member.2)
  | _ => .error .shape

/-- One of several named values: its name, or an object with the name alone. -/
def choice {α : Type} (all : List α) (name : α → String) : Json → Decoded α
  | .string s | .object [(s, .null)] =>
    match all.find? fun a => name a == s with
    | some a => .ok a
    | none => .error .shape
  | _ => .error .shape

/-- The result of reading a rule. -/
def ofRule {α : Type} : Except RuleFault α → Decoded α
  | .ok a => .ok a
  | .error fault => .error (.rule fault)

/-- A trigger. -/
def trigger (v : Json) : Decoded Trigger := ofRule (Trigger.ofJson v)

/-- A value rule. -/
def valueRule (v : Json) : Decoded ValueRule := ofRule (ValueRule.ofJson v)

end Decoded

/-- A field of a record and how it is decoded, as far as its faults go. -/
structure FieldCheck where
  name : String
  /-- What is expected of the value. -/
  shape : Json.Shape
  fault : Json → Option DecodeFault

/-- The fault in a result. -/
def faultOf {α : Type} : Decoded α → Option DecodeFault
  | .ok _ => none
  | .error fault => some fault

/-- A field of a record. -/
def field {α : Type} (name : String) (decode : Json → Decoded α) (shape : Json.Shape := .whole) : FieldCheck :=
  ⟨name, shape, fun v => faultOf (decode v)⟩

/-- What is expected of a record with some fields. -/
def recordShape (fields : List FieldCheck) : Json.Shape :=
  .record (fields.map fun f => (f.name, f.shape))

/-- The members of a record. -/
structure Record where
  members : List (String × Json)
  /-- Whether the fields were written as a list. -/
  positional : Bool

namespace Record

/-- The first fault of the members in the order in which they are written. -/
def firstFault (checks : List FieldCheck) (seen : List String) : List (String × Json) → Option DecodeFault
  | [] => none
  | (name, v) :: rest =>
    match checks.find? fun c => c.name == name with
    | none => firstFault checks seen rest
    | some check =>
      if seen.contains name then some .shape
      else (check.fault v).or (firstFault checks (name :: seen) rest)

/-- The record that a value stands for, its fields checked. -/
def ofJson (checks : List FieldCheck) : Json → Decoded Record
  | .object members =>
    match firstFault checks [] members with
    | some fault => .error fault
    | none => .ok ⟨members, false⟩
  | .array items =>
    let members := (checks.map (·.name)).zip items
    match firstFault checks [] members with
    | some fault => .error fault
    | none => if checks.length < items.length then .error .shape else .ok ⟨members, true⟩
  | _ => .error .shape

/-- A field that has to be there. -/
def required {α : Type} (r : Record) (name : String) (decode : Json → Decoded α) : Decoded α :=
  match Json.lookup name r.members with
  | some v => decode v
  | none => .error (if r.positional then .shape else .missing name)

/-- A field with a value of its own if it is absent. -/
def withDefault {α : Type} (r : Record) (name : String) (decode : Json → Decoded α) (fallback : α) : Decoded α :=
  match Json.lookup name r.members with
  | some v => decode v
  | none => .ok fallback

/-- A field that may be absent or `null`. -/
def optional {α : Type} (r : Record) (name : String) (decode : Json → Decoded α) : Decoded (Option α) :=
  r.withDefault name (Decoded.optional decode) none

end Record

/-- What JSON text stands for, read as far as its shape asks for it. -/
def decodeText {α : Type} (shape : Json.Shape) (decode : Json → Decoded α) (text : String) : Decoded α :=
  match Json.readAs? shape text with
  | some v => decode v
  | none => .error .notJson

/-- A moment as a field. -/
def Instant.toField (t : Instant) : Json := .string t.fieldText

end Arbiter
