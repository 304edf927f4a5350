import Arbiter.Failure

/-!
# Requests and replies

* `Transport` sends requests.
* `statusText`: a status with its standard phrase.
* `Reply.content`: the body of a reply that reports success.
-/

namespace Arbiter

/-- How a request is meant. -/
inductive HttpMethod where
  | get
  | post
deriving DecidableEq, Repr

/-- The word for a method. -/
def HttpMethod.name : HttpMethod → String
  | .get => "GET"
  | .post => "POST"

/-- A request. -/
structure HttpRequest where
  method : HttpMethod
  url : String
  headers : List (String × String)
  body : Option Json

/-- What becomes of a request. -/
inductive HttpReply where
  | answered (status : Nat) (body : String)
  /-- No answer came; the texts explain each other. -/
  | failed (causes : List String)
deriving DecidableEq, Repr

/-- Sends requests. -/
structure Transport (m : Type → Type) where
  send : HttpRequest → m HttpReply

/-- The standard phrases of statuses. -/
def statusPhrases : List (Nat × String) :=
  [(100, "Continue"), (101, "Switching Protocols"), (102, "Processing"), (200, "OK"), (201, "Created"),
    (202, "Accepted"), (203, "Non Authoritative Information"), (204, "No Content"), (205, "Reset Content"),
    (206, "Partial Content"), (207, "Multi-Status"), (208, "Already Reported"), (226, "IM Used"),
    (300, "Multiple Choices"), (301, "Moved Permanently"), (302, "Found"), (303, "See Other"), (304, "Not Modified"),
    (305, "Use Proxy"), (307, "Temporary Redirect"), (308, "Permanent Redirect"), (400, "Bad Request"),
    (401, "Unauthorized"), (402, "Payment Required"), (403, "Forbidden"), (404, "Not Found"),
    (405, "Method Not Allowed"), (406, "Not Acceptable"), (407, "Proxy Authentication Required"),
    (408, "Request Timeout"), (409, "Conflict"), (410, "Gone"), (411, "Length Required"),
    (412, "Precondition Failed"), (413, "Payload Too Large"), (414, "URI Too Long"), (415, "Unsupported Media Type"),
    (416, "Range Not Satisfiable"), (417, "Expectation Failed"), (418, "I'm a teapot"), (421, "Misdirected Request"),
    (422, "Unprocessable Entity"), (423, "Locked"), (424, "Failed Dependency"), (426, "Upgrade Required"),
    (428, "Precondition Required"), (429, "Too Many Requests"), (431, "Request Header Fields Too Large"),
    (451, "Unavailable For Legal Reasons"), (500, "Internal Server Error"), (501, "Not Implemented"),
    (502, "Bad Gateway"), (503, "Service Unavailable"), (504, "Gateway Timeout"), (505, "HTTP Version Not Supported"),
    (506, "Variant Also Negotiates"), (507, "Insufficient Storage"), (508, "Loop Detected"), (510, "Not Extended"),
    (511, "Network Authentication Required")]

/-- A status with its phrase. -/
def statusText (status : Nat) : String :=
  let phrase := (statusPhrases.find? fun p => p.1 == status).map (·.2)
  toString status ++ " " ++ phrase.getD "<unknown status code>"

/-- Whether a status reports success. -/
def isSuccess (status : Nat) : Bool := 200 ≤ status && status < 300

/-- The failure that a status reports, if it reports one. -/
def statusFailure (status : Nat) (url : String) : Option Failure :=
  let told (side : String) : Failure :=
    .ofText ("HTTP status " ++ side ++ " error (" ++ statusText status ++ ") for url (" ++ url ++ ")")
  if 400 ≤ status ∧ status < 500 then some (told "client")
  else if 500 ≤ status ∧ status < 600 then some (told "server")
  else none

/-- A body that is no record of the expected form. -/
def undecodable : Failure := .ofText "error decoding response body"

/-- The record in a body. -/
def decodeBody {α : Type} (shape : Json.Shape) (decode : Json → Decoded α) (context body : String) :
    Except Failure α :=
  match decodeText shape decode body with
  | .ok value => .ok value
  | .error _ => .error (undecodable.inContext context)

end Arbiter
