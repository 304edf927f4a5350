import Arbiter.Http.Message
import Arbiter.Market.Pass
import Arbiter.Notice
import Arbiter.Platform.Message
import Arbiter.Platform.Slug

/-!
# The client of the platform

Reads and writes of the market platform, as requests and the reading of their replies.

* `PlatformClient.currentValue`, `otherMarket`, `snapshot`, `user`: the reads.
* `PlatformClient.resolve`, `cancel`, `create`: the writes, which need a key.
-/

namespace Arbiter

/-- The name that the program gives itself towards others. -/
def agentName : String := "market-resolver/0.1"

/-- The text without slashes at its end. -/
def withoutFinalSlashes (url : String) : String :=
  String.ofList (url.toList.reverse.dropWhile (· == '/')).reverse

/-- A client of the platform. -/
structure PlatformClient (m : Type → Type) where
  transport : Transport m
  clock : m Instant
  notify : Notice → m Unit
  baseUrl : String
  apiKey : Option String

namespace PlatformClient

variable {m : Type → Type} [Monad m] (c : PlatformClient m)

/-- The address of a path. -/
def address (path : String) : String := withoutFinalSlashes c.baseUrl ++ path

/-- Reads a record. -/
def fetch {α : Type} (shape : Json.Shape) (decode : Json → Decoded α) (path : String) : m (Except Failure α) := do
  let url := c.address path
  match ← c.transport.send ⟨.get, url, [("user-agent", agentName)], none⟩ with
  | .failed causes => pure (.error ⟨["Failed to fetch " ++ url], .said causes⟩)
  | .answered status body =>
    match statusFailure status url with
    | some failure => pure (.error failure)
    | none => pure (decodeBody shape decode ("Failed to parse response from " ++ url) body)

/-- The market of an identifier. -/
def listing (id : String) : m (Except Failure Listing) :=
  c.fetch Listing.shape Listing.decode ("/v0/market/" ++ id)

/-- The market of an address. -/
def listingAt (url : String) : m (Except Failure Listing) :=
  match slugOf? url with
  | some slug => c.fetch Listing.shape Listing.decode ("/v0/slug/" ++ slug)
  | none => pure (.error (.ofText ("No market slug in " ++ url)))

/-- A failure as a failed read. -/
def asRead {α : Type} : Except Failure α → Except ReadFault α
  | .ok a => .ok a
  | .error failure => .error (.request failure.message)

/-- The present value of a managed market. -/
def currentValue (market : Snapshot) : m (Except ReadFault Outcome) := do
  return (asRead (← c.listing market.id)).bind Listing.value

/-- Any market, by its address. -/
def otherMarket (url : String) : m (Except ReadFault Reference) := do
  match asRead (← c.listingAt url) with
  | .error fault => pure (.error fault)
  | .ok l => return l.reference (← c.clock)

/-- A managed market as it is now. -/
def snapshot (id : String) : m (Except ReadFault Snapshot) := do
  return (asRead (← c.listing id)).map Listing.snapshot

/-- A market as it is now, by its address. -/
def snapshotAt (url : String) : m (Except Failure Snapshot) := do
  return (← c.listingAt url).map Listing.snapshot

/-- A user's statistics. -/
def user (name : String) : m (Except ReadFault UserStats) := do
  return asRead (← c.fetch UserStats.shape UserStats.decode ("/v0/user/" ++ name))

/-- Sends a message; the answer to it. -/
def post (path : String) (message : Json) : m (Except Failure Json) := do
  match c.apiKey with
  | none => pure (.error (.ofText "MANIFOLD_API_KEY is required for writes"))
  | some key =>
    let url := c.address path
    let headers := [("user-agent", agentName), ("authorization", "Key " ++ key), ("content-type", "application/json")]
    match ← c.transport.send ⟨.post, url, headers, some message⟩ with
    | .failed causes => pure (.error ⟨["Failed to post to " ++ url], .said causes⟩)
    | .answered status body =>
      if isSuccess status then pure (decodeBody .whole .ok "Failed to parse platform response" body)
      else pure (.error (.ofText (url ++ " returned " ++ statusText status ++ ": " ++ body)))

/-- The path of a market's resolution. -/
def resolutionPath (market : Snapshot) : String := "/v0/market/" ++ market.id ++ "/resolve"

/-- Resolves a market. -/
def resolve (market : Snapshot) (value : Outcome) : m (Except Failure Unit) := do
  match resolutionMessage market value with
  | .error failure => pure (.error failure)
  | .ok message =>
    match ← c.post (resolutionPath market) message with
    | .error failure => pure (.error failure)
    | .ok _ =>
      c.notify (.sentResolution market.id value)
      pure (.ok ())

/-- Cancels a market. -/
def cancel (market : Snapshot) : m (Except Failure Unit) := do
  match ← c.post (resolutionPath market) cancellationMessage with
  | .error failure => pure (.error failure)
  | .ok _ =>
    c.notify (.sentCancellation market.id)
    pure (.ok ())

/-- Sends bets one by one, up to the first that fails. -/
def placeBets : List Json → m (Except Failure Unit)
  | [] => pure (.ok ())
  | bet :: rest => do
    match ← c.post "/v0/bet" bet with
    | .error failure => pure (.error failure)
    | .ok _ => placeBets rest

/-- Places the opening bets of a market that was just created, and fetches it for that. -/
def openMarket (request : CreationRequest) (id : String) : m (Except Failure Snapshot) := do
  match ← c.listing id with
  | .error failure => pure (.error failure)
  | .ok l =>
    match openingBets l request.initialValues with
    | .error failure => pure (.error failure)
    | .ok bets =>
      match ← c.placeBets bets with
      | .error failure => pure (.error failure)
      | .ok () =>
        if !request.initialValues.isEmpty then c.notify (.sentBets request.initialValues.size id)
        pure (.ok l.snapshot)

/-- The identifier in the answer to a creation. -/
def createdId? : Json → Option String
  | .object members => (Json.lookup "id" members).bind Json.asString?
  | _ => none

/-- Creates a market and places its opening bets. -/
def create (request : CreationRequest) : m (Except Failure Snapshot) := do
  match ← c.post "/v0/market" (creationMessage request) with
  | .error failure => pure (.error failure)
  | .ok answer =>
    match createdId? answer with
    | none => pure (.error (.ofText "Platform did not return a market id"))
    | some id =>
      c.notify (.sentMarket id request.question)
      c.openMarket request id

end PlatformClient

end Arbiter
