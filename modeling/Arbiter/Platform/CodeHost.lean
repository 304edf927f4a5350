import Arbiter.Http.Credentials
import Arbiter.Platform.Client

/-!
# The client of the code host

* `CodeHost.pullRequest`: a pull request by its reference.
-/

namespace Arbiter

/-- A client of the code host. -/
structure CodeHost (m : Type → Type) where
  transport : Transport m
  baseUrl : String
  /-- A user and a token; lookups go without them if absent. -/
  credentials : Option (String × String)

namespace CodeHost

variable {m : Type → Type} [Monad m] (c : CodeHost m)

/-- The address of a pull request. -/
def address (pull : PullRef) : String :=
  withoutFinalSlashes c.baseUrl ++ "/repos/" ++ pull.owner ++ "/" ++ pull.repo ++ "/pulls/" ++ toString pull.number

/-- The headers of a lookup. -/
def headers : List (String × String) :=
  [("user-agent", agentName), ("accept", "application/vnd.github+json")]
    ++ c.credentials.toList.map fun (user, token) => ("authorization", basicCredentials user token)

/-- The pull request of a reference, if it exists. -/
def fetch (pull : PullRef) : m (Except Failure (Option PullRequest)) := do
  let url := c.address pull
  match ← c.transport.send ⟨.get, url, c.headers, none⟩ with
  | .failed causes => pure (.error ⟨["Failed to fetch " ++ pull.text], .said causes⟩)
  | .answered status body =>
    if status = 404 then pure (.ok none)
    else
      match statusFailure status url with
      | some failure => pure (.error failure)
      | none =>
        let context := "Failed to parse pull request " ++ pull.text
        pure ((decodeBody PullRequest.shape PullRequest.decode context body).map some)

/-- The pull request of a reference. -/
def pullRequest (pull : PullRef) : m (Except ReadFault PullRequest) := do
  match PlatformClient.asRead (← c.fetch pull) with
  | .error fault => pure (.error fault)
  | .ok (some request) => pure (.ok request)
  | .ok none => pure (.error (.notFound pull.text))

end CodeHost

end Arbiter
