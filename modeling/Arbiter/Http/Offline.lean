import Arbiter.Address.Reader
import Arbiter.Http.Message

/-!
# Without a network

* `Transport.offline`: every request fails, because it cannot be sent at all or because no host can be reached.
-/

namespace Arbiter

/-- What is said of a request when no host can be reached. -/
def unreachable (address : Address) : List String :=
  let network := "Network is unreachable (os error 101)"
  let connection := "tcp connect error: " ++ network
  let attempt := "error trying to connect: " ++ connection
  ["error sending request for url (" ++ address.text ++ "): " ++ attempt, attempt, connection, network]

/-- What is said of a request that cannot be made. -/
def unmade (fault : String) : List String := ["builder error: " ++ fault, fault]

/-- Whether an address is one of the web. -/
def isOfTheWeb (address : Address) : Bool := address.scheme == "http" || address.scheme == "https"

/-- What is said of a request to an address that is not one of the web. -/
def notOfTheWeb (address : Address) : List String :=
  let fault := "URL scheme is not allowed"
  ["builder error for url (" ++ address.text ++ "): " ++ fault, fault]

/-- Whether the value of a header can be sent. -/
def isHeaderValue (text : String) : Bool :=
  text.toList.all fun c => c == '\t' || (0x20 ≤ c.toNat && c.toNat != 0x7F)

/-- Why a request fails; what is wrong with it counts before the network. -/
def offlineCauses (request : HttpRequest) : List String :=
  match Address.read request.url with
  | .error fault => unmade fault.message
  | .ok address =>
    if !address.hasHost then notOfTheWeb address
    else if !request.headers.all fun h => isHeaderValue h.2 then unmade "failed to parse header value"
    else if !isOfTheWeb address then notOfTheWeb address.withoutCredentials
    else unreachable address.withoutCredentials

/-- The transport that reaches no host. -/
def Transport.offline {m : Type → Type} [Pure m] : Transport m where
  send request := pure (.failed (offlineCauses request))

end Arbiter
