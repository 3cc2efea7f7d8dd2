/-
  EgressAuth.Outbound.Transport

  Exchanges with other services over the network. A transport is whatever
  carries a request to the host named in its target and brings an answer back
  within a time limit. A request without a host is refused before it leaves.
-/
import EgressAuth.Http.Message
import EgressAuth.Text.Duration

namespace EgressAuth.Outbound

/-- Why no answer came over a connection. -/
inductive ConnectionFailure where
  | noConnection
  | noAnswer
  | noHost
  deriving DecidableEq, Repr

/-- The wording of a connection failure. -/
def ConnectionFailure.message : ConnectionFailure → String
  | noConnection => "client error (Connect)"
  | noAnswer => "client error (SendRequest)"
  | noHost => "client error (UserAbsoluteUriRequired)"

/-- What is said of a body that breaks off. -/
def brokenBodyMessage : String := "error reading a body from connection"

/-- How an exchange ends. -/
inductive Exchange where
  | timedOut
  | failed (reason : ConnectionFailure)
  | answered (response : Http.Response)

/-- Carries a request and brings its answer within the time given. -/
abbrev Transport := Http.Request → Duration → Exchange

namespace Transport

/-- The method `CONNECT`, for which an authority alone is a target. -/
def connectMethod : Http.Method := ⟨"CONNECT", by decide⟩

/-- Whether the target of a request says which host it is for. -/
def namesHost (r : Http.Request) : Bool :=
  match r.uri with
  | .absolute _ _ _ => true
  | .authority _ => r.method == connectMethod
  | .origin _ => false

/-- Makes an exchange, unless the request names no host. -/
def exchange (t : Transport) (r : Http.Request) (timeout : Duration) : Exchange :=
  if namesHost r then t r timeout else .failed .noHost

/-- The network on which no connection can be made. -/
def unreachable : Transport := fun _ _ => .failed .noConnection

end Transport
end EgressAuth.Outbound
