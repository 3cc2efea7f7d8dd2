/-
  EgressAuth.Sidecar.Service

  The sidecar: every request is given an identifier, passes the filter unless
  its path is exempt, and is handed on once, to the service behind the sidecar
  or to another handler. Health checks are answered by the sidecar itself.
-/
import EgressAuth.Interception.Filter
import EgressAuth.Outbound.Cluster
import EgressAuth.Outbound.Forward
import EgressAuth.Sidecar.RequestId

namespace EgressAuth

/-- A running sidecar. -/
structure Sidecar where
  config : Plugin.Config
  host : Host
  clusters : Outbound.ClusterTable
  /-- Paths whose requests do not pass the filter. -/
  exempt : List String

namespace Sidecar

def healthPath : String := "/health"

/-- A sidecar with an empty store; `exempt` are its exempt paths besides that of health checks. -/
def start (config : Plugin.Config) (clusters : Outbound.ClusterTable) (now : Instant)
    (exempt : List String) : Sidecar where
  config := config
  host := { store := Cache.SharedStore.empty, clock := now, dispatcher := clusters.dispatcher }
  clusters := clusters
  exempt := healthPath :: exempt

/-- Makes a new configuration current. A file that cannot be read counts as none. -/
def configure (s : Sidecar) (raw : Option Bytes) : Sidecar :=
  { s with config := Plugin.Config.load raw }

/-! ## The filter in the way of a request -/

/-- Passes a request through the filter, waiting for the provider where the filter asks it; `ask`
is what the provider answers to a call. -/
def passFilter (config : Plugin.Config) (host : Host)
    (ask : ProviderCall → Except HostError ProviderResponse) (r : InboundRequest) :
    Host × InboundRequest :=
  let (out, verdict) := config.onRequest host r
  match verdict with
  | .proceed => (out.host, out.request)
  | .pause _ c context =>
    let done := context.onAnswer out.host out.request (ask c)
    (done.host, done.request)

/-- The HTTP request in view, or `r` if there is none. -/
def httpRequest (r : Http.Request) : InboundRequest → Http.Request
  | .http r' => r'
  | .listed _ => r

/-- What handling a request comes to. -/
structure Handled where
  sidecar : Sidecar
  response : Http.Response
  /-- The request that was handed on. -/
  passed : Http.Request

/-- Hands a request on to `next`, with the headers that the filter adds unless its path is
exempt. -/
def authenticate {m : Type → Type} [Monad m] (s : Sidecar) (t : Outbound.Transport)
    (next : Http.Request → m Http.Response) (r : Http.Request) : m Handled :=
  if s.exempt.contains r.uri.path then do
    let response ← next r
    return ⟨s, response, r⟩
  else do
    let (host, passed) := passFilter s.config s.host (s.clusters.call t) (.http r)
    let passed := httpRequest r passed
    let response ← next passed
    return ⟨{ s with host := host }, response, passed⟩

/-! ## Handling -/

/-- The body that may be sent: none to `HEAD`, nor with success to `CONNECT`. -/
def trimBody (method : Http.Method) (response : Http.Response) : Http.Response :=
  if method = .head ∨ (method = Outbound.Transport.connectMethod ∧ response.succeeded = true) then
    { response with body := some [] }
  else response

/-- Handles a request; `next` is what it is handed on to, `fresh` its identifier if it brings
none. -/
def handle (s : Sidecar) (t : Outbound.Transport) (fresh : Http.Uuid)
    (next : Http.Request → Http.Response) (r : Http.Request) : Handled :=
  let id := RequestId.choose fresh r.headers
  -- The identifier is set before the filter sees the request, and last of all on the response.
  let stamped := { r with headers := RequestId.stamp r.headers id }
  let handled := Id.run (s.authenticate t (fun r => pure (next r)) stamped)
  let response := { handled.response with headers := RequestId.stamp handled.response.headers id }
  { handled with response := trimBody r.method response }

/-- The methods of health checks, as a header value. -/
def healthMethods : Http.HeaderValue := ⟨Text.encode "GET,HEAD", by decide⟩

/-- Answers a health check. -/
def answerHealth (r : Http.Request) : Http.Response :=
  if r.method = .get ∨ r.method = .head then Http.Response.plain "OK"
  else ⟨405, Http.HeaderMap.empty.insert .allow healthMethods, some []⟩

/-- Forwards a request, or says why that failed. -/
def proxy (b : Outbound.Backend) (t : Outbound.Transport) (r : Http.Request) : Http.Response :=
  match b.forward t r with
  | .ok response => response
  | .error e => e.response (RequestId.stated? r.headers)

/-- What the sidecar hands requests on to: health checks to itself, all others to the service. -/
def route (b : Outbound.Backend) (t : Outbound.Transport) (r : Http.Request) : Http.Response :=
  if r.uri.path = healthPath then answerHealth r else proxy b t r

/-- Serves a request in front of a service. -/
def serve (s : Sidecar) (t : Outbound.Transport) (fresh : Http.Uuid) (b : Outbound.Backend)
    (r : Http.Request) : Handled :=
  s.handle t fresh (route b t) r

end Sidecar
end EgressAuth
