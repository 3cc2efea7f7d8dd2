/-
  EgressAuth.Outbound.Cluster

  Calls to named clusters. A call's header list becomes an HTTP request at the
  cluster's base URL: method and path are taken from the pseudo-headers, and
  headers that describe the inbound message, not the call, are left out.
-/
import EgressAuth.Interception.Host
import EgressAuth.Outbound.TargetUrl
import EgressAuth.Outbound.Transport

namespace EgressAuth.Outbound

/-- The headers that a call does not take over. -/
def notForwarded : List Http.HeaderName := [.contentLength, .transferEncoding, .host]

/-- What has been gathered from a header list for a call. -/
structure Draft where
  method : Http.Method
  path : String
  headers : Http.HeaderMap

namespace Draft

/-- A call before any header has been looked at. -/
def start : Draft := ⟨.get, "/", .empty⟩

/-- Takes one header into account. Headers that cannot be sent are skipped. -/
def take (d : Draft) (name value : String) : Except HostError Draft :=
  if name = Http.methodName then
    match Http.Method.ofText? value with
    | some m => .ok { d with method := m }
    | none => .error (.badArgument ("method " ++ value ++ ": " ++ Http.Method.invalidMessage))
  else if name = Http.pathName then .ok { d with path := value }
  -- The authority and the scheme of a call are those of the cluster.
  else if Http.isPseudoName name then .ok d
  else match Http.HeaderName.ofText? name, Http.HeaderValue.ofText? value with
    | some n, some v =>
      if n ∈ notForwarded then .ok d else .ok { d with headers := d.headers.append n v }
    | _, _ => .ok d

/-- Takes all headers into account. -/
def takeAll : Draft → List (String × String) → Except HostError Draft
  | d, [] => .ok d
  | d, (name, value) :: rest => match d.take name value with
    | .ok d => d.takeAll rest
    | .error e => .error e

end Draft

/-- The request of a call at a base URL. -/
def buildRequest (base : TargetUrl) (headers : List (String × String)) (body : Option Bytes) :
    Except HostError Http.Request :=
  match Draft.start.takeAll headers with
  | .error e => .error e
  | .ok d => match base.resolve d.path with
    | .error e => .error (.badArgument e.message)
    | .ok uri => .ok ⟨d.method, uri, d.headers, body.getD []⟩

namespace ClusterTable

/-- The request of a call. -/
def request (t : ClusterTable) (call : ProviderCall) : Except HostError Http.Request :=
  match t.lookup call.cluster with
  | none => .error (.notFound ("cluster " ++ call.cluster))
  | some base => buildRequest base call.headers call.body

/-- The dispatcher that accepts the calls for which there is a request. -/
def dispatcher (t : ClusterTable) : Dispatcher where
  accept call := (t.request call).map fun _ => ()
  nextCall := 1

end ClusterTable

/-- The answer that a response is: its status and the headers that can be shown as text, and its
body unless that is empty. -/
def providerResponse (r : Http.Response) : Except HostError ProviderResponse :=
  match r.body with
  | none => .error (.internalFailure ("Body collection error: " ++ brokenBodyMessage))
  | some body =>
    .ok { headers := (Http.statusName, Decimal.natText r.status) :: r.headers.texts
          body := if body.isEmpty then none else some body }

/-- Makes a call over a transport. -/
def performCall (t : Transport) (r : Http.Request) (timeout : Duration) :
    Except HostError ProviderResponse :=
  match t.exchange r timeout with
  | .timedOut => .error (.timeout timeout)
  | .failed reason => .error (.internalFailure ("Connection error: " ++ reason.message))
  | .answered response => providerResponse response

/-- Makes the request of a call over a transport, if there is one. -/
def ClusterTable.call (table : ClusterTable) (t : Transport) (call : ProviderCall) :
    Except HostError ProviderResponse :=
  match table.request call with
  | .ok r => performCall t r call.timeout
  | .error e => .error e

end EgressAuth.Outbound
