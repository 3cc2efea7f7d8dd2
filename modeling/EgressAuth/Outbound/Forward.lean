/-
  EgressAuth.Outbound.Forward

  Forwarding of requests to the service behind the sidecar, and the responses
  that take the place of those that could not be had.
-/
import EgressAuth.Json.Render
import EgressAuth.Outbound.TargetUrl
import EgressAuth.Outbound.Transport

namespace EgressAuth.Outbound

/-- Why a request could not be forwarded. -/
inductive ForwardError where
  | requestTimeout (after : Duration)
  | invalidTargetUrl (url : String)
  | http (cause : Http.UriError)
  | connection (reason : String)
  | internal (reason : String)
  deriving DecidableEq, Repr

namespace ForwardError

/-- The wording of a forwarding error. -/
def message : ForwardError → String
  | requestTimeout after => "Request timeout after " ++ after.text
  | invalidTargetUrl url => "Invalid target URL: " ++ url
  | http cause => "HTTP error: " ++ cause.message
  | connection reason => "Connection error: " ++ reason
  | internal reason => "Internal error: " ++ reason

/-- The word by which programs tell the errors apart. -/
def code : ForwardError → String
  | requestTimeout _ => "UPSTREAM_TIMEOUT"
  | invalidTargetUrl _ => "INVALID_TARGET_URL"
  | http _ => "HTTP_ERROR"
  | connection _ => "CONNECTION_ERROR"
  | internal _ => "INTERNAL_ERROR"

/-- What the client is told. -/
def detail : ForwardError → String
  | requestTimeout after => "Upstream did not answer within " ++ after.text
  | internal reason => reason
  | e => e.message

/-- The status of the response. -/
def status : ForwardError → Nat
  | requestTimeout _ => 504
  | internal _ => 500
  | _ => 502

/-- The body of the response. -/
def body (e : ForwardError) (requestId : Option String) : Json :=
  .object [("code", .string e.code), ("message", .string e.detail),
    ("request_id", match requestId with
      | some id => .string id
      | none => .null)]

/-- The response to a request that could not be forwarded. It repeats the request id, if there is
one, in its body and, where it can, in its headers. -/
def response (e : ForwardError) (requestId : Option String) : Http.Response :=
  let r := Http.Response.withType e.status Http.Response.jsonType (e.body requestId).render
  match requestId.bind Http.HeaderValue.ofText? with
  | some v => { r with headers := r.headers.insert .requestId v }
  | none => r

end ForwardError

/-- The service that requests are forwarded to. -/
structure Backend where
  url : TargetUrl
  timeout : Duration := Duration.ofMilliseconds 30000

namespace Backend

/-- The URI of a request at the service: its path and query below the service's base URL. -/
def resolve (base : TargetUrl) (uri : Http.Uri) : Except ForwardError Http.Uri :=
  let path := uri.pathAndQuery?.getD "/"
  (base.resolve path).mapError fun _ => .invalidTargetUrl (base.base ++ path)

/-- Forwards a request. -/
def forward (b : Backend) (t : Transport) (r : Http.Request) : Except ForwardError Http.Response :=
  match resolve b.url r.uri with
  | .error e => .error e
  | .ok uri => match t.exchange { r with uri := uri } b.timeout with
    | .timedOut => .error (.requestTimeout b.timeout)
    | .failed reason => .error (.connection reason.message)
    | .answered response => .ok response

end Backend
end EgressAuth.Outbound
