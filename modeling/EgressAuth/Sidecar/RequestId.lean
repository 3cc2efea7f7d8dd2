/-
  EgressAuth.Sidecar.RequestId

  The identifier by which a request is followed. A request keeps the one it
  brings if that is well-formed and gets a fresh one otherwise; it is set on
  the request and again on its response, in place of what was there.
-/
import EgressAuth.Http.Message
import EgressAuth.Http.Uuid

namespace EgressAuth.Sidecar.RequestId

/-- What the first identifier header says, if it can be shown as text. -/
def stated? (headers : Http.HeaderMap) : Option String := headers.firstText? .requestId

/-- The identifier of a request, `fresh` if it brings none. -/
def choose (fresh : Http.Uuid) (headers : Http.HeaderMap) : Http.Uuid :=
  ((stated? headers).bind Http.Uuid.ofText?).getD fresh

/-- Headers with the identifier as their only one. -/
def stamp (headers : Http.HeaderMap) (id : Http.Uuid) : Http.HeaderMap :=
  match Http.HeaderValue.ofText? id.text with
  | some v => headers.insert .requestId v
  | none => headers

/-- Handles a request under its identifier. -/
def around (fresh : Http.Uuid) (next : Http.Request → Http.Response) (r : Http.Request) :
    Http.Response :=
  let id := choose fresh r.headers
  let response := next { r with headers := stamp r.headers id }
  { response with headers := stamp response.headers id }

end EgressAuth.Sidecar.RequestId
