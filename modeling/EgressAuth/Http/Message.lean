/-
  EgressAuth.Http.Message

  Requests and responses, and the header view of a request in which its line
  appears as pseudo-headers: `:authority`, `:path`, `:method` and `:scheme`.
-/
import EgressAuth.Http.Header
import EgressAuth.Http.Uri

namespace EgressAuth.Http

/-! ## Pseudo-headers -/

def authorityName : String := ":authority"

def pathName : String := ":path"

def methodName : String := ":method"

def schemeName : String := ":scheme"

def statusName : String := ":status"

/-- Whether a name is one of a pseudo-header: those start with a colon. -/
def isPseudoName (name : String) : Bool := name.toList.head? == some ':'

/-! ## Requests -/

/-- A request. -/
structure Request where
  method : Method
  uri : Uri
  headers : HeaderMap
  body : Bytes

namespace Request

/-- The authority of the target or else what the `host` header says. -/
def authority? (r : Request) : Option String :=
  r.uri.authority?.or (r.headers.firstText? .host)

/-- Path and query, `/` where the target has none. -/
def pathAndQuery (r : Request) : String := r.uri.pathAndQuery?.getD "/"

/-- The scheme, `http` where the target has none. -/
def scheme (r : Request) : String := r.uri.scheme?.getD "http"

/-- The value of a pseudo-header, or the first value of a header. -/
def header? (r : Request) (name : String) : Option String :=
  if name = authorityName then r.authority?
  else if name = pathName then some r.pathAndQuery
  else if name = methodName then some r.method.text
  else if name = schemeName then some r.scheme
  else (HeaderName.ofText? name).bind r.headers.firstText?

/-- The pseudo-headers in order. -/
def pseudoHeaders (r : Request) : List (String × String) :=
  (r.authority?.map fun a => (authorityName, a)).toList ++
    [(pathName, r.pathAndQuery), (methodName, r.method.text), (schemeName, r.scheme)]

/-- The pseudo-headers and all headers that can be shown as text. -/
def headerTexts (r : Request) : List (String × String) := r.pseudoHeaders ++ r.headers.texts

/-- Adds a header if name and value are valid. -/
def addText (r : Request) (name value : String) : Request :=
  match HeaderName.ofText? name, HeaderValue.ofText? value with
  | some n, some v => { r with headers := r.headers.append n v }
  | _, _ => r

end Request

/-! ## Responses -/

/-- A response. A body that breaks off while it is read is none. -/
structure Response where
  status : Nat
  headers : HeaderMap
  body : Option Bytes

namespace Response

/-- A response with a body of the given type. -/
def withType (status : Nat) (type : HeaderValue) (body : Bytes) : Response :=
  ⟨status, HeaderMap.empty.insert .contentType type, some body⟩

def plainType : HeaderValue := ⟨Text.encode "text/plain; charset=utf-8", by decide⟩

def jsonType : HeaderValue := ⟨Text.encode "application/json", by decide⟩

def plain (text : String) : Response := withType 200 plainType (Text.encode text)

def succeeded (r : Response) : Bool := 200 ≤ r.status && r.status < 300

end Response
end EgressAuth.Http
