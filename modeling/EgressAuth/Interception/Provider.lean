/-
  EgressAuth.Interception.Provider

  Calls to the authentication provider: what is asked of it and what it
  answers. A call carries the headers of the request that it is made for, with
  the method and the path replaced.
-/
import EgressAuth.Endpoint.Routes
import EgressAuth.Http.Message
import EgressAuth.Interception.HostError
import EgressAuth.Text.Percent

namespace EgressAuth

/-- What a request that waits for the provider must be remembered by. -/
structure RequestContext where
  domain : String
  path : String
  entry : Endpoint.Entry
  /-- The version that the cache slot had when it was looked up. -/
  cacheVersion : Option UInt32
  deriving DecidableEq, Repr

/-- A call to a named cluster. -/
structure ProviderCall where
  cluster : String
  headers : List (String × String)
  body : Option Bytes
  timeout : Duration
  deriving DecidableEq, Repr

/-- The answer to a call. -/
structure ProviderResponse where
  headers : List (String × String)
  body : Option Bytes
  deriving DecidableEq, Repr

/-- The first value of a header, its name compared without case. -/
def firstValue? (headers : List (String × String)) (name : String) : Option String :=
  (headers.find? fun h => Text.sameLetters h.1 name).map Prod.snd

namespace RequestContext

/-- The target at which the provider is asked. -/
def providerPath (c : RequestContext) : String :=
  "/" ++ c.entry.authType ++ "/auth?domain=" ++ Text.Percent.encode c.domain ++ "&path=" ++
    Text.Percent.encode c.path

/-- The header with its value replaced where the name is that of method or path. -/
def retarget (c : RequestContext) (h : String × String) : String × String :=
  if h.1 = Http.methodName then (h.1, "GET")
  else if h.1 = Http.pathName then (h.1, c.providerPath)
  else h

/-- The headers of the call: method and path replaced in place, or added at the end. -/
def providerHeaders (c : RequestContext) (headers : List (String × String)) :
    List (String × String) :=
  let missing (name value : String) : List (String × String) :=
    if headers.any (·.1 == name) then [] else [(name, value)]
  headers.map c.retarget ++ missing Http.methodName "GET" ++ missing Http.pathName c.providerPath

end RequestContext
end EgressAuth
