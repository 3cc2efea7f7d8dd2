/-
  EgressAuth.Endpoint.Routes

  The endpoints of a configuration. A registration names an authentication
  type, a domain and a path; it derives one or two patterns, under which its
  endpoint is found. Within a domain a pattern belongs to the registration
  that derived it last. Of the patterns that match a request path the longest
  one wins, and of equally long ones the first in the order of their texts.
-/
import EgressAuth.Cache.Id
import EgressAuth.Endpoint.Pattern
import EgressAuth.SortedMap
import EgressAuth.Text.Ascii

namespace EgressAuth.Endpoint

/-- What a configuration asks for: authentication of a type for a path of a domain. -/
structure Registration where
  authType : String
  domain : String
  path : String
  deriving DecidableEq, Repr

/-- The entry that governs a request, with its cache slot. -/
structure Entry where
  cacheId : Cache.Id
  authType : String
  domain : String
  path : String
  deriving DecidableEq, Repr

/-- A pattern and the entry of the requests that it matches. -/
structure Route where
  pattern : PathPattern
  entry : Entry
  deriving DecidableEq

/-- The entry of all requests while endpoint matching is off. -/
def Entry.catchAll (authType domain path : String) : Entry :=
  ⟨Cache.Id.shared, authType, domain, path⟩

namespace Registration

/-- The patterns for a path: everything below it, and the path itself unless it ends in a slash. -/
def patternTexts (path : String) : List String :=
  if path.toList.getLast? = some '/' then [path ++ "*"] else [path, path ++ "/*"]

/-- The entry of a registration; its domain is kept in small letters. -/
def entry (r : Registration) : Entry :=
  let domain := Text.foldCase r.domain
  ⟨Cache.Id.ofEndpoint domain r.path, r.authType, domain, r.path⟩

/-- The routes of a registration. An empty path has none, nor has a pattern that is too large. -/
def routes (r : Registration) : List Route :=
  if r.path.isEmpty then []
  else (patternTexts r.path).filterMap fun t => (PathPattern.ofText? t).map fun p => ⟨p, r.entry⟩

end Registration

/-- For every domain that has routes, its routes by the text of their patterns. -/
structure RouteTable where
  domains : SortedMap (SortedMap Route)

namespace RouteTable

def empty : RouteTable := ⟨SortedMap.empty⟩

/-- Adds a route to its domain, in place of the one with the same pattern. -/
def add (t : RouteTable) (r : Route) : RouteTable :=
  let old := (t.domains.get? r.entry.domain).getD SortedMap.empty
  ⟨t.domains.insert r.entry.domain (old.insert r.pattern.text r)⟩

def register (t : RouteTable) (r : Registration) : RouteTable := r.routes.foldl add t

/-- The table of registrations, later ones in place of earlier ones. -/
def compile (rs : List Registration) : RouteTable := rs.foldl register empty

/-- The routes of a domain, letters compared without case. -/
def routesFor? (t : RouteTable) (domain : String) : Option (List Route) :=
  (t.domains.get? (Text.foldCase domain)).map fun m => m.entries.map Prod.snd

def domainCount (t : RouteTable) : Nat := t.domains.size

/-- Picks the longest matching route, the earlier one of two equally long ones. -/
def better (path : String) (best : Option Route) (r : Route) : Option Route :=
  let length := match best with
    | some b => b.pattern.length
    | none => 0
  if length < r.pattern.length ∧ r.pattern.accepts path = true then some r else best

/-- The winning route for a path of a domain. -/
def find? (t : RouteTable) (domain path : String) : Option Route :=
  (t.routesFor? domain).bind fun rs => rs.foldl (better path) none

end RouteTable
end EgressAuth.Endpoint
