/-
  EgressAuth.Cache.Entry

  Authentication headers as the provider issues them, and cache entries, which
  hold such headers together with the time when they expire. Both are written
  as JSON; an entry is an object of expiration and headers.
-/
import EgressAuth.Json.Record
import EgressAuth.Json.Render

namespace EgressAuth

/-- A point in time, in seconds since 1970. -/
abbrev Instant := Int64

/-- A header issued by the authentication provider. -/
structure AuthHeader where
  name : String
  value : String
  deriving DecidableEq, Repr

namespace AuthHeader

/-- Reads a header: a record of name and value. -/
def reader : Json.Reader AuthHeader :=
  (Json.Reader.fullRecord "name" "value" Json.Reader.text Json.Reader.text).map fun (n, v) => ⟨n, v⟩

/-- Reads a list of headers. -/
def listReader : Json.Reader (List AuthHeader) :=
  reader.container Json.openList Json.closeList

/-- The headers that a provider's body lists. -/
def decodeList? (body : Bytes) : Option (List AuthHeader) := listReader.readAll body

/-- The header as a JSON value. -/
def toJson (h : AuthHeader) : Json :=
  .object [("name", .string h.name), ("value", .string h.value)]

end AuthHeader

namespace Cache

/-- Headers that may be given to requests up to, and not at, their expiration. -/
structure Entry where
  expiration : Instant
  headers : List AuthHeader
  deriving DecidableEq, Repr

namespace Entry

/-- Instants as integers. -/
def instantReader : Json.Reader Instant :=
  (Json.Reader.intIn Int64.minValue.toInt Int64.maxValue.toInt).map Int64.ofInt

/-- Reads an entry. -/
def reader : Json.Reader Entry :=
  (Json.Reader.fullRecord "expiration" "cachedHeaders" instantReader AuthHeader.listReader).map
    fun (e, hs) => ⟨e, hs⟩

def decode? (b : Bytes) : Option Entry := reader.readAll b

/-- The entry as a JSON value. -/
def toJson (e : Entry) : Json :=
  .object [("expiration", .int e.expiration.toInt),
    ("cachedHeaders", .list (e.headers.map AuthHeader.toJson))]

def encode (e : Entry) : Bytes := e.toJson.render

/-- Whether the entry may still be used. -/
def validAt (e : Entry) (now : Instant) : Bool := now < e.expiration

end Entry
end Cache
end EgressAuth
