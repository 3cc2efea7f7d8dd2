/-
  EgressAuth.Plugin.Config

  The configuration of the filter: its settings and the endpoints that it
  governs, and how both are read from a JSON blob. Reading never fails. What
  cannot be understood counts as not given, each part on its own: a setting of
  the wrong type takes its default, and of the endpoints only the malformed
  authentication types, domains and paths are dropped.
-/
import EgressAuth.Endpoint.Routes
import EgressAuth.Json.Record
import EgressAuth.Text.Duration

namespace EgressAuth.Plugin

/-! ## Settings -/

/-- The settings of the filter. -/
structure Settings where
  providerName : String
  timeoutMs : UInt32
  matchEndpoints : Bool
  defaultAuthType : String
  deriving DecidableEq, Repr

namespace Settings

def default : Settings := ⟨"ext-authz", 5000, false, "ISHARE"⟩

def timeout (s : Settings) : Duration := Duration.ofMilliseconds s.timeoutMs.toNat

end Settings

/-- The settings that a blob gives. -/
structure General where
  providerName : Option String := none
  timeoutMs : Option UInt32 := none
  matchEndpoints : Option Bool := none
  defaultAuthType : Option String := none

namespace General

/-- Numbers of 32 bits. -/
def word? (j : Json) : Option UInt32 :=
  (j.intIn? 0 0xFFFFFFFF).map fun i => UInt32.ofNat i.toNat

/-- The section made of four values, absent ones and those of the wrong type left out. -/
def ofValues (name timeout matching authType : Option Json) : General where
  providerName := name.bind Json.string?
  timeoutMs := timeout.bind word?
  matchEndpoints := matching.bind Json.bool?
  defaultAuthType := authType.bind Json.string?

/-- The section in a blob: an object, or the list of at most its four values in order. -/
def ofJson? : Json → Option General
  | .object ms =>
    some (ofValues (Json.lookup? "authProviderName" ms) (Json.lookup? "authRequestTimeout" ms)
      (Json.lookup? "enableEndpointMatching" ms) (Json.lookup? "authType" ms))
  | .list js => if js.length ≤ 4 then some (ofValues js[0]? js[1]? js[2]? js[3]?) else none
  | _ => none

/-- The settings, defaults in place of what the section leaves out. -/
def settings (g : General) : Settings where
  providerName := g.providerName.getD Settings.default.providerName
  timeoutMs := g.timeoutMs.getD Settings.default.timeoutMs
  matchEndpoints := g.matchEndpoints.getD Settings.default.matchEndpoints
  defaultAuthType := g.defaultAuthType.getD Settings.default.defaultAuthType

end General

/-! ## Endpoints -/

/-- The members of an object in the order of their names; of members with one name the last one. -/
def orderedMembers (j : Json) : List (String × Json) :=
  match j with
  | .object ms => (SortedMap.ofList ms).entries
  | _ => []

def strings (j : Json) : List String := (j.list?.getD []).filterMap Json.string?

/-- The registrations in a section of types, domains and paths, in the order of the names and,
for each domain, in the order of its list. -/
def registrations (blob : Json) : List Endpoint.Registration :=
  (orderedMembers blob).flatMap fun (authType, domains) =>
    (orderedMembers domains).flatMap fun (domain, paths) =>
      (strings paths).map fun path => ⟨authType, domain, path⟩

/-! ## Configurations -/

/-- What requests are processed by: a snapshot of settings and endpoints. -/
structure Config where
  settings : Settings
  routes : Endpoint.RouteTable

namespace Config

def default : Config := ⟨Settings.default, Endpoint.RouteTable.empty⟩

/-- Blanks and line ends, form feeds included. -/
def isSpace (b : UInt8) : Bool := b == 0x20 || b == 0x09 || b == 0x0A || b == 0x0C || b == 0x0D

/-- Reads the two sections of a blob, each of them any JSON value. -/
def sectionsReader : Json.Reader (Option Json × Option Json) :=
  let anyValue := Json.Reader.value (Json.maxDepth - 1)
  Json.Reader.record "general" "endpoints" anyValue anyValue

/-- The sections of a blob; a blob that is absent, blank or malformed has none. -/
def sections (raw : Option Bytes) : Option Json × Option Json :=
  match raw with
  | none => (none, none)
  | some b => if b.all isSpace then (none, none) else (sectionsReader.readAll b).getD (none, none)

/-- Reads a blob. -/
def load (raw : Option Bytes) : Config :=
  let (general, endpoints) := sections raw
  { settings := ((general.bind General.ofJson?).getD {}).settings
    routes := Endpoint.RouteTable.compile ((endpoints.map registrations).getD []) }

/-- The entry that governs a path of a domain, if any does. -/
def entryFor? (c : Config) (domain path : String) : Option Endpoint.Entry :=
  if c.settings.matchEndpoints then
    -- With matching on, only listed domains and paths are governed.
    if domain.isEmpty ∨ path.isEmpty then none
    else (c.routes.find? domain path).map Endpoint.Route.entry
  else some (Endpoint.Entry.catchAll c.settings.defaultAuthType domain path)

end Config
end EgressAuth.Plugin
