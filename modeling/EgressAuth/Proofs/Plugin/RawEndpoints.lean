/-
  EgressAuth.Proofs.Plugin.RawEndpoints

  The endpoint section of a configuration as a map of maps: for every
  authentication type its domains, for every domain the list of its paths. Its
  triples come in the order of the bytes of types and domains
  (`pairwise_registrations`), and they are what the filter registers when it
  loads a configuration (`routes_load`).
-/
import EgressAuth.Plugin.Config
import EgressAuth.Proofs.Text.ByteOrder

namespace EgressAuth

namespace SortedMap

variable {β γ : Type}

/-- The map with a function applied to all values. -/
def mapValues (f : β → γ) (m : SortedMap β) : SortedMap γ where
  entries := m.entries.map fun e => (e.1, f e.2)
  sorted := List.pairwise_map.2 m.sorted

end SortedMap

namespace Plugin

open Endpoint

/-- The endpoint section as it is read: for every authentication type its domains, and for every
domain the list of its paths. -/
abbrev RawEndpoints := SortedMap (SortedMap (List String))

namespace RawEndpoints

/-- The triples of a section: types in order, the domains of a type in order, the paths of a domain
as they are listed. -/
def registrations (raw : RawEndpoints) : List Registration :=
  raw.entries.flatMap fun (authType, domains) =>
    domains.entries.flatMap fun (domain, paths) =>
      paths.map fun path => ⟨authType, domain, path⟩

/-- A section lists a triple if the path stands in the list of the domain under the type. -/
theorem mem_registrations_iff {raw : RawEndpoints} {g : Registration} :
    g ∈ raw.registrations ↔
      ∃ domains paths, raw.get? g.authType = some domains ∧ domains.get? g.domain = some paths ∧
        g.path ∈ paths := by
  unfold registrations
  simp only [List.mem_flatMap, List.mem_map]
  constructor
  · rintro ⟨⟨authType, domains⟩, htype, ⟨domain, paths⟩, hdomain, path, hpath, rfl⟩
    exact ⟨domains, paths, SortedMap.mem_entries_iff.1 htype, SortedMap.mem_entries_iff.1 hdomain,
      hpath⟩
  · rintro ⟨domains, paths, htype, hdomain, hpath⟩
    exact ⟨(g.authType, domains), SortedMap.mem_entries_iff.2 htype,
      (g.domain, paths), SortedMap.mem_entries_iff.2 hdomain, g.path, hpath, rfl⟩

/-- What comes first among the triples has the smaller type, or of one type the smaller domain, or
is from the same list. Texts are compared by their bytes. -/
def Precedes (g k : Registration) : Prop :=
  Text.encode g.authType < Text.encode k.authType ∨ g.authType = k.authType ∧
    (Text.encode g.domain < Text.encode k.domain ∨ g.domain = k.domain)

theorem pairwise_registrations (raw : RawEndpoints) : raw.registrations.Pairwise Precedes := by
  unfold registrations
  rw [List.pairwise_flatMap]
  constructor
  · rintro ⟨authType, domains⟩ -
    rw [List.pairwise_flatMap]
    constructor
    · rintro ⟨domain, paths⟩ -
      exact List.pairwise_map.2 (List.pairwise_of_forall fun _ _ => Or.inr ⟨rfl, Or.inr rfl⟩)
    · refine domains.sorted.imp fun {a b} hlt g hg k hk => ?_
      obtain ⟨_, -, rfl⟩ := List.mem_map.1 hg
      obtain ⟨_, -, rfl⟩ := List.mem_map.1 hk
      exact Or.inr ⟨rfl, Or.inl (Text.encode_lt_encode hlt)⟩
  · refine raw.sorted.imp fun {a b} hlt g hg k hk => ?_
    obtain ⟨_, -, hg⟩ := List.mem_flatMap.1 hg
    obtain ⟨_, -, rfl⟩ := List.mem_map.1 hg
    obtain ⟨_, -, hk⟩ := List.mem_flatMap.1 hk
    obtain ⟨_, -, rfl⟩ := List.mem_map.1 hk
    exact Or.inl (Text.encode_lt_encode hlt)

/-- The members of an object by their names; a value of another kind has none. -/
def members : Json → SortedMap Json
  | .object ms => SortedMap.ofList ms
  | _ => SortedMap.empty

/-- The section that a JSON value spells, malformed parts left out. -/
def ofJson (blob : Json) : RawEndpoints :=
  (members blob).mapValues fun domains => (members domains).mapValues strings

theorem entries_members (j : Json) : (members j).entries = orderedMembers j := by
  cases j <;> rfl

/-- The filter registers the triples of the section that it reads. -/
theorem registrations_ofJson (blob : Json) :
    (ofJson blob).registrations = Plugin.registrations blob := by
  unfold registrations ofJson Plugin.registrations
  simp only [SortedMap.mapValues, List.flatMap_map, entries_members]

/-- The section in a blob, which is empty if the blob has none. -/
def read (raw : Option Bytes) : RawEndpoints :=
  ((Config.sections raw).2.map ofJson).getD SortedMap.empty

/-- A configuration that is loaded has the routes of the section in its blob. -/
theorem routes_load (raw : Option Bytes) :
    (Config.load raw).routes = RouteTable.compile (read raw).registrations := by
  show RouteTable.compile (((Config.sections raw).2.map Plugin.registrations).getD []) = _
  unfold read
  cases (Config.sections raw).2 with
  | none => rfl
  | some blob =>
      rw [Option.map_some, Option.map_some, Option.getD_some, Option.getD_some,
        registrations_ofJson]

end RawEndpoints
end Plugin
end EgressAuth
