/-
  EgressAuth.Proofs.Plugin.Shapes

  What a configuration takes from a JSON text that has not the shape of one
  (`load_of_wrong_shape`). A text that is neither object nor list gives nothing,
  and so does a general section that is neither, while the endpoints beside it
  count. A list is another matter: it stands for the object of its items under
  the names of the fields, in the blob as well as in the general section,
  unless it is too long.

  Texts are judged by the grammar alone, so those are covered too that have the
  form of a value but are not read as one.
-/
import EgressAuth.Proofs.Plugin.Fallback

namespace EgressAuth.Plugin

open Endpoint

/-! ## The general section -/

namespace General

/-- The names of the settings, in the order in which a list gives them. -/
def names : List String :=
  ["authProviderName", "authRequestTimeout", "enableEndpointMatching", "authType"]

/-- The members that a general section stands for: those of an object, or the items of a list of
at most four under the names of the settings. -/
def members? : Json → Option (List (String × Json))
  | .object ms => some ms
  | .list js => if js.length ≤ 4 then some (names.zip js) else none
  | _ => none

/-- A section is read from the members that it stands for. -/
theorem ofJson?_eq (j : Json) : ofJson? j = ((members? j).map Json.object).bind ofJson? := by
  cases j with
  | list js =>
      by_cases hlength : js.length ≤ 4
      · rw [members?, if_pos hlength]
        match js, hlength with
        | [], _ | [_], _ | [_, _], _ | [_, _, _], _ | [_, _, _, _], _ => rfl
      · rw [members?, ofJson?, if_neg hlength, if_neg hlength]
        rfl
  | _ => rfl

end General

namespace Config

/-! ## Members in place of lists -/

/-- The members that decide the configuration: the sections, the general one as the object that it
stands for. -/
def decisive (general endpoints : Option Json) : List (String × Json) :=
  ((general.bind General.members?).map fun ms => ("general", Json.object ms)).toList ++
    (endpoints.map fun j => ("endpoints", j)).toList

theorem lookup?_general (general endpoints : Option Json) :
    Json.lookup? "general" (decisive general endpoints) =
      (general.bind General.members?).map Json.object := by
  unfold decisive
  cases general.bind General.members? <;> cases endpoints <;> rfl

theorem lookup?_endpoints (general endpoints : Option Json) :
    Json.lookup? "endpoints" (decisive general endpoints) = endpoints := by
  unfold decisive
  cases general.bind General.members? <;> cases endpoints <;> rfl

section Texts

variable {blob w : Bytes} {ms : List (String × Bytes)} {general endpoints : Option Json}

/-- A text is loaded field by field from the members that it stands for. -/
theorem fieldByField_of_hasSections (h : Json.IsText blob w)
    (hms : Json.StandsFor "general" "endpoints" w ms) (hx : HasSections ms general endpoints) :
    (load (some blob)).FieldByField (decisive general endpoints) := by
  have hsections := sections_of_hasSections h hms hx
  refine fieldByField_of_sections ?_ ?_
  · have hmembers : general.bind General.ofJson? =
        (Json.lookup? "general" (decisive general endpoints)).bind General.ofJson? := by
      rw [lookup?_general]
      cases general with
      | none => rfl
      | some j => exact General.ofJson?_eq j
    rw [hsections, hmembers]
    refine general_of_ne_list fun js hjs => ?_
    rw [lookup?_general] at hjs
    obtain ⟨gs, -, hgs⟩ := Option.map_eq_some_iff.1 hjs
    cases hgs
  · rw [hsections, lookup?_endpoints]

/-- A general section that is neither an object nor a list with items for the settings gives no
settings. -/
theorem settings_of_wrong_shape {c : Config}
    (hc : c.FieldByField (decisive general endpoints))
    (hobject : ∀ gs, general ≠ some (.object gs))
    (hlist : ∀ js, general = some (.list js) → js = [] ∨ 4 < js.length) :
    c.settings = Settings.default := by
  have hsetting (name : String) : setting? name (decisive general endpoints) = none := by
    rw [setting?, lookup?_general]
    cases general with
    | none => rfl
    | some j =>
        cases j with
        | object gs => exact absurd rfl (hobject gs)
        | list js =>
            rcases hlist js rfl with rfl | hlength
            · rfl
            · rw [Option.bind_some, General.members?, if_neg (Nat.not_le.2 hlength)]
              rfl
        | _ => rfl
  refine Settings.ext ?_ ?_ ?_ ?_
  · rw [hc.providerName, hsetting]
    rfl
  · have htimeout := hc.timeoutMs
    rw [hsetting] at htimeout
    exact UInt32.toNat_inj.1 (Int.ofNat_inj.1 htimeout)
  · rw [hc.matchEndpoints, hsetting]
    rfl
  · rw [hc.defaultAuthType, hsetting]
    rfl

/-- A text that is no object, and no list of one or two values, is as good as none. -/
theorem load_of_not_object (h : Json.IsText blob w) (hobject : w.head? ≠ some Json.openObject)
    (hlist : ∀ ws, Json.IsList w ws → ws = [] ∨ 2 < ws.length) : load (some blob) = default := by
  by_cases hsome : ∃ ms general endpoints, Json.StandsFor "general" "endpoints" w ms ∧
      HasSections ms general endpoints
  · obtain ⟨_, general, endpoints, ⟨hms⟩ | ⟨hws, hlength⟩, hx⟩ := hsome
    · exact absurd hms.head? hobject
    · rename_i ws
      rcases hlist ws hws with rfl | hlong
      · -- The empty list stands for the object without members.
        have hsections := sections_of_hasSections h (.list hws hlength) hx
        rw [Json.atMostOne_nil_iff.1 hx.general, Json.atMostOne_nil_iff.1 hx.endpoints] at hsections
        exact load_of_sections_none hsections
      · omega
  · refine load_of_not_hasSections h fun ms general endpoints hms hx => hsome ?_
    exact ⟨ms, general, endpoints, hms, hx⟩

end Texts

/-! ## Main statement -/

/-- A JSON text of another shape than that of a configuration. If it is no object, nothing is taken
from it, unless it is a list of one or two values. If it is an object in which the general section
is no object, the routes are still those of its endpoint section, and the settings are the defaults
unless the general section is a list of one to four values. These lists stand for the objects of
their items under the names of the sections or settings. A text in which a section is repeated, or
is not read as a value, gives nothing. -/
theorem load_of_wrong_shape {blob w : Bytes} (h : Json.IsText blob w) :
    (w.head? ≠ some Json.openObject → (∀ ws, Json.IsList w ws → ws = [] ∨ 2 < ws.length) →
      load (some blob) = default) ∧
    (∀ ms general endpoints, Json.IsObject w ms → HasSections ms general endpoints →
      (∀ gs, general ≠ some (.object gs)) →
      (load (some blob)).routes = RouteTable.compile
        ((endpoints.map RawEndpoints.wellFormed).getD SortedMap.empty).registrations ∧
      ((∀ js, general = some (.list js) → js = [] ∨ 4 < js.length) →
        (load (some blob)).settings = Settings.default)) ∧
    (∀ ms general endpoints, Json.StandsFor "general" "endpoints" w ms →
      HasSections ms general endpoints →
      (load (some blob)).FieldByField (decisive general endpoints)) ∧
    ((∀ ms general endpoints, Json.StandsFor "general" "endpoints" w ms →
      ¬HasSections ms general endpoints) → load (some blob) = default) := by
  refine ⟨load_of_not_object h, ?_, ?_, load_of_not_hasSections h⟩
  · intro ms general endpoints hms hx hobject
    have hfields := fieldByField_of_hasSections h (.object hms) hx
    refine ⟨?_, settings_of_wrong_shape hfields hobject⟩
    rw [hfields.routes, endpointSection, lookup?_endpoints]
  · intro ms general endpoints hms hx
    exact fieldByField_of_hasSections h hms hx

/-- A list that is too long for the settings is no obstacle to the endpoints. -/
theorem load_of_wrong_shape_of_five_items :
    let blob := Text.encode ("\x7b\"general\": [\"X\", 1, true, \"Y\", null], " ++
      "\"endpoints\": \x7b\"A\": \x7b\"d.org\": [\"/x\"]\x7d\x7d\x7d")
    Json.IsText blob blob ∧ (load (some blob)).settings = Settings.default ∧
      (load (some blob)).routes = RouteTable.compile [⟨"A", "d.org", "/x"⟩] := by
  intro blob
  let general := Text.encode "[\"X\", 1, true, \"Y\", null]"
  let endpoints := Text.encode "\x7b\"A\": \x7b\"d.org\": [\"/x\"]\x7d\x7d"
  let js : List Json := [.string "X", .int 1, .bool true, .string "Y", .null]
  let es : Json := .object [("A", .object [("d.org", .list [.string "/x"])])]
  have hobject : Json.IsObject blob [("general", general), ("endpoints", endpoints)] :=
    Json.objectTexts_decides.of_run rfl (by decide +kernel)
  have htext : Json.IsText blob blob := hobject.isValue.isText
  have hsections : HasSections [("general", general), ("endpoints", endpoints)]
      (some (.list js)) (some es) := by
    have hvalue := Json.value_decides (Json.maxDepth - 1)
    exact ⟨⟨general, rfl, hvalue.of_run rfl (by with_unfolding_all rfl)⟩,
      ⟨endpoints, rfl, hvalue.of_run rfl (by with_unfolding_all rfl)⟩⟩
  obtain ⟨hroutes, hsettings⟩ := (load_of_wrong_shape htext).2.1 _ _ _ hobject hsections (by
    rintro gs ⟨⟩)
  refine ⟨htext, hsettings ?_, ?_⟩
  · rintro _ ⟨⟩
    exact .inr (by decide)
  · rw [hroutes]
    rfl

/-- A list is read as a configuration, and a list in place of the general section as settings. -/
theorem not_always_default :
    (¬∀ blob w, Json.IsText blob w → w.head? ≠ some Json.openObject →
      (load (some blob)).settings = Settings.default) ∧
    ¬∀ blob w ms general endpoints, Json.IsText blob w → Json.IsObject w ms →
      HasSections ms general endpoints → (∀ gs, general ≠ some (.object gs)) →
      (load (some blob)).settings = Settings.default := by
  refine ⟨fun h => ?_, fun h => ?_⟩
  · let blob := Text.encode "[\x7b\"authType\": \"X\"\x7d]"
    have hlist : Json.IsList blob [Text.encode "\x7b\"authType\": \"X\"\x7d"] :=
      Json.listTexts_decides.of_run rfl (by decide +kernel)
    have htext : Json.IsText blob blob := hlist.isValue.isText
    have hsettings := h blob blob htext (by rw [hlist.head?]; decide)
    exact absurd hsettings (by decide +kernel)
  · let blob := Text.encode "\x7b\"general\": [\"other\"]\x7d"
    let general := Text.encode "[\"other\"]"
    have hobject : Json.IsObject blob [("general", general)] :=
      Json.objectTexts_decides.of_run rfl (by decide +kernel)
    have htext : Json.IsText blob blob := hobject.isValue.isText
    have hsections : HasSections [("general", general)] (some (.list [.string "other"])) none := by
      have hvalue := Json.value_decides (Json.maxDepth - 1)
      exact ⟨⟨general, rfl, hvalue.of_run rfl (by with_unfolding_all rfl)⟩,
        by simp [Json.AtMostOne]⟩
    have hsettings := h blob blob _ _ _ htext hobject hsections (by rintro gs ⟨⟩)
    exact absurd hsettings (by decide +kernel)

end Config
end EgressAuth.Plugin
