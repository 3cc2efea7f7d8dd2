/-
  EgressAuth.Proofs.Plugin.Fallback

  What a configuration takes from a blob, field by field (`load_fieldByField`).

  Every field is decided by one member of the blob and by no other: a setting
  by the member of its name in the general section, the routes by the endpoint
  section, of which only the malformed parts are left out. The blob is read
  member by member, without a value of the whole being built; that it amounts
  to looking the members up in that value is `Config.sections_of_read?`.
-/
import EgressAuth.Proofs.Plugin.RawEndpoints
import EgressAuth.Proofs.Plugin.Sections
import EgressAuth.Proofs.SortedMap

namespace EgressAuth

namespace Json

/-- Members that are the same, and in the same order, apart from those whose names `p` allows to
be changed, added or removed. -/
def SameApartFrom (p : String → Bool) (ms ns : List (String × Json)) : Prop :=
  (ms.filter fun m => !p m.1) = ns.filter fun m => !p m.1

theorem SameApartFrom.lookup? {p : String → Bool} {ms ns : List (String × Json)}
    (h : SameApartFrom p ms ns) {name : String} (hname : p name = false) :
    lookup? name ms = lookup? name ns := by
  refine lookup?_congr (p := fun n => !p n) ?_ h
  rw [hname, Bool.not_false]

end Json

namespace Plugin

open Endpoint

attribute [ext] Settings

/-! ## Endpoints without their malformed parts -/

namespace RawEndpoints

theorem get?_members (j : Json) (name : String) : (members j).get? name = j.member? name := by
  cases j with
  | object ms => exact SortedMap.get?_ofList ms name
  | _ => rfl

/-- The domains of a type whose paths are a list, each with those of its paths that are strings. -/
def listedDomains (domains : Json) : SortedMap (List String) :=
  (members domains).filterMapValues fun paths =>
    paths.list?.map fun js => js.filterMap Json.string?

/-- The types of a section whose domains are an object, each with its listed domains. -/
def wellFormed (blob : Json) : RawEndpoints :=
  (members blob).filterMapValues fun domains =>
    domains.object?.map fun _ => listedDomains domains

theorem get?_listedDomains (domains : Json) (domain : String) :
    (listedDomains domains).get? domain =
      ((domains.member? domain).bind Json.list?).map fun js => js.filterMap Json.string? := by
  rw [listedDomains, SortedMap.get?_filterMapValues, get?_members]
  cases domains.member? domain <;> rfl

theorem get?_wellFormed (blob : Json) (authType : String) :
    (wellFormed blob).get? authType = (blob.member? authType).bind fun domains =>
      domains.object?.map fun _ => listedDomains domains := by
  rw [wellFormed, SortedMap.get?_filterMapValues, get?_members]

theorem flatMap_listedDomains {δ : Type} (domains : Json) (g : String → String → δ) :
    ((listedDomains domains).entries.flatMap fun e => e.2.map (g e.1)) =
      (orderedMembers domains).flatMap fun e => (strings e.2).map (g e.1) := by
  rw [listedDomains, SortedMap.flatMap_filterMapValues, entries_members]
  refine congrArg (List.flatMap · (orderedMembers domains)) (funext fun e => ?_)
  -- Paths that are no list have no strings.
  unfold strings
  cases e.2.list? with
  | none => rfl
  | some js => exact List.flatMap_singleton _ _

/-- No triple is lost or changes its place with the malformed parts. -/
theorem registrations_wellFormed (blob : Json) :
    (wellFormed blob).registrations = Plugin.registrations blob := by
  unfold registrations wellFormed Plugin.registrations
  rw [SortedMap.flatMap_filterMapValues, entries_members]
  refine congrArg (List.flatMap · (orderedMembers blob)) (funext fun ⟨authType, domains⟩ => ?_)
  cases domains with
  | object ms =>
      refine (List.flatMap_singleton _ _).trans ?_
      exact flatMap_listedDomains (.object ms) (Registration.mk authType)
  | _ => rfl

end RawEndpoints

/-! ## Settings by their members -/

namespace General

/-- A word is the integer that it was read from. -/
theorem map_toNat_word? (j : Json) :
    (word? j).map (fun w => (w.toNat : Int)) = j.intIn? 0 (2 ^ 32 - 1) := by
  unfold word?
  rw [Option.map_map]
  show (j.intIn? 0 (2 ^ 32 - 1)).map _ = _
  cases h : j.intIn? 0 (2 ^ 32 - 1) with
  | none => rfl
  | some i =>
      have hbounds : 0 ≤ i ∧ i ≤ 2 ^ 32 - 1 := by
        unfold Json.intIn? at h
        split at h
        · split at h
          · cases h
            assumption
          · cases h
        · cases h
      have hnat : (UInt32.ofNat i.toNat).toNat = i.toNat := by
        apply UInt32.toNat_ofNat_of_lt'
        show i.toNat < 2 ^ 32
        omega
      rw [Option.map_some, Function.comp_apply, hnat, Int.toNat_of_nonneg hbounds.1]

end General

namespace Config

/-- The blob is an object of these members. Neither section is repeated in it, and the general one
is no list. -/
structure Spells (blob : Bytes) (ms : List (String × Json)) : Prop where
  read : Json.read? blob = some (.object ms)
  general_once : (ms.map Prod.fst).count "general" ≤ 1
  endpoints_once : (ms.map Prod.fst).count "endpoints" ≤ 1
  general_ne_list : ∀ js, Json.lookup? "general" ms ≠ some (.list js)

/-- The member of that name in the general section, if this section is an object. -/
def setting? (name : String) (ms : List (String × Json)) : Option Json :=
  (Json.lookup? "general" ms).bind (Json.member? name)

/-- The endpoint section without its malformed parts; there is none if it is no object. -/
def endpointSection (ms : List (String × Json)) : RawEndpoints :=
  ((Json.lookup? "endpoints" ms).map RawEndpoints.wellFormed).getD SortedMap.empty

/-- Each setting is its own member if that is of its type, and the default otherwise. The routes
are those of the endpoint section. -/
structure FieldByField (c : Config) (ms : List (String × Json)) : Prop where
  providerName : c.settings.providerName =
    ((setting? "authProviderName" ms).bind Json.string?).getD "ext-authz"
  timeoutMs : (c.settings.timeoutMs.toNat : Int) =
    ((setting? "authRequestTimeout" ms).bind (Json.intIn? 0 (2 ^ 32 - 1))).getD 5000
  matchEndpoints : c.settings.matchEndpoints =
    ((setting? "enableEndpointMatching" ms).bind Json.bool?).getD false
  defaultAuthType : c.settings.defaultAuthType =
    ((setting? "authType" ms).bind Json.string?).getD "ISHARE"
  routes : c.routes = RouteTable.compile (endpointSection ms).registrations

section Loading

variable {blob : Bytes} {ms : List (String × Json)}

theorem Spells.sections (h : Spells blob ms) :
    Config.sections (some blob) = (Json.lookup? "general" ms, Json.lookup? "endpoints" ms) :=
  sections_of_read? h.read h.general_once h.endpoints_once

/-- A general section that is an object gives each setting its member, and any other section that
is no list gives none. -/
theorem general_of_ne_list (h : ∀ js, Json.lookup? "general" ms ≠ some (.list js)) :
    ((Json.lookup? "general" ms).bind General.ofJson?).getD {} =
      General.ofValues (setting? "authProviderName" ms) (setting? "authRequestTimeout" ms)
        (setting? "enableEndpointMatching" ms) (setting? "authType" ms) := by
  unfold setting?
  cases hgeneral : Json.lookup? "general" ms with
  | none => rfl
  | some general =>
      cases general with
      | list js => exact absurd hgeneral (h js)
      | _ => rfl

/-- A configuration is field by field what the two sections of its blob are. -/
theorem fieldByField_of_sections {raw : Option Bytes}
    (hgeneral : ((sections raw).1.bind General.ofJson?).getD {} =
      General.ofValues (setting? "authProviderName" ms) (setting? "authRequestTimeout" ms)
        (setting? "enableEndpointMatching" ms) (setting? "authType" ms))
    (hendpoints : (sections raw).2 = Json.lookup? "endpoints" ms) : (load raw).FieldByField ms := by
  have hsettings : (load raw).settings =
      (General.ofValues (setting? "authProviderName" ms) (setting? "authRequestTimeout" ms)
        (setting? "enableEndpointMatching" ms) (setting? "authType" ms)).settings := by
    rw [← hgeneral]
    rfl
  refine ⟨?_, ?_, ?_, ?_, ?_⟩
  · rw [hsettings]
    rfl
  · rw [hsettings]
    show ((((setting? "authRequestTimeout" ms).bind General.word?).getD 5000).toNat : Int) = _
    cases setting? "authRequestTimeout" ms with
    | none => rfl
    | some j =>
        rw [Option.bind_some, Option.bind_some, ← General.map_toNat_word?]
        cases General.word? j <;> rfl
  · rw [hsettings]
    rfl
  · rw [hsettings]
    rfl
  · rw [RawEndpoints.routes_load, RawEndpoints.read, hendpoints, endpointSection]
    cases Json.lookup? "endpoints" ms with
    | none => rfl
    | some j =>
        simp only [Option.map_some, Option.getD_some, RawEndpoints.registrations_ofJson,
          RawEndpoints.registrations_wellFormed]

theorem Spells.fieldByField (h : Spells blob ms) : (load (some blob)).FieldByField ms := by
  refine fieldByField_of_sections ?_ (congrArg Prod.snd h.sections)
  rw [h.sections]
  exact general_of_ne_list h.general_ne_list

end Loading

/-! ## What a change may reach -/

/-- Two configurations with settings and routes in common unless `p` names their section. -/
structure SectionsKept (p : String → Bool) (c d : Config) : Prop where
  settings : p "general" = false → c.settings = d.settings
  routes : p "endpoints" = false → c.routes = d.routes

/-- Two configurations that have every setting in common unless `p` names it. -/
structure SettingsKept (p : String → Bool) (c d : Config) : Prop where
  providerName : p "authProviderName" = false → c.settings.providerName = d.settings.providerName
  timeoutMs : p "authRequestTimeout" = false → c.settings.timeoutMs = d.settings.timeoutMs
  matchEndpoints : p "enableEndpointMatching" = false →
    c.settings.matchEndpoints = d.settings.matchEndpoints
  defaultAuthType : p "authType" = false → c.settings.defaultAuthType = d.settings.defaultAuthType

section Changes

variable {p : String → Bool} {c d : Config} {ms ns gs hs : List (String × Json)}

/-- Settings whose members are the same are the same. -/
theorem settingsKept_of_setting? (hc : c.FieldByField ms) (hd : d.FieldByField ns)
    (h : ∀ name, p name = false → setting? name ms = setting? name ns) : SettingsKept p c d := by
  refine ⟨fun hp => ?_, fun hp => ?_, fun hp => ?_, fun hp => ?_⟩
  · rw [hc.providerName, hd.providerName, h _ hp]
  · have htimeout : (c.settings.timeoutMs.toNat : Int) = d.settings.timeoutMs.toNat := by
      rw [hc.timeoutMs, hd.timeoutMs, h _ hp]
    exact UInt32.toNat_inj.1 (Int.ofNat_inj.1 htimeout)
  · rw [hc.matchEndpoints, hd.matchEndpoints, h _ hp]
  · rw [hc.defaultAuthType, hd.defaultAuthType, h _ hp]

theorem sectionsKept (hc : c.FieldByField ms) (hd : d.FieldByField ns)
    (h : Json.SameApartFrom p ms ns) : SectionsKept p c d := by
  refine ⟨fun hp => ?_, fun hp => ?_⟩
  · have hsame (name : String) : setting? name ms = setting? name ns := by
      rw [setting?, setting?, h.lookup? hp]
    have hkept : SettingsKept (fun _ => false) c d :=
      settingsKept_of_setting? hc hd fun name _ => hsame name
    exact Settings.ext (hkept.providerName rfl) (hkept.timeoutMs rfl) (hkept.matchEndpoints rfl)
      (hkept.defaultAuthType rfl)
  · rw [hc.routes, hd.routes, endpointSection, endpointSection, h.lookup? hp]

theorem settingsKept (hc : c.FieldByField ms) (hd : d.FieldByField ns)
    (hms : Json.lookup? "general" ms = some (.object gs))
    (hns : Json.lookup? "general" ns = some (.object hs)) (h : Json.SameApartFrom p gs hs) :
    SettingsKept p c d := by
  refine settingsKept_of_setting? hc hd fun name hp => ?_
  rw [setting?, setting?, hms, hns]
  exact h.lookup? hp

end Changes

/-- The paths of a domain are decided by one list alone, of which they are the strings. -/
theorem paths_endpointSection (ms : List (String × Json)) (authType domain : String) :
    ((endpointSection ms).get? authType).bind (fun domains => domains.get? domain) =
      ((((Json.lookup? "endpoints" ms).bind (Json.member? authType)).bind
        (Json.member? domain)).bind Json.list?).map fun js => js.filterMap Json.string? := by
  unfold endpointSection
  cases Json.lookup? "endpoints" ms with
  | none => rfl
  | some blob =>
      rw [Option.map_some, Option.getD_some, RawEndpoints.get?_wellFormed, Option.bind_some]
      cases blob.member? authType with
      | none => rfl
      | some domains =>
          cases domains with
          | object ds => exact RawEndpoints.get?_listedDomains (.object ds) domain
          | _ => rfl

/-- The configuration of a blob, field by field. Every setting is its own member in the general
section, or the default; the routes are those of the endpoint section without its malformed parts,
in which the paths of a domain depend on one list alone. So a change of the blob reaches no other
part of the configuration than the one whose member is changed, and changes of members that nobody
knows reach nothing. -/
theorem load_fieldByField {blob : Bytes} {ms : List (String × Json)} (h : Spells blob ms) :
    (load (some blob)).FieldByField ms ∧
    (∀ authType domain,
      ((endpointSection ms).get? authType).bind (fun domains => domains.get? domain) =
        ((((Json.lookup? "endpoints" ms).bind (Json.member? authType)).bind
          (Json.member? domain)).bind Json.list?).map fun js => js.filterMap Json.string?) ∧
    (∀ (changed : Bytes) (ns : List (String × Json)) (p : String → Bool), Spells changed ns →
      (Json.SameApartFrom p ms ns → SectionsKept p (load (some blob)) (load (some changed))) ∧
      (∀ gs hs, Json.lookup? "general" ms = some (.object gs) →
        Json.lookup? "general" ns = some (.object hs) → Json.SameApartFrom p gs hs →
        SettingsKept p (load (some blob)) (load (some changed)))) := by
  refine ⟨h.fieldByField, paths_endpointSection ms, fun changed ns p hchanged => ⟨?_, ?_⟩⟩
  · exact sectionsKept h.fieldByField hchanged.fieldByField
  · intro gs hs hms hns hsame
    exact settingsKept h.fieldByField hchanged.fieldByField hms hns hsame

set_option maxRecDepth 4000 in
/-- Wrong types at every level, and then another wrong timeout and members that nobody knows. -/
theorem load_fieldByField_of_wrong_types :
    let gs : List (String × Json) := [("authType", .string "X"), ("authRequestTimeout", .int (-1))]
    let hs : List (String × Json) :=
      [("authRequestTimeout", .string "1"), ("authType", .string "X"), ("new", .null)]
    let es : Json := .object [("A", .object [("d.org", .list [.string "/a", .int 7]),
      ("e.org", .string "/b")]), ("B", .int 3)]
    let ms : List (String × Json) := [("general", .object gs), ("endpoints", es)]
    let ns : List (String × Json) :=
      [("new", .list [.object []]), ("endpoints", es), ("general", .object hs)]
    let endpoints := "\"endpoints\": \x7b\"A\": \x7b\"d.org\": [\"/a\", 7], " ++
      "\"e.org\": \"/b\"\x7d, \"B\": 3\x7d"
    let blob := Text.encode ("\x7b\"general\": \x7b\"authType\": \"X\", " ++
      "\"authRequestTimeout\": -1\x7d, " ++ endpoints ++ "\x7d")
    let changed := Text.encode ("\x7b\"new\": [\x7b\x7d], " ++ endpoints ++ ", \"general\": " ++
      "\x7b\"authRequestTimeout\": \"1\", \"authType\": \"X\", \"new\": null\x7d\x7d")
    Spells blob ms ∧ Spells changed ns ∧
      (load (some blob)).settings.timeoutMs.toNat = (5000 : Int) ∧
      (load (some blob)).settings.defaultAuthType = "X" ∧
      (load (some blob)).routes = RouteTable.compile [⟨"A", "d.org", "/a"⟩] ∧
      (load (some changed)).settings.defaultAuthType = "X" ∧
      (load (some changed)).routes = (load (some blob)).routes := by
  intro gs hs es ms ns endpoints blob changed
  have hblob : Spells blob ms := by
    refine ⟨by with_unfolding_all rfl, by decide, by decide, ?_⟩
    rintro js ⟨⟩
  have hchanged : Spells changed ns := by
    refine ⟨by with_unfolding_all rfl, by decide, by decide, ?_⟩
    rintro js ⟨⟩
  obtain ⟨hfields, -, hkept⟩ := load_fieldByField hblob
  have hsections : SectionsKept (fun name => name == "general" || name == "new")
      (load (some blob)) (load (some changed)) :=
    (hkept changed ns _ hchanged).1 rfl
  have hsettings : SettingsKept (fun name => name == "authRequestTimeout" || name == "new")
      (load (some blob)) (load (some changed)) :=
    (hkept changed ns _ hchanged).2 gs hs rfl rfl rfl
  refine ⟨hblob, hchanged, ?_, ?_, ?_, ?_, ?_⟩
  · rw [hfields.timeoutMs]
    rfl
  · rw [hfields.defaultAuthType]
    rfl
  · rw [hfields.routes]
    rfl
  · rw [← hsettings.defaultAuthType rfl, hfields.defaultAuthType]
    rfl
  · rw [← hsections.routes rfl]

end Config
end Plugin
end EgressAuth
