/-
  EgressAuth.Proofs.Plugin.Sections

  Which two sections a configuration takes from a text, by the grammar of the
  text alone: those of the members that it stands for (`sections_of_hasSections`).
  A text that stands for no such members has none and is as good as no text
  (`load_of_not_hasSections`).
-/
import EgressAuth.Plugin.Config
import EgressAuth.Proofs.Json.Values

namespace EgressAuth.Plugin.Config

/-- Of these members at most one is the general section and at most one the endpoint section, and
the texts of both are read as values. -/
structure HasSections (ms : List (String × Bytes)) (general endpoints : Option Json) : Prop where
  general : Json.AtMostOne "general" ms (Json.Denotes (Json.maxDepth - 1)) general
  endpoints : Json.AtMostOne "endpoints" ms (Json.Denotes (Json.maxDepth - 1)) endpoints

theorem sectionsReader_decides : sectionsReader.Decides fun w x =>
    ∃ ms, Json.StandsFor "general" "endpoints" w ms ∧ HasSections ms x.1 x.2 := by
  have hvalue := Json.value_decides (Json.maxDepth - 1)
  refine (Json.record_decides_members hvalue hvalue Json.Denotes.isValue Json.Denotes.isValue
    (by decide)).congr fun w x => ?_
  constructor
  · rintro ⟨ms, hms, hgeneral, hendpoints⟩
    exact ⟨ms, hms, hgeneral, hendpoints⟩
  · rintro ⟨ms, hms, hgeneral, hendpoints⟩
    exact ⟨ms, hms, hgeneral, hendpoints⟩

theorem sections_some (blob : Bytes) :
    sections (some blob) =
      if blob.all isSpace then (none, none)
      else (sectionsReader.readAll blob).getD (none, none) :=
  rfl

/-- Without sections everything is at its default. -/
theorem load_of_sections_none {raw : Option Bytes} (h : sections raw = (none, none)) :
    load raw = default := by
  rw [load, h]
  rfl

variable {blob w : Bytes} {ms : List (String × Bytes)} {general endpoints : Option Json}

theorem readAll_eq_some_iff (h : Json.IsText blob w) :
    sectionsReader.readAll blob = some (general, endpoints) ↔
      ∃ ms, Json.StandsFor "general" "endpoints" w ms ∧ HasSections ms general endpoints := by
  rw [sectionsReader_decides.readAll_eq_some_iff]
  refine h.padded_iff ?_
  rintro w x ⟨_, ⟨hms⟩ | ⟨hws, -⟩, -⟩
  · exact hms.isValue
  · exact hws.isValue

/-- A text that stands for members begins with a bracket, which is no blank. -/
theorem not_isSpace_of_standsFor (h : Json.IsText blob w)
    (hms : Json.StandsFor "general" "endpoints" w ms) : blob.all isSpace = false := by
  have hhead : ∃ b ∈ w.head?, isSpace b = false := by
    cases hms with
    | object hms => exact ⟨_, hms.head?, by decide⟩
    | list hws _ => exact ⟨_, hws.head?, by decide⟩
  obtain ⟨b, hb, hspace⟩ := hhead
  obtain ⟨hg, ⟨rfl, -⟩, hg'⟩ := h
  have hmem : b ∈ w := List.mem_of_mem_head? hb
  rw [List.all_eq_false]
  exact ⟨b, by simp [hmem], by simp [hspace]⟩

theorem sections_of_hasSections (h : Json.IsText blob w)
    (hms : Json.StandsFor "general" "endpoints" w ms) (hx : HasSections ms general endpoints) :
    sections (some blob) = (general, endpoints) := by
  rw [sections_some, not_isSpace_of_standsFor h hms, (readAll_eq_some_iff h).2 ⟨ms, hms, hx⟩]
  rfl

/-- A text without sections is as good as none. -/
theorem load_of_not_hasSections (h : Json.IsText blob w)
    (hnone : ∀ ms general endpoints, Json.StandsFor "general" "endpoints" w ms →
      ¬HasSections ms general endpoints) : load (some blob) = default := by
  have hread : sectionsReader.readAll blob = none := by
    rw [Option.eq_none_iff_forall_ne_some]
    rintro ⟨general, endpoints⟩ hread
    obtain ⟨ms, hms, hx⟩ := (readAll_eq_some_iff h).1 hread
    exact hnone ms general endpoints hms hx
  refine load_of_sections_none ?_
  rw [sections_some, hread]
  exact ite_self _

/-- The sections of an object in which neither is repeated are the members of their names. -/
theorem sections_of_read? {js : List (String × Json)} (h : Json.read? blob = some (.object js))
    (hgeneral : (js.map Prod.fst).count "general" ≤ 1)
    (hendpoints : (js.map Prod.fst).count "endpoints" ≤ 1) :
    sections (some blob) = (Json.lookup? "general" js, Json.lookup? "endpoints" js) := by
  obtain ⟨w, htext, hw⟩ := Json.exists_isText (fun _ _ => Json.Denotes.isValue)
    ((Json.value_decides Json.maxDepth).readAll_eq_some_iff.1 h)
  -- A container takes one level of the depth for itself.
  have hobject : Json.Denotes (Json.maxDepth - 1 + 1) w (.object js) := hw
  obtain ⟨ms, hms, hmembers⟩ := hobject.exists_members
  exact sections_of_hasSections htext (.object hms)
    ⟨Json.atMostOne_lookup? hmembers hgeneral, Json.atMostOne_lookup? hmembers hendpoints⟩

end EgressAuth.Plugin.Config
