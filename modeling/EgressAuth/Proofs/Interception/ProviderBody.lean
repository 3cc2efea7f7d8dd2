/-
  EgressAuth.Proofs.Interception.ProviderBody

  Which bodies of the provider are taken for a list of headers
  (`decodeList?_eq_some_iff`), and how that compares with the contract between
  the two sides (`FollowsContract`): all bodies that follow it are taken, and
  of the others those alone whose headers are partly written as lists of name
  and value, or that are no texts where nobody looks.
-/
import EgressAuth.Proofs.Interception.Laws
import EgressAuth.Proofs.Json.Records

namespace EgressAuth

open Json

namespace AuthHeader

variable {w b : Bytes} {h : AuthHeader} {hs : List AuthHeader}

/-! ## Headers -/

/-- The header as an object: one member `name` and one member `value`, both strings, and any other
members. -/
def WrittenAsObject (w : Bytes) (h : AuthHeader) : Prop :=
  ∃ ms, IsObject w ms ∧ Sole "name" ms (Spells · h.name) ∧ Sole "value" ms (Spells · h.value)

/-- The header as a list of its name and its value. -/
def WrittenAsList (w : Bytes) (h : AuthHeader) : Prop :=
  ∃ n v, IsList w [n, v] ∧ Spells n h.name ∧ Spells v h.value

theorem reader_decides : reader.Decides fun w h => WrittenAsObject w h ∨ WrittenAsList w h := by
  have hrecord : (Reader.fullRecord "name" "value" Reader.text Reader.text).Decides _ :=
    fullRecord_decides text_decides text_decides Spells.isValue Spells.isValue (by decide)
  refine (hrecord.map fun x : String × String => (⟨x.1, x.2⟩ : AuthHeader)).congr fun w h => ?_
  constructor
  · rintro ⟨x, hx, rfl⟩
    exact hx
  · intro hw
    exact ⟨(h.name, h.value), hw, rfl⟩

theorem isValue_of_written (hw : WrittenAsObject w h ∨ WrittenAsList w h) : IsValue w := by
  rcases hw with ⟨ms, hms, -⟩ | ⟨n, v, hlist, -⟩
  · exact hms.isValue
  · exact hlist.isValue

theorem WrittenAsObject.head? (hw : WrittenAsObject w h) : w.head? = some openObject := by
  obtain ⟨ms, hms, -⟩ := hw
  exact hms.head?

theorem WrittenAsList.head? (hw : WrittenAsList w h) : w.head? = some openList := by
  obtain ⟨n, v, hlist, -⟩ := hw
  exact hlist.head?

/-! ## Bodies -/

/-- The body is a JSON list of headers, each written as `R` says. -/
def Lists (R : Bytes → AuthHeader → Prop) (b : Bytes) (hs : List AuthHeader) : Prop :=
  ∃ ws, Padded IsList b ws ∧ List.Forall₂ R ws hs

/-- The contract for the provider's bodies: a JSON text that is a list of headers, all of them
objects. -/
structure FollowsContract (b : Bytes) (hs : List AuthHeader) : Prop where
  isText : ∃ s, b = Text.encode s
  lists : Lists WrittenAsObject b hs

/-- A body is taken if it is a list of headers written either way. -/
theorem decodeList?_eq_some_iff :
    decodeList? b = some hs ↔ Lists (fun w h => WrittenAsObject w h ∨ WrittenAsList w h) b hs := by
  have hlist := reader_decides.container (o := openList) (by decide) (.inl rfl)
  refine hlist.readAll_eq_some_iff.trans ?_
  constructor
  · rintro ⟨hg, hw, hg'⟩
    obtain ⟨ws, hws, hall⟩ := hw.exists_forall₂ (S := fun w v => v = w ∧ IsValue w)
      (Q := fun h w => WrittenAsObject w h ∨ WrittenAsList w h)
      fun w h _ hw => ⟨w, ⟨rfl, isValue_of_written hw⟩, hw⟩
    exact ⟨ws, .blanks hg hws hg', hall.flip⟩
  · rintro ⟨ws, ⟨hg, hws, hg'⟩, hall⟩
    refine .blanks hg (hws.forall₂ hall ?_) hg'
    rintro w _ h ⟨rfl, -⟩ hw
    exact hw

/-- A JSON list is cut into the texts of its values in one way. -/
theorem texts_unique {ws ws' : List Bytes} (h : Padded IsList b ws) (h' : Padded IsList b ws') :
    ws = ws' := by
  rw [← listTexts_decides.readAll_eq_some_iff] at h h'
  exact Option.some.inj (h.symm.trans h')

/-- A body follows the contract if it is taken, is a text and has no header that is a list. -/
theorem followsContract_iff : FollowsContract b hs ↔ decodeList? b = some hs ∧
    (∃ s, b = Text.encode s) ∧
    ∀ ws, Padded IsList b ws → ∀ w ∈ ws, w.head? ≠ some openList := by
  rw [decodeList?_eq_some_iff]
  constructor
  · rintro ⟨htext, ws, hws, hall⟩
    refine ⟨⟨ws, hws, hall.imp fun _ _ => .inl⟩, htext, fun ws' hws' => ?_⟩
    rw [texts_unique hws' hws]
    refine forall_of_forall₂ (hall.flip.imp fun h w hw => ?_)
    rw [WrittenAsObject.head? hw]
    decide
  · rintro ⟨⟨ws, hws, hall⟩, htext, hnone⟩
    have hobjects := (List.forall₂_and_left _ _).2 ⟨hnone ws hws, hall⟩
    exact ⟨htext, ws, hws, hobjects.imp fun w h hw =>
      hw.2.resolve_right fun hlist => hw.1 (WrittenAsList.head? hlist)⟩

end AuthHeader

/-! ## Main statement -/

namespace RequestContext

/-- The bodies that are taken are the lists of headers written either way; those that follow the
contract are the ones among them that are texts and write no header as a list. Of any other body
nothing is added to the request and nothing is written to the store. -/
theorem providerBody_contract (b : Bytes) :
    (∀ hs, AuthHeader.decodeList? b = some hs ↔
      AuthHeader.Lists (fun w h => AuthHeader.WrittenAsObject w h ∨ AuthHeader.WrittenAsList w h)
        b hs) ∧
    (∀ hs, AuthHeader.FollowsContract b hs ↔ AuthHeader.decodeList? b = some hs ∧
      (∃ s, b = Text.encode s) ∧
      ∀ ws, Padded IsList b ws → ∀ w ∈ ws, w.head? ≠ some openList) ∧
    ((∀ hs, AuthHeader.decodeList? b ≠ some hs) →
      ∀ (context : RequestContext) (h : Host) (r : InboundRequest) (p : ProviderResponse),
        p.body = some b → context.onAnswer h r (.ok p) = ⟨h, r, [.resume]⟩) := by
  refine ⟨fun hs => AuthHeader.decodeList?_eq_some_iff, fun hs => AuthHeader.followsContract_iff,
    fun hnone context h r p hbody => onAnswer_of_not_provided ?_⟩
  show p.body.bind AuthHeader.decodeList? = none
  rw [hbody]
  exact Option.eq_none_iff_forall_ne_some.2 hnone

/-- Members that nobody asks for are no offence against the contract. -/
theorem providerBody_contract_of_ignored_member :
    let b := Text.encode "[\x7b\"name\": \"n\", \"more\": [1, \x7b\x7d], \"value\": \"v\"\x7d]"
    AuthHeader.FollowsContract b [⟨"n", "v"⟩] := by
  intro b
  have hdecode : AuthHeader.decodeList? b = some [⟨"n", "v"⟩] := by
    decide +kernel
  have htexts : Padded IsList b
      [Text.encode "\x7b\"name\": \"n\", \"more\": [1, \x7b\x7d], \"value\": \"v\"\x7d"] := by
    rw [← listTexts_decides.readAll_eq_some_iff]
    decide +kernel
  refine ((providerBody_contract b).2.1 _).2 ⟨hdecode, ⟨_, rfl⟩, fun ws hws => ?_⟩
  rw [AuthHeader.texts_unique hws htexts]
  decide +kernel

/-- A header may be written as a list, which the contract does not allow. -/
theorem not_always_followsContract :
    ¬∀ (b : Bytes) (hs : List AuthHeader),
      AuthHeader.decodeList? b = some hs ↔ AuthHeader.FollowsContract b hs := by
  intro h
  let b := Text.encode "[[\"n\",\"v\"]]"
  have hdecode : AuthHeader.decodeList? b = some [⟨"n", "v"⟩] := by
    decide +kernel
  have htexts : Padded IsList b [Text.encode "[\"n\",\"v\"]"] := by
    rw [← listTexts_decides.readAll_eq_some_iff]
    decide +kernel
  have hnone := (AuthHeader.followsContract_iff.1 ((h b _).1 hdecode)).2.2
  exact hnone _ htexts _ (List.mem_singleton_self _) (by decide +kernel)

end RequestContext
end EgressAuth
