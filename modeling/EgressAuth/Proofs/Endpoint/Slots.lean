/-
  EgressAuth.Proofs.Endpoint.Slots

  Which of the configured endpoints share a cache slot. The slot of an endpoint
  comes from its domain and its path in a row, with nothing between them. Of the
  registrations of one domain and path only one has routes in a compiled table,
  the last one (`LastDeriving.eq_of_path`), so within a domain every endpoint
  has a slot of its own. Endpoints of two domains share a slot exactly if one
  domain goes on with the beginning of the other endpoint's path
  (`cacheId_eq_iff_spillsInto`). No domain does if paths begin with a slash and
  domains have none.
-/
import EgressAuth.Proofs.Cache.Id
import EgressAuth.Proofs.Endpoint.Resolution

namespace EgressAuth

/-! ## Texts in a row -/

namespace Text

theorem encode_append (s t : String) : encode (s ++ t) = encode s ++ encode t := by
  simp [encode]

/-- Two texts in a row are the same as two others if a piece between them changed sides. -/
theorem append_eq_append_iff {s t s' t' : String} :
    s ++ t = s' ++ t' ↔
      (∃ piece, s' = s ++ piece ∧ t = piece ++ t') ∨ ∃ piece, s = s' ++ piece ∧ t' = piece ++ t := by
  have hlist : ∀ a b c d : String, (∃ l, c.toList = a.toList ++ l ∧ b.toList = l ++ d.toList) ↔
      ∃ piece, c = a ++ piece ∧ b = piece ++ d := by
    intro a b c d
    constructor
    · rintro ⟨l, hc, hb⟩
      exact ⟨String.ofList l, String.toList_injective (by simpa using hc),
        String.toList_injective (by simpa using hb)⟩
    · rintro ⟨piece, rfl, rfl⟩
      exact ⟨piece.toList, by simp, by simp⟩
  rw [← String.toList_inj, String.toList_append, String.toList_append, List.append_eq_append_iff,
    hlist, hlist]

/-- Only a slash becomes a slash in small letters. -/
theorem slash_mem_of_mem_foldCase {s : String} (h : '/' ∈ (foldCase s).toList) :
    '/' ∈ s.toList := by
  rw [foldCase, String.toList_ofList, List.mem_map] at h
  obtain ⟨c, hc, hlower⟩ := h
  change (if h : c.val ≥ 'A'.val ∧ c.val ≤ 'Z'.val then _ else c) = '/' at hlower
  have hslash : c = '/' := by
    split at hlower
    · -- The small letter of a capital comes behind the slash.
      rename_i hcapital
      have hsmall : (c.val + 32).toNat = '/'.val.toNat :=
        congrArg (fun d : Char => d.val.toNat) hlower
      have hge : 'A'.val.toNat ≤ c.val.toNat := UInt32.le_iff_toNat_le.1 hcapital.1
      have hle : c.val.toNat ≤ 'Z'.val.toNat := UInt32.le_iff_toNat_le.1 hcapital.2
      simp [UInt32.toNat_add] at hsmall hge hle
      omega
    · exact hlower
  rw [← hslash]
  exact hc

end Text

namespace Endpoint

/-- The bytes that the slot of an endpoint is taken from: its domain and its path in a row. -/
def Entry.slotText (e : Entry) : Bytes := Text.encode e.domain ++ Text.encode e.path

/-- The domain of `f` is that of `e` with the beginning of the path of `e` behind it, and the rest
of this path is the path of `f`. -/
def Entry.SpillsInto (e f : Entry) : Prop :=
  ∃ piece, piece ≠ "" ∧ f.domain = e.domain ++ piece ∧ e.path = piece ++ f.path

theorem Entry.slotText_eq_iff {e f : Entry} :
    e.slotText = f.slotText ↔
      e.domain = f.domain ∧ e.path = f.path ∨ e.SpillsInto f ∨ f.SpillsInto e := by
  have hslot : e.slotText = f.slotText ↔ e.domain ++ e.path = f.domain ++ f.path := by
    rw [slotText, slotText, ← Text.encode_append, ← Text.encode_append]
    exact ⟨Text.encode_injective, congrArg Text.encode⟩
  rw [hslot, Text.append_eq_append_iff]
  constructor
  · rintro (⟨piece, hdomain, hpath⟩ | ⟨piece, hdomain, hpath⟩)
    · by_cases hpiece : piece = ""
      · rw [hpiece, String.append_empty] at hdomain
        rw [hpiece, String.empty_append] at hpath
        exact Or.inl ⟨hdomain.symm, hpath⟩
      · exact Or.inr (Or.inl ⟨piece, hpiece, hdomain, hpath⟩)
    · by_cases hpiece : piece = ""
      · rw [hpiece, String.append_empty] at hdomain
        rw [hpiece, String.empty_append] at hpath
        exact Or.inl ⟨hdomain, hpath.symm⟩
      · exact Or.inr (Or.inr ⟨piece, hpiece, hdomain, hpath⟩)
  · rintro (⟨hdomain, hpath⟩ | ⟨piece, -, hdomain, hpath⟩ | ⟨piece, -, hdomain, hpath⟩)
    · exact Or.inl ⟨"", by simp [hdomain], by simp [hpath]⟩
    · exact Or.inl ⟨piece, hdomain, hpath⟩
    · exact Or.inr ⟨piece, hdomain, hpath⟩

/-! ## One registration for a domain and a path -/

theorem LastDeriving.congr_domain {rs : List Registration} {domain domain' text : String}
    {g : Registration} (h : LastDeriving rs domain text g)
    (hdomain : Text.foldCase domain = Text.foldCase domain') : LastDeriving rs domain' text g := by
  unfold LastDeriving Registration.DerivesFor at h ⊢
  rw [← hdomain]
  exact h

/-- Of two elements of a list, each at its place, one stands behind the other, or they are one. -/
theorem eq_or_mem_of_append_eq {α : Type} {as bs cs ds : List α} {x y : α}
    (h : as ++ x :: bs = cs ++ y :: ds) : x = y ∨ y ∈ bs ∨ x ∈ ds := by
  rcases List.append_eq_append_iff.1 h with ⟨l, -, hl⟩ | ⟨l, -, hl⟩
  · cases l with
    | nil => exact Or.inl (List.cons.inj hl).1
    | cons _ l =>
        rw [(List.cons.inj hl).2]
        exact Or.inr (Or.inl (by simp))
  · cases l with
    | nil => exact Or.inl (List.cons.inj hl).1.symm
    | cons _ l =>
        rw [(List.cons.inj hl).2]
        exact Or.inr (Or.inr (by simp))

/-- The last registrations that derive two patterns for a domain are the same one if their paths
are: a later one with this path would derive both patterns. -/
theorem LastDeriving.eq_of_path {rs : List Registration} {domain s t : String}
    {g k : Registration} (hg : LastDeriving rs domain s g) (hk : LastDeriving rs domain t k)
    (hpath : g.path = k.path) : g = k := by
  obtain ⟨before, after, hsplit, ⟨hgdomain, hgs⟩, hglast⟩ := hg
  obtain ⟨before', after', hsplit', ⟨hkdomain, hkt⟩, hklast⟩ := hk
  rcases eq_or_mem_of_append_eq (hsplit.symm.trans hsplit') with heq | hmem | hmem
  · exact heq
  · exact absurd ⟨hkdomain, hgs.of_path_eq hpath⟩ (hglast k hmem)
  · exact absurd ⟨hgdomain, hkt.of_path_eq hpath.symm⟩ (hklast g hmem)

/-! ## All routes of a table -/

/-- The texts that are hashed for some registrations: one for each that has a path. -/
def HashedTexts (rs : List Registration) : Set Bytes :=
  {text | ∃ g ∈ rs, g.path ≠ "" ∧ text = g.entry.slotText}

/-- The hashes of these texts differ in their first four bytes. -/
def HashesApart (rs : List Registration) : Prop :=
  Set.InjOn (fun text => (Digest.Sha256.hash text).take 4) (HashedTexts rs)

namespace RouteTable

variable {rs : List Registration} {r s : Route}

/-- The routes of all domains of a table. -/
def allRoutes (t : RouteTable) : List Route :=
  t.domains.entries.flatMap fun e => e.2.entries.map Prod.snd

theorem mem_allRoutes {t : RouteTable} :
    r ∈ t.allRoutes ↔ ∃ domain m, t.domains.get? domain = some m ∧ r ∈ m.entries.map Prod.snd := by
  rw [allRoutes, List.mem_flatMap]
  constructor
  · rintro ⟨⟨domain, m⟩, hm, hr⟩
    exact ⟨domain, m, SortedMap.mem_entries_iff.1 hm, hr⟩
  · rintro ⟨domain, m, hm, hr⟩
    exact ⟨(domain, m), SortedMap.mem_entries_iff.2 hm, hr⟩

/-- Every route of a compiled table stands under a pattern that its registration is the last one to
derive. -/
theorem mem_allRoutes_compile :
    r ∈ (compile rs).allRoutes ↔
      ∃ g, LastDeriving rs g.domain r.pattern.text g ∧ r.entry = g.entry := by
  rw [mem_allRoutes]
  constructor
  · rintro ⟨domain, m, hm, hr⟩
    obtain ⟨k, -, hk, -⟩ := (isSome_get?_compile rs domain).1 (Option.isSome_of_eq_some hm)
    have hmem : r ∈ (compile rs).routesOf k.domain := by
      rw [routesOf, routesFor?, hk, hm]
      exact hr
    obtain ⟨g, hlast, hentry⟩ := mem_routesOf_compile.1 hmem
    obtain ⟨_, _, _, ⟨hdomain, _⟩, _⟩ := id hlast
    exact ⟨g, hlast.congr_domain hdomain.symm, hentry⟩
  · rintro ⟨g, hlast, hentry⟩
    have hmem : r ∈ (compile rs).routesOf g.domain := mem_routesOf_compile.2 ⟨g, hlast, hentry⟩
    rw [routesOf, routesFor?] at hmem
    cases hm : (compile rs).domains.get? (Text.foldCase g.domain) with
    | none =>
        rw [hm] at hmem
        cases hmem
    | some m =>
        rw [hm] at hmem
        exact ⟨_, m, hm, hmem⟩

/-- A registration has a route for a pattern that no later one derives. -/
theorem mem_allRoutes_of_derives {before after : List Registration} {g : Registration}
    {p : PathPattern} (hsplit : rs = before ++ g :: after) (hderives : g.Derives p.text)
    (hafter : ∀ k ∈ after, ¬k.Derives p.text) : ⟨p, g.entry⟩ ∈ (compile rs).allRoutes := by
  refine mem_allRoutes_compile.2 ⟨g, ⟨before, after, hsplit, ⟨rfl, hderives⟩, ?_⟩, rfl⟩
  exact fun k hk h => hafter k hk h.2

theorem exists_registration_of_mem_allRoutes (hr : r ∈ (compile rs).allRoutes) :
    ∃ g ∈ rs, g.path ≠ "" ∧ r.entry = g.entry := by
  obtain ⟨g, ⟨before, after, hsplit, ⟨-, hderives⟩, -⟩, hentry⟩ := mem_allRoutes_compile.1 hr
  refine ⟨g, ?_, hderives.nonempty, hentry⟩
  rw [hsplit]
  simp

/-- Routes with one domain and one path have one entry. -/
theorem entry_eq_of_domain_path (hr : r ∈ (compile rs).allRoutes) (hs : s ∈ (compile rs).allRoutes)
    (hdomain : r.entry.domain = s.entry.domain) (hpath : r.entry.path = s.entry.path) :
    r.entry = s.entry := by
  obtain ⟨g, hg, hgentry⟩ := mem_allRoutes_compile.1 hr
  obtain ⟨k, hk, hkentry⟩ := mem_allRoutes_compile.1 hs
  rw [hgentry, hkentry] at hdomain hpath
  have heq : g = k := (hg.congr_domain hdomain).eq_of_path hk hpath
  rw [hgentry, hkentry, heq]

/-- Routes have one slot exactly if its text is the same. -/
theorem cacheId_eq_iff_slotText (hapart : HashesApart rs) (hr : r ∈ (compile rs).allRoutes)
    (hs : s ∈ (compile rs).allRoutes) :
    r.entry.cacheId = s.entry.cacheId ↔ r.entry.slotText = s.entry.slotText := by
  obtain ⟨g, hg, hgpath, hgentry⟩ := exists_registration_of_mem_allRoutes hr
  obtain ⟨k, hk, hkpath, hkentry⟩ := exists_registration_of_mem_allRoutes hs
  rw [hgentry, hkentry]
  have hhash : g.entry.cacheId = k.entry.cacheId ↔
      (Digest.Sha256.hash g.entry.slotText).take 4 = (Digest.Sha256.hash k.entry.slotText).take 4 :=
    Cache.Id.ofEndpoint_eq_iff
  rw [hhash]
  exact hapart.eq_iff ⟨g, hg, hgpath, rfl⟩ ⟨k, hk, hkpath, rfl⟩

end RouteTable
end Endpoint

/-! ## Main statement -/

namespace Plugin.RawEndpoints

open Endpoint

/-- Two routes of a compiled section have one slot exactly if they have one entry, or if the path of
one spills into the domain of the other. If paths begin with a slash and domains have none, every
endpoint has a slot of its own. -/
theorem cacheId_eq_iff_spillsInto (raw : RawEndpoints) (hapart : HashesApart raw.registrations) :
    let t := RouteTable.compile raw.registrations
    (∀ r ∈ t.allRoutes, ∀ s ∈ t.allRoutes, r.entry.cacheId = s.entry.cacheId ↔
      r.entry = s.entry ∨ r.entry.SpillsInto s.entry ∨ s.entry.SpillsInto r.entry) ∧
    ((∀ g ∈ raw.registrations, g.path ≠ "" →
        g.path.toList.head? = some '/' ∧ '/' ∉ g.domain.toList) →
      ∀ r ∈ t.allRoutes, ∀ s ∈ t.allRoutes,
        r.entry.cacheId = s.entry.cacheId → r.entry = s.entry) := by
  intro t
  have hshared : ∀ r ∈ t.allRoutes, ∀ s ∈ t.allRoutes, r.entry.cacheId = s.entry.cacheId ↔
      r.entry = s.entry ∨ r.entry.SpillsInto s.entry ∨ s.entry.SpillsInto r.entry := by
    intro r hr s hs
    rw [RouteTable.cacheId_eq_iff_slotText hapart hr hs, Entry.slotText_eq_iff]
    refine or_congr_left ⟨fun h => ?_, fun h => ?_⟩
    · exact RouteTable.entry_eq_of_domain_path hr hs h.1 h.2
    · rw [h]
      exact ⟨rfl, rfl⟩
  refine ⟨hshared, fun hslash r hr s hs hid => ?_⟩
  have hno : ∀ r ∈ t.allRoutes, ∀ s ∈ t.allRoutes, ¬r.entry.SpillsInto s.entry := by
    rintro r hr s hs ⟨piece, hpiece, hdomain, hpath⟩
    obtain ⟨g, hg, hgpath, hgentry⟩ := RouteTable.exists_registration_of_mem_allRoutes hr
    obtain ⟨k, hk, hkpath, hkentry⟩ := RouteTable.exists_registration_of_mem_allRoutes hs
    -- The piece begins with the slash of the path, which the domain would have to contain.
    have hmem : '/' ∈ piece.toList := by
      obtain ⟨c, cs, hcs⟩ := List.exists_cons_of_ne_nil fun h => hpiece (String.toList_eq_nil_iff.1 h)
      have hhead : g.path.toList.head? = some '/' := (hslash g hg hgpath).1
      have hgpiece : g.path = piece ++ s.entry.path := by
        rw [← hpath, hgentry]
        rfl
      rw [hgpiece, String.toList_append, hcs] at hhead
      rw [hcs, Option.some.inj hhead]
      exact List.mem_cons_self
    have hkdomain : Text.foldCase k.domain = r.entry.domain ++ piece := by
      rw [← hdomain, hkentry]
      rfl
    apply (hslash k hk hkpath).2
    apply Text.slash_mem_of_mem_foldCase
    rw [hkdomain, String.toList_append]
    exact List.mem_append_right _ hmem
  rcases (hshared r hr s hs).1 hid with h | h | h
  · exact h
  · exact absurd h (hno r hr s hs)
  · exact absurd h (hno s hs r hr)

/-- Two paths of one domain, neither of which is the beginning of a domain. -/
theorem cacheId_eq_iff_spillsInto_of_two_paths :
    let raw : RawEndpoints :=
      SortedMap.ofList [("ISHARE", SortedMap.ofList [("domain.org", ["/x", "/y"])])]
    let t := RouteTable.compile raw.registrations
    HashesApart raw.registrations ∧
      ∃ r ∈ t.allRoutes, ∃ s ∈ t.allRoutes, r.entry ≠ s.entry ∧
        r.entry.cacheId ≠ s.entry.cacheId := by
  intro raw t
  let x : Registration := ⟨"ISHARE", "domain.org", "/x"⟩
  let y : Registration := ⟨"ISHARE", "domain.org", "/y"⟩
  have hraw : raw.registrations = [x, y] := by
    decide
  have hhashes : (Digest.Sha256.hash x.entry.slotText).take 4 ≠
      (Digest.Sha256.hash y.entry.slotText).take 4 := by
    decide +kernel
  have hapart : HashesApart raw.registrations := by
    rw [hraw]
    rintro _ ⟨g, hg, -, rfl⟩ _ ⟨k, hk, -, rfl⟩ hhash
    simp only [List.mem_cons, List.not_mem_nil, or_false] at hg hk
    rcases hg with rfl | rfl
    · rcases hk with rfl | rfl
      · rfl
      · exact absurd hhash hhashes
    · rcases hk with rfl | rfl
      · exact absurd hhash.symm hhashes
      · rfl
  have hslash : ∀ g ∈ raw.registrations, g.path ≠ "" →
      g.path.toList.head? = some '/' ∧ '/' ∉ g.domain.toList := by
    rw [hraw]
    decide
  let r : Route := ⟨⟨"/x", by decide⟩, x.entry⟩
  let s : Route := ⟨⟨"/y", by decide⟩, y.entry⟩
  have hfirst : raw.registrations = [] ++ x :: [y] := hraw
  have hsecond : raw.registrations = [x] ++ y :: [] := hraw
  have hr : r ∈ t.allRoutes :=
    RouteTable.mem_allRoutes_of_derives hfirst (by decide) (by decide)
  have hs : s ∈ t.allRoutes :=
    RouteTable.mem_allRoutes_of_derives hsecond (by decide) (by decide)
  have hne : r.entry ≠ s.entry := by
    intro h
    have hpath := congrArg Entry.path h
    revert hpath
    decide
  exact ⟨hapart, r, hr, s, hs, hne,
    fun hid => hne ((cacheId_eq_iff_spillsInto raw hapart).2 hslash r hr s hs hid)⟩

/-- A path that does not begin with a slash may be written as the end of another domain and the path
of that one: both endpoints have the same slot. -/
theorem not_always_own_slot :
    ¬∀ raw : RawEndpoints, HashesApart raw.registrations →
      ∀ r ∈ (RouteTable.compile raw.registrations).allRoutes,
      ∀ s ∈ (RouteTable.compile raw.registrations).allRoutes,
        r.entry.cacheId = s.entry.cacheId → r.entry = s.entry := by
  intro h
  let raw : RawEndpoints := SortedMap.ofList
    [("ISHARE", SortedMap.ofList [("domain.or", ["g/x"]), ("domain.org", ["/x"])])]
  let cut : Registration := ⟨"ISHARE", "domain.or", "g/x"⟩
  let whole : Registration := ⟨"ISHARE", "domain.org", "/x"⟩
  have hraw : raw.registrations = [cut, whole] := by
    decide
  have htext : cut.entry.slotText = whole.entry.slotText := by
    decide
  -- A single text is hashed.
  have hapart : HashesApart raw.registrations := by
    have hone : ∀ text ∈ HashedTexts raw.registrations, text = whole.entry.slotText := by
      rw [hraw]
      rintro _ ⟨g, hg, -, rfl⟩
      simp only [List.mem_cons, List.not_mem_nil, or_false] at hg
      rcases hg with rfl | rfl
      · exact htext
      · rfl
    intro a ha b hb _
    rw [hone a ha, hone b hb]
  let r : Route := ⟨⟨"g/x", by decide⟩, cut.entry⟩
  let s : Route := ⟨⟨"/x", by decide⟩, whole.entry⟩
  have hfirst : raw.registrations = [] ++ cut :: [whole] := hraw
  have hsecond : raw.registrations = [cut] ++ whole :: [] := hraw
  have hr : r ∈ (RouteTable.compile raw.registrations).allRoutes :=
    RouteTable.mem_allRoutes_of_derives hfirst (by decide) (by decide)
  have hs : s ∈ (RouteTable.compile raw.registrations).allRoutes :=
    RouteTable.mem_allRoutes_of_derives hsecond (by decide) (by decide)
  have hentry := h raw hapart r hr s hs
    ((RouteTable.cacheId_eq_iff_slotText hapart hr hs).2 htext)
  have hpath := congrArg Entry.path hentry
  revert hpath
  decide

end Plugin.RawEndpoints
end EgressAuth
