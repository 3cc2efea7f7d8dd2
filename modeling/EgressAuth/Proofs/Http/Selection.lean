/-
  EgressAuth.Proofs.Http.Selection

  Parts of a header map. `HeaderMap.select` keeps the headers that pass a test
  and their order (`toList_select`). Appending headers one after the other puts
  them into groups again (`groups_appendAll`), so a selected map is what
  appending the selected headers makes (`appendAll_filter`).
-/
import EgressAuth.Proofs.Http.Additions
import EgressAuth.Proofs.Text.ByteOrder
import Mathlib.Data.FinEnum

namespace EgressAuth.Http

/-! ## Names and values as texts -/

namespace HeaderName

/-- A name has no capitals that could be folded. -/
theorem foldCase_text (n : HeaderName) : Text.foldCase n.text = n.text := by
  have hvalid := n.valid
  simp only [isHeaderName, Bool.and_eq_true, List.all_eq_true, Bool.not_eq_true'] at hvalid
  have hmap : n.text.toList.map Char.toLower = n.text.toList :=
    (List.map_congr_left fun c hc =>
      Text.toLower_of_not_isUpper (hvalid.2 c hc).2).trans (List.map_id' _)
  rw [Text.foldCase, hmap, String.ofList_toList]

/-- The name is read back from its own text. -/
theorem ofText?_text (n : HeaderName) : ofText? n.text = some n :=
  ofText?_eq_some_iff.2 ⟨(foldCase_text n).symm ▸ n.valid, (foldCase_text n).symm⟩

/-- Names with the same letters are the same. -/
theorem sameLetters_text_iff (n m : HeaderName) :
    Text.sameLetters n.text m.text = true ↔ n = m := by
  rw [Text.sameLetters, foldCase_text, foldCase_text, beq_iff_eq]
  exact ⟨text_injective, congrArg text⟩

/-- A name does not start with a colon. -/
theorem isPseudoName_text (n : HeaderName) : isPseudoName n.text = false := by
  have hvalid := n.valid
  simp only [isHeaderName, Bool.and_eq_true, List.all_eq_true] at hvalid
  unfold isPseudoName
  cases htext : n.text.toList with
  | nil => rfl
  | cons c cs =>
      have hc : isTokenChar c = true := (hvalid.2 c (by simp [htext])).1
      have hne : c ≠ ':' := by
        rintro rfl
        revert hc
        decide
      simpa using hne

end HeaderName

namespace HeaderValue

/-- The text of a value spells its bytes. -/
theorem encode_of_text? {v : HeaderValue} {s : String} (h : v.text? = some s) :
    Text.encode s = v.bytes := by
  unfold text? at h
  split at h
  · rename_i hall
    cases h
    rw [List.all_eq_true] at hall
    -- Every visible byte is the one byte of its character.
    have hvisible : ∀ b : UInt8, Text.isVisible b = true →
        String.utf8EncodeChar (Char.ofNat b.toNat) = [b] := by
      decide +kernel
    rw [Text.encode_eq_flatMap, String.toList_ofList, List.flatMap_map,
      List.flatMap_congr fun b hb => hvisible b (hall b hb)]
    simp
  · cases h

theorem ofText?_of_text? {v : HeaderValue} {s : String} (h : v.text? = some s) :
    ofText? s = some v := by
  have hbytes := encode_of_text? h
  exact ofText?_eq_some_iff.2 ⟨hbytes.symm ▸ v.valid, hbytes.symm⟩

theorem isSome_text? (v : HeaderValue) : v.text?.isSome = v.bytes.all Text.isVisible := by
  unfold text?
  split
  · rename_i h
    rw [h]
    rfl
  · rename_i h
    simpa using h

/-- A text of printable characters is the text of a value. -/
theorem exists_of_visible {s : String} (h : ∀ c ∈ s.toList, 0x20 ≤ c.toNat ∧ c.toNat ≤ 0x7E) :
    ∃ v, ofText? s = some v ∧ v.text? = some s := by
  have hbyte : ∀ c ∈ s.toList, String.utf8EncodeChar c = [UInt8.ofNat c.toNat] := by
    intro c hc
    have hc := (h c hc).2
    simp only [String.utf8EncodeChar]
    rw [if_pos (show c.val.toNat ≤ 0x7F from le_trans hc (by decide))]
    rfl
  have hvisible : (Text.encode s).all Text.isVisible = true := by
    rw [Text.encode_eq_flatMap, List.all_flatMap, List.all_eq_true]
    intro c hc
    obtain ⟨hlow, hhigh⟩ := h c hc
    rw [hbyte c hc]
    simp [Text.isVisible, UInt8.le_iff_toNat_le, UInt8.toNat_ofNat']
    omega
  have hvalid : (Text.encode s).all isValueByte = true := by
    have hall : ∀ b : UInt8, Text.isVisible b = true → isValueByte b = true := by
      decide +kernel
    rw [List.all_eq_true] at hvisible ⊢
    exact fun b hb => hall b (hvisible b hb)
  let v : HeaderValue := ⟨Text.encode s, hvalid⟩
  obtain ⟨t, ht⟩ := Option.isSome_iff_exists.1 ((isSome_text? v).trans hvisible)
  have hst : t = s := Text.encode_injective (encode_of_text? ht)
  exact ⟨v, ofText?_eq_some_iff.2 ⟨hvalid, rfl⟩, hst ▸ ht⟩

end HeaderValue

namespace HeaderMap

/-! ## Selected headers -/

/-- What is left of the values of a name, and of the name itself, under a test. -/
def selectGroup? (p : HeaderName × HeaderValue → Bool) (g : HeaderName × List HeaderValue) :
    Option (HeaderName × List HeaderValue) :=
  if (g.2.filter fun v => p (g.1, v)).isEmpty then none
  else some (g.1, g.2.filter fun v => p (g.1, v))

theorem selectGroup?_eq_some {p : HeaderName × HeaderValue → Bool}
    {g k : HeaderName × List HeaderValue} (h : selectGroup? p g = some k) :
    k = (g.1, g.2.filter fun v => p (g.1, v)) ∧ k.2 ≠ [] := by
  unfold selectGroup? at h
  split at h
  · cases h
  · rename_i hne
    cases h
    exact ⟨rfl, by simpa using hne⟩

/-- The headers that pass a test; names and values stay in their order. -/
def select (m : HeaderMap) (p : HeaderName × HeaderValue → Bool) : HeaderMap where
  groups := m.groups.filterMap (selectGroup? p)
  nodup := by
    have hnodup := m.nodup
    rw [List.Nodup, List.pairwise_map] at hnodup ⊢
    refine List.Pairwise.filterMap _ ?_ hnodup
    intro g g' hne k hk k' hk'
    rw [(selectGroup?_eq_some hk).1, (selectGroup?_eq_some hk').1]
    exact hne

theorem toList_select (m : HeaderMap) (p : HeaderName × HeaderValue → Bool) :
    (m.select p).toList = m.toList.filter p := by
  show (m.groups.filterMap (selectGroup? p)).flatMap (fun g => g.2.map fun v => (g.1, v)) =
    (m.groups.flatMap fun g => g.2.map fun v => (g.1, v)).filter p
  induction m.groups with
  | nil => rfl
  | cons g gs ih =>
      have hg : (g.2.map fun v => (g.1, v)).filter p =
          (g.2.filter fun v => p (g.1, v)).map fun v => (g.1, v) := List.filter_map
      rw [List.flatMap_cons, List.filter_append, hg, ← ih]
      cases hk : selectGroup? p g with
      | none =>
          -- No value of this name passes.
          have hempty : g.2.filter (fun v => p (g.1, v)) = [] := by
            unfold selectGroup? at hk
            split at hk
            · rename_i h
              exact List.isEmpty_iff.1 h
            · cases hk
          rw [List.filterMap_cons_none hk, hempty]
          rfl
      | some k =>
          rw [List.filterMap_cons_some hk, List.flatMap_cons, (selectGroup?_eq_some hk).1]

/-! ## A map made of its headers -/

theorem eq_of_groups {m k : HeaderMap} (h : m.groups = k.groups) : m = k := by
  cases m
  cases k
  cases h
  rfl

theorem appendAll_append (m : HeaderMap) (hs more : List (HeaderName × HeaderValue)) :
    m.appendAll (hs ++ more) = (m.appendAll hs).appendAll more :=
  List.foldl_append

/-- A value for a new name. -/
theorem groups_append_of_new {m : HeaderMap} {n : HeaderName} (hn : n ∉ m.groups.map Prod.fst)
    (v : HeaderValue) : (m.append n v).groups = m.groups ++ [(n, [v])] := by
  simp only [append, update, dif_neg hn, List.nil_append]

/-- One more value for the name that came last. -/
theorem groups_append_of_last {m : HeaderMap} {gs : List (HeaderName × List HeaderValue)}
    {n : HeaderName} {vs : List HeaderValue} (hm : m.groups = gs ++ [(n, vs)]) (v : HeaderValue) :
    (m.append n v).groups = gs ++ [(n, vs ++ [v])] := by
  have hmem : n ∈ m.groups.map Prod.fst := by
    rw [hm]
    simp
  have hother : ∀ g ∈ gs, g.1 ≠ n := by
    have hnodup := m.nodup
    rw [hm, List.map_append, List.nodup_append] at hnodup
    intro g hg
    exact hnodup.2.2 _ (List.mem_map_of_mem hg) _ (by simp)
  have hgs : (gs.map fun g => if g.1 = n then (g.1, g.2 ++ [v]) else g) = gs :=
    (List.map_congr_left fun g hg => if_neg (hother g hg)).trans (List.map_id' _)
  simp only [append, update, dif_pos hmem]
  rw [hm, List.map_append, hgs]
  simp

/-- More values for the name that came last. -/
theorem groups_appendAll_of_last {m : HeaderMap} {gs : List (HeaderName × List HeaderValue)}
    {n : HeaderName} {vs : List HeaderValue} (hm : m.groups = gs ++ [(n, vs)])
    (more : List HeaderValue) :
    (m.appendAll (more.map fun v => (n, v))).groups = gs ++ [(n, vs ++ more)] := by
  induction more generalizing m vs with
  | nil => simpa [appendAll] using hm
  | cons v more ih =>
      have hv := ih (groups_append_of_last hm v)
      rw [List.append_assoc] at hv
      exact hv

/-- All values of a new name. -/
theorem groups_appendAll_of_new {m : HeaderMap} {n : HeaderName}
    (hn : n ∉ m.groups.map Prod.fst) {vs : List HeaderValue} (hvs : vs ≠ []) :
    (m.appendAll (vs.map fun v => (n, v))).groups = m.groups ++ [(n, vs)] := by
  cases vs with
  | nil => exact absurd rfl hvs
  | cons v more => exact groups_appendAll_of_last (groups_append_of_new hn v) more

/-- Headers whose names are new come behind those that are there, name by name. -/
theorem groups_appendAll {m : HeaderMap} {gs : List (HeaderName × List HeaderValue)}
    (hnodup : ((m.groups ++ gs).map Prod.fst).Nodup) (hgs : ∀ g ∈ gs, g.2 ≠ []) :
    (m.appendAll (gs.flatMap fun g => g.2.map fun v => (g.1, v))).groups = m.groups ++ gs := by
  induction gs generalizing m with
  | nil => simp [appendAll]
  | cons g gs ih =>
      have hnew : g.1 ∉ m.groups.map Prod.fst := by
        rw [List.map_append, List.nodup_append] at hnodup
        intro hmem
        exact hnodup.2.2 _ hmem _ (by simp) rfl
      have hfirst := groups_appendAll_of_new hnew (hgs g (by simp))
      have hrest : ((m.appendAll (g.2.map fun v => (g.1, v))).groups ++ gs).map Prod.fst =
          (m.groups ++ g :: gs).map Prod.fst := by
        rw [hfirst]
        simp
      rw [List.flatMap_cons, appendAll_append, ih (hrest ▸ hnodup) fun g hg => hgs g (by simp [hg]),
        hfirst, List.append_assoc]
      rfl

/-- Appending the headers that pass a test to no headers makes the selected map. -/
theorem appendAll_filter (m : HeaderMap) (p : HeaderName × HeaderValue → Bool) :
    empty.appendAll (m.toList.filter p) = m.select p := by
  rw [← toList_select]
  refine eq_of_groups (groups_appendAll (m.select p).nodup fun g hg => ?_)
  obtain ⟨g', -, hg'⟩ := List.mem_filterMap.1 hg
  exact (selectGroup?_eq_some hg').2

end HeaderMap
end EgressAuth.Http
