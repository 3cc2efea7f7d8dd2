/-
  EgressAuth.Proofs.Interception.SlotBound

  How many slots the cache may have. A slot is written for a request that was
  matched with an entry, so its key belongs to an entry of one of the
  configurations of the run (`Plugin.Config.Caches`). Which domains and paths
  are asked for does not matter: as long as the configuration stays, there are
  no more slots than configured endpoints, and one while these are not told
  apart.
-/
import EgressAuth.Proofs.Endpoint.Specificity
import EgressAuth.Proofs.Interception.CacheSafety
import EgressAuth.Proofs.Interception.Provenance
import EgressAuth.Proofs.SortedMap

namespace EgressAuth

open Endpoint

/-! ## Slots of a configuration -/

namespace Plugin.Config

/-- The slot is that of a route, or the shared one while endpoint matching is off. -/
def Caches (c : Config) (i : Cache.Id) : Prop :=
  if c.settings.matchEndpoints then
    ∃ domain, ∃ r ∈ c.routes.routesOf domain, r.entry.cacheId = i
  else i = Cache.Id.shared

/-- Every entry that governs a request has a slot of the configuration. -/
theorem caches_of_entryFor? {c : Config} {domain path : String} {e : Entry}
    (h : c.entryFor? domain path = some e) : c.Caches e.cacheId := by
  unfold Caches
  split
  · rename_i hmatching
    obtain ⟨-, -, r, hr, rfl⟩ := (entryFor?_eq_some_iff hmatching).1 h
    rw [RouteTable.find?_eq_foldl] at hr
    exact ⟨domain, r, RouteTable.mem_of_foldl_better hr, rfl⟩
  · rename_i hoff
    rw [entryFor?, if_neg hoff] at h
    cases h
    rfl

end Plugin.Config

/-- The endpoints of some registrations, each of them once: their paths, with domains in small
letters. Registrations without a path have none. -/
def Endpoint.endpoints (gs : List Registration) : List (String × String) :=
  ((gs.filter fun g => g.path ≠ "").map fun g => (Text.foldCase g.domain, g.path)).dedup

/-- With matching on, the slots of a configuration are those of its endpoints. -/
theorem Plugin.Config.exists_endpoint_of_caches {c : Config} {gs : List Registration}
    {i : Cache.Id} (hroutes : c.routes = RouteTable.compile gs)
    (hmatching : c.settings.matchEndpoints = true) (h : c.Caches i) :
    ∃ p ∈ endpoints gs, i = Cache.Id.ofEndpoint p.1 p.2 := by
  rw [Caches, if_pos hmatching, hroutes] at h
  obtain ⟨domain, r, hr, rfl⟩ := h
  obtain ⟨g, hg, hgr, -⟩ := RouteTable.exists_registration hr
  obtain ⟨hpath, hentry, -⟩ := Registration.mem_routes.1 hgr
  refine ⟨(Text.foldCase g.domain, g.path), ?_, by rw [hentry]; rfl⟩
  rw [endpoints, List.mem_dedup]
  exact List.mem_map.2 ⟨g, List.mem_filter.2 ⟨hg, by simpa using hpath⟩, rfl⟩

/-! ## Slots of a store -/

/-- A store has no more slots than there are keys that may have one. -/
theorem Cache.SharedStore.size_le_length {store : SharedStore} {keys : List String}
    (h : ∀ key, (store.slot? key).isSome → key ∈ keys) : store.size ≤ keys.length := by
  have hsub : {key | (store.slots.get? key).isSome} ⊆ (keys.toFinset : Set String) := by
    intro key hkey
    rw [Finset.mem_coe, List.mem_toFinset]
    exact h key hkey
  calc store.size = Set.ncard {key | (store.slots.get? key).isSome} := store.slots.size_eq_ncard
    _ ≤ Set.ncard (keys.toFinset : Set String) := Set.ncard_le_ncard hsub keys.toFinset.finite_toSet
    _ = keys.toFinset.card := Set.ncard_coe_finset _
    _ ≤ keys.length := keys.toFinset_card_le

/-! ## Main statement -/

namespace Session

variable {s : Session} {steps : List Step}

/-- Every slot belongs to a configuration that was current at some time. -/
theorem exists_caches_of_slot? (hempty : s.host.store = .empty) (hnew : s.tickets = [])
    (hnone : s.snapshots = []) (hown : ∀ t ∈ steps, t.isForeign = false) {key : String}
    (h : ((s.after steps).host.store.slot? key).isSome) :
    ∃ c ∈ s.configs steps, ∃ i, c.Caches i ∧ key = i.key := by
  obtain ⟨slot, hslot⟩ := Option.isSome_iff_exists.1 h
  obtain ⟨i, e, hkey, -, hallowed⟩ := (sound_of_empty hempty hnew hown).slots key slot hslot
  -- The write goes back to an answer, and this to a request that was matched when it came in.
  obtain ⟨answered, id, p, since, rfl, ⟨context, hpaused, hid⟩, -, -⟩ := hallowed
  obtain ⟨before, snapshot, r, between, rfl, -, concern, hc, hentry⟩ := hpaused
  refine ⟨(s.after before).configOf snapshot, ?_, i, ?_, hkey⟩
  · rw [List.append_assoc]
    exact mem_configs_append (configOf_mem_configs hnone before snapshot) _
  · rw [← hid, hentry]
    exact Plugin.Config.caches_of_entryFor? (Plugin.Config.entryFor?_of_concern? hc)

/-- In a run from an empty store, without foreign writes, every key in the store is that of a slot
of one of the configurations of the run. If there is only one configuration, the store has at most
as many slots as endpoints are configured, and at most one if endpoints are not told apart. -/
theorem slots_bounded (hempty : s.host.store = .empty) (hnew : s.tickets = [])
    (hnone : s.snapshots = []) (hown : ∀ t ∈ steps, t.isForeign = false) :
    (∀ key, ((s.after steps).host.store.slot? key).isSome →
      ∃ c ∈ s.configs steps, ∃ i, c.Caches i ∧ key = i.key) ∧
    ((∀ c ∈ s.configs steps, c = s.config) →
      (∀ gs, s.config.routes = RouteTable.compile gs → s.config.settings.matchEndpoints = true →
        (s.after steps).host.store.size ≤ (endpoints gs).length) ∧
      (s.config.settings.matchEndpoints = false → (s.after steps).host.store.size ≤ 1)) := by
  have hslots (key : String) (h : ((s.after steps).host.store.slot? key).isSome) :=
    exists_caches_of_slot? hempty hnew hnone hown h
  refine ⟨hslots, fun hfixed => ⟨fun gs hroutes hmatching => ?_, fun hoff => ?_⟩⟩
  · have hkeys : ∀ key, ((s.after steps).host.store.slot? key).isSome →
        key ∈ (endpoints gs).map fun p => (Cache.Id.ofEndpoint p.1 p.2).key := by
      intro key h
      obtain ⟨c, hc, i, hi, rfl⟩ := hslots key h
      rw [hfixed c hc] at hi
      obtain ⟨p, hp, rfl⟩ := Plugin.Config.exists_endpoint_of_caches hroutes hmatching hi
      exact List.mem_map.2 ⟨p, hp, rfl⟩
    have hsize := Cache.SharedStore.size_le_length hkeys
    rwa [List.length_map] at hsize
  · have hkeys : ∀ key, ((s.after steps).host.store.slot? key).isSome →
        key ∈ [Cache.Id.shared.key] := by
      intro key h
      obtain ⟨c, hc, i, hi, rfl⟩ := hslots key h
      rw [hfixed c hc, Plugin.Config.Caches, if_neg (by simp [hoff])] at hi
      rw [hi]
      exact List.mem_singleton_self _
    exact Cache.SharedStore.size_le_length hkeys

/-- One endpoint, registered for two types and in two spellings of its domain: requests for paths
below it and for other domains leave one slot at most. -/
theorem slots_bounded_of_one_endpoint :
    let gs : List Registration := [⟨"ISHARE", "Domain.org", "/a"⟩, ⟨"OIC", "domain.org", "/a"⟩]
    let c : Plugin.Config :=
      ⟨{ Plugin.Settings.default with matchEndpoints := true }, RouteTable.compile gs⟩
    let p : ProviderResponse := ⟨[("cache-control", "max-age=60")], some (Text.encode "[]")⟩
    let steps : List Step :=
      [.request "1" none (.listed [(":authority", "domain.org"), (":path", "/a/b")]),
        .request "2" none (.listed [(":authority", "other.org"), (":path", "/a")]),
        .request "3" none (.listed [(":authority", "DOMAIN.org"), (":path", "/a/c")]),
        .answer "1" (.ok p), .answer "2" (.ok p), .answer "3" (.ok p)]
    (∀ t ∈ steps, t.isForeign = false) ∧ ((start c 0).after steps).host.store.size ≤ 1 := by
  intro gs c p steps
  have hown : ∀ t ∈ steps, t.isForeign = false := by
    simp [steps, Step.isForeign]
  have hfixed : ∀ d ∈ (start c 0).configs steps, d = c := by
    intro d hd
    exact List.mem_singleton.1 hd
  obtain ⟨-, hsize⟩ := slots_bounded (s := start c 0) rfl rfl rfl hown
  have hone : (endpoints gs).length = 1 := by
    decide +kernel
  exact ⟨hown, hone ▸ (hsize hfixed).1 gs rfl rfl⟩

end Session
end EgressAuth
