/-
  EgressAuth.Proofs.Interception.Independence

  Requests on different slots do not interact. On each lane a run of turns
  comes to what the turns of this lane alone come to (`alike_afterTurns`), so
  runs that have the same turns on every lane, each in its order, agree, in
  whatever way the lanes are interleaved. In particular two turns on different
  slots may change places.
-/
import EgressAuth.Proofs.Cache.Entry
import EgressAuth.Proofs.Interception.Turns
import EgressAuth.Proofs.SortedMap

namespace EgressAuth

/-- A store is known by its slots. -/
theorem Cache.SharedStore.ext_slot? {s t : SharedStore} (h : ∀ key, s.slot? key = t.slot? key) :
    s = t := by
  cases s
  cases t
  exact congrArg SharedStore.mk (SortedMap.ext_get? h)

namespace Session

/-! ## Runs of turns -/

/-- The session after some turns. -/
def afterTurns (s : Session) (requests : String → InboundRequest) (ms : List Turn) : Session :=
  s.after (ms.flatMap fun m => [.setClock m.now, m.step requests])

theorem afterTurns_cons (s : Session) (requests : String → InboundRequest) (m : Turn)
    (ms : List Turn) :
    s.afterTurns requests (m :: ms) = (s.turn requests m).1.afterTurns requests ms := rfl

/-- The turns of one request among some turns: what the host was asked for, and what there is to
say, in which the numbers of calls do not count. -/
def outcomes (s : Session) (requests : String → InboundRequest) (name : String) :
    List Turn → List (List HostEvent × Report)
  | [] => []
  | m :: ms =>
    let out := s.turn requests m
    (if m.name = name then [(out.2.1, out.2.2.unnumbered)] else []) ++
      outcomes out.1 requests name ms

variable {c : Plugin.Config} {requests : String → InboundRequest} {k : Lane} {s t : Session}

/-- On a lane a run comes to what its turns on this lane come to. -/
theorem alike_afterTurns (hs : s.Resolves c requests) (ht : t.Resolves c requests)
    (h : Alike c requests k s t) (ms : List Turn) :
    let own := ms.filter fun m => c.lane requests m.name = k
    Alike c requests k (s.afterTurns requests ms) (t.afterTurns requests own) ∧
      ∀ name, c.lane requests name = k →
        s.outcomes requests name ms = t.outcomes requests name own := by
  induction ms generalizing s t with
  | nil => exact ⟨h, fun _ _ => rfl⟩
  | cons m ms ih =>
      by_cases hm : c.lane requests m.name = k
      · -- Both sessions take the turn.
        obtain ⟨hevents, hreport, hafter⟩ := turn_own hs ht h hm
        obtain ⟨halike, houtcomes⟩ := ih (hs.turn m) (ht.turn m) hafter
        simp only [List.filter_cons, decide_eq_true hm, if_true, afterTurns_cons, outcomes]
        refine ⟨halike, fun name hname => ?_⟩
        rw [hevents, hreport, houtcomes name hname]
      · -- Only the first session takes it, and its lane does not notice.
        obtain ⟨halike, houtcomes⟩ := ih (hs.turn m) ht ((turn_other hs hm).symm.trans h)
        simp only [List.filter_cons, decide_eq_false hm, Bool.false_eq_true, if_false,
          afterTurns_cons, outcomes]
        refine ⟨halike, fun name hname => ?_⟩
        have hne : m.name ≠ name := by
          rintro rfl
          exact hm hname
        rw [if_neg hne, List.nil_append, houtcomes name hname]

/-! ## Main statement -/

/-- Two runs from one session agree: they leave the same store and for every request the same
ticket, that is its headers, what was added to it and what it waits with; and every request has had
the same decisions, calls and other events. -/
structure Agree (s : Session) (requests : String → InboundRequest) (ms ms' : List Turn) :
    Prop where
  store : (s.afterTurns requests ms).host.store = (s.afterTurns requests ms').host.store
  tickets : ∀ name, (s.afterTurns requests ms).tickets.lookup name =
    (s.afterTurns requests ms').tickets.lookup name
  outcomes : ∀ name, s.outcomes requests name ms = s.outcomes requests name ms'

theorem agree_of_lanes (hs : s.Resolves c requests) {ms ms' : List Turn}
    (h : ∀ k, ms.filter (fun m => c.lane requests m.name = k) =
      ms'.filter fun m => c.lane requests m.name = k) : s.Agree requests ms ms' := by
  -- Lane by lane both runs come to the same as their common turns.
  have hlane (k : Lane) : Alike c requests k (s.afterTurns requests ms)
      (s.afterTurns requests ms') ∧ ∀ name, c.lane requests name = k →
        s.outcomes requests name ms = s.outcomes requests name ms' := by
    obtain ⟨halike, houtcomes⟩ := alike_afterTurns hs hs (.refl c requests k s) ms
    obtain ⟨halike', houtcomes'⟩ := alike_afterTurns hs hs (.refl c requests k s) ms'
    rw [h k] at halike houtcomes
    exact ⟨halike.trans halike'.symm,
      fun name hname => (houtcomes name hname).trans (houtcomes' name hname).symm⟩
  refine ⟨Cache.SharedStore.ext_slot? fun key => ?_, fun name => ?_, fun name => ?_⟩
  · exact (hlane (.inl key)).1.host.slot key rfl
  · exact (hlane (c.lane requests name)).1.tickets name rfl
  · exact (hlane (c.lane requests name)).2 name rfl

/-- Two turns of requests on different lanes are the same turns on every lane in either order. -/
theorem filter_lane_swap {m n : Turn} (h : c.lane requests m.name ≠ c.lane requests n.name)
    (k : Lane) :
    [m, n].filter (fun x => c.lane requests x.name = k) =
      [n, m].filter fun x => c.lane requests x.name = k := by
  by_cases hm : c.lane requests m.name = k
  · have hn : c.lane requests n.name ≠ k := fun hn => h (hm.trans hn.symm)
    simp [hm, hn]
  · simp [List.filter_cons, hm]

/-- Under one configuration, turns of two requests that it resolves to different slots commute, and
two runs agree that have the same turns on every lane in the same order. -/
theorem turns_independent (hs : s.Resolves c requests) :
    (∀ m n a b, c.concern? (requests m.name) = some a → c.concern? (requests n.name) = some b →
      a.entry.cacheId ≠ b.entry.cacheId → s.Agree requests [m, n] [n, m]) ∧
    ∀ ms ms', (∀ k, ms.filter (fun m => c.lane requests m.name = k) =
      ms'.filter fun m => c.lane requests m.name = k) → s.Agree requests ms ms' := by
  refine ⟨fun m n a b ha hb hne => ?_, fun ms ms' h => agree_of_lanes hs h⟩
  refine agree_of_lanes hs (filter_lane_swap fun hlane => hne ?_)
  simp only [Plugin.Config.lane, ha, hb, Sum.inl.injEq] at hlane
  exact Cache.Id.key_injective hlane

/-- Requests for two endpoints: whether their calls go on at the same time, or the second request
comes in when the first one has been answered, makes no difference. -/
theorem turns_independent_of_two_endpoints :
    let gs : List Endpoint.Registration :=
      [⟨"ISHARE", "domain.org", "/a"⟩, ⟨"OIC", "other.org", "/b"⟩]
    let c : Plugin.Config := ⟨{ Plugin.Settings.default with matchEndpoints := true },
      Endpoint.RouteTable.compile gs⟩
    let requests : String → InboundRequest := fun name =>
      if name = "1" then .listed [(":authority", "domain.org"), (":path", "/a")]
      else .listed [(":authority", "other.org"), (":path", "/b/orders")]
    let p : ProviderResponse := ⟨[("cache-control", "max-age=60")], some (Text.encode "[]")⟩
    let together : List Turn :=
      [⟨1, "1", none⟩, ⟨3, "2", none⟩, ⟨4, "2", some (.ok p)⟩, ⟨2, "1", some (.ok p)⟩]
    let apart : List Turn :=
      [⟨1, "1", none⟩, ⟨2, "1", some (.ok p)⟩, ⟨3, "2", none⟩, ⟨4, "2", some (.ok p)⟩]
    (start c 0).Agree requests together apart ∧
      ((start c 0).afterTurns requests apart).host.store.size = 2 := by
  intro gs c requests p together apart
  have hresolves : (start c 0).Resolves c requests := by
    refine ⟨rfl, fun name context hw => ?_⟩
    cases hw
  have hlanes : c.lane requests "1" ≠ c.lane requests "2" := by
    decide +kernel
  refine ⟨(turns_independent hresolves).2 together apart fun k => ?_, by decide +kernel⟩
  by_cases hone : c.lane requests "1" = k
  · have htwo : c.lane requests "2" ≠ k := fun htwo => hlanes (hone.trans htwo.symm)
    simp [together, apart, hone, htwo]
  · simp [together, apart, List.filter_cons, hone]

end Session
end EgressAuth
