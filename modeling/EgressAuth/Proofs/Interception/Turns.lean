/-
  EgressAuth.Proofs.Interception.Turns

  What one event of a request reads and changes. A request runs on a lane: the
  slot that it is resolved to, or its own name if it is of no concern. On a
  lane there are that slot and the tickets of the requests that run there.
  An event of a request acts in the same way in sessions that are alike on its
  lane, and leaves them alike (`turn_own`); every other lane stays as it is
  (`turn_other`).
-/
import EgressAuth.Proofs.Interception.Provenance

namespace EgressAuth

/-! ## Hosts that are alike on a lane -/

/-- Where requests run: on the slot with a key, or under a name of their own. -/
abbrev Lane := String ⊕ String

namespace Host

/-- Two hosts have the same faults, accept the same calls, and have the same slot of a lane. Their
clocks and the numbers of their calls may differ. -/
structure Alike (k : Lane) (a b : Host) : Prop where
  readFault : a.readFault = b.readFault
  writeFault : a.writeFault = b.writeFault
  accept : a.dispatcher.accept = b.dispatcher.accept
  slot : ∀ key, k = .inl key → a.store.slot? key = b.store.slot? key

variable {k : Lane} {a b d : Host}

theorem Alike.refl (k : Lane) (a : Host) : a.Alike k a := ⟨rfl, rfl, rfl, fun _ _ => rfl⟩

theorem Alike.symm (h : a.Alike k b) : b.Alike k a :=
  ⟨h.readFault.symm, h.writeFault.symm, h.accept.symm, fun key hk => (h.slot key hk).symm⟩

theorem Alike.trans (h : a.Alike k b) (h' : b.Alike k d) : a.Alike k d :=
  ⟨h.readFault.trans h'.readFault, h.writeFault.trans h'.writeFault, h.accept.trans h'.accept,
    fun key hk => (h.slot key hk).trans (h'.slot key hk)⟩

/-- The host at another time. -/
def atTime (h : Host) (now : Instant) : Host := { h with clock := now }

theorem Alike.atTime (h : a.Alike k b) (now : Instant) : (a.atTime now).Alike k (b.atTime now) :=
  ⟨h.readFault, h.writeFault, h.accept, h.slot⟩

theorem alike_atTime (k : Lane) (h : Host) (now : Instant) : h.Alike k (h.atTime now) :=
  ⟨rfl, rfl, rfl, fun _ _ => rfl⟩

theorem Alike.lookUp {id : Cache.Id} (h : a.Alike (.inl id.key) b) : a.lookUp id = b.lookUp id := by
  rw [Host.lookUp, Host.lookUp, h.readFault, Cache.SharedStore.readCache,
    Cache.SharedStore.readCache, h.slot id.key rfl]

theorem Alike.usable? {id : Cache.Id} (h : a.Alike (.inl id.key) b) (hclock : a.clock = b.clock) :
    a.usable? id = b.usable? id := by
  rw [Host.usable?, Host.usable?, h.lookUp, hclock]

end Host

/-- Whether a write succeeds, and what it leaves in its slot, depends on this slot alone. -/
theorem Cache.SharedStore.write_congr {s t : SharedStore} {key : String}
    (h : s.slot? key = t.slot? key) (data : Bytes) (cas : Option UInt32) :
    (∃ s' t', s.write key data cas = .ok s' ∧ t.write key data cas = .ok t' ∧
      s'.slot? key = t'.slot? key) ∨
    ∃ e, s.write key data cas = .error e ∧ t.write key data cas = .error e := by
  have hnext : s.nextVersion key = t.nextVersion key := by
    rw [nextVersion, nextVersion, h]
  cases hs : s.write key data cas with
  | error e =>
      refine Or.inr ⟨e, rfl, ?_⟩
      rw [write_eq_error_iff] at hs ⊢
      rwa [← h]
  | ok s' =>
      cases ht : t.write key data cas with
      | error e =>
          rw [write_eq_error_iff, ← h, ← write_eq_error_iff, hs] at ht
          cases ht
      | ok t' =>
          refine Or.inl ⟨s', t', rfl, rfl, ?_⟩
          rw [slot?_write_of_ok hs key, slot?_write_of_ok ht key, if_pos rfl, if_pos rfl, hnext]

namespace Host

variable {k : Lane} {a b : Host} {key : String}

/-- A write to the slot of a lane ends in the same way where hosts are alike on this lane. -/
theorem attemptWrite_own (h : a.Alike (.inl key) b) (data : Bytes) (cas : Option UInt32) :
    (a.attemptWrite key data cas).2 = (b.attemptWrite key data cas).2 ∧
      (a.attemptWrite key data cas).1.Alike (.inl key) (b.attemptWrite key data cas).1 := by
  unfold attemptWrite write
  rw [h.writeFault]
  cases b.writeFault with
  | some e => exact ⟨rfl, h⟩
  | none =>
      rcases Cache.SharedStore.write_congr (h.slot key rfl) data cas with
        ⟨s, t, hs, ht, hslot⟩ | ⟨e, hs, ht⟩
      · simp only [hs, ht, Except.map, true_and]
        refine ⟨h.readFault, rfl, h.accept, ?_⟩
        rintro _ ⟨⟩
        exact hslot
      · simp only [hs, ht, Except.map, true_and]
        exact h

/-- A write leaves the other lanes as they are. -/
theorem attemptWrite_other (h : Host) (hk : k ≠ .inl key) (data : Bytes) (cas : Option UInt32) :
    h.Alike k (h.attemptWrite key data cas).1 := by
  rcases h.attemptWrite_cases key data cas with ⟨store, -, hstore, e⟩ | ⟨err, -, e⟩
  · rw [e]
    refine ⟨rfl, rfl, rfl, ?_⟩
    rintro other rfl
    have hother : other ≠ key := fun heq => hk (heq ▸ rfl)
    rw [Cache.SharedStore.slot?_write_of_ok hstore, if_neg hother]
  · rw [e]
    exact Alike.refl k h

end Host

/-! ## Requests and answers -/

/-- The verdict without the number of the call. -/
def Verdict.unnumbered : Verdict → Verdict
  | .proceed => .proceed
  | .pause _ call context => .pause 0 call context

theorem Verdict.context?_unnumbered (v : Verdict) : v.unnumbered.context? = v.context? := by
  cases v <;> rfl

/-- The report without the number of a call. -/
def Report.unnumbered : Report → Report
  | .verdict v added resumed => .verdict v.unnumbered added resumed
  | other => other

namespace Plugin.Config

variable {k : Lane} {c : Config} {a b : Host} {r : InboundRequest}

/-- A request changes no lane. -/
theorem onRequest_other (k : Lane) (c : Config) (h : Host) (r : InboundRequest) :
    h.Alike k (c.onRequest h r).1.host := by
  rcases onRequest_cases c h r with
    ⟨-, e⟩ | ⟨concern, hc, ⟨headers, -, e⟩ | ⟨hu, ⟨err, -, e⟩ | ⟨d, haccepts, -⟩⟩⟩
  · rw [e]
    exact .refl k h
  · rw [e]
    exact .refl k h
  · rw [e]
    exact .refl k h
  · -- Only the number of the next call changes.
    rw [onRequest_of_not_usable hc hu]
    simp only [askProvider, Dispatcher.start, haccepts]
    exact ⟨rfl, rfl, rfl, fun _ _ => rfl⟩

/-- A request is treated in the same way by hosts that are alike on its lane. -/
theorem onRequest_own (h : a.Alike k b) (hclock : a.clock = b.clock)
    (hk : ∀ concern, c.concern? r = some concern → k = .inl concern.entry.cacheId.key) :
    (c.onRequest a r).1.events = (c.onRequest b r).1.events ∧
      (c.onRequest a r).1.request = (c.onRequest b r).1.request ∧
      (c.onRequest a r).2.unnumbered = (c.onRequest b r).2.unnumbered := by
  cases hc : c.concern? r with
  | none => simp only [onRequest_of_no_concern hc, and_self]
  | some concern =>
      rw [hk concern hc] at h
      have hu := h.usable? hclock
      cases hb : b.usable? concern.entry.cacheId with
      | some headers =>
          rw [onRequest_of_usable hc hb, onRequest_of_usable hc (hu.trans hb)]
          exact ⟨rfl, rfl, rfl⟩
      | none =>
          have hcontext : concern.context a = concern.context b := by
            rw [Concern.context, Concern.context, h.lookUp]
          rw [onRequest_of_not_usable hc hb, onRequest_of_not_usable hc (hu.trans hb), hcontext]
          simp only [askProvider, Dispatcher.start, h.accept]
          cases b.dispatcher.accept (c.providerCall r (concern.context b)) with
          | error e => exact ⟨rfl, rfl, rfl⟩
          | ok u => exact ⟨rfl, rfl, rfl⟩

end Plugin.Config

namespace RequestContext

variable {k : Lane} {context : RequestContext} {a b : Host}

/-- An answer is treated in the same way by hosts that are alike on the lane of its request. -/
theorem onAnswer_own (h : a.Alike (.inl context.entry.cacheId.key) b) (hclock : a.clock = b.clock)
    (r : InboundRequest) (answer : Except HostError ProviderResponse) :
    (context.onAnswer a r answer).events = (context.onAnswer b r answer).events ∧
      (context.onAnswer a r answer).request = (context.onAnswer b r answer).request ∧
      (context.onAnswer a r answer).host.Alike (.inl context.entry.cacheId.key)
        (context.onAnswer b r answer).host := by
  simp only [onAnswer_events, onAnswer_request, onAnswer_host, hclock, true_and]
  cases keptOf? b.clock answer with
  | none => exact ⟨rfl, h⟩
  | some e =>
      obtain ⟨hevent, hhost⟩ := Host.attemptWrite_own h e.encode context.cacheVersion
      simp only [hevent, true_and]
      exact hhost

/-- An answer leaves the lanes of other requests as they are. -/
theorem onAnswer_other (hk : k ≠ .inl context.entry.cacheId.key) (h : Host) (r : InboundRequest)
    (answer : Except HostError ProviderResponse) :
    h.Alike k (context.onAnswer h r answer).host := by
  rw [onAnswer_host]
  cases keptOf? h.clock answer with
  | none => exact .refl k h
  | some e => exact h.attemptWrite_other hk e.encode context.cacheVersion

end RequestContext

/-! ## Turns -/

/-- One event of a request at a time of its own: its headers come in, or its call ends. -/
structure Turn where
  now : Instant
  name : String
  /-- How the call ended; none while the headers come in. -/
  answer? : Option (Except HostError ProviderResponse)

/-- The step that a turn of one of some named requests takes. -/
def Turn.step (requests : String → InboundRequest) (m : Turn) : Step :=
  match m.answer? with
  | none => .request m.name none (requests m.name)
  | some answer => .answer m.name answer

/-- The lane of a request: the slot that it is resolved to, or its own name if it is of no
concern. -/
def Plugin.Config.lane (c : Plugin.Config) (requests : String → InboundRequest) (name : String) :
    Lane :=
  match c.concern? (requests name) with
  | some concern => .inl concern.entry.cacheId.key
  | none => .inr name

namespace Session

variable {c : Plugin.Config} {requests : String → InboundRequest} {k : Lane} {s t : Session}
  {m : Turn}

/-- Sets the clock to the time of a turn and takes its step. -/
def turn (s : Session) (requests : String → InboundRequest) (m : Turn) :
    Session × List HostEvent × Report :=
  (s.step (.setClock m.now)).1.step (m.step requests)

/-- A session with the configuration `c`, in which every request that waits does so for the slot
that `c` resolves it to. -/
structure Resolves (s : Session) (c : Plugin.Config) (requests : String → InboundRequest) :
    Prop where
  config : s.config = c
  waits : ∀ name context, s.waiting? name = some context →
    ∃ concern, c.concern? (requests name) = some concern ∧
      concern.entry.cacheId = context.entry.cacheId

theorem Resolves.lane_eq (hs : s.Resolves c requests) {name : String} {context : RequestContext}
    (hw : s.waiting? name = some context) :
    c.lane requests name = .inl context.entry.cacheId.key := by
  obtain ⟨concern, hc, hid⟩ := hs.waits name context hw
  simp only [Plugin.Config.lane, hc, hid]

/-- Every turn keeps the configuration, and lets requests wait for their own slots only. -/
theorem Resolves.turn (hs : s.Resolves c requests) (m : Turn) :
    (s.turn requests m).1.Resolves c requests := by
  constructor
  · unfold Session.turn Turn.step
    rw [step_config]
    cases m.answer? with
    | none => exact hs.config
    | some answer => exact hs.config
  · intro name context hw
    unfold Session.turn Turn.step at hw
    rw [step_waiting?] at hw
    cases hm : m.answer? with
    | some answer =>
        rw [hm] at hw
        exact hs.waits name context hw
    | none =>
        rw [hm] at hw
        simp only at hw
        by_cases hname : name = m.name
        · rw [if_pos hname] at hw
          obtain ⟨concern, hc, rfl⟩ := Plugin.Config.context_of_onRequest hw
          have hconfig : (s.step (.setClock m.now)).1.configOf none = c := hs.config
          rw [hconfig, ← hname] at hc
          exact ⟨concern, hc, rfl⟩
        · rw [if_neg hname] at hw
          exact hs.waits name context hw

/-- Two sessions are alike on a lane: their hosts are, and the tickets of the requests that run
there are the same. -/
structure Alike (c : Plugin.Config) (requests : String → InboundRequest) (k : Lane)
    (s t : Session) : Prop where
  host : s.host.Alike k t.host
  tickets : ∀ name, c.lane requests name = k → s.tickets.lookup name = t.tickets.lookup name

theorem Alike.refl (c : Plugin.Config) (requests : String → InboundRequest) (k : Lane)
    (s : Session) : Alike c requests k s s := ⟨.refl k s.host, fun _ _ => rfl⟩

theorem Alike.symm (h : Alike c requests k s t) : Alike c requests k t s :=
  ⟨h.host.symm, fun name hname => (h.tickets name hname).symm⟩

theorem Alike.trans {u : Session} (h : Alike c requests k s t) (h' : Alike c requests k t u) :
    Alike c requests k s u :=
  ⟨h.host.trans h'.host, fun name hname => (h.tickets name hname).trans (h'.tickets name hname)⟩

/-- Sessions that are alike on a lane stay so if one request is given the same new ticket. -/
theorem Alike.withTicket (h : Alike c requests k s t) {a b : Host} (hhost : a.Alike k b)
    (id : String) (ticket : Ticket) :
    Alike c requests k { s with host := a, tickets := (id, ticket) :: s.tickets }
      { t with host := b, tickets := (id, ticket) :: t.tickets } := by
  refine ⟨hhost, fun name hname => ?_⟩
  simp only [List.lookup_cons, h.tickets name hname]

/-- The ticket of a request on another lane does not matter. -/
theorem alike_withTicket {a : Host} (hhost : s.host.Alike k a) {id : String}
    (hid : c.lane requests id ≠ k) (ticket : Ticket) :
    Alike c requests k s { s with host := a, tickets := (id, ticket) :: s.tickets } := by
  refine ⟨hhost, fun name hname => ?_⟩
  have hne : (name == id) = false := by
    rw [beq_eq_false_iff_ne]
    rintro rfl
    exact hid hname
  simp only [List.lookup_cons, hne]

/-- The turn in which the headers of a request come in. -/
theorem turn_of_headers (hconfig : s.config = c) (requests : String → InboundRequest)
    (now : Instant) (name : String) :
    let out := c.onRequest (s.host.atTime now) (requests name)
    let added := HostEvent.added out.1.events
    let resumed := HostEvent.resumed out.1.events
    s.turn requests ⟨now, name, none⟩ =
      ({ s with host := out.1.host, tickets := (name, ⟨out.1.request, added, resumed,
          out.2.context?⟩) :: s.tickets }, out.1.events, .verdict out.2 added resumed) := by
  subst hconfig
  simp only [turn, Turn.step, step, takeIn, configOf, Option.bind_none, Option.getD_none,
    Host.atTime]
  cases (s.config.onRequest { s.host with clock := now } (requests name)).2 <;> rfl

/-- The turn in which the call for a request ends that waits. -/
theorem turn_of_answer {name : String} {ticket : Ticket} {context : RequestContext}
    (hticket : s.tickets.lookup name = some ticket) (hw : ticket.waiting = some context)
    (requests : String → InboundRequest) (now : Instant)
    (answer : Except HostError ProviderResponse) :
    let out := context.onAnswer (s.host.atTime now) ticket.request answer
    let added := ticket.added ++ HostEvent.added out.events
    let resumed := ticket.resumed + HostEvent.resumed out.events
    s.turn requests ⟨now, name, some answer⟩ =
      ({ s with host := out.host, tickets := (name, ⟨out.request, added, resumed, some context⟩) ::
          s.tickets }, out.events, .progress added resumed) :=
  step_answer_of_ticket (s := (s.step (.setClock now)).1) hticket hw answer

/-- An answer that no request waits for. -/
theorem turn_of_not_waiting {name : String} (hw : s.waiting? name = none)
    (requests : String → InboundRequest) (now : Instant)
    (answer : Except HostError ProviderResponse) :
    s.turn requests ⟨now, name, some answer⟩ =
      ({ s with host := s.host.atTime now }, [], .notWaiting) :=
  step_answer_of_not_waiting (s := (s.step (.setClock now)).1) hw answer

/-- In sessions that are alike on a lane, a turn of a request on this lane comes to the same, and
leaves the sessions alike. -/
theorem turn_own (hs : s.Resolves c requests) (ht : t.Resolves c requests)
    (h : Alike c requests k s t) (hm : c.lane requests m.name = k) :
    (s.turn requests m).2.1 = (t.turn requests m).2.1 ∧
      (s.turn requests m).2.2.unnumbered = (t.turn requests m).2.2.unnumbered ∧
      Alike c requests k (s.turn requests m).1 (t.turn requests m).1 := by
  obtain ⟨now, name, answer?⟩ := m
  have hhost : (s.host.atTime now).Alike k (t.host.atTime now) := h.host.atTime now
  cases answer? with
  | none =>
      have hk : ∀ concern, c.concern? (requests name) = some concern →
          k = .inl concern.entry.cacheId.key := by
        intro concern hc
        simp only [← hm, Plugin.Config.lane, hc]
      obtain ⟨hevents, hrequest, hverdict⟩ := Plugin.Config.onRequest_own hhost rfl hk
      have hcontext := congrArg Verdict.context? hverdict
      rw [Verdict.context?_unnumbered, Verdict.context?_unnumbered] at hcontext
      have hafter := ((Plugin.Config.onRequest_other k c _ (requests name)).symm.trans hhost).trans
        (Plugin.Config.onRequest_other k c _ (requests name))
      rw [turn_of_headers hs.config, turn_of_headers ht.config]
      simp only [Report.unnumbered, hevents, hrequest, hverdict, hcontext, true_and]
      exact h.withTicket hafter name _
  | some answer =>
      have htickets := h.tickets name hm
      have hwaiting : s.waiting? name = t.waiting? name := by
        rw [waiting?, waiting?, htickets]
      cases hw : s.waiting? name with
      | none =>
          rw [turn_of_not_waiting hw, turn_of_not_waiting (hwaiting.symm.trans hw)]
          exact ⟨rfl, rfl, hhost, h.tickets⟩
      | some context =>
          -- The request waits with the same context in both, for the slot of its lane.
          have hslot := hm.symm.trans (hs.lane_eq hw)
          unfold waiting? at hw
          obtain ⟨ticket, hticket, hcontext⟩ := Option.bind_eq_some_iff.1 hw
          subst hslot
          obtain ⟨hevents, hrequest, hafter⟩ :=
            RequestContext.onAnswer_own hhost rfl ticket.request answer
          rw [turn_of_answer hticket hcontext,
            turn_of_answer (htickets.symm.trans hticket) hcontext]
          simp only [hevents, hrequest, true_and]
          exact h.withTicket hafter name _

/-- A turn leaves the lanes of other requests as they are. -/
theorem turn_other (hs : s.Resolves c requests) (hm : c.lane requests m.name ≠ k) :
    Alike c requests k s (s.turn requests m).1 := by
  obtain ⟨now, name, answer?⟩ := m
  have htime : s.host.Alike k (s.host.atTime now) := Host.alike_atTime k s.host now
  cases answer? with
  | none =>
      rw [turn_of_headers hs.config]
      exact alike_withTicket (htime.trans (Plugin.Config.onRequest_other k c _ _)) hm _
  | some answer =>
      cases hw : s.waiting? name with
      | none =>
          rw [turn_of_not_waiting hw]
          exact ⟨htime, fun _ _ => rfl⟩
      | some context =>
          have hslot := hs.lane_eq hw
          unfold waiting? at hw
          obtain ⟨ticket, hticket, hcontext⟩ := Option.bind_eq_some_iff.1 hw
          rw [turn_of_answer hticket hcontext]
          refine alike_withTicket (htime.trans (RequestContext.onAnswer_other ?_ _ _ _)) hm _
          exact fun hk => hm (hslot.trans hk.symm)

end Session
end EgressAuth
