/-
  EgressAuth.Proofs.Interception.Laws

  What a request asks of its host, as laws on the events of one step.
  `RequestLaw` is about the processing of its headers: one read at most, one
  call at most, and when there is a call. `AnswerLaw` is about an answer: the
  additions, then one resumption, then one write at most. `requestLaw` and
  `answerLaw` say that both hold for any host and any outcome of the call.
-/
import EgressAuth.Proofs.Interception.Run

namespace EgressAuth

namespace HostEvent

/-- Whether the event is a read of the store. -/
def isRead : HostEvent → Bool
  | read _ => true
  | _ => false

/-- What does not count additions finds nothing among them. -/
theorem countP_additions {p : HostEvent → Bool} (hp : ∀ h, p (addHeader h) = false)
    (hs : List AuthHeader) : (hs.map addHeader).countP p = 0 := by
  rw [List.countP_eq_zero]
  intro e he
  obtain ⟨h, -, rfl⟩ := List.mem_map.1 he
  rw [hp h]
  exact Bool.false_ne_true

theorem count_additions {e : HostEvent} (he : ∀ h, addHeader h ≠ e) (hs : List AuthHeader) :
    (hs.map addHeader).count e = 0 :=
  countP_additions (p := (· == e)) (fun h => beq_eq_false_iff_ne.2 (he h)) hs

end HostEvent

/-! ## Requests that come in -/

namespace Plugin.Config

/-- The entry that governs a request: its domain and its path are there, and the entry is that of
the two. -/
def Governs (c : Config) (r : InboundRequest) (entry : Endpoint.Entry) : Prop :=
  ∃ domain path, r.domain? = some domain ∧ r.path? = some path ∧
    c.entryFor? domain path = some entry

theorem governs_iff {c : Config} {r : InboundRequest} {entry : Endpoint.Entry} :
    c.Governs r entry ↔ ∃ concern, c.concern? r = some concern ∧ concern.entry = entry := by
  unfold Governs concern?
  simp only [Option.bind_eq_bind, Option.bind_eq_some_iff, Option.pure_def, Option.some.injEq]
  constructor
  · rintro ⟨domain, path, hdomain, hpath, hentry⟩
    exact ⟨⟨domain, path, entry⟩, ⟨domain, hdomain, path, hpath, entry, hentry, rfl⟩, rfl⟩
  · rintro ⟨-, ⟨domain, hdomain, path, hpath, _, hentry, rfl⟩, rfl⟩
    exact ⟨domain, path, hdomain, hpath, hentry⟩

/-- The law on the processing of a request's headers. -/
structure RequestLaw (c : Config) (h : Host) (r : InboundRequest) : Prop where
  /-- The store is read once at most. -/
  reads : (c.onRequest h r).1.events.countP HostEvent.isRead ≤ 1
  /-- A call is attempted once at most. -/
  dispatches : (c.onRequest h r).1.events.count .dispatch ≤ 1
  /-- Nothing is written. -/
  writes : (c.onRequest h r).1.events.countP HostEvent.isWrite = 0
  /-- Nothing is resumed. -/
  resumes : (c.onRequest h r).1.events.count .resume = 0
  /-- A call is attempted exactly if an entry governs the request and the look-up of its slot gives
  no entry that reads back and expires later than now. -/
  asks : .dispatch ∈ (c.onRequest h r).1.events ↔
    ∃ entry, c.Governs r entry ∧ ∀ e, ¬h.Fresh entry.cacheId e
  /-- The request waits exactly if the attempted call is accepted. -/
  waits : (∃ id call context, (c.onRequest h r).2 = .pause id call context) ↔
    .dispatch ∈ (c.onRequest h r).1.events ∧ ∃ concern, c.concern? r = some concern ∧
      h.dispatcher.accept (c.providerCall r (concern.context h)) = .ok ()
  /-- Headers are added only where no call is attempted, as they are in such an entry. -/
  serves : ∀ header, .addHeader header ∈ (c.onRequest h r).1.events →
    .dispatch ∉ (c.onRequest h r).1.events ∧
      ∃ entry e, c.Governs r entry ∧ h.Fresh entry.cacheId e ∧ header ∈ e.headers

/-- The events of a request: none, a look-up that serves it, or a look-up and a call. -/
theorem onRequest_events (c : Config) (h : Host) (r : InboundRequest) :
    (c.onRequest h r).1.events = match c.concern? r with
      | none => []
      | some concern => .read concern.entry.cacheId.key ::
        match h.usable? concern.entry.cacheId with
        | some headers => headers.map .addHeader
        | none => [.dispatch] := by
  rcases onRequest_cases c h r with
    ⟨hc, e⟩ | ⟨concern, hc, ⟨headers, hu, e⟩ | ⟨hu, ⟨err, -, e⟩ | ⟨d, -, e⟩⟩⟩
  · rw [e, hc]
  · rw [e, hc]
    simp only [hu]
  · rw [e, hc]
    simp only [hu]
  · rw [e, hc]
    simp only [hu]

/-- A kind of event that the look-up, additions and the call do not belong to does not occur. -/
theorem countP_onRequest_eq_zero (c : Config) (h : Host) (r : InboundRequest)
    {p : HostEvent → Bool} (hread : ∀ key, p (.read key) = false)
    (hadd : ∀ header, p (.addHeader header) = false) (hdispatch : p .dispatch = false) :
    (c.onRequest h r).1.events.countP p = 0 := by
  rw [onRequest_events]
  cases c.concern? r with
  | none => rfl
  | some concern =>
      cases hu : h.usable? concern.entry.cacheId with
      | some headers =>
          simp only [hu]
          rw [List.countP_cons_of_neg (by simp [hread]), HostEvent.countP_additions hadd]
      | none => simp [hu, hread, hdispatch]

/-- A kind of event that additions do not belong to occurs once at most, unless both the look-up
and the call belong to it. -/
theorem countP_onRequest_le_one (c : Config) (h : Host) (r : InboundRequest)
    {p : HostEvent → Bool} (hadd : ∀ header, p (.addHeader header) = false)
    (hone : ∀ key, p (.read key) = false ∨ p .dispatch = false) :
    (c.onRequest h r).1.events.countP p ≤ 1 := by
  rw [onRequest_events]
  cases c.concern? r with
  | none => exact Nat.zero_le 1
  | some concern =>
      cases hu : h.usable? concern.entry.cacheId with
      | some headers =>
          simp only [hu]
          rw [List.countP_cons, HostEvent.countP_additions hadd]
          split <;> omega
      | none =>
          simp only [hu, List.countP_cons, List.countP_nil]
          rcases hone concern.entry.cacheId.key with hno | hno
          · simp only [hno, Bool.false_eq_true, if_false]
            split <;> omega
          · simp only [hno, Bool.false_eq_true, if_false]
            split <;> omega

theorem dispatch_mem_onRequest_iff {c : Config} {h : Host} {r : InboundRequest} :
    .dispatch ∈ (c.onRequest h r).1.events ↔
      ∃ concern, c.concern? r = some concern ∧ h.usable? concern.entry.cacheId = none := by
  rw [onRequest_events]
  cases c.concern? r with
  | none => simp
  | some concern =>
      cases hu : h.usable? concern.entry.cacheId with
      | some headers => simp [hu]
      | none => simp [hu]

theorem addHeader_mem_onRequest_iff {c : Config} {h : Host} {r : InboundRequest}
    {header : AuthHeader} :
    .addHeader header ∈ (c.onRequest h r).1.events ↔
      ∃ concern headers, c.concern? r = some concern ∧
        h.usable? concern.entry.cacheId = some headers ∧ header ∈ headers := by
  rw [onRequest_events]
  cases c.concern? r with
  | none => simp
  | some concern =>
      cases hu : h.usable? concern.entry.cacheId with
      | some headers => simp [hu]
      | none => simp [hu]

/-- A request waits exactly if the cache has nothing for it and the call on its behalf is
accepted. -/
theorem pause_onRequest_iff {c : Config} {h : Host} {r : InboundRequest} :
    (∃ id call context, (c.onRequest h r).2 = .pause id call context) ↔
      ∃ concern, c.concern? r = some concern ∧ h.usable? concern.entry.cacheId = none ∧
        h.dispatcher.accept (c.providerCall r (concern.context h)) = .ok () := by
  rcases onRequest_cases c h r with
    ⟨hc, e⟩ | ⟨concern, hc, ⟨headers, hu, e⟩ | ⟨hu, ⟨err, ha, e⟩ | ⟨d, ha, e⟩⟩⟩
  · simp [e, hc]
  · simp [e, hc, hu]
  · simp [e, hc, ha]
  · simp [e, hc, hu, ha]

theorem requestLaw (c : Config) (h : Host) (r : InboundRequest) : c.RequestLaw h r where
  reads := countP_onRequest_le_one c h r (fun _ => rfl) fun _ => Or.inr rfl
  dispatches := countP_onRequest_le_one c h r (fun _ => rfl) fun _ => Or.inl rfl
  writes := countP_onRequest_eq_zero c h r (fun _ => rfl) (fun _ => rfl) rfl
  resumes := countP_onRequest_eq_zero c h r (fun _ => rfl) (fun _ => rfl) rfl
  asks := by
    rw [dispatch_mem_onRequest_iff]
    constructor
    · rintro ⟨concern, hc, hu⟩
      exact ⟨concern.entry, governs_iff.2 ⟨concern, hc, rfl⟩, Host.usable?_eq_none_iff.1 hu⟩
    · rintro ⟨entry, hgoverns, hfresh⟩
      obtain ⟨concern, hc, rfl⟩ := governs_iff.1 hgoverns
      exact ⟨concern, hc, Host.usable?_eq_none_iff.2 hfresh⟩
  waits := by
    rw [pause_onRequest_iff, dispatch_mem_onRequest_iff]
    constructor
    · rintro ⟨concern, hc, hu, ha⟩
      exact ⟨⟨concern, hc, hu⟩, concern, hc, ha⟩
    · rintro ⟨⟨concern, hc, hu⟩, other, hother, ha⟩
      rw [hc] at hother
      cases hother
      exact ⟨concern, hc, hu, ha⟩
  serves := by
    intro header hmem
    obtain ⟨concern, headers, hc, hu, hheader⟩ := addHeader_mem_onRequest_iff.1 hmem
    obtain ⟨e, hfresh, rfl⟩ := Host.usable?_eq_some_iff.1 hu
    refine ⟨fun hdispatch => ?_, concern.entry, e, governs_iff.2 ⟨concern, hc, rfl⟩, hfresh,
      hheader⟩
    obtain ⟨other, hother, hnone⟩ := dispatch_mem_onRequest_iff.1 hdispatch
    rw [hc] at hother
    cases hother
    rw [hu] at hnone
    cases hnone

end Plugin.Config

/-! ## Answers -/

namespace RequestContext

/-- The law on an answer to a request that waits. -/
structure AnswerLaw (context : RequestContext) (h : Host) (r : InboundRequest)
    (answer : Except HostError ProviderResponse) : Prop where
  /-- The request is resumed once. -/
  resumes : (context.onAnswer h r answer).events.count .resume = 1
  /-- Additions come before that, and behind it at most one attempt to write. -/
  order : ∃ (headers : List AuthHeader) (writes : List HostEvent),
    (context.onAnswer h r answer).events = headers.map .addHeader ++ .resume :: writes ∧
      writes.length ≤ 1 ∧ ∀ e ∈ writes, e.isWrite = true
  /-- If the call failed, or its answer has no body that reads back, the request is just resumed. -/
  idle : (∀ p body, answer = .ok p → p.body = some body → AuthHeader.decodeList? body = none) →
    (context.onAnswer h r answer).events = [.resume] ∧
      (context.onAnswer h r answer).request = r ∧ (context.onAnswer h r answer).host = h

theorem isWrite_attemptWrite (h : Host) (key : String) (data : Bytes) (cas : Option UInt32) :
    (h.attemptWrite key data cas).2.isWrite = true := by
  rcases h.attemptWrite_cases key data cas with ⟨_, -, -, e⟩ | ⟨_, -, e⟩
  · rw [e]
    rfl
  · rw [e]
    rfl

/-- An answer from which nothing is read changes nothing. -/
theorem onAnswer_of_not_provided {context : RequestContext} {h : Host} {r : InboundRequest}
    {answer : Except HostError ProviderResponse} (hnone : providedHeaders? answer = none) :
    context.onAnswer h r answer = ⟨h, r, [.resume]⟩ := by
  cases answer with
  | error e => rfl
  | ok p =>
      have hheaders : p.authHeaders? = none := hnone
      simp only [onAnswer, hheaders]

theorem answerLaw (context : RequestContext) (h : Host) (r : InboundRequest)
    (answer : Except HostError ProviderResponse) : context.AnswerLaw h r answer := by
  have hevents := onAnswer_events context h r answer
  obtain ⟨writes, hwrites, hlength, hkind⟩ : ∃ writes, (context.onAnswer h r answer).events =
      ((providedHeaders? answer).getD []).map .addHeader ++ .resume :: writes ∧
        writes.length ≤ 1 ∧ ∀ e ∈ writes, e.isWrite = true := by
    rw [hevents]
    cases keptOf? h.clock answer with
    | none => exact ⟨[], rfl, Nat.zero_le 1, by simp⟩
    | some e =>
        refine ⟨_, rfl, Nat.le_refl 1, ?_⟩
        intro event hevent
        rw [List.mem_singleton.1 hevent]
        exact isWrite_attemptWrite h _ _ _
  refine ⟨?resumes, ⟨_, writes, hwrites, hlength, hkind⟩, ?idle⟩
  case resumes =>
    have hnone : .resume ∉ writes := by
      intro hmem
      have := hkind _ hmem
      cases this
    rw [hwrites, List.count_append, HostEvent.count_additions (by simp), List.count_cons_self,
      List.count_eq_zero.2 hnone]
  case idle =>
    intro hidle
    have hnone : providedHeaders? answer = none := by
      cases answer with
      | error e => rfl
      | ok p =>
          show p.body.bind AuthHeader.decodeList? = none
          rw [Option.bind_eq_none_iff]
          exact fun body hbody => hidle p body rfl hbody
    rw [onAnswer_of_not_provided hnone]
    exact ⟨rfl, rfl, rfl⟩

end RequestContext

end EgressAuth
