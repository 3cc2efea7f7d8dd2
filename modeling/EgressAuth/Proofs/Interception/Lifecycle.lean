/-
  EgressAuth.Proofs.Interception.Lifecycle

  The life of a request along a run. The events that concern it
  (`Session.eventsAbout`) are those of its coming in and of the answers to it,
  and the laws on these two kinds of steps say what they are. So a request
  causes one call at most, and is resumed once for every answer that it waits
  for (`runLaw`), whatever other requests, answers and configurations come in
  between.
-/
import EgressAuth.Proofs.Interception.Laws

namespace EgressAuth

namespace Step

/-- The step is a request that comes in. -/
def isRequest : Step → Bool
  | request _ _ _ => true
  | _ => false

/-- The step is an answer to the request of that name. -/
def answers (id : String) : Step → Bool
  | answer other _ => other == id
  | _ => false

/-- The step is the request of that name, or an answer to it. -/
def concerns (id : String) : Step → Bool
  | request other _ _ => other == id
  | answer other _ => other == id
  | _ => false

end Step

namespace Session

/-- The events of a step that concern a request. -/
def stepAbout (s : Session) (id : String) (t : Step) : List HostEvent :=
  if t.concerns id then (s.step t).2.1 else []

/-- The events of some steps that concern a request, in order. -/
def eventsAbout (s : Session) (id : String) : List Step → List HostEvent
  | [] => []
  | t :: steps => s.stepAbout id t ++ (s.step t).1.eventsAbout id steps

/-- How often a request has been resumed, if there is one of that name. -/
def resumed? (s : Session) (id : String) : Option Nat :=
  (s.tickets.lookup id).map Ticket.resumed

/-- An answer resumes the request if it waits, and attempts no call. -/
theorem count_step_answer (s : Session) (id : String)
    (answer : Except HostError ProviderResponse) :
    (s.step (.answer id answer)).2.1.count .resume = (if (s.waiting? id).isSome then 1 else 0) ∧
      (s.step (.answer id answer)).2.1.count .dispatch = 0 := by
  cases hw : s.waiting? id with
  | none =>
      rw [step_answer_of_not_waiting hw]
      exact ⟨rfl, rfl⟩
  | some context =>
      obtain ⟨r, -, hevents, -⟩ := step_answer hw answer
      have hlaw := context.answerLaw s.host r answer
      obtain ⟨headers, writes, horder, -, hwrites⟩ := hlaw.order
      have hnone : .dispatch ∉ writes := by
        intro hmem
        have := hwrites _ hmem
        cases this
      rw [hevents]
      refine ⟨hlaw.resumes, ?_⟩
      rw [horder, List.count_append, HostEvent.count_additions (by simp),
        List.count_cons_of_ne (by simp), List.count_eq_zero.2 hnone]

/-- A step attempts a call only if it is a request, and then one at most. -/
theorem count_dispatch_step (s : Session) (t : Step) :
    (s.step t).2.1.count .dispatch ≤ if t.isRequest then 1 else 0 := by
  cases t with
  | request id snapshot r => exact ((s.configOf snapshot).requestLaw s.host r).dispatches
  | answer id answer => exact Nat.le_of_eq (s.count_step_answer id answer).2
  | put key data cas =>
      have hwrite := RequestContext.isWrite_attemptWrite s.host key data cas
      show [(s.host.attemptWrite key data cas).2].count .dispatch ≤ 0
      rw [Nat.le_zero, List.count_eq_zero, List.mem_singleton]
      intro heq
      rw [← heq] at hwrite
      cases hwrite
  | look id =>
      obtain ⟨report, hstep⟩ := s.step_look id
      rw [hstep]
      exact Nat.le_refl 0
  | configure raw => exact Nat.le_refl 0
  | setClock now => exact Nat.le_refl 0
  | failReads fault => exact Nat.le_refl 0
  | failWrites fault => exact Nat.le_refl 0
  | failDispatch fault => exact Nat.le_refl 0
  | snapshot name => exact Nat.le_refl 0

/-- A run attempts no more calls than requests come in. -/
theorem count_dispatch_events (s : Session) (steps : List Step) :
    (s.events steps).count .dispatch ≤ steps.countP Step.isRequest := by
  induction steps generalizing s with
  | nil => exact Nat.le_refl 0
  | cons t steps ih =>
      have hstep := s.count_dispatch_step t
      have hrest := ih (s.step t).1
      rw [events_cons, List.count_append, List.countP_cons]
      omega

/-- An answer adds to the count of its request the resumptions that it causes. -/
theorem resumed?_step_answer (s : Session) (id : String)
    (answer : Except HostError ProviderResponse) :
    (s.step (.answer id answer)).1.resumed? id =
      (s.resumed? id).map (· + (s.step (.answer id answer)).2.1.count .resume) := by
  cases hw : s.waiting? id with
  | none =>
      rw [step_answer_of_not_waiting hw]
      cases s.resumed? id <;> rfl
  | some context =>
      obtain ⟨ticket, hticket, hcontext⟩ := Option.bind_eq_some_iff.1 hw
      rw [step_answer_of_ticket hticket hcontext, resumed?, resumed?, hticket,
        List.lookup_cons_self]
      rfl

/-- A step that does not concern a request leaves its count as it is. -/
theorem resumed?_step_of_not_concerns {s : Session} {t : Step} {id : String}
    (ht : t.concerns id = false) : (s.step t).1.resumed? id = s.resumed? id := by
  cases t with
  | request other snapshot r =>
      have hne : (id == other) = false := BEq.comm.trans ht
      simp only [resumed?, step, takeIn, List.lookup_cons, hne]
  | answer other answer =>
      have hne : (id == other) = false := BEq.comm.trans ht
      cases hw : s.waiting? other with
      | none => rw [step_answer_of_not_waiting hw]
      | some context =>
          obtain ⟨ticket, hticket, hcontext⟩ := Option.bind_eq_some_iff.1 hw
          rw [step_answer_of_ticket hticket hcontext, resumed?, resumed?, List.lookup_cons, hne]
  | look other =>
      obtain ⟨report, hstep⟩ := s.step_look other
      rw [hstep]
  | _ => rfl

/-- What a step means for a request that has come in, unless another one takes over its name: no
call, a resumption if it is an answer that the request waits for, and its count says so. -/
theorem stepAbout_after_request {s : Session} {t : Step} {id : String}
    (ht : ∀ snapshot r, .request id snapshot r ≠ t) :
    (s.stepAbout id t).count .dispatch = 0 ∧
    (s.stepAbout id t).count .resume =
      (if (s.waiting? id).isSome then (if t.answers id then 1 else 0) else 0) ∧
    (s.step t).1.resumed? id = (s.resumed? id).map (· + (s.stepAbout id t).count .resume) := by
  by_cases hconcerns : t.concerns id = true
  · rw [stepAbout, if_pos hconcerns]
    cases t with
    | answer other answer =>
        have hid : other = id := by simpa [Step.concerns] using hconcerns
        subst hid
        obtain ⟨hresume, hdispatch⟩ := s.count_step_answer other answer
        refine ⟨hdispatch, ?_, s.resumed?_step_answer other answer⟩
        rw [hresume, Step.answers, if_pos (beq_self_eq_true other)]
    | request other snapshot r =>
        have hid : other = id := by simpa [Step.concerns] using hconcerns
        subst hid
        exact absurd rfl (ht snapshot r)
    | _ => cases hconcerns
  · have hno : t.concerns id = false := by simpa using hconcerns
    have hanswers : t.answers id = false := by
      cases t with
      | answer other answer => exact hno
      | _ => rfl
    rw [stepAbout, if_neg hconcerns, resumed?_step_of_not_concerns hno, hanswers]
    refine ⟨rfl, by simp, ?_⟩
    cases s.resumed? id <;> rfl

/-- As long as no other request takes over the name: no more calls are attempted for a request that
has come in, it is resumed once for each answer if it waits, and its count says so. -/
theorem eventsAbout_after_request (s : Session) {id : String} {steps : List Step}
    (hname : ∀ snapshot r, .request id snapshot r ∉ steps) :
    (s.eventsAbout id steps).count .dispatch = 0 ∧
    (s.eventsAbout id steps).count .resume =
      (if (s.waiting? id).isSome then steps.countP (Step.answers id) else 0) ∧
    (s.after steps).resumed? id =
      (s.resumed? id).map (· + (s.eventsAbout id steps).count .resume) := by
  induction steps generalizing s with
  | nil =>
      refine ⟨rfl, by simp [eventsAbout], ?_⟩
      rw [after_nil]
      cases s.resumed? id <;> rfl
  | cons t steps ih =>
      have ht : ∀ snapshot r, .request id snapshot r ≠ t :=
        fun snapshot r heq => hname snapshot r (heq ▸ List.mem_cons_self)
      obtain ⟨hdispatch, hresume, hcount⟩ := stepAbout_after_request (s := s) ht
      obtain ⟨hdispatch', hresume', hcount'⟩ := ih (s.step t).1 fun snapshot r hmem =>
        hname snapshot r (List.mem_cons_of_mem _ hmem)
      rw [waiting?_step_of_ne ht] at hresume'
      rw [eventsAbout, List.count_append, List.count_append]
      refine ⟨by omega, ?_, ?_⟩
      · rw [hresume, hresume', List.countP_cons]
        split
        · exact Nat.add_comm _ _
        · rfl
      · rw [after_cons, hcount', hcount, Option.map_map]
        congr 1
        funext n
        exact Nat.add_assoc _ _ _

/-- The law on the events that concern a request, from its coming in on and as long as no other
request takes over its name. -/
structure RunLaw (s : Session) (id : String) (snapshot : Option String) (r : InboundRequest)
    (since : List Step) : Prop where
  /-- The request causes one call at most. -/
  dispatches : (s.eventsAbout id (.request id snapshot r :: since)).count .dispatch ≤ 1
  /-- A request that waits is resumed once for every answer. -/
  resumes : ∀ callId call context, s.verdictOn snapshot r = .pause callId call context →
    (s.eventsAbout id (.request id snapshot r :: since)).count .resume =
      since.countP (Step.answers id)
  /-- A request that does not wait is never resumed. -/
  proceeds : s.verdictOn snapshot r = .proceed →
    (s.eventsAbout id (.request id snapshot r :: since)).count .resume = 0
  /-- The request has been resumed as often as the events say. -/
  counted : (s.after (.request id snapshot r :: since)).resumed? id =
    some ((s.eventsAbout id (.request id snapshot r :: since)).count .resume)

theorem runLaw (s : Session) {id : String} (snapshot : Option String) (r : InboundRequest)
    {since : List Step} (hname : ∀ later q, .request id later q ∉ since) :
    s.RunLaw id snapshot r since := by
  have hlaw := (s.configOf snapshot).requestLaw s.host r
  have hfirst : s.stepAbout id (.request id snapshot r) =
      ((s.configOf snapshot).onRequest s.host r).1.events := by
    rw [stepAbout, Step.concerns, if_pos (beq_self_eq_true id)]
    rfl
  have hnew : (s.step (.request id snapshot r)).1.resumed? id = some 0 := by
    simp only [resumed?, step, takeIn, List.lookup_cons_self, Option.map_some]
    exact congrArg some hlaw.resumes
  obtain ⟨hdispatch, hresume, hcount⟩ :=
    (s.step (.request id snapshot r)).1.eventsAbout_after_request hname
  rw [step_waiting?] at hresume
  simp only [if_true] at hresume
  refine ⟨?_, ?_, ?_, ?_⟩
  · rw [eventsAbout, List.count_append, hfirst, hdispatch]
    exact hlaw.dispatches
  · intro callId call context hv
    rw [eventsAbout, List.count_append, hfirst, hresume, hlaw.resumes, hv]
    exact Nat.zero_add _
  · intro hv
    rw [eventsAbout, List.count_append, hfirst, hresume, hlaw.resumes, hv]
    rfl
  · rw [after_cons, hcount, hnew, eventsAbout, List.count_append, hfirst, hlaw.resumes]
    rfl

/-- The life of a request. Whatever configuration, store, dispatcher and clock it meets, the law on
requests holds when it comes in, and the law on answers for whatever it waits for. So along any run
a request causes one call at most, a request that waits and is answered once is resumed once, and
no more calls are attempted than requests come in. -/
theorem lifecycle :
    (∀ (c : Plugin.Config) (h : Host) (r : InboundRequest), c.RequestLaw h r) ∧
    (∀ (context : RequestContext) (h : Host) (r : InboundRequest)
      (answer : Except HostError ProviderResponse), context.AnswerLaw h r answer) ∧
    (∀ (s : Session) (id : String) (snapshot : Option String) (r : InboundRequest)
      (since : List Step), (∀ later q, .request id later q ∉ since) →
      s.RunLaw id snapshot r since ∧
      (∀ callId call context, s.verdictOn snapshot r = .pause callId call context →
        since.countP (Step.answers id) = 1 →
        (s.eventsAbout id (.request id snapshot r :: since)).count .resume = 1)) ∧
    (∀ (s : Session) (steps : List Step),
      (s.events steps).count .dispatch ≤ steps.countP Step.isRequest) := by
  refine ⟨fun c h r => c.requestLaw h r, fun context h r answer => context.answerLaw h r answer,
    ?_, fun s steps => s.count_dispatch_events steps⟩
  intro s id snapshot r since hname
  have hlaw := s.runLaw snapshot r hname
  refine ⟨hlaw, fun callId call context hv hone => ?_⟩
  rw [hlaw.resumes callId call context hv, hone]

/-- A request that waits while another one comes in, and whose call fails. -/
theorem lifecycle_of_failed_call :
    let r := InboundRequest.listed [(":authority", "domain.org"), (":path", "/orders")]
    let s := start Plugin.Config.default 0
    let since : List Step := [.request "2" none r, .answer "1" (.error (.internalFailure "gone"))]
    (∀ later q, .request "1" later q ∉ since) ∧
      (∃ callId call context, s.verdictOn none r = .pause callId call context) ∧
      since.countP (Step.answers "1") = 1 ∧
      (s.eventsAbout "1" (.request "1" none r :: since)).count .resume = 1 ∧
      (s.after (.request "1" none r :: since)).resumed? "1" = some 1 := by
  intro r s since
  let context : RequestContext :=
    ⟨"domain.org", "/orders", Endpoint.Entry.catchAll "ISHARE" "domain.org" "/orders", none⟩
  have hname : ∀ later q, .request "1" later q ∉ since := by
    intro later q hmem
    simp [since] at hmem
  have hv : s.verdictOn none r =
      .pause 1 (Plugin.Config.default.providerCall r context) context := by
    decide +kernel
  have hone : since.countP (Step.answers "1") = 1 := by
    decide
  obtain ⟨-, -, hrun, -⟩ := lifecycle
  obtain ⟨hlaw, hresumes⟩ := hrun s "1" none r since hname
  have hcount := hresumes _ _ _ hv hone
  refine ⟨hname, ⟨_, _, _, hv⟩, hone, hcount, ?_⟩
  rw [hlaw.counted, hcount]

end Session
end EgressAuth
