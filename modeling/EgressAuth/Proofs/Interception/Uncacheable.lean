/-
  EgressAuth.Proofs.Interception.Uncacheable

  Answers that forbid keeping their headers. An answer may have several
  `cache-control` lines, of which only the first one is looked at: if it
  forbids keeping, the host is left as it is, and no later line changes what
  becomes of the answer (`onAnswer_of_first_cacheControl`). So a prohibition in
  a later line is not obeyed (`not_unchanged_of_forbidding_line`).
-/
import EgressAuth.Proofs.Cache.Control
import EgressAuth.Proofs.Interception.Run

namespace EgressAuth

variable {before after other : List (String × String)} {name value : String} {body : Option Bytes}

/-- The first line of a name gives its value, whatever comes behind it. -/
theorem firstValue?_append {key : String} (hname : Text.sameLetters name key = true)
    (hbefore : ∀ line ∈ before, Text.sameLetters line.1 key = false) :
    firstValue? (before ++ (name, value) :: after) key = some value := by
  have hnone : before.find? (fun line => Text.sameLetters line.1 key) = none := by
    rw [List.find?_eq_none]
    intro line hline
    rw [hbefore line hline]
    exact Bool.false_ne_true
  have hfound : ((name, value) :: after).find? (fun line => Text.sameLetters line.1 key) =
      some (name, value) := List.find?_cons_of_pos hname
  rw [firstValue?, List.find?_append, hnone, Option.none_or, hfound]
  rfl

namespace RequestContext

/-- What becomes of an answer depends on its body and its first `cache-control` value alone. -/
theorem onAnswer_congr (context : RequestContext) (h : Host) (r : InboundRequest)
    {p q : ProviderResponse} (hbody : p.body = q.body)
    (hvalue : firstValue? p.headers "cache-control" = firstValue? q.headers "cache-control") :
    context.onAnswer h r (.ok p) = context.onAnswer h r (.ok q) := by
  have hheaders : p.authHeaders? = q.authHeaders? := by
    rw [ProviderResponse.authHeaders?, hbody]
    rfl
  have htime : p.expiry? h.clock = q.expiry? h.clock := by
    rw [ProviderResponse.expiry?, hvalue]
    rfl
  simp only [onAnswer, cacheHeaders, hheaders, htime]

/-- A write is attempted exactly if the answer allows keeping something. -/
theorem writes_onAnswer_iff (context : RequestContext) (h : Host) (r : InboundRequest)
    (answer : Except HostError ProviderResponse) :
    (∃ e ∈ (context.onAnswer h r answer).events, e.isWrite = true) ↔
      ∃ entry, keptOf? h.clock answer = some entry := by
  rw [onAnswer_events]
  cases keptOf? h.clock answer with
  | none => simp [HostEvent.isWrite]
  | some entry =>
      -- The last event is the write, whether it succeeds or not.
      refine iff_of_true
        ⟨_, List.mem_append_right _ (List.mem_cons_of_mem _ List.mem_cons_self), ?_⟩ ⟨entry, rfl⟩
      rcases h.attemptWrite_cases context.entry.cacheId.key entry.encode context.cacheVersion with
        ⟨store, -, -, hwrite⟩ | ⟨err, -, hwrite⟩
      · rw [hwrite]
        rfl
      · rw [hwrite]
        rfl

/-- Of the `cache-control` lines of an answer the first one decides, for every context, host and
body. If it forbids keeping, the host is left as it is. A write is attempted exactly if the body
lists headers and this line gives them an expiration. Whatever lines come behind it, the outcome is
the same. -/
theorem onAnswer_of_first_cacheControl (context : RequestContext) (h : Host) (r : InboundRequest)
    (hname : Text.sameLetters name "cache-control" = true)
    (hbefore : ∀ line ∈ before, Text.sameLetters line.1 "cache-control" = false) :
    let outcome := fun rest => context.onAnswer h r (.ok ⟨before ++ (name, value) :: rest, body⟩)
    (Cache.Control.Forbids value → (outcome after).host = h) ∧
    ((∃ e ∈ (outcome after).events, e.isWrite = true) ↔
      (∃ headers, body.bind AuthHeader.decodeList? = some headers) ∧
        ∃ time, Cache.Control.parse value h.clock = .expiresAt time) ∧
    outcome other = outcome after := by
  intro outcome
  have hfirst : firstValue? (before ++ (name, value) :: after) "cache-control" = some value :=
    firstValue?_append hname hbefore
  refine ⟨fun hforbids => ?_, ?_, ?_⟩
  · have hkept : keptOf? h.clock (.ok ⟨before ++ (name, value) :: after, body⟩) = none := by
      rw [Option.eq_none_iff_forall_ne_some]
      intro entry hentry
      -- Without an expiration nothing is kept, even if the body lists headers.
      obtain ⟨-, htime⟩ := ProviderResponse.kept?_eq_some_iff.1 hentry
      obtain ⟨other, hother, hparse⟩ := ProviderResponse.expiry?_eq_some_iff.1 htime
      rw [hfirst] at hother
      cases hother
      rw [Cache.Control.parse_of_forbids hforbids] at hparse
      cases hparse
    show (context.onAnswer h r _).host = h
    rw [onAnswer_host, hkept]
  · rw [writes_onAnswer_iff]
    constructor
    · rintro ⟨entry, hentry⟩
      obtain ⟨hheaders, htime⟩ := ProviderResponse.kept?_eq_some_iff.1 hentry
      obtain ⟨other, hother, hparse⟩ := ProviderResponse.expiry?_eq_some_iff.1 htime
      rw [hfirst] at hother
      cases hother
      exact ⟨⟨entry.headers, hheaders⟩, entry.expiration, hparse⟩
    · rintro ⟨⟨headers, hheaders⟩, time, hparse⟩
      have htime : ProviderResponse.expiry? ⟨before ++ (name, value) :: after, body⟩ h.clock =
          some time := ProviderResponse.expiry?_eq_some_iff.2 ⟨value, hfirst, hparse⟩
      exact ⟨⟨time, headers⟩, ProviderResponse.kept?_eq_some_iff.2 ⟨hheaders, htime⟩⟩
  · refine onAnswer_congr context h r rfl ?_
    rw [firstValue?_append hname hbefore, firstValue?_append hname hbefore]

/-- An answer whose first line forbids keeping, while its second line states an age. -/
theorem onAnswer_of_first_cacheControl_no_store :
    let context : RequestContext :=
      ⟨"domain.org", "/orders", Endpoint.Entry.catchAll "ISHARE" "domain.org" "/orders", none⟩
    let h := (Session.start Plugin.Config.default 0).host
    let p : ProviderResponse :=
      ⟨[(":status", "200"), ("Cache-Control", "public, No-Store"), ("cache-control", "max-age=60")],
        some (Text.encode "[]")⟩
    Text.sameLetters "Cache-Control" "cache-control" = true ∧
      Cache.Control.Forbids "public, No-Store" ∧
      (context.onAnswer h (.listed []) (.ok p)).host = h := by
  intro context h p
  have hname : Text.sameLetters "Cache-Control" "cache-control" = true := by
    decide
  have hbefore : ∀ line ∈ [(":status", "200")],
      Text.sameLetters line.1 "cache-control" = false := by
    decide
  have hforbids : Cache.Control.Forbids "public, No-Store" := by
    rw [Cache.Control.forbids_iff_any]
    decide
  obtain ⟨hkeeps, -⟩ := @onAnswer_of_first_cacheControl [(":status", "200")]
    [("cache-control", "max-age=60")] [] "Cache-Control" "public, No-Store"
    (some (Text.encode "[]")) context h (.listed []) hname hbefore
  exact ⟨hname, hforbids, hkeeps hforbids⟩

/-- A prohibition in a second line is not obeyed: the answer is kept for the age that the first
line states. -/
theorem not_unchanged_of_forbidding_line :
    ¬∀ (context : RequestContext) (h : Host) (r : InboundRequest) (p : ProviderResponse)
      (line : String × String),
      line ∈ p.headers → Text.sameLetters line.1 "cache-control" = true →
      Cache.Control.Forbids line.2 →
      (context.onAnswer h r (.ok p)).host.store = h.store := by
  intro hall
  let context : RequestContext :=
    ⟨"domain.org", "/orders", Endpoint.Entry.catchAll "ISHARE" "domain.org" "/orders", none⟩
  let h := (Session.start Plugin.Config.default 0).host
  let p : ProviderResponse :=
    ⟨[("Cache-Control", "max-age=60"), ("cache-control", "no-store")], some (Text.encode "[]")⟩
  have hforbids : Cache.Control.Forbids "no-store" := by
    rw [Cache.Control.forbids_iff_any]
    decide
  have hstore := hall context h (.listed []) p ("cache-control", "no-store") (by simp [p])
    (by decide) hforbids
  have hwritten :
      ((context.onAnswer h (.listed []) (.ok p)).host.store.slot? "0").isSome = true := by
    decide +kernel
  rw [hstore] at hwritten
  cases hwritten

end RequestContext
end EgressAuth
