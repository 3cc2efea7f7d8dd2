/-
  EgressAuth.Interception.Filter

  The filter itself. A request is matched with an endpoint. If the cache has
  unexpired headers for it they are added and the request goes on; otherwise
  the provider is asked and the request waits. When the answer comes its
  headers are added, the request goes on, and then the headers are cached if
  the answer allows it. Whatever fails, the request goes on without headers.
-/
import EgressAuth.Cache.Control
import EgressAuth.Interception.Host
import EgressAuth.Plugin.Config

namespace EgressAuth

/-! ## What a request asks for -/

/-- The host that a request is meant for: the host part of its authority, or what stands before
the first colon if that is no authority. -/
def hostOf (authority : String) : String :=
  let cs := authority.toList
  if Http.Authority.isAuthority cs then String.ofList (Http.Authority.host cs)
  else String.ofList (Text.cut ':' cs).1

/-- A path without query and fragment. -/
def barePath (path : String) : String :=
  String.ofList (path.toList.takeWhile fun c => c != '?' && c != '#')

/-- A text that is not empty. -/
def nonEmpty? (s : String) : Option String := if s.isEmpty then none else some s

namespace InboundRequest

/-- The domain of a request. -/
def domain? (r : InboundRequest) : Option String :=
  (r.header? Http.authorityName).bind fun a => nonEmpty? (hostOf a)

/-- The path of a request. -/
def path? (r : InboundRequest) : Option String :=
  (r.header? Http.pathName).bind fun p => nonEmpty? (barePath p)

end InboundRequest

/-- Domain, path and governing entry of a request that the filter is concerned with. -/
structure Concern where
  domain : String
  path : String
  entry : Endpoint.Entry
  deriving DecidableEq, Repr

namespace Plugin.Config

/-- The concern of the filter with a request, if it has one. -/
def concern? (c : Config) (r : InboundRequest) : Option Concern := do
  let domain ← r.domain?
  let path ← r.path?
  let entry ← c.entryFor? domain path
  return ⟨domain, path, entry⟩

/-- The call that asks the provider on behalf of a request. -/
def providerCall (c : Config) (r : InboundRequest) (context : RequestContext) : ProviderCall where
  cluster := c.settings.providerName
  headers := context.providerHeaders r.headers
  body := none
  timeout := c.settings.timeout

end Plugin.Config

/-! ## Requests -/

/-- What becomes of a request whose headers have been seen. -/
inductive Verdict where
  | proceed
  | pause (callId : UInt32) (call : ProviderCall) (context : RequestContext)
  deriving DecidableEq, Repr

/-- The outcome of a step: the host after it, the request after it, and what was asked of the
host. -/
structure Outcome where
  host : Host
  request : InboundRequest
  events : List HostEvent

/-- The headers of a slot that may be used at a time. -/
def Cache.Slot.usable? (slot : Cache.Slot) (now : Instant) : Option (List AuthHeader) :=
  ((Cache.Entry.decode? slot.data).filter fun e => e.validAt now).map Cache.Entry.headers

namespace Plugin.Config

/-- Asks the provider on behalf of a request. -/
def askProvider (c : Config) (h : Host) (r : InboundRequest) (context : RequestContext)
    (before : List HostEvent) : Outcome × Verdict :=
  let call := c.providerCall r context
  match h.dispatcher.start call with
  | .ok (id, d) => (⟨{ h with dispatcher := d }, r, before ++ [.dispatch]⟩, .pause id call context)
  | .error _ => (⟨h, r, before ++ [.dispatch]⟩, .proceed)

/-- Processes the headers of a request. -/
def onRequest (c : Config) (h : Host) (r : InboundRequest) : Outcome × Verdict :=
  match c.concern? r with
  | none => (⟨h, r, []⟩, .proceed)
  | some concern =>
    let id := concern.entry.cacheId
    -- The slot is read once: its headers decide now, its version when the answer is written.
    let slot := h.lookUp id
    match slot.bind fun s => s.usable? h.clock with
    | some headers =>
      (⟨h, r.addAll headers, .read id.key :: headers.map .addHeader⟩, .proceed)
    | none =>
      c.askProvider h r ⟨concern.domain, concern.path, concern.entry, slot.map Cache.Slot.version⟩
        [.read id.key]

end Plugin.Config

/-! ## Answers -/

/-- The expiration that the first `cache-control` header of an answer allows. -/
def ProviderResponse.expiry? (p : ProviderResponse) (now : Instant) : Option Instant :=
  (firstValue? p.headers "cache-control").bind fun v => (Cache.Control.parse v now).expiry?

/-- The headers that an answer provides. -/
def ProviderResponse.authHeaders? (p : ProviderResponse) : Option (List AuthHeader) :=
  p.body.bind AuthHeader.decodeList?

namespace RequestContext

/-- Caches the headers of an answer if it allows that. -/
def cacheHeaders (context : RequestContext) (h : Host) (response : ProviderResponse)
    (headers : List AuthHeader) : Host × List HostEvent :=
  match response.expiry? h.clock with
  | none => (h, [])
  | some expiration =>
    let (h, event) := h.attemptWrite context.entry.cacheId.key
      (Cache.Entry.encode ⟨expiration, headers⟩) context.cacheVersion
    (h, [event])

/-- Processes the outcome of the call that a request waits for. -/
def onAnswer (context : RequestContext) (h : Host) (r : InboundRequest)
    (answer : Except HostError ProviderResponse) : Outcome :=
  match answer with
  | .error _ => ⟨h, r, [.resume]⟩
  | .ok response => match response.authHeaders? with
    | none => ⟨h, r, [.resume]⟩
    | some headers =>
      let (h, written) := context.cacheHeaders h response headers
      ⟨h, r.addAll headers, headers.map .addHeader ++ .resume :: written⟩

end RequestContext
end EgressAuth
