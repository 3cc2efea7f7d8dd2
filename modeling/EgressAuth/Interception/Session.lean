/-
  EgressAuth.Interception.Session

  Runs of one filter. A run is a list of steps taken in any order: requests
  coming in, answers coming back, new configurations, and changes of the
  clock, the store and the health of the host. A request keeps the
  configuration that was current when it came in, or that of a snapshot taken
  earlier. `Session.step` is one step, `Session.run` any number of them.
-/
import EgressAuth.Interception.Filter

namespace EgressAuth

/-- A request and what has become of it. -/
structure Ticket where
  request : InboundRequest
  added : List AuthHeader
  resumed : Nat
  /-- What the request waits with, if it had to wait. -/
  waiting : Option RequestContext

/-- A filter, its host, the snapshots taken and the requests that came in, latest first. -/
structure Session where
  config : Plugin.Config
  host : Host
  snapshots : List (String × Plugin.Config) := []
  tickets : List (String × Ticket) := []

/-- What can happen to a filter and its host. -/
inductive Step where
  | configure (raw : Option Bytes)
  | setClock (now : Instant)
  | failReads (fault : Option HostError)
  | failWrites (fault : Option HostError)
  | failDispatch (fault : Option HostError)
  | put (key : String) (data : Bytes) (cas : Option UInt32)
  | snapshot (name : String)
  | request (id : String) (snapshot : Option String) (request : InboundRequest)
  | answer (id : String) (outcome : Except HostError ProviderResponse)
  | look (id : String)

/-- What there is to say about a step, besides the events it caused. -/
inductive Report where
  | done
  | settings (s : Plugin.Settings)
  | written (landed : Bool)
  | verdict (v : Verdict) (added : List AuthHeader) (resumed : Nat)
  | progress (added : List AuthHeader) (resumed : Nat)
  | headers (hs : List (String × String))
  | notWaiting
  | unknownRequest
  deriving DecidableEq, Repr

/-- The headers that events added. -/
def HostEvent.added (events : List HostEvent) : List AuthHeader :=
  events.filterMap fun
    | addHeader h => some h
    | _ => none

def HostEvent.resumed (events : List HostEvent) : Nat := events.count .resume

/-- A dispatcher that accepts every call, or none if it has a fault. -/
def Dispatcher.withFault (nextCall : UInt32) (fault : Option HostError) : Dispatcher where
  accept _ := match fault with
    | none => .ok ()
    | some e => .error e
  nextCall := nextCall

namespace Session

/-- A session with an empty store and a healthy host. -/
def start (config : Plugin.Config) (now : Instant) : Session where
  config := config
  host :=
    { store := Cache.SharedStore.empty, clock := now, dispatcher := Dispatcher.withFault 1 none }

/-- The configuration of a snapshot, or the current one. -/
def configOf (s : Session) (snapshot : Option String) : Plugin.Config :=
  (snapshot.bind fun name => s.snapshots.lookup name).getD s.config

/-- Takes in a request. -/
def takeIn (s : Session) (id : String) (config : Plugin.Config) (r : InboundRequest) :
    Session × List HostEvent × Report :=
  let (out, verdict) := config.onRequest s.host r
  let ticket : Ticket :=
    { request := out.request
      added := HostEvent.added out.events
      resumed := HostEvent.resumed out.events
      waiting := match verdict with
        | .proceed => none
        | .pause _ _ context => some context }
  ({ s with host := out.host, tickets := (id, ticket) :: s.tickets }, out.events,
    .verdict verdict ticket.added ticket.resumed)

/-- Hands an answer to the request that waits for it. -/
def handAnswer (s : Session) (id : String) (answer : Except HostError ProviderResponse) :
    Session × List HostEvent × Report :=
  match s.tickets.lookup id with
  | none => (s, [], .notWaiting)
  | some ticket => match ticket.waiting with
    | none => (s, [], .notWaiting)
    | some context =>
      -- The context is the one captured when the request had to wait.
      let out := context.onAnswer s.host ticket.request answer
      let ticket : Ticket :=
        { ticket with
          request := out.request
          added := ticket.added ++ HostEvent.added out.events
          resumed := ticket.resumed + HostEvent.resumed out.events }
      ({ s with host := out.host, tickets := (id, ticket) :: s.tickets }, out.events,
        .progress ticket.added ticket.resumed)

/-- Takes one step: the session after it, the events that it caused, and what to say about it. -/
def step (s : Session) : Step → Session × List HostEvent × Report
  | .configure raw =>
    let config := Plugin.Config.load raw
    ({ s with config := config }, [], .settings config.settings)
  | .setClock now => ({ s with host := { s.host with clock := now } }, [], .done)
  | .failReads fault => ({ s with host := { s.host with readFault := fault } }, [], .done)
  | .failWrites fault => ({ s with host := { s.host with writeFault := fault } }, [], .done)
  | .failDispatch fault =>
    let dispatcher := Dispatcher.withFault s.host.dispatcher.nextCall fault
    ({ s with host := { s.host with dispatcher := dispatcher } }, [], .done)
  | .put key data cas =>
    let (host, event) := s.host.attemptWrite key data cas
    ({ s with host := host }, [event], .written (event == .write key cas none))
  | .snapshot name =>
    ({ s with snapshots := (name, s.config) :: s.snapshots }, [], .settings s.config.settings)
  | .request id snapshot r => s.takeIn id (s.configOf snapshot) r
  | .answer id outcome => s.handAnswer id outcome
  | .look id => match s.tickets.lookup id with
    | none => (s, [], .unknownRequest)
    | some ticket => (s, [], .headers ticket.request.headers)

/-- Takes steps one after the other; for each the session after it, its events and its report. -/
def run (s : Session) : List Step → List (Session × List HostEvent × Report)
  | [] => []
  | t :: ts =>
    let result := s.step t
    result :: run result.1 ts

end Session
end EgressAuth
