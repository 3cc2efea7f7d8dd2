/-
  EgressAuth.Interception.Host

  What surrounds the interception: a shared store, a clock and a dispatcher of
  calls, each of which may be out of order, and the requests themselves.
-/
import EgressAuth.Cache.Entry
import EgressAuth.Cache.SharedStore
import EgressAuth.Interception.Provider

namespace EgressAuth

/-! ## Requests -/

/-- A request as the filter sees it: a bare list of headers or an HTTP request. -/
inductive InboundRequest where
  | listed (headers : List (String × String))
  | http (request : Http.Request)

namespace InboundRequest

/-- The value of a header. -/
def header? : InboundRequest → String → Option String
  | listed hs, name => firstValue? hs name
  | http r, name => r.header? name

/-- All headers. -/
def headers : InboundRequest → List (String × String)
  | listed hs => hs
  | http r => r.headerTexts

/-- Adds a header behind those that are there. An HTTP request takes only valid ones. -/
def add : InboundRequest → AuthHeader → InboundRequest
  | listed hs, h => listed (hs ++ [(h.name, h.value)])
  | http r, h => http (r.addText h.name h.value)

def addAll (r : InboundRequest) (hs : List AuthHeader) : InboundRequest := hs.foldl add r

end InboundRequest

/-! ## The host -/

/-- Starts calls: it may refuse one, and numbers those that it accepts. -/
structure Dispatcher where
  accept : ProviderCall → Except HostError Unit
  nextCall : UInt32

/-- Starts a call. -/
def Dispatcher.start (d : Dispatcher) (call : ProviderCall) :
    Except HostError (UInt32 × Dispatcher) :=
  match d.accept call with
  | .ok _ => .ok (d.nextCall, { d with nextCall := d.nextCall + 1 })
  | .error e => .error e

/-- Something that the filter asked of its host, and for writes how that ended. -/
inductive HostEvent where
  | read (key : String)
  | write (key : String) (cas : Option UInt32) (failure : Option HostError)
  | dispatch
  | addHeader (header : AuthHeader)
  | resume
  deriving DecidableEq, Repr

/-- The state of the host. -/
structure Host where
  store : Cache.SharedStore
  clock : Instant
  dispatcher : Dispatcher
  /-- What every read of the store fails with, while it does. -/
  readFault : Option HostError := none
  /-- What every write to the store fails with, while it does. -/
  writeFault : Option HostError := none

namespace Host

/-- Looks up a cache slot; a failing store has none. -/
def lookUp (h : Host) (id : Cache.Id) : Option Cache.Slot :=
  if h.readFault.isSome then none else h.store.readCache id

/-- Writes to the store. -/
def write (h : Host) (key : String) (data : Bytes) (cas : Option UInt32) : Except HostError Host :=
  match h.writeFault with
  | some e => .error e
  | none => (h.store.write key data cas).map fun s => { h with store := s }

/-- Writes to the store, a failure leaving it as it is, and says what happened. -/
def attemptWrite (h : Host) (key : String) (data : Bytes) (cas : Option UInt32) :
    Host × HostEvent :=
  match h.write key data cas with
  | .ok h' => (h', .write key cas none)
  | .error e => (h, .write key cas (some e))

end Host
end EgressAuth
