import GatewayGrpc.Gateway.Http
import GatewayGrpc.Transport.Eventfd
import GatewayGrpc.Transport.Settled
import GatewayGrpc.Transport.Uds

/-!
# The handlers of the gateway

Any number of `handle_request` futures over one id-based transport. A handler reads its body, makes
one call and answers with its result; hyper drops it, and its call, where the client goes away. The
four metrics count what the handlers do.
-/

namespace GatewayGrpc.Gateway
open Library Proto Transport

/-- A transport that the handlers call. `ask` and `abandon` are the actions of the caller: a call,
and the end of one that is dropped. -/
structure Link (Front Act : Type) where
  kind : ShmTransport
  front : Exchange → Front → Act → Option (Front × Option Exchange.Event)
  initial : Front
  ask : Text → EchoRequest → Act
  abandon : Nat → Act
  fromCaller : Act → Bool
  asked : ∀ s w id request, front s w (ask id request) = some (w, some (.call id request))
  abandoned : ∀ s w i v e, front s w (abandon i) = some (v, e) → e = some (.drop i)
  own : ∀ s w a v e, fromCaller a = false → front s w a = some (v, some e) → ¬ e.FromCaller

def udsFromCaller : Uds.Action → Bool
  | .call _ _ | .drop _ => true
  | _ => false

def eventfdFromCaller : Eventfd.Action → Bool
  | .call _ _ | .drop _ => true
  | _ => false

def shmUds : Link Uds Uds.Action where
  kind := .uds
  front := Uds.front
  initial := .initial
  ask := .call
  abandon := .drop
  fromCaller := udsFromCaller
  asked := fun _ _ _ _ => rfl
  abandoned := fun _ _ _ _ _ first => by
    cases Uds.front_effect first with
    | plain event => cases event
    | dropped => rfl
  own := fun _ _ a _ _ other first caller => by
    cases Uds.front_effect first with
    | plain event => cases a <;> cases event <;> first | exact caller | cases other
    | dropped => cases other
    | _ => exact caller

def shmEventfd : Link Eventfd Eventfd.Action where
  kind := .eventfd
  front := Eventfd.front
  initial := .initial
  ask := .call
  abandon := .drop
  fromCaller := eventfdFromCaller
  asked := fun _ _ _ _ => rfl
  abandoned := fun _ _ _ _ _ first => by
    cases Eventfd.front_effect first with
    | plain event => cases event
    | dropped => rfl
  own := fun _ _ a _ _ other first caller => by
    cases Eventfd.front_effect first with
    | plain event => cases a <;> cases event <;> first | exact caller | cases other
    | dropped => cases other
    | _ => exact caller

/-- Where a handler is: in `collect_body`, in the call, behind it with a response whose duration is
still to be observed, or at its end. -/
inductive Stage
  | collecting
  | calling
  | responding (response : HttpResponse)
  | answered (response : HttpResponse)
  | dropped
  deriving DecidableEq, Repr

/-- `call` is the place of its call among those of the transport. -/
structure Handler where
  path : Text
  body : Option Body
  call : Option Nat
  stage : Stage
  deriving DecidableEq

/-- The handlers, the two counters, and how many durations the two histograms have observed. -/
structure Handlers where
  handlers : List Handler
  httpRequestsTotal : Nat
  grpcRequestsTotal : Nat
  httpRequestDuration : Nat
  grpcRequestDuration : Nat
  deriving DecidableEq

namespace Handlers

def initial : Handlers := ⟨[], 0, 0, 0, 0⟩

def setHandler (g : Handlers) (i : Nat) (h : Handler) : Handlers :=
  { g with handlers := g.handlers.set i h }

/-- The body comes in whole or not at all; `cause` is the text of an error from outside. -/
inductive Action (Act : Type)
  | accept (path : Text)
  | bodyFailed (i : Nat)
  | forward (i : Nat) (body : Body) (timestampNs : Int64) (id : Text)
  | transport (a : Act)
  | answer (i : Nat) (cause : String)
  | finish (i : Nat)
  | drop (i : Nat)

variable {Front Act : Type} (fromSlice : FromSlice) (link : Link Front Act) (codecs : IdCodecs)

def front (s : Layered Front Exchange) (g : Handlers) :
    Action Act → Option (Handlers × Option Act)
  | .accept path =>
      some ({ g with
        handlers := g.handlers ++ [⟨path, none, none, .collecting⟩]
        httpRequestsTotal := g.httpRequestsTotal + 1 }, none)
  | .bodyFailed i => do
      let h ← g.handlers[i]?
      guard (h.stage = .collecting)
      -- this return observes no duration
      some (g.setHandler i { h with stage := .answered badRequest }, none)
  | .forward i body timestampNs id => do
      let h ← g.handlers[i]?
      guard (h.stage = .collecting)
      some ({ g.setHandler i
          { h with body := some body, call := some s.back.calls.length, stage := .calling } with
        grpcRequestsTotal := g.grpcRequestsTotal + 1 },
        some (link.ask id (echoRequest fromSlice h.path body timestampNs)))
  | .transport a => do
      guard (link.fromCaller a = false)
      some (g, some a)
  | .answer i cause => do
      let h ← g.handlers[i]?
      guard (h.stage = .calling)
      let call ← h.call.bind fun c => s.back.calls[c]?
      match call.phase with
      | .returned (.ok response) =>
          some ({ g.setHandler i { h with stage := .responding (forwarded response) } with
            grpcRequestDuration := g.grpcRequestDuration + 1 }, none)
      | .returned (.error error) =>
          some (g.setHandler i { h with stage := .responding (unavailable error cause) }, none)
      | _ => none
  | .finish i => do
      let h ← g.handlers[i]?
      match h.stage with
      | .responding response =>
          some ({ g.setHandler i { h with stage := .answered response } with
            httpRequestDuration := g.httpRequestDuration + 1 }, none)
      | _ => none
  | .drop i => do
      let h ← g.handlers[i]?
      match h.stage, h.call with
      | .collecting, _ => some (g.setHandler i { h with stage := .dropped }, none)
      | .calling, some c =>
          some (g.setHandler i { h with stage := .dropped }, some (link.abandon c))
      | _, _ => none

abbrev State (Front : Type) := Layered Handlers (Layered Front Exchange)

def start (requestCapacity responseCapacity : Nat) : State Front :=
  ⟨initial, link.initial, .initial requestCapacity responseCapacity⟩

abbrev step : State Front → Action Act → Option (State Front) :=
  Layered.step (front fromSlice link) (Layered.step link.front (Exchange.step codecs link.kind))

/-! ## What an action does -/

inductive Effect (s : Layered Front Exchange) (g : Handlers) :
    Action Act → Handlers → Option Act → Prop
  | accepted (path : Text) :
      Effect s g (.accept path) { g with
        handlers := g.handlers ++ [⟨path, none, none, .collecting⟩]
        httpRequestsTotal := g.httpRequestsTotal + 1 } none
  | bodyFailed {i : Nat} {h : Handler} (here : g.handlers[i]? = some h)
      (collecting : h.stage = .collecting) :
      Effect s g (.bodyFailed i) (g.setHandler i { h with stage := .answered badRequest }) none
  | forwarded {i : Nat} {h : Handler} (body : Body) (timestampNs : Int64) (id : Text)
      (here : g.handlers[i]? = some h) (collecting : h.stage = .collecting) :
      Effect s g (.forward i body timestampNs id)
        { g.setHandler i
            { h with body := some body, call := some s.back.calls.length, stage := .calling } with
          grpcRequestsTotal := g.grpcRequestsTotal + 1 }
        (some (link.ask id (echoRequest fromSlice h.path body timestampNs)))
  | transported {a : Act} (other : link.fromCaller a = false) :
      Effect s g (.transport a) g (some a)
  | answered {i c : Nat} {h : Handler} {call : Transport.Call} {response : EchoResponse}
      (cause : String)
      (here : g.handlers[i]? = some h) (calling : h.stage = .calling) (made : h.call = some c)
      (found : s.back.calls[c]? = some call) (returned : call.phase = .returned (.ok response)) :
      Effect s g (.answer i cause)
        { g.setHandler i { h with stage := .responding (Gateway.forwarded response) } with
          grpcRequestDuration := g.grpcRequestDuration + 1 } none
  | failed {i c : Nat} {h : Handler} {call : Transport.Call} {error : CallError} (cause : String)
      (here : g.handlers[i]? = some h) (calling : h.stage = .calling) (made : h.call = some c)
      (found : s.back.calls[c]? = some call) (returned : call.phase = .returned (.error error)) :
      Effect s g (.answer i cause)
        (g.setHandler i { h with stage := .responding (unavailable error cause) }) none
  | finished {i : Nat} {h : Handler} {response : HttpResponse}
      (here : g.handlers[i]? = some h) (responding : h.stage = .responding response) :
      Effect s g (.finish i)
        { g.setHandler i { h with stage := .answered response } with
          httpRequestDuration := g.httpRequestDuration + 1 } none
  | droppedEarly {i : Nat} {h : Handler} (here : g.handlers[i]? = some h)
      (collecting : h.stage = .collecting) :
      Effect s g (.drop i) (g.setHandler i { h with stage := .dropped }) none
  | dropped {i c : Nat} {h : Handler} (here : g.handlers[i]? = some h)
      (calling : h.stage = .calling) (made : h.call = some c) :
      Effect s g (.drop i) (g.setHandler i { h with stage := .dropped }) (some (link.abandon c))

variable {fromSlice link codecs}

theorem front_effect {s : Layered Front Exchange} {g k : Handlers} {a : Action Act}
    {e : Option Act} (first : front fromSlice link s g a = some (k, e)) :
    Effect fromSlice link s g a k e := by
  cases a with
  | accept path =>
      cases first
      exact .accepted path
  | bodyFailed i =>
      obtain ⟨h, here, first⟩ := Option.bind_eq_some_iff.mp first
      obtain ⟨collecting, first⟩ := guard_bind_eq_some.mp first
      cases first
      exact .bodyFailed here collecting
  | forward i body timestampNs id =>
      obtain ⟨h, here, first⟩ := Option.bind_eq_some_iff.mp first
      obtain ⟨collecting, first⟩ := guard_bind_eq_some.mp first
      cases first
      exact .forwarded body timestampNs id here collecting
  | transport a =>
      obtain ⟨other, first⟩ := guard_bind_eq_some.mp first
      cases first
      exact .transported other
  | answer i cause =>
      obtain ⟨h, here, first⟩ := Option.bind_eq_some_iff.mp first
      obtain ⟨calling, first⟩ := guard_bind_eq_some.mp first
      obtain ⟨call, found, first⟩ := Option.bind_eq_some_iff.mp first
      obtain ⟨c, made, found⟩ := Option.bind_eq_some_iff.mp found
      split at first
      · rename_i response returned
        cases first
        exact .answered cause here calling made found returned
      · rename_i error returned
        cases first
        exact .failed cause here calling made found returned
      · cases first
  | finish i =>
      obtain ⟨h, here, first⟩ := Option.bind_eq_some_iff.mp first
      split at first
      · rename_i response responding
        cases first
        exact .finished here responding
      · cases first
  | drop i =>
      obtain ⟨h, here, first⟩ := Option.bind_eq_some_iff.mp first
      split at first
      · rename_i collecting
        cases first
        exact .droppedEarly here collecting
      · rename_i c calling made
        cases first
        exact .dropped here calling made
      · cases first

theorem step_effect {s u : State Front} {a : Action Act}
    (action : step fromSlice link codecs s a = some u) :
    ∃ e, Effect fromSlice link s.back s.front a u.front e ∧
      Layered.advance (Layered.step link.front (Exchange.step codecs link.kind)) s.back e =
        some u.back := by
  obtain ⟨e, first, second⟩ := (Layered.step_eq_some _ _).mp action
  exact ⟨e, front_effect first, second⟩

end Handlers

end GatewayGrpc.Gateway
