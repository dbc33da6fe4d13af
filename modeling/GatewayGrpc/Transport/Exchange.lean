import GatewayGrpc.Library.Lists
import GatewayGrpc.Library.Run
import GatewayGrpc.Transport.Call
import GatewayGrpc.Transport.Wire
import Mathlib.Logic.Function.Basic

/-!
# Calls with ids

What `ShmTransportUds` with `ShmServerUds` and `ShmTransportEventfd` with `ShmServerEventfd` have in
common: the calls, the pending table, the two rings, the spawned response tasks and the response
listener, without the signals that wake the listeners. Each event is what one party does between
two points at which another can come in.
-/

namespace GatewayGrpc.Transport
open Library Proto SharedMemory

abbrev IdCodecs := Codecs (Text × EchoRequest) (Text × EchoResponse)

/-- Where a call is. It waits for the `pending_requests` lock when it is `starting`, for its turn to
notify when it is `written`, and on its receiver when it is `waiting`. -/
inductive Phase
  | starting
  | registered
  | written
  | waiting
  | returned (result : Except CallError EchoResponse)
  | dropped
  deriving DecidableEq

/-- `reply` is what was sent to the receiver. `accepted` is history: the request entered the ring. -/
structure Call where
  id : Text
  request : EchoRequest
  phase : Phase
  accepted : Bool
  reply : Option EchoResponse
  deriving DecidableEq

def Call.key (call : Call) : Text × EchoRequest := (call.id, call.request)

inductive TaskPhase | running | written | finished | refused
  deriving DecidableEq, Repr

structure Task where
  id : Text
  request : EchoRequest
  phase : TaskPhase
  deriving DecidableEq

def Task.key (task : Task) : Text × EchoRequest := (task.id, task.request)

def Task.Answered (task : Task) : Prop := task.phase = .written ∨ task.phase = .finished

def Call.Coherent (call : Call) : Prop :=
  (call.reply.isSome → call.accepted) ∧
    match call.phase with
    | .starting | .registered | .returned (.error (.write _)) => call.accepted = false
    | .written | .waiting | .returned (.error .notify) => call.accepted = true
    | .returned (.ok response) => call.reply = some response
    | .returned (.error _) => False
    | .dropped => True

/-- `inHand` is the answer that the response listener has read and not resolved yet. The senders of
`pending_requests` are the positions of their calls. `handled` and `sends` are history: the answers
resolved, and the senders they were sent to. -/
structure Exchange where
  calls : List Call
  pendingRequests : Text → Option Nat
  requestRing : Fifo
  tasks : List Task
  responseRing : Fifo
  inHand : Option (Text × EchoResponse)
  handled : List (Text × EchoResponse)
  sends : List (Text × Nat)

namespace Exchange

def initial (requestCapacity responseCapacity : Nat) : Exchange where
  calls := []
  pendingRequests := fun _ => none
  requestRing := .empty requestCapacity
  tasks := []
  responseRing := .empty responseCapacity
  inHand := none
  handled := []
  sends := []

inductive Event
  | call (id : Text) (request : EchoRequest)
  | register (i : Nat)
  | write (i : Nat)
  | notified (i : Nat)
  | notifyFailed (i : Nat)
  | receive (i : Nat)
  | closed (i : Nat)
  | drop (i : Nat)
  | serve
  | skipRequest
  | respond (j : Nat) (timestampNs processingTimeUs : Int64)
  | finish (j : Nat)
  | fetch
  | skipResponse
  | resolve

def setCall (s : Exchange) (i : Nat) (call : Call) : Exchange :=
  { s with calls := s.calls.set i call }

def setTask (s : Exchange) (j : Nat) (task : Task) : Exchange :=
  { s with tasks := s.tasks.set j task }

def move (s : Exchange) (i : Nat) (here : Phase → Bool) (phase : Phase) : Option Exchange := do
  let call ← s.calls[i]?
  guard (here call.phase)
  some (s.setCall i { call with phase := phase })

variable (codecs : IdCodecs) (t : ShmTransport)

def step (s : Exchange) : Event → Option Exchange
  | .call id request => do
      -- `Uuid::new_v4` does not repeat itself
      guard (∀ call ∈ s.calls, call.id ≠ id)
      some { s with calls := s.calls ++ [⟨id, request, .starting, false, none⟩] }
  | .register i => do
      let call ← s.calls[i]?
      guard (call.phase = .starting)
      some { s.setCall i { call with phase := .registered } with
        pendingRequests := Function.update s.pendingRequests call.id (some i) }
  | .write i => do
      let call ← s.calls[i]?
      guard (call.phase = .registered)
      match s.requestRing.write (codecs.request.encode (call.id, call.request)) with
      | (.ok _, ring) =>
          some { s.setCall i { call with phase := .written, accepted := true } with
            requestRing := ring }
      | (.error e, _) =>
          some (s.setCall i { call with phase := .returned (.error (.write e)) })
  | .notified i => s.move i (· = .written) .waiting
  | .notifyFailed i => s.move i (· = .written) (.returned (.error .notify))
  | .receive i => do
      let call ← s.calls[i]?
      let response ← call.reply
      s.move i (· = .waiting) (.returned (.ok response))
  | .closed i => do
      let call ← s.calls[i]?
      guard (call.reply = none ∧ s.pendingRequests call.id ≠ some i)
      s.move i (· = .waiting) (.returned (.error .closed))
  | .drop i =>
      s.move i (fun phase => phase = .starting ∨ phase = .written ∨ phase = .waiting) .dropped
  | .serve =>
      match s.requestRing.read t.requestBuf with
      | (.error _, _) => none
      | (.ok m, ring) =>
          match codecs.request.decode m with
          | some (id, request) =>
              some { s with requestRing := ring, tasks := s.tasks ++ [⟨id, request, .running⟩] }
          | none => some { s with requestRing := ring }
  | .skipRequest =>
      match s.requestRing.read t.requestBuf with
      | (.ok [], ring) => some { s with requestRing := ring }
      | _ => none
  | .respond j ts pt => do
      let task ← s.tasks[j]?
      guard (task.phase = .running)
      match s.responseRing.write (codecs.response.encode (task.id, task.request.echo ts pt)) with
      | (.ok _, ring) =>
          some { s.setTask j { task with phase := .written } with responseRing := ring }
      | (.error _, _) => some (s.setTask j { task with phase := .refused })
  | .finish j => do
      let task ← s.tasks[j]?
      guard (task.phase = .written)
      some (s.setTask j { task with phase := .finished })
  | .fetch => do
      guard (s.inHand = none)
      match s.responseRing.read t.responseBuf with
      | (.error _, _) => none
      | (.ok m, ring) => some { s with responseRing := ring, inHand := codecs.response.decode m }
  | .skipResponse => do
      guard (s.inHand = none)
      match s.responseRing.read t.responseBuf with
      | (.ok [], ring) => some { s with responseRing := ring }
      | _ => none
  | .resolve => do
      let (id, response) ← s.inHand
      match s.pendingRequests id with
      | some i =>
          let call ← s.calls[i]?
          some { s.setCall i { call with reply := some response } with
            pendingRequests := Function.update s.pendingRequests id none
            inHand := none
            handled := s.handled ++ [(id, response)]
            sends := s.sends ++ [(id, i)] }
      | none => some { s with inHand := none, handled := s.handled ++ [(id, response)] }

/-! ## What an event does -/

inductive Moves (s : Exchange) (i : Nat) (call : Call) : Event → Phase → Prop
  | writeRefused (here : call.phase = .registered)
      (full : ¬ s.requestRing.Room (codecs.request.encode call.key)) :
      Moves s i call (.write i) (.returned (.error (.write .bufferFull)))
  | notified (here : call.phase = .written) : Moves s i call (.notified i) .waiting
  | notifyFailed (here : call.phase = .written) :
      Moves s i call (.notifyFailed i) (.returned (.error .notify))
  | received {response : EchoResponse} (here : call.phase = .waiting)
      (reply : call.reply = some response) :
      Moves s i call (.receive i) (.returned (.ok response))
  | closed (here : call.phase = .waiting) (unanswered : call.reply = none)
      (gone : s.pendingRequests call.id ≠ some i) :
      Moves s i call (.closed i) (.returned (.error .closed))
  | dropped (here : call.phase = .starting ∨ call.phase = .written ∨ call.phase = .waiting) :
      Moves s i call (.drop i) .dropped

inductive Effect (s : Exchange) : Event → Exchange → Prop
  | called {id : Text} (request : EchoRequest) (fresh : ∀ call ∈ s.calls, call.id ≠ id) :
      Effect s (.call id request)
        { s with calls := s.calls ++ [⟨id, request, .starting, false, none⟩] }
  | registered {i : Nat} {call : Call} (here : s.calls[i]? = some call)
      (starting : call.phase = .starting) :
      Effect s (.register i) { s.setCall i { call with phase := .registered } with
        pendingRequests := Function.update s.pendingRequests call.id (some i) }
  | wrote {i : Nat} {call : Call} (here : s.calls[i]? = some call)
      (registered : call.phase = .registered)
      (room : s.requestRing.Room (codecs.request.encode call.key)) :
      Effect s (.write i) { s.setCall i { call with phase := .written, accepted := true } with
        requestRing := { s.requestRing with
          messages := s.requestRing.messages ++ [codecs.request.encode call.key] } }
  | moved {e : Event} {i : Nat} {call : Call} {phase : Phase} (here : s.calls[i]? = some call)
      (moves : Moves codecs s i call e phase) :
      Effect s e (s.setCall i { call with phase := phase })
  | served {m : Message} {ring : Fifo} {id : Text} {request : EchoRequest}
      (read : s.requestRing.read t.requestBuf = (.ok m, ring))
      (decoded : codecs.request.decode m = some (id, request)) :
      Effect s .serve
        { s with requestRing := ring, tasks := s.tasks ++ [⟨id, request, .running⟩] }
  | skippedRequest {e : Event} {m : Message} {ring : Fifo}
      (read : s.requestRing.read t.requestBuf = (.ok m, ring))
      (unusable : m = [] ∨ codecs.request.decode m = none) :
      Effect s e { s with requestRing := ring }
  | answered {j : Nat} {task : Task} (ts pt : Int64) (here : s.tasks[j]? = some task)
      (running : task.phase = .running)
      (room : s.responseRing.Room (codecs.response.encode (task.id, task.request.echo ts pt))) :
      Effect s (.respond j ts pt) { s.setTask j { task with phase := .written } with
        responseRing := { s.responseRing with
          messages := s.responseRing.messages ++
            [codecs.response.encode (task.id, task.request.echo ts pt)] } }
  | answerRefused {j : Nat} {task : Task} (ts pt : Int64) (here : s.tasks[j]? = some task)
      (running : task.phase = .running)
      (full : ¬ s.responseRing.Room
        (codecs.response.encode (task.id, task.request.echo ts pt))) :
      Effect s (.respond j ts pt) (s.setTask j { task with phase := .refused })
  | finished {j : Nat} {task : Task} (here : s.tasks[j]? = some task)
      (written : task.phase = .written) :
      Effect s (.finish j) (s.setTask j { task with phase := .finished })
  | fetched {m : Message} {ring : Fifo} {answer : Text × EchoResponse} (free : s.inHand = none)
      (read : s.responseRing.read t.responseBuf = (.ok m, ring))
      (decoded : codecs.response.decode m = some answer) :
      Effect s .fetch { s with responseRing := ring, inHand := some answer }
  | skippedResponse {e : Event} {m : Message} {ring : Fifo} (free : s.inHand = none)
      (read : s.responseRing.read t.responseBuf = (.ok m, ring))
      (unusable : m = [] ∨ codecs.response.decode m = none) :
      Effect s e { s with responseRing := ring, inHand := none }
  | resolved {id : Text} {response : EchoResponse} {i : Nat} {call : Call}
      (held : s.inHand = some (id, response)) (found : s.pendingRequests id = some i)
      (here : s.calls[i]? = some call) :
      Effect s .resolve { s.setCall i { call with reply := some response } with
        pendingRequests := Function.update s.pendingRequests id none
        inHand := none
        handled := s.handled ++ [(id, response)]
        sends := s.sends ++ [(id, i)] }
  | unclaimed {id : Text} {response : EchoResponse} (held : s.inHand = some (id, response))
      (missing : s.pendingRequests id = none) :
      Effect s .resolve
        { s with inHand := none, handled := s.handled ++ [(id, response)] }

variable {codecs t}

theorem move_eq_some {s u : Exchange} {i : Nat} {here : Phase → Bool} {phase : Phase}
    (action : s.move i here phase = some u) :
    ∃ call, s.calls[i]? = some call ∧ here call.phase = true ∧
      u = s.setCall i { call with phase := phase } := by
  obtain ⟨call, found, action⟩ := Option.bind_eq_some_iff.mp action
  obtain ⟨ok, action⟩ := guard_bind_eq_some.mp action
  cases action
  exact ⟨call, found, ok, rfl⟩

theorem step_effect {s u : Exchange} {e : Event} (action : step codecs t s e = some u) :
    Effect codecs t s e u := by
  cases e with
  | call id request =>
      obtain ⟨fresh, action⟩ := guard_bind_eq_some.mp action
      cases action
      exact .called request fresh
  | register i =>
      obtain ⟨call, here, action⟩ := Option.bind_eq_some_iff.mp action
      obtain ⟨starting, action⟩ := guard_bind_eq_some.mp action
      cases action
      exact .registered here starting
  | write i =>
      obtain ⟨call, here, action⟩ := Option.bind_eq_some_iff.mp action
      obtain ⟨registered, action⟩ := guard_bind_eq_some.mp action
      split at action
      · rename_i written
        obtain ⟨room, rfl⟩ := Fifo.write_eq_ok written
        cases action
        exact .wrote here registered room
      · rename_i refused
        obtain ⟨full, rfl, _⟩ := Fifo.write_eq_error refused
        cases action
        exact .moved here (.writeRefused registered full)
  | notified i =>
      simp only [step] at action
      obtain ⟨call, here, phase, rfl⟩ := move_eq_some action
      exact .moved here (.notified (of_decide_eq_true phase))
  | notifyFailed i =>
      simp only [step] at action
      obtain ⟨call, here, phase, rfl⟩ := move_eq_some action
      exact .moved here (.notifyFailed (of_decide_eq_true phase))
  | receive i =>
      simp only [step, Option.bind_eq_bind, Option.bind_eq_some_iff] at action
      obtain ⟨call, here, response, reply, action⟩ := action
      obtain ⟨same, there, phase, rfl⟩ := move_eq_some action
      cases here.symm.trans there
      exact .moved here (.received (of_decide_eq_true phase) reply)
  | closed i =>
      obtain ⟨call, here, action⟩ := Option.bind_eq_some_iff.mp action
      obtain ⟨⟨unanswered, gone⟩, action⟩ := guard_bind_eq_some.mp action
      obtain ⟨same, there, phase, rfl⟩ := move_eq_some action
      cases here.symm.trans there
      exact .moved here (.closed (of_decide_eq_true phase) unanswered gone)
  | drop i =>
      simp only [step] at action
      obtain ⟨call, here, phase, rfl⟩ := move_eq_some action
      exact .moved here (.dropped (of_decide_eq_true phase))
  | serve =>
      simp only [step] at action
      split at action
      · cases action
      · rename_i m ring read
        split at action
        · rename_i id request decoded
          cases action
          exact .served read decoded
        · rename_i garbled
          cases action
          exact .skippedRequest read (.inr garbled)
  | skipRequest =>
      simp only [step] at action
      split at action
      · rename_i ring read
        cases action
        exact .skippedRequest read (.inl rfl)
      · cases action
  | respond j ts pt =>
      obtain ⟨task, here, action⟩ := Option.bind_eq_some_iff.mp action
      obtain ⟨running, action⟩ := guard_bind_eq_some.mp action
      split at action
      · rename_i written
        obtain ⟨room, rfl⟩ := Fifo.write_eq_ok written
        cases action
        exact .answered ts pt here running room
      · rename_i refused
        obtain ⟨full, _, _⟩ := Fifo.write_eq_error refused
        cases action
        exact .answerRefused ts pt here running full
  | finish j =>
      obtain ⟨task, here, action⟩ := Option.bind_eq_some_iff.mp action
      obtain ⟨written, action⟩ := guard_bind_eq_some.mp action
      cases action
      exact .finished here written
  | fetch =>
      obtain ⟨free, action⟩ := guard_bind_eq_some.mp action
      split at action
      · cases action
      · rename_i m ring read
        cases decoded : codecs.response.decode m with
        | some answer =>
            rw [decoded] at action
            cases action
            exact .fetched free read decoded
        | none =>
            rw [decoded] at action
            cases action
            exact .skippedResponse free read (.inr decoded)
  | skipResponse =>
      obtain ⟨free, action⟩ := guard_bind_eq_some.mp action
      split at action
      · rename_i ring read
        cases action
        rw [free]
        exact .skippedResponse free read (.inl rfl)
      · cases action
  | resolve =>
      simp only [step, Option.bind_eq_bind, Option.bind_eq_some_iff] at action
      obtain ⟨⟨id, response⟩, held, action⟩ := action
      dsimp only at action
      split at action
      · rename_i i found
        obtain ⟨call, here, action⟩ := Option.bind_eq_some_iff.mp action
        cases action
        exact .resolved held found here
      · rename_i missing
        cases action
        exact .unclaimed held missing

end Exchange

end GatewayGrpc.Transport
