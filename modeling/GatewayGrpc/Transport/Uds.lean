import GatewayGrpc.Transport.ExchangeInvariant

/-!
# The UDS transport

`ShmTransportUds` and `ShmServerUds` on top of the exchange. A byte on the notification socket stands
for a request, and a byte back for an answer. The backend takes one message for a byte, the
gateway drains the response ring.
-/

namespace GatewayGrpc.Transport
open Library Proto SharedMemory

inductive Listener | waiting | awake | exited
  deriving DecidableEq, Repr

/-- `notifyLock` is the call that holds `notify_write`, and whether its byte is out; `writeLock` the
same for a task and `write_half`. The bytes are those sent and not read yet. -/
structure Uds where
  notifyLock : Option (Nat × Bool)
  requestBytes : Nat
  backend : Listener
  writeLock : Option (Nat × Bool)
  responseBytes : Nat
  listener : Listener
  deriving DecidableEq, Repr

namespace Uds

def initial : Uds where
  notifyLock := none
  requestBytes := 0
  backend := .waiting
  writeLock := none
  responseBytes := 0
  listener := .waiting

inductive Action
  | call (id : Text) (request : EchoRequest)
  | register (i : Nat)
  | write (i : Nat)
  | lockNotify (i : Nat)
  | notify (i : Nat)
  | notifyFailed (i : Nat)
  | flush (i : Nat)
  | flushFailed (i : Nat)
  | receive (i : Nat)
  | closed (i : Nat)
  | drop (i : Nat)
  | backendWake
  | backendFailed
  | take
  | respond (j : Nat) (timestampNs processingTimeUs : Int64)
  | lockWrite (j : Nat)
  | notifyBack (j : Nat)
  | notifyBackFailed (j : Nat)
  | flushBack (j : Nat)
  | listenerWake
  | listenerFailed
  | drain
  | resolve

def front (s : Exchange) (w : Uds) : Action → Option (Uds × Option Exchange.Event)
  | .call id request => some (w, some (.call id request))
  | .register i => some (w, some (.register i))
  | .write i => some (w, some (.write i))
  | .lockNotify i => do
      let call ← s.calls[i]?
      guard (call.phase = .written ∧ w.notifyLock = none)
      some ({ w with notifyLock := some (i, false) }, none)
  | .notify i => do
      guard (w.notifyLock = some (i, false))
      some ({ w with notifyLock := some (i, true), requestBytes := w.requestBytes + 1 }, none)
  | .notifyFailed i => do
      guard (w.notifyLock = some (i, false))
      some ({ w with notifyLock := none }, some (.notifyFailed i))
  | .flush i => do
      guard (w.notifyLock = some (i, true))
      some ({ w with notifyLock := none }, some (.notified i))
  | .flushFailed i => do
      guard (w.notifyLock = some (i, true))
      some ({ w with notifyLock := none }, some (.notifyFailed i))
  | .receive i => some (w, some (.receive i))
  | .closed i => some (w, some (.closed i))
  | .drop i =>
      -- the guard of the lock goes with the future
      some ({ w with notifyLock := w.notifyLock.filter fun holder => holder.1 ≠ i },
        some (.drop i))
  | .backendWake => do
      guard (w.backend = .waiting ∧ 0 < w.requestBytes)
      some ({ w with backend := .awake, requestBytes := w.requestBytes - 1 }, none)
  | .backendFailed => do
      guard (w.backend = .waiting)
      some ({ w with backend := .exited }, none)
  | .take => do
      guard (w.backend = .awake)
      match s.requestRing.read ShmTransport.uds.requestBuf with
      | (.ok _, _) => some ({ w with backend := .waiting }, some .serve)
      | (.error _, _) => some ({ w with backend := .waiting }, none)
  | .respond j ts pt => some (w, some (.respond j ts pt))
  | .lockWrite j => do
      let task ← s.tasks[j]?
      guard (task.phase = .written ∧ w.writeLock = none)
      some ({ w with writeLock := some (j, false) }, none)
  | .notifyBack j => do
      guard (w.writeLock = some (j, false))
      some ({ w with writeLock := some (j, true), responseBytes := w.responseBytes + 1 }, none)
  | .notifyBackFailed j => do
      guard (w.writeLock = some (j, false))
      some ({ w with writeLock := none }, some (.finish j))
  | .flushBack j => do
      guard (w.writeLock = some (j, true))
      some ({ w with writeLock := none }, some (.finish j))
  | .listenerWake => do
      guard (w.listener = .waiting ∧ 0 < w.responseBytes)
      some ({ w with listener := .awake, responseBytes := w.responseBytes - 1 }, none)
  | .listenerFailed => do
      guard (w.listener = .waiting)
      some ({ w with listener := .exited }, none)
  | .drain => do
      guard (w.listener = .awake ∧ s.inHand = none)
      match s.responseRing.read ShmTransport.uds.responseBuf with
      | (.ok _, _) => some (w, some .fetch)
      | (.error _, _) => some ({ w with listener := .waiting }, none)
  | .resolve => some (w, some .resolve)

abbrev State := Layered Uds Exchange

def start (requestCapacity responseCapacity : Nat) : State :=
  ⟨initial, .initial requestCapacity responseCapacity⟩

abbrev step (codecs : IdCodecs) : State → Action → Option State :=
  Layered.step front (Exchange.step codecs .uds)

/-! ## What an action does -/

def Action.plain : Action → Option Exchange.Event
  | .call id request => some (.call id request)
  | .register i => some (.register i)
  | .write i => some (.write i)
  | .receive i => some (.receive i)
  | .closed i => some (.closed i)
  | .respond j ts pt => some (.respond j ts pt)
  | .resolve => some .resolve
  | _ => none

inductive Effect (s : Exchange) (w : Uds) : Action → Uds → Option Exchange.Event → Prop
  | plain {a : Action} {e : Exchange.Event} (event : a.plain = some e) : Effect s w a w (some e)
  | lockedNotify {i : Nat} {call : Call} (here : s.calls[i]? = some call)
      (written : call.phase = .written) (free : w.notifyLock = none) :
      Effect s w (.lockNotify i) { w with notifyLock := some (i, false) } none
  | notified {i : Nat} (held : w.notifyLock = some (i, false)) :
      Effect s w (.notify i)
        { w with notifyLock := some (i, true), requestBytes := w.requestBytes + 1 } none
  | notifyFailed {i : Nat} (held : w.notifyLock = some (i, false)) :
      Effect s w (.notifyFailed i) { w with notifyLock := none } (some (.notifyFailed i))
  | flushed {i : Nat} (held : w.notifyLock = some (i, true)) :
      Effect s w (.flush i) { w with notifyLock := none } (some (.notified i))
  | flushFailed {i : Nat} (held : w.notifyLock = some (i, true)) :
      Effect s w (.flushFailed i) { w with notifyLock := none } (some (.notifyFailed i))
  | dropped (i : Nat) :
      Effect s w (.drop i)
        { w with notifyLock := w.notifyLock.filter fun holder => holder.1 ≠ i } (some (.drop i))
  | backendWoke (waiting : w.backend = .waiting) (byte : 0 < w.requestBytes) :
      Effect s w .backendWake { w with backend := .awake, requestBytes := w.requestBytes - 1 } none
  | backendFailed (waiting : w.backend = .waiting) :
      Effect s w .backendFailed { w with backend := .exited } none
  | took {m : Message} {ring : Fifo} (awake : w.backend = .awake)
      (read : s.requestRing.read ShmTransport.uds.requestBuf = (.ok m, ring)) :
      Effect s w .take { w with backend := .waiting } (some .serve)
  | tookNothing {e : ShmError} {ring : Fifo} (awake : w.backend = .awake)
      (read : s.requestRing.read ShmTransport.uds.requestBuf = (.error e, ring)) :
      Effect s w .take { w with backend := .waiting } none
  | lockedWrite {j : Nat} {task : Task} (here : s.tasks[j]? = some task)
      (written : task.phase = .written) (free : w.writeLock = none) :
      Effect s w (.lockWrite j) { w with writeLock := some (j, false) } none
  | notifiedBack {j : Nat} (held : w.writeLock = some (j, false)) :
      Effect s w (.notifyBack j)
        { w with writeLock := some (j, true), responseBytes := w.responseBytes + 1 } none
  | notifyBackFailed {j : Nat} (held : w.writeLock = some (j, false)) :
      Effect s w (.notifyBackFailed j) { w with writeLock := none } (some (.finish j))
  | flushedBack {j : Nat} (held : w.writeLock = some (j, true)) :
      Effect s w (.flushBack j) { w with writeLock := none } (some (.finish j))
  | listenerWoke (waiting : w.listener = .waiting) (byte : 0 < w.responseBytes) :
      Effect s w .listenerWake
        { w with listener := .awake, responseBytes := w.responseBytes - 1 } none
  | listenerFailed (waiting : w.listener = .waiting) :
      Effect s w .listenerFailed { w with listener := .exited } none
  | drained {m : Message} {ring : Fifo} (awake : w.listener = .awake) (free : s.inHand = none)
      (read : s.responseRing.read ShmTransport.uds.responseBuf = (.ok m, ring)) :
      Effect s w .drain w (some .fetch)
  | drainedAll {e : ShmError} {ring : Fifo} (awake : w.listener = .awake)
      (free : s.inHand = none)
      (read : s.responseRing.read ShmTransport.uds.responseBuf = (.error e, ring)) :
      Effect s w .drain { w with listener := .waiting } none

theorem front_effect {s : Exchange} {w v : Uds} {a : Action} {e : Option Exchange.Event}
    (first : front s w a = some (v, e)) : Effect s w a v e := by
  cases a with
  | call | register | write | receive | closed | respond | resolve =>
      cases first
      exact .plain rfl
  | lockNotify i =>
      obtain ⟨call, here, first⟩ := Option.bind_eq_some_iff.mp first
      obtain ⟨⟨written, free⟩, first⟩ := guard_bind_eq_some.mp first
      cases first
      exact .lockedNotify here written free
  | notify i =>
      obtain ⟨held, first⟩ := guard_bind_eq_some.mp first
      cases first
      exact .notified held
  | notifyFailed i =>
      obtain ⟨held, first⟩ := guard_bind_eq_some.mp first
      cases first
      exact .notifyFailed held
  | flush i =>
      obtain ⟨held, first⟩ := guard_bind_eq_some.mp first
      cases first
      exact .flushed held
  | flushFailed i =>
      obtain ⟨held, first⟩ := guard_bind_eq_some.mp first
      cases first
      exact .flushFailed held
  | drop i =>
      cases first
      exact .dropped i
  | backendWake =>
      obtain ⟨⟨waiting, byte⟩, first⟩ := guard_bind_eq_some.mp first
      cases first
      exact .backendWoke waiting byte
  | backendFailed =>
      obtain ⟨waiting, first⟩ := guard_bind_eq_some.mp first
      cases first
      exact .backendFailed waiting
  | take =>
      obtain ⟨awake, first⟩ := guard_bind_eq_some.mp first
      split at first
      · rename_i read
        cases first
        exact .took awake read
      · rename_i read
        cases first
        exact .tookNothing awake read
  | lockWrite j =>
      obtain ⟨task, here, first⟩ := Option.bind_eq_some_iff.mp first
      obtain ⟨⟨written, free⟩, first⟩ := guard_bind_eq_some.mp first
      cases first
      exact .lockedWrite here written free
  | notifyBack j =>
      obtain ⟨held, first⟩ := guard_bind_eq_some.mp first
      cases first
      exact .notifiedBack held
  | notifyBackFailed j =>
      obtain ⟨held, first⟩ := guard_bind_eq_some.mp first
      cases first
      exact .notifyBackFailed held
  | flushBack j =>
      obtain ⟨held, first⟩ := guard_bind_eq_some.mp first
      cases first
      exact .flushedBack held
  | listenerWake =>
      obtain ⟨⟨waiting, byte⟩, first⟩ := guard_bind_eq_some.mp first
      cases first
      exact .listenerWoke waiting byte
  | listenerFailed =>
      obtain ⟨waiting, first⟩ := guard_bind_eq_some.mp first
      cases first
      exact .listenerFailed waiting
  | drain =>
      obtain ⟨⟨awake, free⟩, first⟩ := guard_bind_eq_some.mp first
      split at first
      · rename_i read
        cases first
        exact .drained awake free read
      · rename_i read
        cases first
        exact .drainedAll awake free read

theorem step_effect {codecs : IdCodecs} {s u : State} {a : Action}
    (action : step codecs s a = some u) :
    ∃ e, Effect s.back s.front a u.front e ∧
      Layered.advance (Exchange.step codecs .uds) s.back e = some u.back := by
  obtain ⟨e, first, second⟩ := (Layered.step_eq_some _ _).mp action
  exact ⟨e, front_effect first, second⟩

end Uds

end GatewayGrpc.Transport
