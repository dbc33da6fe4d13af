import GatewayGrpc.Transport.ExchangeInvariant

/-!
# The eventfd transport

`ShmTransportEventfd` and `ShmServerEventfd` on top of the exchange. An eventfd is a counter that a
signal raises by one and a read returns and clears; its overflow is out of reach. Both listeners
then run a counted loop, the backend's to its end, the gateway's up to a read that fails. Where the
wait itself fails, `run` ends and the gateway's listener waits again.
-/

namespace GatewayGrpc.Transport
open Library Proto SharedMemory

/-- The counters, the iterations that the counted loops have left, and whether `run` has ended with
an error. A listener waits where it has no iteration left. -/
structure Eventfd where
  requestEvent : Nat
  backendLeft : Nat
  backendExited : Bool
  responseEvent : Nat
  listenerLeft : Nat
  deriving DecidableEq, Repr

namespace Eventfd

def initial : Eventfd where
  requestEvent := 0
  backendLeft := 0
  backendExited := false
  responseEvent := 0
  listenerLeft := 0

inductive Action
  | call (id : Text) (request : EchoRequest)
  | register (i : Nat)
  | write (i : Nat)
  | signal (i : Nat)
  | signalFailed (i : Nat)
  | receive (i : Nat)
  | closed (i : Nat)
  | drop (i : Nat)
  | backendWake
  | backendFailed
  | take
  | respond (j : Nat) (timestampNs processingTimeUs : Int64)
  | signalBack (j : Nat)
  | signalBackFailed (j : Nat)
  | listenerWake
  | listenerFailed
  | drain
  | resolve

def front (s : Exchange) (w : Eventfd) : Action → Option (Eventfd × Option Exchange.Event)
  | .call id request => some (w, some (.call id request))
  | .register i => some (w, some (.register i))
  | .write i => some (w, some (.write i))
  | .signal i => some ({ w with requestEvent := w.requestEvent + 1 }, some (.notified i))
  | .signalFailed i => some (w, some (.notifyFailed i))
  | .receive i => some (w, some (.receive i))
  | .closed i => some (w, some (.closed i))
  | .drop i => do
      -- no await lies between the write and the signal
      let call ← s.calls[i]?
      guard (call.phase ≠ .written)
      some (w, some (.drop i))
  | .backendWake => do
      guard (w.backendExited = false ∧ w.backendLeft = 0 ∧ 0 < w.requestEvent)
      some ({ w with backendLeft := w.requestEvent, requestEvent := 0 }, none)
  | .backendFailed => do
      guard (w.backendLeft = 0)
      some ({ w with backendExited := true }, none)
  | .take => do
      guard (0 < w.backendLeft)
      let w := { w with backendLeft := w.backendLeft - 1 }
      match s.requestRing.read ShmTransport.eventfd.requestBuf with
      | (.ok [], _) => some (w, some .skipRequest)
      | (.ok (_ :: _), _) => some (w, some .serve)
      | (.error _, _) => some (w, none)
  | .respond j ts pt => some (w, some (.respond j ts pt))
  | .signalBack j => some ({ w with responseEvent := w.responseEvent + 1 }, some (.finish j))
  | .signalBackFailed j => some (w, some (.finish j))
  | .listenerWake => do
      guard (w.listenerLeft = 0 ∧ s.inHand = none ∧ 0 < w.responseEvent)
      some ({ w with listenerLeft := w.responseEvent, responseEvent := 0 }, none)
  | .listenerFailed => do
      guard (w.listenerLeft = 0 ∧ s.inHand = none)
      some (w, none)
  | .drain => do
      guard (0 < w.listenerLeft ∧ s.inHand = none)
      match s.responseRing.read ShmTransport.eventfd.responseBuf with
      | (.ok [], _) => some ({ w with listenerLeft := 0 }, some .skipResponse)
      | (.ok (_ :: _), _) => some ({ w with listenerLeft := w.listenerLeft - 1 }, some .fetch)
      | (.error _, _) => some ({ w with listenerLeft := 0 }, none)
  | .resolve => some (w, some .resolve)

abbrev State := Layered Eventfd Exchange

def start (requestCapacity responseCapacity : Nat) : State :=
  ⟨initial, .initial requestCapacity responseCapacity⟩

abbrev step (codecs : IdCodecs) : State → Action → Option State :=
  Layered.step front (Exchange.step codecs .eventfd)

/-! ## What an action does -/

def Action.plain : Action → Option Exchange.Event
  | .call id request => some (.call id request)
  | .register i => some (.register i)
  | .write i => some (.write i)
  | .receive i => some (.receive i)
  | .closed i => some (.closed i)
  | .respond j ts pt => some (.respond j ts pt)
  | .resolve => some .resolve
  | _ => none

inductive Effect (s : Exchange) (w : Eventfd) : Action → Eventfd → Option Exchange.Event → Prop
  | plain {a : Action} {e : Exchange.Event} (event : a.plain = some e) : Effect s w a w (some e)
  | signalled (i : Nat) :
      Effect s w (.signal i) { w with requestEvent := w.requestEvent + 1 } (some (.notified i))
  | signalFailed (i : Nat) : Effect s w (.signalFailed i) w (some (.notifyFailed i))
  | dropped {i : Nat} {call : Call} (here : s.calls[i]? = some call)
      (outside : call.phase ≠ .written) : Effect s w (.drop i) w (some (.drop i))
  | backendWoke (running : w.backendExited = false) (waiting : w.backendLeft = 0)
      (signal : 0 < w.requestEvent) :
      Effect s w .backendWake { w with backendLeft := w.requestEvent, requestEvent := 0 } none
  | backendFailed (waiting : w.backendLeft = 0) :
      Effect s w .backendFailed { w with backendExited := true } none
  | took {b : UInt8} {m : Message} {ring : Fifo} (left : 0 < w.backendLeft)
      (read : s.requestRing.read ShmTransport.eventfd.requestBuf = (.ok (b :: m), ring)) :
      Effect s w .take { w with backendLeft := w.backendLeft - 1 } (some .serve)
  | tookEmpty {ring : Fifo} (left : 0 < w.backendLeft)
      (read : s.requestRing.read ShmTransport.eventfd.requestBuf = (.ok [], ring)) :
      Effect s w .take { w with backendLeft := w.backendLeft - 1 } (some .skipRequest)
  | tookNothing {e : ShmError} {ring : Fifo} (left : 0 < w.backendLeft)
      (read : s.requestRing.read ShmTransport.eventfd.requestBuf = (.error e, ring)) :
      Effect s w .take { w with backendLeft := w.backendLeft - 1 } none
  | signalledBack (j : Nat) :
      Effect s w (.signalBack j) { w with responseEvent := w.responseEvent + 1 } (some (.finish j))
  | signalBackFailed (j : Nat) : Effect s w (.signalBackFailed j) w (some (.finish j))
  | listenerWoke (waiting : w.listenerLeft = 0) (free : s.inHand = none)
      (signal : 0 < w.responseEvent) :
      Effect s w .listenerWake { w with listenerLeft := w.responseEvent, responseEvent := 0 } none
  | listenerFailed (waiting : w.listenerLeft = 0) (free : s.inHand = none) :
      Effect s w .listenerFailed w none
  | drained {b : UInt8} {m : Message} {ring : Fifo} (left : 0 < w.listenerLeft)
      (free : s.inHand = none)
      (read : s.responseRing.read ShmTransport.eventfd.responseBuf = (.ok (b :: m), ring)) :
      Effect s w .drain { w with listenerLeft := w.listenerLeft - 1 } (some .fetch)
  | drainedEmpty {ring : Fifo} (left : 0 < w.listenerLeft) (free : s.inHand = none)
      (read : s.responseRing.read ShmTransport.eventfd.responseBuf = (.ok [], ring)) :
      Effect s w .drain { w with listenerLeft := 0 } (some .skipResponse)
  | drainedNothing {e : ShmError} {ring : Fifo} (left : 0 < w.listenerLeft)
      (free : s.inHand = none)
      (read : s.responseRing.read ShmTransport.eventfd.responseBuf = (.error e, ring)) :
      Effect s w .drain { w with listenerLeft := 0 } none

theorem front_effect {s : Exchange} {w v : Eventfd} {a : Action} {e : Option Exchange.Event}
    (first : front s w a = some (v, e)) : Effect s w a v e := by
  cases a with
  | call | register | write | receive | closed | respond | resolve =>
      cases first
      exact .plain rfl
  | signal i =>
      cases first
      exact .signalled i
  | signalFailed i =>
      cases first
      exact .signalFailed i
  | drop i =>
      obtain ⟨call, here, first⟩ := Option.bind_eq_some_iff.mp first
      obtain ⟨outside, first⟩ := guard_bind_eq_some.mp first
      cases first
      exact .dropped here outside
  | backendWake =>
      obtain ⟨⟨running, waiting, signal⟩, first⟩ := guard_bind_eq_some.mp first
      cases first
      exact .backendWoke running waiting signal
  | backendFailed =>
      obtain ⟨waiting, first⟩ := guard_bind_eq_some.mp first
      cases first
      exact .backendFailed waiting
  | take =>
      obtain ⟨left, first⟩ := guard_bind_eq_some.mp first
      split at first
      · rename_i read
        cases first
        exact .tookEmpty left read
      · rename_i read
        cases first
        exact .took left read
      · rename_i read
        cases first
        exact .tookNothing left read
  | signalBack j =>
      cases first
      exact .signalledBack j
  | signalBackFailed j =>
      cases first
      exact .signalBackFailed j
  | listenerWake =>
      obtain ⟨⟨waiting, free, signal⟩, first⟩ := guard_bind_eq_some.mp first
      cases first
      exact .listenerWoke waiting free signal
  | listenerFailed =>
      obtain ⟨⟨waiting, free⟩, first⟩ := guard_bind_eq_some.mp first
      cases first
      exact .listenerFailed waiting free
  | drain =>
      obtain ⟨⟨left, free⟩, first⟩ := guard_bind_eq_some.mp first
      split at first
      · rename_i read
        cases first
        exact .drainedEmpty left free read
      · rename_i read
        cases first
        exact .drained left free read
      · rename_i read
        cases first
        exact .drainedNothing left free read

theorem step_effect {codecs : IdCodecs} {s u : State} {a : Action}
    (action : step codecs s a = some u) :
    ∃ e, Effect s.back s.front a u.front e ∧
      Layered.advance (Exchange.step codecs .eventfd) s.back e = some u.back := by
  obtain ⟨e, first, second⟩ := (Layered.step_eq_some _ _).mp action
  exact ⟨e, front_effect first, second⟩

end Eventfd

end GatewayGrpc.Transport
