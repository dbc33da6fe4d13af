import GatewayGrpc.Library.Simulation
import GatewayGrpc.SharedMemory.EventFd
import GatewayGrpc.Transport.Signals

/-!
# How high the counters rise

A signal follows a message into the ring, so the counters never stand for more messages than the
ring holds. That bounds them whatever fails, and far below the value at which the kernel refuses a
signal with `EAGAIN`, which `signal_eventfd` takes for a success.
-/

namespace GatewayGrpc.Transport
open Library Proto SharedMemory

theorem four_mul_length_le_streamSize (messages : List Message) :
    4 * messages.length ≤ streamSize messages := by
  induction messages with
  | nil => simp
  | cons m messages ih =>
      rw [streamSize_cons, List.length_cons, frameSize]
      omega

namespace Exchange

structure Within (requestCapacity responseCapacity : Nat) (s : Exchange) : Prop where
  request : s.requestRing.capacity = requestCapacity
  requestUsed : s.requestRing.used ≤ requestCapacity - 1
  response : s.responseRing.capacity = responseCapacity
  responseUsed : s.responseRing.used ≤ responseCapacity - 1

variable {codecs : IdCodecs} {t : ShmTransport} {s u : Exchange} {e : Event}
  {requestCapacity responseCapacity : Nat}

theorem within_initial (requestCapacity responseCapacity : Nat) :
    (initial requestCapacity responseCapacity).Within requestCapacity responseCapacity where
  request := rfl
  requestUsed := Nat.zero_le _
  response := rfl
  responseUsed := Nat.zero_le _

theorem used_append {q : Fifo} {m : Message} (room : q.Room m) :
    ({ q with messages := q.messages ++ [m] } : Fifo).used ≤ q.capacity - 1 := by
  simpa [Fifo.used, Fifo.Room] using room

theorem used_read {q ring : Fifo} {m : Message} {bufLen : Nat}
    (read : q.read bufLen = (.ok m, ring)) : ring.used ≤ q.used ∧ ring.capacity = q.capacity := by
  obtain ⟨_, held, capacity⟩ := Fifo.read_eq_ok read
  refine ⟨?_, capacity⟩
  rw [Fifo.used, Fifo.used, held, streamSize_cons]
  omega

theorem Within.step (within : s.Within requestCapacity responseCapacity)
    (action : step codecs t s e = some u) : u.Within requestCapacity responseCapacity := by
  obtain ⟨request, requestUsed, response, responseUsed⟩ := within
  cases step_effect action with
  | wrote here registered room =>
      exact ⟨request, request ▸ used_append room, response, responseUsed⟩
  | answered ts pt here running room =>
      exact ⟨request, requestUsed, response, response ▸ used_append room⟩
  | served read | skippedRequest read =>
      obtain ⟨used, capacity⟩ := used_read read
      exact ⟨capacity.trans request, used.trans requestUsed, response, responseUsed⟩
  | fetched free read | skippedResponse free read =>
      obtain ⟨used, capacity⟩ := used_read read
      exact ⟨request, requestUsed, capacity.trans response, used.trans responseUsed⟩
  | _ => exact ⟨request, requestUsed, response, responseUsed⟩

end Exchange

namespace Eventfd

structure Backed (s : State) : Prop where
  requests : s.front.requestEvent + s.front.backendLeft + s.back.unsignalled ≤
    s.back.requestRing.messages.length
  responses : s.front.responseEvent + s.front.listenerLeft + s.back.unannounced ≤
    s.back.responseRing.messages.length

variable (codecs : IdCodecs) in
structure Bounded (requestCapacity responseCapacity : Nat) (s : State) : Prop where
  sound : s.back.Sound codecs
  backed : Backed s
  within : s.back.Within requestCapacity responseCapacity

variable {codecs : IdCodecs} {s u : State} {a : Action} {requestCapacity responseCapacity : Nat}

theorem bounded_start (requestCapacity responseCapacity : Nat) :
    Bounded codecs requestCapacity responseCapacity (start requestCapacity responseCapacity) where
  sound := Exchange.sound_initial codecs _ _
  backed := ⟨Nat.le_refl 0, Nat.le_refl 0⟩
  within := Exchange.within_initial _ _

open Exchange.Event in
theorem Backed.step (backed : Backed s) (sound : s.back.Sound codecs)
    (action : step codecs s a = some u) : Backed u := by
  obtain ⟨w, b⟩ := s
  obtain ⟨v, c⟩ := u
  obtain ⟨requests, responses⟩ := backed
  obtain ⟨e, effect, second⟩ := step_effect action
  have requestsChanged := Exchange.request_balance_advance second sound
  have responsesChanged := Exchange.answer_balance_advance second sound
  dsimp only at *
  cases effect with
  | plain event =>
      obtain ⟨noTake, noFetch, noFinish, noLeave⟩ := (silent_of_plain event).counts b
      simp only [count, Option.elim, noTake, noFetch, noFinish, noLeave]
        at requestsChanged responsesChanged
      constructor <;> dsimp only <;> omega
  | backendWoke running waiting signal | backendFailed | listenerWoke waiting free signal
  | listenerFailed
  | tookNothing left read | drainedNothing left free read =>
      simp only [count, Option.elim] at requestsChanged responsesChanged
      constructor <;> dsimp only <;> omega
  | _ =>
      simp only [count, Option.elim, takes, leaves, fetches, announces]
        at requestsChanged responsesChanged
      constructor <;> dsimp only <;> omega

theorem Bounded.step (bounded : Bounded codecs requestCapacity responseCapacity s)
    (action : step codecs s a = some u) : Bounded codecs requestCapacity responseCapacity u where
  sound := Layered.preserved (fun _ _ _ sound => sound.step) bounded.sound action
  backed := bounded.backed.step bounded.sound action
  within := Layered.preserved (fun _ _ _ within => within.step) bounded.within action

/-! ## The counters of the kernel -/

/-- `write` of the number 1. A counter stays below the greatest 64-bit number. -/
def kernelWrite (counter : Nat) : Except Errno Nat :=
  if counter + 1 < UInt64.size - 1 then .ok (counter + 1) else .error .eagain

def signalEventfd (counter : Nat) : Except Errno Nat :=
  match kernelWrite counter with
  | .ok raised => .ok raised
  | .error .eagain => .ok counter
  | .error e => .error e

def kernelFront (s : Exchange) (w : Eventfd) : Action → Option (Eventfd × Option Exchange.Event)
  | .signal i =>
      match signalEventfd w.requestEvent with
      | .ok counter => some ({ w with requestEvent := counter }, some (.notified i))
      | .error _ => some (w, some (.notifyFailed i))
  | .signalBack j =>
      match signalEventfd w.responseEvent with
      | .ok counter => some ({ w with responseEvent := counter }, some (.finish j))
      | .error _ => some (w, some (.finish j))
  | a => front s w a

abbrev kernelStep (codecs : IdCodecs) : State → Action → Option State :=
  Layered.step kernelFront (Exchange.step codecs .eventfd)

structure Rises (w : Eventfd) : Prop where
  request : kernelWrite w.requestEvent = .ok (w.requestEvent + 1)
  response : kernelWrite w.responseEvent = .ok (w.responseEvent + 1)

theorem kernelWrite_of_held {counter capacity : Nat} {ring : Fifo} (small : capacity < 2 ^ 32)
    (used : ring.used ≤ capacity - 1) (counted : counter ≤ ring.messages.length) :
    kernelWrite counter = .ok (counter + 1) := by
  have held := four_mul_length_le_streamSize ring.messages
  rw [Fifo.used] at used
  refine if_pos ?_
  simp only [UInt64.size]
  omega

theorem Bounded.rises (bounded : Bounded codecs requestCapacity responseCapacity s)
    (smallRequest : requestCapacity < 2 ^ 32) (smallResponse : responseCapacity < 2 ^ 32) :
    s.front.Rises := by
  obtain ⟨requests, responses⟩ := bounded.backed
  constructor
  · exact kernelWrite_of_held smallRequest bounded.within.requestUsed (by omega)
  · exact kernelWrite_of_held smallResponse bounded.within.responseUsed (by omega)

theorem Rises.kernelFront_eq {b : Exchange} {w : Eventfd} (rises : w.Rises) (a : Action) :
    kernelFront b w a = front b w a := by
  cases a with
  | signal i => simp only [kernelFront, signalEventfd, rises.request, front]
  | signalBack j => simp only [kernelFront, signalEventfd, rises.response, front]
  | _ => rfl

/-- No signal is swallowed: in every run each write to an eventfd raises its counter, which never
stands for more messages than its ring holds. -/
theorem signals_never_swallowed (codecs : IdCodecs) (requestCapacity responseCapacity : Nat)
    (smallRequest : requestCapacity < 2 ^ 32) (smallResponse : responseCapacity < 2 ^ 32)
    (actions : List Action) :
    run (kernelStep codecs) (start requestCapacity responseCapacity) actions =
        run (step codecs) (start requestCapacity responseCapacity) actions ∧
      ∀ s, run (kernelStep codecs) (start requestCapacity responseCapacity) actions = some s →
        Backed s ∧ s.front.Rises := by
  have preserved (s a t) (bounded : Bounded codecs requestCapacity responseCapacity s)
      (action : step codecs s a = some t) : Bounded codecs requestCapacity responseCapacity t :=
    bounded.step action
  have first : Bounded codecs requestCapacity responseCapacity
      (start requestCapacity responseCapacity) := bounded_start _ _
  have steps (s a) (bounded : Bounded codecs requestCapacity responseCapacity s) :
      kernelStep codecs s a = step codecs s a := by
    simp only [Layered.step, (bounded.rises smallRequest smallResponse).kernelFront_eq]
  have same := run_congr preserved steps first actions
  refine ⟨same, fun s ran => ?_⟩
  have bounded := run_preserves preserved first (same ▸ ran)
  exact ⟨bounded.backed, bounded.rises smallRequest smallResponse⟩

theorem signals_never_swallowed_twice :
    ∃ s, run (kernelStep bincodeCodecs) (start 4096 4096) (batchRun.take 8) = some s ∧
      s.front.requestEvent = 2 ∧ Backed s := by
  have ran : (run (kernelStep bincodeCodecs) (start 4096 4096) (batchRun.take 8)).isSome := rfl
  have both := (signals_never_swallowed bincodeCodecs 4096 4096 (by decide) (by decide) _).2 _
    (Option.some_get ran).symm
  exact ⟨_, (Option.some_get ran).symm, rfl, both.1⟩

end Eventfd

end GatewayGrpc.Transport
