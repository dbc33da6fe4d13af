import GatewayGrpc.Transport.Counting
import GatewayGrpc.Transport.Eventfd

/-!
# Messages and signals of the eventfd transport

In both directions the ring holds as many messages as the counter, the counted loop and the writers
that have not signalled yet stand for.
-/

namespace GatewayGrpc.Transport.Eventfd
open Library Proto SharedMemory Exchange.Event

def Action.Broken : Action → Prop
  | .signalFailed _ | .signalBackFailed _ => True
  | _ => False

def Action.Asks (F : Text × EchoRequest → Prop) : Action → Prop
  | .call id request => F (id, request)
  | _ => True

structure InStep (s : State) : Prop where
  requests : s.back.requestRing.messages.length =
    s.front.requestEvent + s.front.backendLeft + s.back.unsignalled
  responses : s.back.responseRing.messages.length =
    s.front.responseEvent + s.front.listenerLeft + s.back.unannounced

variable (codecs : IdCodecs) in
structure Good (s : State) : Prop where
  sound : s.back.Sound codecs
  asked : s.back.Asked (Exchange.FitsReaders codecs .eventfd)
  inStep : InStep s

variable {codecs : IdCodecs} {s u : State} {a : Action}

theorem silent_of_plain {e : Exchange.Event} (event : a.plain = some e) : e.Silent := by
  cases a <;> cases event <;> trivial

theorem event_asks {F : Text × EchoRequest → Prop} {b : Exchange} {w v : Eventfd}
    {e : Option Exchange.Event} (effect : Effect b w a v e) (asks : a.Asks F) :
    ∀ x ∈ e, x.Asks F := by
  rintro x member
  cases effect with
  | plain event =>
      cases member
      cases a <;> cases event <;> exact asks
  | _ => cases member <;> trivial

theorem good_start (requestCapacity responseCapacity : Nat) :
    Good codecs (start requestCapacity responseCapacity) where
  sound := Exchange.sound_initial codecs _ _
  asked := fun _ member => by cases member
  inStep := ⟨rfl, rfl⟩

theorem Good.read_request (good : Good codecs s) (left : 0 < s.front.backendLeft) :
    ∃ b m ring, s.back.requestRing.read ShmTransport.eventfd.requestBuf = (.ok (b :: m), ring) := by
  apply good.sound.read_request (good.asked.mono fun _ fits => fits.1)
  intro empty
  have counted := good.inStep.requests
  rw [empty, List.length_nil] at counted
  omega

theorem Good.read_answer (good : Good codecs s) (left : 0 < s.front.listenerLeft) :
    ∃ b m ring, s.back.responseRing.read ShmTransport.eventfd.responseBuf =
      (.ok (b :: m), ring) := by
  apply good.sound.read_answer (good.asked.mono fun _ fits => fits.2)
  intro empty
  have counted := good.inStep.responses
  rw [empty, List.length_nil] at counted
  omega

theorem inStep_of {v : Eventfd} {c : Exchange} {e : Option Exchange.Event}
    (good : Good codecs s)
    (second : Layered.advance (Exchange.step codecs .eventfd) s.back e = some c)
    (requests : s.front.requestEvent + s.front.backendLeft + count (leaves s.back) e =
      v.requestEvent + v.backendLeft + count takes e)
    (responses : s.front.responseEvent + s.front.listenerLeft + count announces e =
      v.responseEvent + v.listenerLeft + count fetches e) : InStep ⟨v, c⟩ := by
  have requestsChanged := Exchange.request_balance_advance second good.sound
  have responsesChanged := Exchange.answer_balance_advance second good.sound
  have requestsBefore := good.inStep.requests
  have responsesBefore := good.inStep.responses
  constructor <;> dsimp only <;> omega

theorem inStep_step (good : Good codecs s) (working : ¬ a.Broken)
    (action : step codecs s a = some u) : InStep u := by
  obtain ⟨v, c⟩ := u
  obtain ⟨e, effect, second⟩ := step_effect action
  cases effect with
  | plain event =>
      obtain ⟨noTake, noFetch, noFinish, noLeave⟩ := (silent_of_plain event).counts s.back
      exact inStep_of good second (by simp [count, noTake, noLeave])
        (by simp [count, noFetch, noFinish])
  | signalled i =>
      exact inStep_of good second (by simp [count, takes, leaves]; omega)
        (by simp [count, fetches, announces])
  | signalFailed | signalBackFailed => exact absurd trivial working
  | @dropped i call here outside =>
      have stays : s.back.phase? i ≠ some .written := by
        rw [Exchange.phase?, here, Option.map_some]
        simpa using outside
      exact inStep_of good second (by simp [count, takes, leaves, stays])
        (by simp [count, fetches, announces])
  | backendWoke running waiting signal =>
      exact inStep_of good second (by simp [count, waiting]) rfl
  | backendFailed | listenerFailed => exact inStep_of good second rfl rfl
  | took left read =>
      exact inStep_of good second (by simp [count, takes, leaves]; omega)
        (by simp [count, fetches, announces])
  | tookEmpty left read | tookNothing left read =>
      obtain ⟨b, m, ring, ok⟩ := good.read_request left
      cases read.symm.trans ok
  | signalledBack j =>
      exact inStep_of good second (by simp [count, takes, leaves])
        (by simp [count, fetches, announces]; omega)
  | listenerWoke waiting free signal =>
      exact inStep_of good second rfl (by simp [count, waiting])
  | drained left free read =>
      exact inStep_of good second (by simp [count, takes, leaves])
        (by simp [count, fetches, announces]; omega)
  | drainedEmpty left free read | drainedNothing left free read =>
      obtain ⟨b, m, ring, ok⟩ := good.read_answer left
      cases read.symm.trans ok

theorem Good.step (good : Good codecs s) (asks : a.Asks (Exchange.FitsReaders codecs .eventfd))
    (working : ¬ a.Broken) (action : step codecs s a = some u) : Good codecs u := by
  refine ⟨Layered.preserved (fun _ _ _ sound action => sound.step action) good.sound action, ?_,
    inStep_step good working action⟩
  obtain ⟨e, effect, second⟩ := step_effect action
  exact good.asked.advance second (event_asks effect asks)

theorem good_of_run {requestCapacity responseCapacity : Nat} {actions : List Action}
    (ran : run (step codecs) (start requestCapacity responseCapacity) actions = some s)
    (fits : ∀ a ∈ actions, a.Asks (Exchange.FitsReaders codecs .eventfd))
    (working : ∀ a ∈ actions, ¬ a.Broken) : Good codecs s :=
  run_invariant_of_forall (fun _ _ _ good ok action => good.step ok.1 ok.2 action)
    (good_start _ _) (fun a member => And.intro (fits a member) (working a member)) ran

/-- Messages and signals are in step in both directions, and a read inside a counted loop finds a
message. -/
theorem signals_in_step (codecs : IdCodecs) (requestCapacity responseCapacity : Nat)
    (actions : List Action) (s : State)
    (ran : run (step codecs) (start requestCapacity responseCapacity) actions = some s)
    (fits : ∀ a ∈ actions, a.Asks (Exchange.FitsReaders codecs .eventfd))
    (working : ∀ a ∈ actions, ¬ a.Broken) :
    InStep s ∧
    (0 < s.front.backendLeft → ∃ b m ring,
      s.back.requestRing.read ShmTransport.eventfd.requestBuf = (.ok (b :: m), ring)) ∧
    (0 < s.front.listenerLeft → ∃ b m ring,
      s.back.responseRing.read ShmTransport.eventfd.responseBuf = (.ok (b :: m), ring)) := by
  have good := good_of_run ran fits working
  exact ⟨good.inStep, good.read_request, good.read_answer⟩

def batchRun : List Action :=
  [.call sampleId ping, .call otherId ping, .register 0, .register 1, .write 0, .write 1,
    .signal 1, .signal 0, .backendWake, .take]

theorem signals_in_step_batch :
    ∃ s, run (step bincodeCodecs) (start 4096 4096) batchRun = some s ∧ InStep s := by
  have ran : (run (step bincodeCodecs) (start 4096 4096) batchRun).isSome := rfl
  refine ⟨_, (Option.some_get ran).symm, (signals_in_step bincodeCodecs 4096 4096 batchRun _
    (Option.some_get ran).symm ?_ ?_).1⟩
  · simp only [batchRun, List.forall_mem_cons]
    exact ⟨Exchange.fitsReaders_bincode (by decide), Exchange.fitsReaders_bincode (by decide),
      trivial, trivial, trivial, trivial, trivial, trivial, trivial, trivial, by simp⟩
  · simp [batchRun, Action.Broken]

end GatewayGrpc.Transport.Eventfd
