import GatewayGrpc.Library.Potential
import GatewayGrpc.Transport.Quiescence

/-!
# Every call returns in time

No party waits actively: each action of either id-based transport brings a call, a task, a message
or a signal nearer to its end. So a run has a bounded number of actions for each call, in whatever
order the parties take their turns, and comes to rest without any fairness. Only a wait on an
eventfd that fails brings nothing on, and the gateway's listener then waits again.
-/

namespace GatewayGrpc.Transport
open Library Proto SharedMemory

namespace Exchange

/-- What a call can still cost, itself and the notification lock that it holds or takes. -/
def Phase.left : Phase → Nat
  | .starting => 26
  | .registered => 20
  | .written => 10
  | .waiting => 5
  | .returned _ | .dropped => 0

def TaskPhase.left : TaskPhase → Nat
  | .running => 8
  | .written => 5
  | .finished | .refused => 0

def left (s : Exchange) : Nat :=
  (s.calls.map fun call => Phase.left call.phase).sum + 9 * s.requestRing.messages.length +
    (s.tasks.map fun task => TaskPhase.left task.phase).sum + 2 * s.responseRing.messages.length +
    s.inHand.toList.length

def Event.price : Event → Nat
  | .notified _ | .notifyFailed _ | .drop _ | .finish _ => 5
  | _ => 1

variable {codecs : IdCodecs} {t : ShmTransport} {s u : Exchange} {e : Event}

theorem left_setCall {i : Nat} {call : Call} (here : s.calls[i]? = some call) (other : Call) :
    (s.setCall i other).left + Phase.left call.phase = s.left + Phase.left other.phase := by
  have := sum_map_set_of (y := other) (fun call => Phase.left call.phase) here
  simp only [left, setCall]
  omega

theorem left_setTask {j : Nat} {task : Task} (here : s.tasks[j]? = some task) (other : Task) :
    (s.setTask j other).left + TaskPhase.left task.phase = s.left + TaskPhase.left other.phase := by
  have := sum_map_set_of (y := other) (fun task => TaskPhase.left task.phase) here
  simp only [left, setTask]
  omega

theorem Moves.price_le {i : Nat} {call : Call} {phase : Phase}
    (moves : Moves codecs s i call e phase) :
    Phase.left phase + e.price ≤ Phase.left call.phase := by
  cases moves with
  | writeRefused here | notified here | notifyFailed here | received here | closed here =>
      simp [here, Phase.left, Event.price]
  | dropped here =>
      rcases here with here | here | here <;> simp [here, Phase.left, Event.price]

theorem left_step (sound : s.Sound codecs) (action : step codecs t s e = some u) :
    u.left + e.price + 27 * s.calls.length ≤ s.left + 27 * u.calls.length := by
  cases step_effect action with
  | @called id request fresh =>
      simp only [left, List.map_append, List.sum_append, List.length_append, List.map_singleton,
        List.sum_singleton, List.length_singleton, Phase.left, Event.price]
      omega
  | @registered i call here starting =>
      have := left_setCall here { call with phase := .registered }
      simp only [starting, Phase.left] at this
      simp only [left, setCall, List.length_set, Event.price] at this ⊢
      omega
  | @wrote i call here registered room =>
      have := left_setCall here { call with phase := .written, accepted := true }
      simp only [registered, Phase.left] at this
      simp only [left, setCall, List.length_set, List.length_append, List.length_singleton,
        Event.price] at this ⊢
      omega
  | @moved _ i call phase here moves =>
      have := left_setCall here { call with phase := phase }
      have := moves.price_le
      have same : (s.setCall i { call with phase := phase }).calls.length = s.calls.length :=
        List.length_set
      dsimp only at *
      omega
  | served read decoded =>
      obtain ⟨_, held, _⟩ := Fifo.read_eq_ok read
      simp only [left, held, List.map_append, List.sum_append, List.length_cons, List.map_singleton,
        List.sum_singleton, TaskPhase.left, Event.price]
      omega
  | skippedRequest read unusable => exact absurd unusable (sound.intake.usable read)
  | @answered j task ts pt here running room =>
      have := left_setTask here { task with phase := .written }
      simp only [running, TaskPhase.left] at this
      simp only [left, setTask, List.length_append, List.length_singleton, Event.price] at this ⊢
      omega
  | @answerRefused j task ts pt here running full =>
      have := left_setTask here { task with phase := .refused }
      simp only [running, TaskPhase.left] at this
      simp only [left, setTask, Event.price] at this ⊢
      omega
  | @finished j task here written =>
      have := left_setTask here { task with phase := .finished }
      simp only [written, TaskPhase.left] at this
      simp only [left, setTask, Event.price] at this ⊢
      omega
  | fetched free read decoded =>
      obtain ⟨_, held, _⟩ := Fifo.read_eq_ok read
      simp only [left, held, free, Option.toList_none, Option.toList_some, List.length_nil,
        List.length_cons, Event.price]
      omega
  | skippedResponse free read unusable => exact absurd unusable (sound.answers.usable read)
  | @resolved id response i call held found here =>
      have := left_setCall here { call with reply := some response }
      dsimp only at this
      simp only [left, setCall, List.length_set, held, Option.toList_none, Option.toList_some,
        List.length_nil, List.length_singleton, Event.price] at this ⊢
      omega
  | unclaimed held missing =>
      simp only [left, held, Option.toList_none, Option.toList_some, List.length_nil,
        List.length_singleton, Event.price]
      omega

theorem left_advance {e : Option Event} (sound : s.Sound codecs)
    (second : Layered.advance (Exchange.step codecs t) s e = some u) :
    u.left + Event.count Event.price e + 27 * s.calls.length ≤ s.left + 27 * u.calls.length := by
  cases e with
  | none =>
      cases second
      exact Nat.le_refl _
  | some e => exact left_step sound second

theorem length_advance {e : Option Event}
    (second : Layered.advance (Exchange.step codecs t) s e = some u)
    (old : ∀ x ∈ e, ∀ id request, x ≠ .call id request) : u.calls.length = s.calls.length := by
  cases e with
  | none =>
      cases second
      rfl
  | some e =>
      cases step_effect second with
      | called request fresh => exact absurd rfl (old _ rfl _ _)
      | registered | wrote | moved | resolved => exact List.length_set
      | _ => rfl

end Exchange

namespace Uds

def lockLeft : Option (Nat × Bool) → Nat
  | none => 4
  | some (_, false) => 3
  | some (_, true) => 0

def Listener.left : Listener → Nat
  | .waiting => 1
  | .awake => 2
  | .exited => 0

def left (s : State) : Nat :=
  lockLeft s.front.notifyLock + 2 * s.front.requestBytes + Listener.left s.front.backend +
    lockLeft s.front.writeLock + 2 * s.front.responseBytes + Listener.left s.front.listener +
    s.back.left

variable {codecs : IdCodecs} {s u : State} {a : Action}

theorem lockLeft_filter (lock : Option (Nat × Bool)) (p : Nat × Bool → Bool) :
    lockLeft (lock.filter p) ≤ lockLeft lock + 4 := by
  rcases lock with _ | holder
  · simp [lockLeft]
  · cases keep : p holder <;> simp [Option.filter, keep, lockLeft]

theorem left_step (sound : s.back.Sound codecs) (action : step codecs s a = some u) :
    left u + 1 + 27 * s.back.calls.length ≤ left s + 27 * u.back.calls.length := by
  obtain ⟨w, b⟩ := s
  obtain ⟨v, c⟩ := u
  obtain ⟨e, effect, second⟩ := step_effect action
  have back := Exchange.left_advance sound second
  simp only [Exchange.Event.count, Option.elim] at back
  simp only [left]
  dsimp only at *
  cases effect with
  | plain event =>
      cases a <;> cases event
      all_goals
        simp only [Exchange.Event.price] at back
        omega
  | dropped i =>
      have := lockLeft_filter w.notifyLock fun holder => holder.1 ≠ i
      simp only [Exchange.Event.price] at back
      dsimp only
      omega
  | lockedNotify here written free | lockedWrite here written free =>
      simp only [free, lockLeft]
      omega
  | notified held | notifiedBack held =>
      simp only [held, lockLeft]
      omega
  | notifyFailed held | flushed held | flushFailed held | notifyBackFailed held
  | flushedBack held =>
      simp only [Exchange.Event.price] at back
      simp only [held, lockLeft]
      omega
  | backendWoke waiting byte | listenerWoke waiting byte =>
      simp only [waiting, Listener.left]
      omega
  | backendFailed waiting | listenerFailed waiting =>
      simp only [waiting, Listener.left]
      omega
  | took awake read =>
      simp only [Exchange.Event.price] at back
      simp only [awake, Listener.left]
      omega
  | drained awake free read =>
      simp only [Exchange.Event.price] at back
      omega
  | tookNothing awake read | drainedAll awake free read =>
      simp only [awake, Listener.left]
      omega

theorem Action.Internal.smooth (internal : a.Internal) : a.Smooth := by
  cases a <;> first | exact internal | trivial

theorem Action.Internal.asks {F : Text × EchoRequest → Prop} (internal : a.Internal) :
    a.Asks F := by
  cases a <;> first | exact internal.elim | trivial

theorem event_old {b : Exchange} {w v : Uds} {e : Option Exchange.Event}
    (effect : Effect b w a v e) (internal : a.Internal) :
    ∀ x ∈ e, ∀ id request, x ≠ .call id request := by
  rintro x member id request rfl
  cases effect with
  | plain event =>
      cases member
      cases a <;> cases event
      exact internal
  | _ => cases member

theorem left_lt (sound : s.back.Sound codecs) (internal : a.Internal)
    (action : step codecs s a = some u) : left u < left s := by
  have lowered := left_step sound action
  obtain ⟨e, effect, second⟩ := step_effect action
  rw [Exchange.length_advance second (event_old effect internal)] at lowered
  omega

theorem comes_to_rest (calm : Calm codecs s) :
    ∃ rest u, (∀ a ∈ rest, a.Internal) ∧ run (step codecs) s rest = some u ∧ Calm codecs u ∧
      Quiescent codecs u :=
  exists_exhausted left
    (fun _ _ _ calm internal action => calm.step internal.asks internal.smooth action)
    (fun _ _ _ calm internal action => left_lt calm.good.sound internal action) calm

theorem left_run {actions : List Action} (sound : s.back.Sound codecs)
    (ran : run (step codecs) s actions = some u) :
    left u + actions.length + 27 * s.back.calls.length ≤ left s + 27 * u.back.calls.length := by
  have along : Along (step codecs) (fun s _ => s.back.Sound codecs) s actions :=
    Along.imp (P := fun _ _ => True)
      (fun _ _ _ sound _ action => Layered.preserved (fun _ _ _ sound => sound.step) sound action)
      (fun _ _ _ sound _ _ => sound) sound (along_of_forall (fun _ _ _ => trivial) _) ran
  have paid := run_paid (p := fun _ => true) left (fun s => 27 * s.back.calls.length)
    (fun _ _ _ sound action => left_step sound action) along ran
  rwa [List.countP_true] at paid

theorem length_le {requestCapacity responseCapacity : Nat} {actions : List Action}
    (ran : run (step codecs) (start requestCapacity responseCapacity) actions = some s) :
    actions.length ≤ 27 * s.back.calls.length + 10 := by
  have paid := left_run (Exchange.sound_initial codecs _ _) ran
  have first : left (start requestCapacity responseCapacity) = 10 ∧
      (start requestCapacity responseCapacity).back.calls.length = 0 := ⟨rfl, rfl⟩
  omega

end Uds

namespace Eventfd

def Action.counts : Action → Bool
  | .backendFailed | .listenerFailed => false
  | _ => true

def left (s : State) : Nat :=
  2 * s.front.requestEvent + s.front.backendLeft + 2 * s.front.responseEvent +
    s.front.listenerLeft + s.back.left

variable {codecs : IdCodecs} {s u : State} {a : Action}

theorem left_step (sound : s.back.Sound codecs) (action : step codecs s a = some u) :
    left u + a.counts.toNat + 27 * s.back.calls.length ≤ left s + 27 * u.back.calls.length := by
  obtain ⟨w, b⟩ := s
  obtain ⟨v, c⟩ := u
  obtain ⟨e, effect, second⟩ := step_effect action
  have back := Exchange.left_advance sound second
  have one := Bool.toNat_le a.counts
  simp only [Exchange.Event.count, Option.elim] at back
  simp only [left]
  dsimp only at *
  cases effect with
  | plain event =>
      cases a <;> cases event
      all_goals
        simp only [Exchange.Event.price] at back
        omega
  | signalFailed i | dropped here outside | signalBackFailed j =>
      simp only [Exchange.Event.price] at back
      omega
  | signalled i | took left read | tookEmpty left read | signalledBack j | drained left free read
  | drainedEmpty left free read =>
      simp only [Exchange.Event.price] at back
      dsimp only
      omega
  | backendWoke running waiting signal | listenerWoke waiting free signal
  | tookNothing left read | drainedNothing left free read =>
      dsimp only
      omega
  | backendFailed | listenerFailed =>
      simp only [Action.counts, Bool.toNat_false]
      omega

theorem Action.Internal.smooth (internal : a.Internal) : a.Smooth := by
  cases a <;> first | exact internal | trivial

theorem Action.Internal.asks {F : Text × EchoRequest → Prop} (internal : a.Internal) :
    a.Asks F := by
  cases a <;> first | exact internal.elim | trivial

theorem event_old {b : Exchange} {w v : Eventfd} {e : Option Exchange.Event}
    (effect : Effect b w a v e) (internal : a.Internal) :
    ∀ x ∈ e, ∀ id request, x ≠ .call id request := by
  rintro x member id request rfl
  cases effect with
  | plain event =>
      cases member
      cases a <;> cases event
      exact internal
  | _ => cases member

theorem left_lt (sound : s.back.Sound codecs) (internal : a.Internal)
    (action : step codecs s a = some u) : left u < left s := by
  have counts : a.counts = true := by cases a <;> first | rfl | exact internal.elim
  have lowered := left_step sound action
  rw [counts, Bool.toNat_true] at lowered
  obtain ⟨e, effect, second⟩ := step_effect action
  rw [Exchange.length_advance second (event_old effect internal)] at lowered
  omega

theorem comes_to_rest (calm : Calm codecs s) :
    ∃ rest u, (∀ a ∈ rest, a.Internal) ∧ run (step codecs) s rest = some u ∧ Calm codecs u ∧
      Quiescent codecs u :=
  exists_exhausted left
    (fun _ _ _ calm internal action => calm.step internal.asks internal.smooth action)
    (fun _ _ _ calm internal action => left_lt calm.good.sound internal action) calm

theorem left_run {actions : List Action} (sound : s.back.Sound codecs)
    (ran : run (step codecs) s actions = some u) :
    left u + actions.countP Action.counts + 27 * s.back.calls.length ≤
      left s + 27 * u.back.calls.length := by
  have along : Along (step codecs) (fun s _ => s.back.Sound codecs) s actions :=
    Along.imp (P := fun _ _ => True)
      (fun _ _ _ sound _ action => Layered.preserved (fun _ _ _ sound => sound.step) sound action)
      (fun _ _ _ sound _ _ => sound) sound (along_of_forall (fun _ _ _ => trivial) _) ran
  exact run_paid left (fun s => 27 * s.back.calls.length)
    (fun _ _ _ sound action => left_step sound action) along ran

theorem countP_le {requestCapacity responseCapacity : Nat} {actions : List Action}
    (ran : run (step codecs) (start requestCapacity responseCapacity) actions = some s) :
    actions.countP Action.counts ≤ 27 * s.back.calls.length := by
  have paid := left_run (Exchange.sound_initial codecs _ _) ran
  have first : left (start requestCapacity responseCapacity) = 0 ∧
      (start requestCapacity responseCapacity).back.calls.length = 0 := ⟨rfl, rfl⟩
  omega

end Eventfd

/-- No schedule of the parties runs on without new calls, waits that fail apart. However far a run
has got, a few more steps bring both transports to rest, and there every call has returned exactly
if no answer was refused. -/
theorem runs_come_to_rest (codecs : IdCodecs) (requestCapacity responseCapacity : Nat) :
    (∀ actions s, run (Uds.step codecs) (Uds.start requestCapacity responseCapacity) actions =
        some s →
      actions.length ≤ 27 * s.back.calls.length + 10 ∧
      ((∀ a ∈ actions, a.Smooth) → (∀ a ∈ actions, a.Asks (Exchange.FitsReaders codecs .uds)) →
        ∃ rest u, (∀ a ∈ rest, a.Internal) ∧ run (Uds.step codecs) s rest = some u ∧
          Uds.Quiescent codecs u ∧
          (u.back.AllReturned ↔ Along (Uds.step codecs)
            (Layered.OnEvent Uds.front (Exchange.AnswerFindsRoom codecs))
            (Uds.start requestCapacity responseCapacity) (actions ++ rest)))) ∧
    ∀ actions s, run (Eventfd.step codecs) (Eventfd.start requestCapacity responseCapacity)
        actions = some s →
      actions.countP Eventfd.Action.counts ≤ 27 * s.back.calls.length ∧
      ((∀ a ∈ actions, a.Smooth) →
        (∀ a ∈ actions, a.Asks (Exchange.FitsReaders codecs .eventfd)) →
        ∃ rest u, (∀ a ∈ rest, a.Internal) ∧ run (Eventfd.step codecs) s rest = some u ∧
          Eventfd.Quiescent codecs u ∧
          (u.back.AllReturned ↔ Along (Eventfd.step codecs)
            (Layered.OnEvent Eventfd.front (Exchange.AnswerFindsRoom codecs))
            (Eventfd.start requestCapacity responseCapacity) (actions ++ rest))) := by
  constructor
  · intro actions s ran
    refine ⟨Uds.length_le ran, fun smooth fits => ?_⟩
    have calm := Uds.calm_of_run ran smooth fits
    obtain ⟨rest, u, internal, ranOn, calm, quiet⟩ := Uds.comes_to_rest calm
    have whole : run (Uds.step codecs) (Uds.start requestCapacity responseCapacity)
        (actions ++ rest) = some u := by
      rw [run_append, ran]
      exact ranOn
    refine ⟨rest, u, internal, ranOn, quiet, ?_⟩
    exact (calm.good.sound.allReturned_iff (quiet.settled calm) calm.undisturbed).trans
      (Exchange.noneRefused_run whole)
  · intro actions s ran
    refine ⟨Eventfd.countP_le ran, fun smooth fits => ?_⟩
    have calm := Eventfd.calm_of_run ran smooth fits
    obtain ⟨rest, u, internal, ranOn, calm, quiet⟩ := Eventfd.comes_to_rest calm
    have whole : run (Eventfd.step codecs) (Eventfd.start requestCapacity responseCapacity)
        (actions ++ rest) = some u := by
      rw [run_append, ran]
      exact ranOn
    refine ⟨rest, u, internal, ranOn, quiet, ?_⟩
    exact (calm.good.sound.allReturned_iff (quiet.settled calm) calm.undisturbed).trans
      (Exchange.noneRefused_run whole)

theorem runs_come_to_rest_answered :
    (∃ s rest u, run (Uds.step bincodeCodecs) (Uds.start 4096 4096) (Uds.answeredRun.take 7) =
        some s ∧
      run (Uds.step bincodeCodecs) s rest = some u ∧ Uds.Quiescent bincodeCodecs u) ∧
    ∃ s rest u, run (Eventfd.step bincodeCodecs) (Eventfd.start 4096 4096)
        (Eventfd.answeredRun.take 5) = some s ∧
      run (Eventfd.step bincodeCodecs) s rest = some u ∧ Eventfd.Quiescent bincodeCodecs u := by
  have fits : ∀ t, Exchange.FitsReaders bincodeCodecs t (sampleId, ping) :=
    fun t => Exchange.fitsReaders_bincode (by decide)
  have ranUds : (run (Uds.step bincodeCodecs) (Uds.start 4096 4096)
      (Uds.answeredRun.take 7)).isSome := rfl
  have ranEventfd : (run (Eventfd.step bincodeCodecs) (Eventfd.start 4096 4096)
      (Eventfd.answeredRun.take 5)).isSome := rfl
  constructor
  · obtain ⟨rest, u, _, ran, quiet, _⟩ := ((runs_come_to_rest bincodeCodecs 4096 4096).1 _ _
      (Option.some_get ranUds).symm).2
      (by simp [Uds.answeredRun, Uds.Action.Smooth, Uds.Action.Internal])
      (by simpa [Uds.answeredRun, Uds.Action.Asks] using fits .uds)
    exact ⟨_, rest, u, (Option.some_get ranUds).symm, ran, quiet⟩
  · obtain ⟨rest, u, _, ran, quiet, _⟩ := ((runs_come_to_rest bincodeCodecs 4096 4096).2 _ _
      (Option.some_get ranEventfd).symm).2
      (by simp [Eventfd.answeredRun, Eventfd.Action.Smooth, Eventfd.Action.Internal])
      (by simpa [Eventfd.answeredRun, Eventfd.Action.Asks] using fits .eventfd)
    exact ⟨_, rest, u, (Option.some_get ranEventfd).symm, ran, quiet⟩

end GatewayGrpc.Transport
