import GatewayGrpc.Transport.Settled
import GatewayGrpc.Transport.Signals
import GatewayGrpc.Transport.Wakeups

/-!
# Calls that wait for ever

A run is quiescent where no party has a step left. Both transports have then emptied their rings,
and only calls whose answer was refused still wait.
-/

namespace GatewayGrpc.Transport
open Library Proto SharedMemory

namespace Uds

/-- Neither a new call nor the end of one by its caller, nor a failure of the socket. -/
def Action.Internal : Action → Prop
  | .call _ _ | .drop _ | .notifyFailed _ | .flushFailed _ | .backendFailed | .notifyBackFailed _
  | .listenerFailed => False
  | _ => True

/-- A new call may come, but nobody gives up and nothing fails. -/
def Action.Smooth : Action → Prop
  | .call _ _ => True
  | a => a.Internal

def Quiescent (codecs : IdCodecs) (s : State) : Prop :=
  ∀ a : Action, a.Internal → step codecs s a = none

variable (codecs : IdCodecs) in
structure Calm (s : State) : Prop where
  good : Good codecs (Exchange.FitsReaders codecs .uds) s
  balance : Balance s 0
  woken : Woken s
  undisturbed : s.back.Undisturbed
  backend : s.front.backend ≠ .exited
  listener : s.front.listener ≠ .exited

variable {codecs : IdCodecs} {s u : State} {a : Action}

theorem calm_start (requestCapacity responseCapacity : Nat) :
    Calm codecs (start requestCapacity responseCapacity) where
  good := good_start _ _
  balance := rfl
  woken := fun nonempty => absurd rfl nonempty
  undisturbed := fun _ member => by cases member
  backend := by simp [start, initial]
  listener := by simp [start, initial]

theorem event_undisturbing {b : Exchange} {w v : Uds} {e : Option Exchange.Event}
    (effect : Effect b w a v e) (smooth : a.Smooth) : ∀ x ∈ e, ¬ x.Disturbs := by
  rintro x member
  cases effect with
  | plain event =>
      cases member
      cases a <;> cases event <;> exact id
  | notifyFailed | flushFailed | dropped => exact smooth.elim
  | _ => cases member <;> exact id

theorem Calm.step (calm : Calm codecs s) (asks : a.Asks (Exchange.FitsReaders codecs .uds))
    (smooth : a.Smooth) (action : step codecs s a = some u) : Calm codecs u := by
  have balance := balance_step calm.good (fun _ fits => fits.1) action calm.balance
  have kept : strands s a = false := by cases a <;> first | rfl | exact smooth.elim
  rw [kept] at balance
  refine ⟨calm.good.step asks action, balance, ?_, ?_, ?_, ?_⟩
  · refine calm.woken.step calm.good (fun nonempty => ?_) (fun breaks => ?_) action
    · obtain ⟨b, m, ring, read⟩ :=
        calm.good.sound.read_answer (calm.good.asked.mono fun _ fits => fits.2) nonempty
      exact ⟨b :: m, ring, read⟩
    · cases a <;> first | exact breaks.elim | exact smooth.elim
  all_goals
    obtain ⟨v, c⟩ := u
    obtain ⟨e, effect, second⟩ := step_effect action
  · exact calm.undisturbed.advance second (event_undisturbing effect smooth)
  · cases effect with
    | backendFailed => exact smooth.elim
    | backendWoke | took | tookNothing => simp
    | _ => exact calm.backend
  · cases effect with
    | listenerFailed => exact smooth.elim
    | listenerWoke | drainedAll => simp
    | _ => exact calm.listener

namespace Quiescent

theorem calls (quiet : Quiescent codecs s) (locks : Locks s) :
    ∀ call ∈ s.back.calls, call.phase ≠ .written := by
  intro call member written
  obtain ⟨i, here⟩ := List.mem_iff_getElem?.mp member
  cases lock : s.front.notifyLock with
  | none =>
      apply Layered.not_silent (quiet (.lockNotify i) trivial)
      simp [front, here, written, lock]
  | some holder =>
      obtain ⟨k, out⟩ := holder
      cases out with
      | false =>
          apply Layered.not_silent (quiet (.notify k) trivial)
          simp [front, lock]
      | true =>
          obtain ⟨other, there, phase⟩ := Option.map_eq_some_iff.mp (locks.notify k true lock)
          refine Layered.event_stuck (quiet (.flush k) trivial) (e := .notified k) ?_
            (Exchange.notified_isSome there phase)
          simp [front, lock]

theorem tasks (quiet : Quiescent codecs s) (locks : Locks s) :
    ∀ task ∈ s.back.tasks, task.phase ≠ .written := by
  intro task member written
  obtain ⟨j, here⟩ := List.mem_iff_getElem?.mp member
  cases lock : s.front.writeLock with
  | none =>
      apply Layered.not_silent (quiet (.lockWrite j) trivial)
      simp [front, here, written, lock]
  | some holder =>
      obtain ⟨k, out⟩ := holder
      cases out with
      | false =>
          apply Layered.not_silent (quiet (.notifyBack k) trivial)
          simp [front, lock]
      | true =>
          obtain ⟨other, there, phase⟩ := Option.map_eq_some_iff.mp (locks.write k true lock)
          refine Layered.event_stuck (quiet (.flushBack k) trivial) (e := .finish k) ?_
            (Exchange.finish_isSome there phase)
          simp [front, lock]

theorem inHand (quiet : Quiescent codecs s) (sound : s.back.Sound codecs) :
    s.back.inHand = none :=
  Exchange.settled_inHand sound
    (Layered.event_stuck (quiet .resolve trivial) (e := .resolve) rfl)

theorem backend (quiet : Quiescent codecs s) (running : s.front.backend ≠ .exited) :
    s.front.backend = .waiting ∧ s.front.requestBytes = 0 := by
  cases state : s.front.backend with
  | exited => exact absurd state running
  | waiting =>
      refine ⟨rfl, Nat.eq_zero_of_not_pos fun byte => ?_⟩
      apply Layered.not_silent (quiet .backendWake trivial)
      simp [front, state, byte]
  | awake =>
      rcases read : s.back.requestRing.read ShmTransport.uds.requestBuf with ⟨_ | m, ring⟩
      · refine (Layered.not_silent (quiet .take trivial) ?_).elim
        simp [front, state, read]
      · refine (Layered.event_stuck (quiet .take trivial) (e := .serve) ?_
          (Exchange.serve_isSome read)).elim
        simp [front, state, read]

theorem listener (quiet : Quiescent codecs s) (running : s.front.listener ≠ .exited)
    (free : s.back.inHand = none) :
    s.front.listener = .waiting ∧ s.front.responseBytes = 0 := by
  cases state : s.front.listener with
  | exited => exact absurd state running
  | waiting =>
      refine ⟨rfl, Nat.eq_zero_of_not_pos fun byte => ?_⟩
      apply Layered.not_silent (quiet .listenerWake trivial)
      simp [front, state, byte]
  | awake =>
      rcases read : s.back.responseRing.read ShmTransport.uds.responseBuf with ⟨_ | m, ring⟩
      · refine (Layered.not_silent (quiet .drain trivial) ?_).elim
        simp [front, state, free, read]
      · refine (Layered.event_stuck (quiet .drain trivial) (e := .fetch) ?_
          (Exchange.fetch_isSome free read)).elim
        simp [front, state, free, read]

theorem settled (quiet : Quiescent codecs s) (calm : Calm codecs s) : s.back.Settled := by
  have calls := quiet.calls calm.good.locks
  have tasks := quiet.tasks calm.good.locks
  have free := quiet.inHand calm.good.sound
  obtain ⟨backend, requestBytes⟩ := quiet.backend calm.backend
  obtain ⟨listener, responseBytes⟩ := quiet.listener calm.listener free
  have unsignalled := Exchange.unsignalled_eq_zero calls
  have unannounced := Exchange.unannounced_eq_zero tasks
  refine ⟨fun call member => ?_, ?_, fun task member => ?_, ?_, free⟩
  · obtain ⟨i, here⟩ := List.mem_iff_getElem?.mp member
    exact Exchange.settled_call calm.undisturbed here (calls call member)
      (Layered.event_stuck (quiet (.register i) trivial) (e := .register i) rfl)
      (Layered.event_stuck (quiet (.write i) trivial) (e := .write i) rfl)
      (Layered.event_stuck (quiet (.receive i) trivial) (e := .receive i) rfl)
  · have balance := calm.balance
    rw [Balance, requestBytes, awakeBackend, backend, unsignalled] at balance
    exact List.eq_nil_of_length_eq_zero (Nat.eq_zero_of_add_eq_zero_right balance)
  · obtain ⟨j, here⟩ := List.mem_iff_getElem?.mp member
    exact Exchange.settled_task here (tasks task member)
      (Layered.event_stuck (quiet (.respond j 0 0) trivial) (e := .respond j 0 0) rfl)
  · by_contra nonempty
    rcases calm.woken nonempty with byte | awake | owes
    · exact absurd byte (responseBytes ▸ Nat.lt_irrefl 0)
    · cases listener.symm.trans awake
    · exact Nat.not_lt_zero _ (unannounced ▸ owes)

end Quiescent

theorem quiescent_of_settled (sound : s.back.Sound codecs) (settled : s.back.Settled)
    (idle : s.front = initial) : Quiescent codecs s := by
  intro a internal
  apply Option.eq_none_iff_forall_ne_some.mpr
  rintro ⟨v, c⟩ action
  obtain ⟨e, effect, second⟩ := step_effect action
  have silent : ∀ x ∈ e, x.FromCaller := fun x member => by
    by_contra own
    rw [Option.mem_def.mp member, Layered.advance, settled.stuck sound own] at second
    cases second
  rw [idle] at effect
  cases effect with
  | plain event => cases a <;> cases event <;> first | exact internal | exact silent _ rfl
  | lockedNotify here written => exact (settled.call_later here).2.2 written
  | lockedWrite here written => exact (settled.task_later here).2 written
  | dropped => exact internal
  | backendFailed | listenerFailed => exact internal
  | backendWoke waiting byte | listenerWoke waiting byte => exact Nat.lt_irrefl 0 byte
  | notified held | notifyFailed held | flushed held | flushFailed held => cases held
  | notifiedBack held | notifyBackFailed held | flushedBack held => cases held
  | took awake | tookNothing awake | drained awake | drainedAll awake => cases awake

theorem calm_of_run {requestCapacity responseCapacity : Nat} {actions : List Action}
    (ran : run (Uds.step codecs) (start requestCapacity responseCapacity) actions = some s)
    (smooth : ∀ a ∈ actions, a.Smooth)
    (fits : ∀ a ∈ actions, a.Asks (Exchange.FitsReaders codecs .uds)) : Calm codecs s :=
  run_invariant_of_forall (fun _ _ _ calm ok action => calm.step ok.1 ok.2 action)
    (calm_start _ _) (fun a member => And.intro (fits a member) (smooth a member)) ran

end Uds

namespace Eventfd

def Action.Internal : Action → Prop
  | .call _ _ | .drop _ | .signalFailed _ | .signalBackFailed _ | .backendFailed
  | .listenerFailed => False
  | _ => True

def Action.Smooth : Action → Prop
  -- the listener waits again where a wait fails
  | .call _ _ | .listenerFailed => True
  | a => a.Internal

def Quiescent (codecs : IdCodecs) (s : State) : Prop :=
  ∀ a : Action, a.Internal → step codecs s a = none

variable (codecs : IdCodecs) in
structure Calm (s : State) : Prop where
  good : Good codecs s
  undisturbed : s.back.Undisturbed
  backend : s.front.backendExited = false

variable {codecs : IdCodecs} {s u : State} {a : Action}

theorem calm_start (requestCapacity responseCapacity : Nat) :
    Calm codecs (start requestCapacity responseCapacity) where
  good := good_start _ _
  undisturbed := fun _ member => by cases member
  backend := rfl

theorem event_undisturbing {b : Exchange} {w v : Eventfd} {e : Option Exchange.Event}
    (effect : Effect b w a v e) (smooth : a.Smooth) : ∀ x ∈ e, ¬ x.Disturbs := by
  rintro x member
  cases effect with
  | plain event =>
      cases member
      cases a <;> cases event <;> exact id
  | signalFailed | dropped => exact smooth.elim
  | _ => cases member <;> exact id

theorem Calm.step (calm : Calm codecs s) (asks : a.Asks (Exchange.FitsReaders codecs .eventfd))
    (smooth : a.Smooth) (action : step codecs s a = some u) : Calm codecs u := by
  have working : ¬ a.Broken := fun broken => by
    cases a <;> first | exact broken.elim | exact smooth.elim
  refine ⟨calm.good.step asks working action, ?_, ?_⟩
  all_goals
    obtain ⟨v, c⟩ := u
    obtain ⟨e, effect, second⟩ := step_effect action
  · exact calm.undisturbed.advance second (event_undisturbing effect smooth)
  · cases effect with
    | backendFailed => exact smooth.elim
    | _ => exact calm.backend

namespace Quiescent

theorem calls (quiet : Quiescent codecs s) : ∀ call ∈ s.back.calls, call.phase ≠ .written := by
  intro call member written
  obtain ⟨i, here⟩ := List.mem_iff_getElem?.mp member
  exact Layered.event_stuck (quiet (.signal i) trivial) (e := .notified i) rfl
    (Exchange.notified_isSome here written)

theorem tasks (quiet : Quiescent codecs s) : ∀ task ∈ s.back.tasks, task.phase ≠ .written := by
  intro task member written
  obtain ⟨j, here⟩ := List.mem_iff_getElem?.mp member
  exact Layered.event_stuck (quiet (.signalBack j) trivial) (e := .finish j) rfl
    (Exchange.finish_isSome here written)

theorem inHand (quiet : Quiescent codecs s) (sound : s.back.Sound codecs) :
    s.back.inHand = none :=
  Exchange.settled_inHand sound
    (Layered.event_stuck (quiet .resolve trivial) (e := .resolve) rfl)

theorem backend (quiet : Quiescent codecs s) (calm : Calm codecs s) :
    s.front.requestEvent = 0 ∧ s.front.backendLeft = 0 := by
  have left : s.front.backendLeft = 0 := by
    apply Nat.eq_zero_of_not_pos
    intro left
    obtain ⟨b, m, ring, read⟩ := calm.good.read_request left
    refine Layered.event_stuck (quiet .take trivial) (e := .serve) ?_ (Exchange.serve_isSome read)
    simp [front, left, read]
  refine ⟨Nat.eq_zero_of_not_pos fun signal => ?_, left⟩
  apply Layered.not_silent (quiet .backendWake trivial)
  simp [front, calm.backend, left, signal]

theorem listener (quiet : Quiescent codecs s) (calm : Calm codecs s)
    (free : s.back.inHand = none) : s.front.responseEvent = 0 ∧ s.front.listenerLeft = 0 := by
  have left : s.front.listenerLeft = 0 := by
    apply Nat.eq_zero_of_not_pos
    intro left
    obtain ⟨b, m, ring, read⟩ := calm.good.read_answer left
    refine Layered.event_stuck (quiet .drain trivial) (e := .fetch) ?_
      (Exchange.fetch_isSome free read)
    simp [front, left, free, read]
  refine ⟨Nat.eq_zero_of_not_pos fun signal => ?_, left⟩
  apply Layered.not_silent (quiet .listenerWake trivial)
  simp [front, free, left, signal]

theorem settled (quiet : Quiescent codecs s) (calm : Calm codecs s) : s.back.Settled := by
  have free := quiet.inHand calm.good.sound
  obtain ⟨requestEvent, backendLeft⟩ := quiet.backend calm
  obtain ⟨responseEvent, listenerLeft⟩ := quiet.listener calm free
  have unsignalled := Exchange.unsignalled_eq_zero quiet.calls
  have unannounced := Exchange.unannounced_eq_zero quiet.tasks
  have requests := calm.good.inStep.requests
  have responses := calm.good.inStep.responses
  rw [requestEvent, backendLeft, unsignalled] at requests
  rw [responseEvent, listenerLeft, unannounced] at responses
  refine ⟨fun call member => ?_, List.eq_nil_of_length_eq_zero requests, fun task member => ?_,
    List.eq_nil_of_length_eq_zero responses, free⟩
  · obtain ⟨i, here⟩ := List.mem_iff_getElem?.mp member
    exact Exchange.settled_call calm.undisturbed here (quiet.calls call member)
      (Layered.event_stuck (quiet (.register i) trivial) (e := .register i) rfl)
      (Layered.event_stuck (quiet (.write i) trivial) (e := .write i) rfl)
      (Layered.event_stuck (quiet (.receive i) trivial) (e := .receive i) rfl)
  · obtain ⟨j, here⟩ := List.mem_iff_getElem?.mp member
    exact Exchange.settled_task here (quiet.tasks task member)
      (Layered.event_stuck (quiet (.respond j 0 0) trivial) (e := .respond j 0 0) rfl)

end Quiescent

theorem quiescent_of_settled (sound : s.back.Sound codecs) (settled : s.back.Settled)
    (idle : s.front = initial) : Quiescent codecs s := by
  intro a internal
  apply Option.eq_none_iff_forall_ne_some.mpr
  rintro ⟨v, c⟩ action
  obtain ⟨e, effect, second⟩ := step_effect action
  have silent : ∀ x ∈ e, x.FromCaller := fun x member => by
    by_contra own
    rw [Option.mem_def.mp member, Layered.advance, settled.stuck sound own] at second
    cases second
  rw [idle] at effect
  cases effect with
  | plain event => cases a <;> cases event <;> first | exact internal | exact silent _ rfl
  | signalled | signalledBack => exact silent _ rfl
  | signalFailed | signalBackFailed | dropped | backendFailed | listenerFailed => exact internal
  | backendWoke running waiting signal | listenerWoke waiting free signal =>
      exact Nat.lt_irrefl 0 signal
  | took left | tookEmpty left | tookNothing left => exact Nat.lt_irrefl 0 left
  | drained left | drainedEmpty left | drainedNothing left => exact Nat.lt_irrefl 0 left

theorem calm_of_run {requestCapacity responseCapacity : Nat} {actions : List Action}
    (ran : run (Eventfd.step codecs) (start requestCapacity responseCapacity) actions = some s)
    (smooth : ∀ a ∈ actions, a.Smooth)
    (fits : ∀ a ∈ actions, a.Asks (Exchange.FitsReaders codecs .eventfd)) : Calm codecs s :=
  run_invariant_of_forall (fun _ _ _ calm ok action => calm.step ok.1 ok.2 action)
    (calm_start _ _) (fun a member => And.intro (fits a member) (smooth a member)) ran

end Eventfd

/-- In a quiescent state every call has returned exactly if every answer found room in the response
ring when its task wrote it. -/
theorem calls_return_iff (codecs : IdCodecs) (requestCapacity responseCapacity : Nat) :
    (∀ actions s, run (Uds.step codecs) (Uds.start requestCapacity responseCapacity) actions =
        some s → (∀ a ∈ actions, a.Smooth) →
      (∀ a ∈ actions, a.Asks (Exchange.FitsReaders codecs .uds)) → Uds.Quiescent codecs s →
      (s.back.AllReturned ↔ Along (Uds.step codecs)
        (Layered.OnEvent Uds.front (Exchange.AnswerFindsRoom codecs))
        (Uds.start requestCapacity responseCapacity) actions)) ∧
    ∀ actions s, run (Eventfd.step codecs) (Eventfd.start requestCapacity responseCapacity)
        actions = some s → (∀ a ∈ actions, a.Smooth) →
      (∀ a ∈ actions, a.Asks (Exchange.FitsReaders codecs .eventfd)) → Eventfd.Quiescent codecs s →
      (s.back.AllReturned ↔ Along (Eventfd.step codecs)
        (Layered.OnEvent Eventfd.front (Exchange.AnswerFindsRoom codecs))
        (Eventfd.start requestCapacity responseCapacity) actions) := by
  constructor
  · intro actions s ran smooth fits quiet
    have calm := Uds.calm_of_run ran smooth fits
    exact (calm.good.sound.allReturned_iff (quiet.settled calm) calm.undisturbed).trans
      (Exchange.noneRefused_run ran)
  · intro actions s ran smooth fits quiet
    have calm := Eventfd.calm_of_run ran smooth fits
    exact (calm.good.sound.allReturned_iff (quiet.settled calm) calm.undisturbed).trans
      (Exchange.noneRefused_run ran)

def Uds.answeredRun : List Uds.Action :=
  [.call sampleId ping, .register 0, .write 0, .lockNotify 0, .notify 0, .flush 0, .backendWake,
    .take, .respond 0 5 6, .lockWrite 0, .notifyBack 0, .flushBack 0, .listenerWake, .drain,
    .resolve, .drain, .receive 0]

def Eventfd.answeredRun : List Eventfd.Action :=
  [.call sampleId ping, .register 0, .write 0, .signal 0, .backendWake, .take, .respond 0 5 6,
    .signalBack 0, .listenerWake, .drain, .resolve, .receive 0]

def pingAnswered : Call where
  id := sampleId
  request := ping
  phase := .returned (.ok (ping.echo 5 6))
  accepted := true
  reply := some (ping.echo 5 6)

theorem settled_answered {s : Exchange} (calls : s.calls = [pingAnswered])
    (requests : s.requestRing.messages = []) (tasks : s.tasks = [⟨sampleId, ping, .finished⟩])
    (responses : s.responseRing.messages = []) (inHand : s.inHand = none) :
    s.Settled ∧ s.AllReturned := by
  refine ⟨⟨?_, requests, ?_, responses, inHand⟩, ?_⟩
  · simp [calls, pingAnswered]
  · simp [tasks]
  · simp [Exchange.AllReturned, calls, pingAnswered]

theorem calls_return_iff_answered :
    Along (Uds.step bincodeCodecs)
      (Layered.OnEvent Uds.front (Exchange.AnswerFindsRoom bincodeCodecs))
      (Uds.start 4096 4096) Uds.answeredRun ∧
    Along (Eventfd.step bincodeCodecs)
      (Layered.OnEvent Eventfd.front (Exchange.AnswerFindsRoom bincodeCodecs))
      (Eventfd.start 4096 4096) Eventfd.answeredRun := by
  have uds : (run (Uds.step bincodeCodecs) (Uds.start 4096 4096) Uds.answeredRun).isSome := rfl
  have eventfd : (run (Eventfd.step bincodeCodecs) (Eventfd.start 4096 4096)
      Eventfd.answeredRun).isSome := rfl
  have ranUds := (Option.some_get uds).symm
  have ranEventfd := (Option.some_get eventfd).symm
  constructor
  · obtain ⟨settled, returned⟩ := settled_answered (s := ((run (Uds.step bincodeCodecs)
      (Uds.start 4096 4096) Uds.answeredRun).get uds).back) rfl rfl rfl rfl rfl
    refine ((calls_return_iff bincodeCodecs 4096 4096).1 _ _ ranUds ?_ ?_
      (Uds.quiescent_of_settled (.of_run ranUds) settled rfl)).mp returned
    · simp only [Uds.answeredRun, List.forall_mem_cons, Uds.Action.Smooth, Uds.Action.Internal,
        true_and]
      exact List.forall_mem_nil _
    · simp only [Uds.answeredRun, List.forall_mem_cons, Uds.Action.Asks, true_and]
      exact ⟨Exchange.fitsReaders_bincode (by decide), by simp⟩
  · obtain ⟨settled, returned⟩ := settled_answered (s := ((run (Eventfd.step bincodeCodecs)
      (Eventfd.start 4096 4096) Eventfd.answeredRun).get eventfd).back) rfl rfl rfl rfl rfl
    refine ((calls_return_iff bincodeCodecs 4096 4096).2 _ _ ranEventfd ?_ ?_
      (Eventfd.quiescent_of_settled (.of_run ranEventfd) settled rfl)).mp returned
    · simp only [Eventfd.answeredRun, List.forall_mem_cons, Eventfd.Action.Smooth, Eventfd.Action.Internal,
        true_and]
      exact List.forall_mem_nil _
    · simp only [Eventfd.answeredRun, List.forall_mem_cons, Eventfd.Action.Asks, true_and]
      exact ⟨Exchange.fitsReaders_bincode (by decide), by simp⟩

def refusedRun : List Eventfd.Action :=
  [.call sampleId ping, .register 0, .write 0, .signal 0, .backendWake, .take, .respond 0 5 6]

theorem refused_answer_leaves_waiting :
    ¬ ∀ (requestCapacity responseCapacity : Nat) (actions : List Eventfd.Action)
        (s : Eventfd.State),
      run (Eventfd.step bincodeCodecs) (Eventfd.start requestCapacity responseCapacity) actions =
        some s →
      (∀ a ∈ actions, a.Smooth) →
      (∀ a ∈ actions, a.Asks (Exchange.FitsReaders bincodeCodecs .eventfd)) →
      Eventfd.Quiescent bincodeCodecs s → s.back.AllReturned := by
  intro allReturned
  have eventfd : (run (Eventfd.step bincodeCodecs) (Eventfd.start 79 79) refusedRun).isSome := rfl
  have ran := (Option.some_get eventfd).symm
  have calls : ((run (Eventfd.step bincodeCodecs) (Eventfd.start 79 79) refusedRun).get
      eventfd).back.calls = [⟨sampleId, ping, .waiting, true, none⟩] := rfl
  have settled : ((run (Eventfd.step bincodeCodecs) (Eventfd.start 79 79) refusedRun).get
      eventfd).back.Settled := by
    refine ⟨?_, rfl, ?_, rfl, rfl⟩
    · simp [calls]
    · have tasks : ((run (Eventfd.step bincodeCodecs) (Eventfd.start 79 79) refusedRun).get
        eventfd).back.tasks = [⟨sampleId, ping, .refused⟩] := rfl
      simp [tasks]
  have returned := allReturned 79 79 refusedRun _ ran
    (by simp [refusedRun, Eventfd.Action.Smooth, Eventfd.Action.Internal])
    (by
      simp only [refusedRun, List.forall_mem_cons, Eventfd.Action.Asks, true_and]
      exact ⟨Exchange.fitsReaders_bincode (by decide), by simp⟩)
    (Eventfd.quiescent_of_settled (.of_run ran) settled rfl)
  obtain ⟨result, phase⟩ := returned _ (by rw [calls]; exact List.mem_singleton_self _)
  cases phase

end GatewayGrpc.Transport
