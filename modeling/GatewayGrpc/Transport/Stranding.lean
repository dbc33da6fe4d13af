import GatewayGrpc.Transport.Counting
import GatewayGrpc.Transport.Uds

/-!
# Requests and notification bytes

The backend takes one message for a byte. Between the ring write and the byte a call can be dropped,
and then a message stays behind in the ring for good.
-/

namespace GatewayGrpc.Transport.Uds
open Library Proto SharedMemory Exchange.Event

def Action.Asks (F : Text × EchoRequest → Prop) : Action → Prop
  | .call id request => F (id, request)
  | _ => True

/-- The byte of the call that holds the lock is out, and the call is not past its flush. -/
def byteOut : Option (Nat × Bool) → Nat
  | some (_, true) => 1
  | _ => 0

def awakeBackend (w : Uds) : Nat := if w.backend = .awake then 1 else 0

def between (s : State) : Nat := s.back.unsignalled - byteOut s.front.notifyLock

/-- There are no more requests in the ring than bytes not acted on and calls that owe theirs. -/
def Accounted (s : State) : Prop :=
  s.back.requestRing.messages.length ≤
    s.front.requestBytes + s.front.awakeBackend + between s

/-- A call ends between its ring write and its notification byte: it is dropped there, or the
socket refuses the byte. -/
def strands (s : State) : Action → Bool
  | .drop i => s.back.phase? i = some .written && s.front.notifyLock ≠ some (i, true)
  | .notifyFailed _ => true
  | _ => false

structure Locks (s : State) : Prop where
  notify : ∀ i out, s.front.notifyLock = some (i, out) → s.back.phase? i = some .written
  write : ∀ j out, s.front.writeLock = some (j, out) → s.back.taskPhase? j = some .written

variable {codecs : IdCodecs} {s u : State} {a : Action}

theorem silent_of_plain {e : Exchange.Event} (event : a.plain = some e) : e.Silent := by
  cases a <;> cases event <;> trivial

theorem Locks.step (locks : Locks s) (action : step codecs s a = some u) : Locks u := by
  obtain ⟨v, c⟩ := u
  obtain ⟨e, effect, second⟩ := step_effect action
  constructor
  · intro i out held
    cases effect with
    | plain event =>
        have silent := silent_of_plain event
        apply Exchange.written_stable_advance second (locks.notify i out held)
        intro x member
        exact Option.some.inj member ▸ (silent.foreign i).1
    | lockedNotify here written free =>
        cases held
        refine Exchange.written_stable_advance second ?_ (by simp)
        rw [Exchange.phase?, here, Option.map_some, written]
    | notified before =>
        cases held
        exact Exchange.written_stable_advance second (locks.notify i false before) (by simp)
    | notifyFailed | flushed | flushFailed => cases held
    | dropped k =>
        obtain ⟨before, distinct⟩ := Option.filter_eq_some_iff.mp held
        apply Exchange.written_stable_advance second (locks.notify i out before)
        intro x member
        cases member
        refine ⟨by simp, by simp, fun same => ?_⟩
        cases same
        simp at distinct
    | _ => exact Exchange.written_stable_advance second (locks.notify i out held) (by simp)
  · intro j out held
    cases effect with
    | plain event =>
        have silent := silent_of_plain event
        apply Exchange.task_written_stable_advance second (locks.write j out held)
        intro x member
        exact Option.some.inj member ▸ (silent.foreign j).2
    | lockedWrite here written free =>
        cases held
        refine Exchange.task_written_stable_advance second ?_ (by simp)
        rw [Exchange.taskPhase?, here, Option.map_some, written]
    | notifiedBack before =>
        cases held
        exact Exchange.task_written_stable_advance second (locks.write j false before) (by simp)
    | notifyBackFailed | flushedBack => cases held
    | _ => exact Exchange.task_written_stable_advance second (locks.write j out held) (by simp)

theorem locks_start (requestCapacity responseCapacity : Nat) :
    Locks (start requestCapacity responseCapacity) where
  notify := fun _ _ held => by cases held
  write := fun _ _ held => by cases held

theorem byteOut_le (locks : Locks s) : byteOut s.front.notifyLock ≤ s.back.unsignalled := by
  unfold byteOut
  split
  · rename_i i held
    exact Exchange.unsignalled_pos (locks.notify i true held)
  · exact Nat.zero_le _

/-! ## The balance -/

def Balance (s : State) (stranded : Nat) : Prop :=
  s.back.requestRing.messages.length + byteOut s.front.notifyLock =
    s.front.requestBytes + s.front.awakeBackend + s.back.unsignalled + stranded

variable (codecs) in
structure Good (F : Text × EchoRequest → Prop) (s : State) : Prop where
  sound : s.back.Sound codecs
  asked : s.back.Asked F
  locks : Locks s

variable {F : Text × EchoRequest → Prop}

theorem event_asks {b : Exchange} {w v : Uds} {e : Option Exchange.Event}
    (effect : Effect b w a v e) (asks : a.Asks F) : ∀ x ∈ e, x.Asks F := by
  rintro x member
  cases effect with
  | plain event =>
      cases member
      cases a <;> cases event <;> exact asks
  | _ => cases member <;> trivial

theorem Good.step (good : Good codecs F s) (asks : a.Asks F) (action : step codecs s a = some u) :
    Good codecs F u := by
  refine ⟨Layered.preserved (fun _ _ _ sound action => sound.step action) good.sound action, ?_,
    good.locks.step action⟩
  obtain ⟨e, effect, second⟩ := step_effect action
  exact good.asked.advance second (event_asks effect asks)

theorem good_start (requestCapacity responseCapacity : Nat) :
    Good codecs F (start requestCapacity responseCapacity) where
  sound := Exchange.sound_initial codecs _ _
  asked := fun _ member => by cases member
  locks := locks_start _ _

theorem balance_of {n m : Nat} {v : Uds} {c : Exchange} {e : Option Exchange.Event}
    (sound : s.back.Sound codecs) (balance : Balance s n)
    (second : Layered.advance (Exchange.step codecs .uds) s.back e = some c)
    (moved : s.front.requestBytes + s.front.awakeBackend + n +
        count (leaves s.back) e + byteOut v.notifyLock =
      v.requestBytes + v.awakeBackend + m + count takes e +
        byteOut s.front.notifyLock) :
    Balance ⟨v, c⟩ m := by
  have changed := Exchange.request_balance_advance second sound
  simp only [Balance] at balance ⊢
  omega

theorem ring_nonempty {n : Nat} (good : Good codecs F s) (balance : Balance s n)
    (awake : s.front.backend = .awake) : s.back.requestRing.messages ≠ [] := by
  have owed := byteOut_le good.locks
  have : s.front.awakeBackend = 1 := if_pos awake
  intro empty
  rw [Balance, empty] at balance
  simp only [List.length_nil] at balance
  omega

theorem leaves_drop (locks : Locks s) (i : Nat) :
    leaves s.back (.drop i) +
        byteOut (s.front.notifyLock.filter fun holder => holder.1 ≠ i) =
      (strands s (.drop i)).toNat + byteOut s.front.notifyLock := by
  simp only [leaves, strands]
  cases lock : s.front.notifyLock with
  | none => by_cases written : s.back.phase? i = some .written <;> simp [written]
  | some holder =>
      obtain ⟨k, out⟩ := holder
      have phase := locks.notify k out lock
      by_cases same : k = i
      · subst same
        cases out <;> simp [phase, byteOut]
      · by_cases written : s.back.phase? i = some .written <;>
          simp [same, written, Option.filter]

theorem balance_step {n : Nat} (good : Good codecs F s)
    (fits : ∀ p, F p → Exchange.FitsBackend codecs .uds p)
    (action : step codecs s a = some u) (balance : Balance s n) :
    Balance u (n + (strands s a).toNat) := by
  obtain ⟨v, c⟩ := u
  obtain ⟨e, effect, second⟩ := step_effect action
  apply balance_of good.sound balance second
  cases effect with
  | plain event =>
      obtain ⟨noTake, _, _, noLeave⟩ := (silent_of_plain event).counts s.back
      have calm : strands s a = false := by cases a <;> first | rfl | cases event
      simp [count, noTake, noLeave, calm]
  | lockedNotify here written free => simp [byteOut, free, count, strands, awakeBackend]
  | notified held =>
      simp [byteOut, held, count, strands, awakeBackend]
      omega
  | notifyFailed held =>
      simp [byteOut, held, count, strands, awakeBackend, takes, leaves]
      omega
  | flushed held | flushFailed held =>
      simp [byteOut, held, count, strands, awakeBackend, takes, leaves]
  | backendFailed waiting => simp [awakeBackend, waiting, count, strands]
  | dropped i =>
      have dropped := leaves_drop good.locks i
      change s.front.requestBytes + s.front.awakeBackend + n + leaves s.back (.drop i) +
          byteOut (s.front.notifyLock.filter fun holder => holder.1 ≠ i) =
        s.front.requestBytes + s.front.awakeBackend + _ + 0 + _
      omega
  | backendWoke waiting byte =>
      simp [byteOut, waiting, count, strands, awakeBackend]
      omega
  | took awake read =>
      simp [byteOut, awake, count, strands, awakeBackend, takes, leaves]
      omega
  | tookNothing awake read =>
      obtain ⟨b, m, ring, ok⟩ := good.sound.read_request (good.asked.mono fits)
        (ring_nonempty good balance awake)
      cases read.symm.trans ok
  | _ => rfl

/-- No request is stranded exactly if no call ends between its ring write and its byte. -/
theorem accounted_iff (codecs : IdCodecs) (requestCapacity responseCapacity : Nat)
    (actions : List Action) (s : State)
    (ran : run (step codecs) (start requestCapacity responseCapacity) actions = some s)
    (fits : ∀ a ∈ actions, a.Asks (Exchange.FitsBackend codecs .uds)) :
    (Accounted s ↔ Along (step codecs) (fun s a => strands s a = false)
      (start requestCapacity responseCapacity) actions) ∧
    (Accounted s → s.front.requestBytes = 0 → s.front.backend = .waiting → between s = 0 →
      s.back.requestRing.messages = []) := by
  have along : Along (step codecs) (fun _ a => a.Asks (Exchange.FitsBackend codecs .uds))
      (start requestCapacity responseCapacity) actions :=
    along_of_forall (fun _ a member => fits a member) _
  have preserved : ∀ s a u, Good codecs (Exchange.FitsBackend codecs .uds) s →
      a.Asks (Exchange.FitsBackend codecs .uds) → step codecs s a = some u →
      Good codecs (Exchange.FitsBackend codecs .uds) u :=
    fun _ _ _ good asks action => good.step asks action
  have initial : Balance (start requestCapacity responseCapacity) 0 := rfl
  have good := run_invariant preserved (good_start _ _) along ran
  have balance : Balance s (0 + tally (step codecs) strands
      (start requestCapacity responseCapacity) actions) :=
    run_tally preserved (fun _ _ _ _ good _ action balance =>
      balance_step good (fun _ => id) action balance) (good_start _ _) along initial ran
  have owed := byteOut_le good.locks
  constructor
  · rw [← tally_eq_zero_iff ran]
    simp only [Balance] at balance
    simp only [Accounted, between]
    omega
  · intro accounted bytes waiting settled
    rw [Accounted, bytes, settled, awakeBackend, waiting] at accounted
    exact List.eq_nil_of_length_eq_zero (Nat.le_zero.mp accounted)

theorem asks_fits {id : Text} {request : EchoRequest}
    (small : (bincodeCodecs.request.encode (id, request)).length ≤ 65536) :
    (Action.call id request).Asks (Exchange.FitsBackend bincodeCodecs .uds) := small

def notifyingRun : List Action :=
  [.call sampleId ping, .register 0, .write 0, .lockNotify 0, .notify 0]

theorem accounted_iff_notifying :
    ∃ s, run (step bincodeCodecs) (start 4096 4096) notifyingRun = some s ∧ Accounted s := by
  have ran : (run (step bincodeCodecs) (start 4096 4096) notifyingRun).isSome := rfl
  refine ⟨_, (Option.some_get ran).symm, (accounted_iff bincodeCodecs 4096 4096 notifyingRun _
    (Option.some_get ran).symm ?_).1.mpr (by decide)⟩
  simp only [notifyingRun, List.forall_mem_cons]
  exact ⟨asks_fits (by decide), trivial, trivial, trivial, trivial, by simp⟩

def droppedRun : List Action := [.call sampleId ping, .register 0, .write 0, .drop 0]

theorem dropped_call_strands :
    ¬ ∀ (actions : List Action) (s : State),
      run (step bincodeCodecs) (start ShmConfig.default.bufferSize ShmConfig.default.bufferSize)
        actions = some s →
      (∀ a ∈ actions, a.Asks (Exchange.FitsBackend bincodeCodecs .uds)) → Accounted s := by
  intro accounted
  have ran : (run (step bincodeCodecs) (start ShmConfig.default.bufferSize
      ShmConfig.default.bufferSize) droppedRun).isSome := rfl
  have owed := accounted droppedRun _ (Option.some_get ran).symm (by
    simp only [droppedRun, List.forall_mem_cons]
    exact ⟨asks_fits (by decide), trivial, trivial, trivial, by simp⟩)
  -- one message, no byte and nobody who owes one
  exact Nat.not_succ_le_zero 0 owed

end GatewayGrpc.Transport.Uds
