import GatewayGrpc.Transport.Stranding

/-!
# Answers and wake-ups of the UDS transport

A byte may be spare, since the gateway drains the whole ring for each. But an answer in the ring
always has a byte in flight, a task that still owes one, or a listener that is draining.
-/

namespace GatewayGrpc.Transport
open Library Proto SharedMemory

namespace Exchange

def written (codecs : IdCodecs) (s : Exchange) : Event → List (Text × EchoResponse)
  | .respond j ts pt =>
      match s.tasks[j]? with
      | some task =>
          let answer := (task.id, task.request.echo ts pt)
          if s.responseRing.Room (codecs.response.encode answer) then [answer] else []
      | none => []
  | _ => []

def taken (codecs : IdCodecs) (t : ShmTransport) (s : Exchange) : Event → List (Text × EchoResponse)
  | .fetch =>
      match s.responseRing.read t.responseBuf with
      | (.ok m, _) => (codecs.response.decode m).toList
      | (.error _, _) => []
  | _ => []

def offered (s : Exchange) : Event → List (Text × EchoResponse)
  | .resolve => s.inHand.toList
  | _ => []

variable {codecs : IdCodecs} {t : ShmTransport} {s u : Exchange} {e : Event}

theorem answered_appends (sound : s.Sound codecs) (action : step codecs t s e = some u) :
    u.answered codecs = s.answered codecs ++ s.written codecs e := by
  cases step_effect action with
  | answered ts pt here running room =>
      simp [Exchange.answered, outbound, setTask, written, here, room]
  | answerRefused ts pt here running full =>
      simp [Exchange.answered, outbound, setTask, written, here, full]
  | moved here moves => cases moves <;> simp [Exchange.answered, outbound, setCall, written]
  | skippedRequest read unusable => exact absurd unusable (sound.intake.usable read)
  | skippedResponse free read unusable => exact absurd unusable (sound.answers.usable read)
  | fetched free read decoded =>
      obtain ⟨_, held, _⟩ := Fifo.read_eq_ok read
      simp [Exchange.answered, outbound, free, held, decoded, written]
  | resolved held | unclaimed held => simp [Exchange.answered, outbound, setCall, held, written]
  | _ => simp [Exchange.answered, outbound, setCall, setTask, written]

theorem taken_appends (sound : s.Sound codecs) (action : step codecs t s e = some u) :
    u.handled ++ u.inHand.toList = s.handled ++ s.inHand.toList ++ s.taken codecs t e := by
  cases step_effect action with
  | moved here moves => cases moves <;> simp [setCall, taken]
  | skippedRequest read unusable => exact absurd unusable (sound.intake.usable read)
  | skippedResponse free read unusable => exact absurd unusable (sound.answers.usable read)
  | fetched free read decoded => simp [taken, free, read, decoded]
  | resolved held | unclaimed held => simp [held, taken]
  | _ => simp [setCall, setTask, taken]

theorem handled_appends (sound : s.Sound codecs) (action : step codecs t s e = some u) :
    u.handled = s.handled ++ s.offered e := by
  cases step_effect action with
  | moved here moves => cases moves <;> simp [setCall, offered]
  | skippedRequest read unusable => exact absurd unusable (sound.intake.usable read)
  | skippedResponse free read unusable => exact absurd unusable (sound.answers.usable read)
  | resolved held | unclaimed held => simp [held, offered]
  | _ => simp [setCall, setTask, offered]

theorem inHand_of_step (action : step codecs t s e = some u) (other : e ≠ .fetch)
    (held : u.inHand ≠ none) : s.inHand ≠ none := by
  cases step_effect action with
  | fetched => exact absurd rfl other
  | skippedResponse | resolved | unclaimed => exact absurd rfl held
  | _ => exact held

theorem inHand_of_advance {e : Option Event} (other : e ≠ some .fetch)
    (second : Layered.advance (Exchange.step codecs t) s e = some u) (held : u.inHand ≠ none) :
    s.inHand ≠ none := by
  cases e with
  | none => exact Option.some.inj second ▸ held
  | some e => exact inHand_of_step second (fun same => other (congrArg some same)) held

variable (codecs t) in
def Served (s : Exchange) : Prop :=
  ∀ task ∈ s.tasks, (codecs.request.encode task.key).length ≤ t.requestBuf

theorem Served.setTask (served : s.Served codecs t) {j : Nat} {task other : Task}
    (here : s.tasks[j]? = some task) (key : other.key = task.key) :
    (s.setTask j other).Served codecs t := by
  intro first member
  rcases List.mem_or_eq_of_mem_set member with before | rfl
  · exact served first before
  · exact key ▸ served task (List.mem_of_getElem? here)

theorem Served.step (served : s.Served codecs t) (sound : s.Sound codecs)
    (action : step codecs t s e = some u) : u.Served codecs t := by
  cases step_effect action with
  | @served m ring id request read decoded =>
      obtain ⟨small, held, _⟩ := Fifo.read_eq_ok read
      obtain ⟨p, rfl⟩ := sound.intake.queued m (by simp [held])
      intro task member
      rcases List.mem_append.mp member with before | last
      · exact served task before
      · rw [codecs.request.decode_encode] at decoded
        cases decoded
        rw [List.mem_singleton.mp last]
        exact small
  | answered ts pt here => exact served.setTask here rfl
  | answerRefused ts pt here => exact served.setTask here rfl
  | finished here => exact served.setTask here rfl
  | _ => exact served

theorem answer_fits_of_served {s : Exchange} (sound : s.Sound bincodeCodecs)
    (served : s.Served bincodeCodecs t) {m : Message} (member : m ∈ s.responseRing.messages) :
    m.length ≤ t.requestBuf + 8 := by
  obtain ⟨⟨id, response⟩, rfl⟩ := sound.answers.queued m member
  have inside : (id, response) ∈ s.answered bincodeCodecs :=
    List.mem_append_right _ (List.mem_append_right _
      (List.mem_filterMap.mpr ⟨_, member, bincodeCodecs.response.decode_encode _⟩))
  obtain ⟨task, there, _, same, message, payload⟩ := sound.answers.task _ inside
  have small := served task there
  have requestLength : (bincodeCodecs.request.encode task.key).length = _ :=
    Bincode.length_requestCodec task.id task.request
  have responseLength : (bincodeCodecs.response.encode (id, response)).length = _ :=
    Bincode.length_responseCodec id response
  dsimp only at same message payload
  rw [message, payload] at responseLength
  subst same
  omega

end Exchange

namespace Uds
open Exchange.Event

def Action.BreaksBack : Action → Prop
  | .notifyBackFailed _ | .listenerFailed => True
  | _ => False

def Woken (s : State) : Prop :=
  s.back.responseRing.messages ≠ [] →
    0 < s.front.responseBytes ∨ s.front.listener = .awake ∨
      byteOut s.front.writeLock < s.back.unannounced

variable {codecs : IdCodecs} {F : Text × EchoRequest → Prop} {s u : State} {a : Action}

theorem backByteOut_le (locks : Locks s) : byteOut s.front.writeLock ≤ s.back.unannounced := by
  unfold byteOut
  split
  · rename_i j held
    exact Exchange.unannounced_pos (locks.write j true held)
  · exact Nat.zero_le _

theorem woken_of {v : Uds} {c : Exchange} {e : Option Exchange.Event} (good : Good codecs F s)
    (woken : Woken s) (second : Layered.advance (Exchange.step codecs .uds) s.back e = some c)
    (bytes : s.front.responseBytes ≤ v.responseBytes)
    (listener : s.front.listener = .awake → v.listener = .awake)
    (lock : byteOut v.writeLock + count announces e ≤ byteOut s.front.writeLock) :
    Woken ⟨v, c⟩ := by
  intro nonempty
  dsimp only at nonempty ⊢
  have owed := backByteOut_le good.locks
  have balance := Exchange.answer_balance_advance second good.sound
  have kept := Exchange.unannounced_le_advance second good.sound
  have positive := List.length_pos_iff.mpr nonempty
  by_cases empty : s.back.responseRing.messages = []
  · rw [empty, List.length_nil] at balance
    exact .inr (.inr (by omega))
  · rcases woken empty with byte | awake | owes
    · exact .inl (byte.trans_le bytes)
    · exact .inr (.inl (listener awake))
    · exact .inr (.inr (by omega))

def Readable (s : State) : Prop :=
  s.back.responseRing.messages ≠ [] →
    ∃ m ring, s.back.responseRing.read ShmTransport.uds.responseBuf = (.ok m, ring)

theorem Woken.step (good : Good codecs F s) (readable : Readable s) (woken : Woken s)
    (working : ¬ a.BreaksBack) (action : step codecs s a = some u) : Woken u := by
  obtain ⟨v, c⟩ := u
  obtain ⟨e, effect, second⟩ := step_effect action
  cases effect with
  | plain event =>
      obtain ⟨_, _, noFinish, _⟩ := (silent_of_plain event).counts s.back
      refine woken_of good woken second (Nat.le_refl _) id ?_
      rw [count, Option.elim, noFinish, Nat.add_zero]
  | lockedWrite here written free =>
      exact woken_of good woken second (Nat.le_refl _) id (Nat.zero_le _)
  | notifiedBack held => exact fun _ => .inl (Nat.succ_pos _)
  | notifyBackFailed | listenerFailed => exact absurd trivial working
  | flushedBack held =>
      refine woken_of good woken second (Nat.le_refl _) id ?_
      rw [held]
      exact Nat.le_refl 1
  | listenerWoke waiting byte => exact fun _ => .inr (.inl rfl)
  | drainedAll awake free read =>
      intro nonempty
      cases second
      obtain ⟨m, ring, ok⟩ := readable nonempty
      cases read.symm.trans ok
  | _ => exact woken_of good woken second (Nat.le_refl _) id (Nat.le_refl _)

def Drains (s : State) : Prop := s.back.inHand ≠ none → s.front.listener = .awake

theorem Drains.step (drains : Drains s) (action : step codecs s a = some u) : Drains u := by
  obtain ⟨v, c⟩ := u
  obtain ⟨e, effect, second⟩ := step_effect action
  intro held
  cases effect with
  | drained awake free read => exact awake
  | listenerWoke waiting byte => rfl
  | listenerFailed waiting =>
      have before := drains (Exchange.inHand_of_advance (by simp) second held)
      cases waiting.symm.trans before
  | drainedAll awake free read => exact absurd free (Exchange.inHand_of_advance (by simp) second held)
  | @plain a e event =>
      refine drains (Exchange.inHand_of_advance ?_ second held)
      cases a <;> cases event <;> simp
  | _ => exact drains (Exchange.inHand_of_advance (by simp) second held)

/-! ## Runs -/

structure Attended (s : State) : Prop where
  good : Good bincodeCodecs (fun _ => True) s
  served : s.back.Served bincodeCodecs .uds
  woken : Woken s
  drains : Drains s

theorem Attended.readable (attended : Attended s) : Readable s := by
  intro nonempty
  obtain ⟨m, rest, held⟩ := List.exists_cons_of_ne_nil nonempty
  have small := Exchange.answer_fits_of_served attended.good.sound attended.served (m := m)
    (by simp [held])
  have buffers : ShmTransport.uds.requestBuf + 8 ≤ ShmTransport.uds.responseBuf := by decide
  exact ⟨m, _, by rw [Fifo.read, held]; exact if_neg (by omega)⟩

theorem attended_start (requestCapacity responseCapacity : Nat) :
    Attended (start requestCapacity responseCapacity) where
  good := good_start _ _
  served := fun _ member => by cases member
  woken := fun nonempty => absurd rfl nonempty
  drains := fun held => absurd rfl held

theorem Attended.step (attended : Attended s) (working : ¬ a.BreaksBack)
    (action : Uds.step bincodeCodecs s a = some u) : Attended u where
  good := attended.good.step (by cases a <;> trivial) action
  served := by
    obtain ⟨e, _, second⟩ := step_effect action
    cases e with
    | none => exact Option.some.inj second ▸ attended.served
    | some e => exact attended.served.step attended.good.sound second
  woken := attended.woken.step attended.good attended.readable working action
  drains := attended.drains.step action

def betweenBack (s : State) : Nat := s.back.unannounced - byteOut s.front.writeLock

section Deliveries
variable (requestCapacity responseCapacity : Nat) (actions : List Action)

def writes : List (Text × EchoResponse) :=
  outputs (Uds.step bincodeCodecs) (Layered.onEvent front (Exchange.written bincodeCodecs))
    (start requestCapacity responseCapacity) actions

def takes : List (Text × EchoResponse) :=
  outputs (Uds.step bincodeCodecs) (Layered.onEvent front (Exchange.taken bincodeCodecs .uds))
    (start requestCapacity responseCapacity) actions

def offers : List (Text × EchoResponse) :=
  outputs (Uds.step bincodeCodecs) (Layered.onEvent front Exchange.offered)
    (start requestCapacity responseCapacity) actions

/-- What was written was taken or is in the ring, what was taken was offered or is in the hand of
the listener, in the same order and each once. -/
structure Delivered (s : State) : Prop where
  once : ((writes requestCapacity responseCapacity actions).map Prod.fst).Nodup
  taken : writes requestCapacity responseCapacity actions =
    takes requestCapacity responseCapacity actions ++ s.back.outbound bincodeCodecs
  inRing : s.back.responseRing.messages =
    (s.back.outbound bincodeCodecs).map bincodeCodecs.response.encode
  offered : takes requestCapacity responseCapacity actions =
    offers requestCapacity responseCapacity actions ++ s.back.inHand.toList

variable {requestCapacity responseCapacity actions}

theorem delivered_of_run
    (ran : run (Uds.step bincodeCodecs) (start requestCapacity responseCapacity) actions = some s) :
    Delivered requestCapacity responseCapacity actions s := by
  have initial := Exchange.sound_initial bincodeCodecs requestCapacity responseCapacity
  have sound := Exchange.Sound.of_run ran
  have written : s.back.answered bincodeCodecs = writes requestCapacity responseCapacity actions :=
    Layered.run_outputs (fun _ _ _ sound => sound.step)
      (fun _ _ _ sound => Exchange.answered_appends sound) initial ran
  have taken : s.back.handled ++ s.back.inHand.toList =
      takes requestCapacity responseCapacity actions :=
    Layered.run_outputs (h := fun s : Exchange => s.handled ++ s.inHand.toList)
      (fun _ _ _ sound => sound.step)
      (fun _ _ _ sound => Exchange.taken_appends sound) initial ran
  have offered : s.back.handled = offers requestCapacity responseCapacity actions :=
    Layered.run_outputs (fun _ _ _ sound => sound.step)
      (fun _ _ _ sound => Exchange.handled_appends sound) initial ran
  refine ⟨written ▸ sound.answers.once, ?_, ?_, ?_⟩
  · rw [← written, ← taken, Exchange.answered, List.append_assoc]
  · exact (bincodeCodecs.response.map_encode_filterMap_decode sound.answers.queued).symm
  · rw [← taken, ← offered]

end Deliveries

/-- No answer is left behind in the response ring: the drain loop ends only on an empty ring, each
answer is taken and offered once, and where nobody is on the way to the listener the ring is empty. -/
theorem no_wakeup_lost (requestCapacity responseCapacity : Nat) (actions : List Action) (s : State)
    (ran : run (Uds.step bincodeCodecs) (start requestCapacity responseCapacity) actions = some s)
    (working : ∀ a ∈ actions, ¬ a.BreaksBack) :
    (∀ u, Uds.step bincodeCodecs s .drain = some u → u.front.listener = .waiting →
      s.back.responseRing.messages = []) ∧
    Delivered requestCapacity responseCapacity actions s ∧
    (s.front.listener = .waiting → s.front.responseBytes = 0 → betweenBack s = 0 →
      s.back.responseRing.messages = [] ∧
      offers requestCapacity responseCapacity actions =
        writes requestCapacity responseCapacity actions) := by
  have attended : Attended s :=
    run_invariant_of_forall (fun _ _ _ attended ok action => attended.step ok action)
      (attended_start _ _) working ran
  have delivered := delivered_of_run ran
  refine ⟨fun ⟨v, c⟩ action waiting => ?_, delivered, fun waiting bytes between => ?_⟩
  · obtain ⟨e, effect, second⟩ := step_effect action
    cases effect with
    | plain event => cases event
    | drained awake free read => cases awake.symm.trans waiting
    | drainedAll awake free read =>
        by_contra nonempty
        obtain ⟨m, ring, ok⟩ := attended.readable nonempty
        cases read.symm.trans ok
  · have empty : s.back.responseRing.messages = [] := by
      by_contra nonempty
      rcases attended.woken nonempty with byte | awake | owes
      · omega
      · cases waiting.symm.trans awake
      · unfold betweenBack at between
        omega
    have free : s.back.inHand = none := by
      by_contra held
      cases waiting.symm.trans (attended.drains held)
    have taken := delivered.taken
    have offered := delivered.offered
    simp only [Exchange.outbound, empty, free, List.filterMap_nil, List.append_nil,
      Option.toList_none] at taken offered
    exact ⟨empty, offered.symm.trans taken.symm⟩

def spareRun : List Action :=
  [.call sampleId ping, .call otherId ping, .register 0, .register 1, .write 0, .write 1,
    .lockNotify 0, .notify 0, .flush 0, .lockNotify 1, .notify 1, .flush 1, .backendWake, .take,
    .backendWake, .take, .respond 0 5 6, .respond 1 5 6, .lockWrite 1, .notifyBack 1,
    .flushBack 1, .listenerWake, .drain, .resolve, .drain, .resolve, .drain, .lockWrite 0,
    .notifyBack 0, .flushBack 0, .listenerWake, .drain]

theorem no_wakeup_lost_spare :
    ∃ s, run (Uds.step bincodeCodecs) (start 4096 4096) spareRun = some s ∧
      s.back.responseRing.messages = [] ∧
      offers 4096 4096 spareRun = writes 4096 4096 spareRun := by
  have ran : (run (Uds.step bincodeCodecs) (start 4096 4096) spareRun).isSome := rfl
  have whole : ∀ a ∈ spareRun, ¬ a.BreaksBack := by
    simp only [spareRun, List.forall_mem_cons, Action.BreaksBack, not_false_eq_true, true_and]
    exact List.forall_mem_nil _
  exact ⟨_, (Option.some_get ran).symm, (no_wakeup_lost 4096 4096 spareRun _
    (Option.some_get ran).symm whole).2.2 rfl rfl rfl⟩

end Uds

end GatewayGrpc.Transport
