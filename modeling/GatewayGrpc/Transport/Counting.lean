import GatewayGrpc.Transport.ExchangeInvariant

/-!
# Messages and the parties that still have to signal

A write puts a message into a ring and its writer into `written`. So the messages and the writers in
that phase change together, up to the messages that are taken and the writers that go on.
-/

namespace GatewayGrpc.Transport.Exchange
open Library Proto SharedMemory

def phase? (s : Exchange) (i : Nat) : Option Phase := s.calls[i]?.map Call.phase

def unsignalled (s : Exchange) : Nat := s.calls.countP fun call => call.phase = .written

def unannounced (s : Exchange) : Nat := s.tasks.countP fun task => task.phase = .written

namespace Event

def takes : Event → Nat
  | .serve | .skipRequest => 1
  | _ => 0

def fetches : Event → Nat
  | .fetch | .skipResponse => 1
  | _ => 0

def announces : Event → Nat
  | .finish _ => 1
  | _ => 0

def leaves (s : Exchange) : Event → Nat
  | .notified _ | .notifyFailed _ => 1
  | .drop i => if s.phase? i = some .written then 1 else 0
  | _ => 0

def Silent : Event → Prop
  | .call _ _ | .register _ | .write _ | .receive _ | .closed _ | .respond _ _ _ | .resolve => True
  | _ => False

theorem Silent.counts {e : Event} (silent : e.Silent) (s : Exchange) :
    e.takes = 0 ∧ e.fetches = 0 ∧ e.announces = 0 ∧ e.leaves s = 0 := by
  cases e with
  | call | register | write | receive | closed | respond | resolve => exact ⟨rfl, rfl, rfl, rfl⟩
  | _ => exact silent.elim

theorem Silent.foreign {e : Event} (silent : e.Silent) (i : Nat) :
    (e ≠ .notified i ∧ e ≠ .notifyFailed i ∧ e ≠ .drop i) ∧ e ≠ .finish i := by
  refine ⟨⟨?_, ?_, ?_⟩, ?_⟩ <;>
  · rintro rfl
    exact silent

end Event

variable {codecs : IdCodecs} {t : ShmTransport} {s u : Exchange} {e : Event}

theorem unsignalled_setCall {i : Nat} {call : Call} (here : s.calls[i]? = some call)
    (other : Call) :
    (s.setCall i other).unsignalled + (decide (call.phase = .written)).toNat =
      s.unsignalled + (decide (other.phase = .written)).toNat :=
  countP_set_of _ here

theorem unannounced_setTask {j : Nat} {task : Task} (here : s.tasks[j]? = some task)
    (other : Task) :
    (s.setTask j other).unannounced + (decide (task.phase = .written)).toNat =
      s.unannounced + (decide (other.phase = .written)).toNat :=
  countP_set_of _ here

theorem Moves.unsignalled {i : Nat} {call : Call} {phase : Phase} (here : s.calls[i]? = some call)
    (moves : Moves codecs s i call e phase) :
    e.takes + s.unsignalled =
      (s.setCall i { call with phase := phase }).unsignalled + e.leaves s := by
  have changed := unsignalled_setCall here { call with phase := phase }
  cases moves with
  | writeRefused before => simp_all [Event.takes, Event.leaves]
  | notified before => simp_all [Event.takes, Event.leaves]
  | notifyFailed before => simp_all [Event.takes, Event.leaves]
  | received before => simp_all [Event.takes, Event.leaves]
  | closed before => simp_all [Event.takes, Event.leaves]
  | dropped before =>
      have phase : s.phase? i = some call.phase := by rw [phase?, here, Option.map_some]
      rcases before with before | before | before <;>
        simp_all [Event.takes, Event.leaves]

theorem request_balance (sound : s.Sound codecs) (action : step codecs t s e = some u) :
    u.requestRing.messages.length + e.takes + s.unsignalled =
      s.requestRing.messages.length + u.unsignalled + e.leaves s := by
  cases step_effect action with
  | called request fresh => simp [unsignalled, Event.takes, Event.leaves]
  | @registered i call here starting =>
      have changed := unsignalled_setCall here { call with phase := .registered }
      simp only [starting, reduceCtorEq, decide_false, Bool.toNat_false] at changed
      change s.requestRing.messages.length + 0 + s.unsignalled = s.requestRing.messages.length +
        (s.setCall i { call with phase := .registered }).unsignalled + 0
      omega
  | @wrote i call here registered room =>
      have changed := unsignalled_setCall here { call with phase := .written, accepted := true }
      simp only [registered, reduceCtorEq, decide_false, Bool.toNat_false, decide_true,
        Bool.toNat_true] at changed
      change (s.requestRing.messages ++ [codecs.request.encode call.key]).length + 0 +
        s.unsignalled = s.requestRing.messages.length +
          (s.setCall i { call with phase := .written, accepted := true }).unsignalled + 0
      rw [List.length_append, List.length_singleton]
      omega
  | moved here moves =>
      have changed := moves.unsignalled here
      simp only [setCall] at changed ⊢
      omega
  | @served m ring id request read decoded =>
      obtain ⟨_, held, _⟩ := Fifo.read_eq_ok read
      simp [held, Event.takes, Event.leaves, unsignalled]
  | skippedRequest read unusable => exact absurd unusable (sound.intake.usable read)
  | answered ts pt here => rfl
  | answerRefused ts pt here => rfl
  | finished here => rfl
  | fetched => rfl
  | skippedResponse free read unusable => exact absurd unusable (sound.answers.usable read)
  | @resolved id response i call held found here =>
      have changed := unsignalled_setCall here { call with reply := some response }
      dsimp only at changed
      change s.requestRing.messages.length + 0 + s.unsignalled = s.requestRing.messages.length +
        (s.setCall i { call with reply := some response }).unsignalled + 0
      omega
  | unclaimed => rfl

theorem answer_balance (sound : s.Sound codecs) (action : step codecs t s e = some u) :
    u.responseRing.messages.length + e.fetches + s.unannounced =
      s.responseRing.messages.length + u.unannounced + e.announces := by
  cases step_effect action with
  | moved here moves => cases moves <;> rfl
  | served => simp [unannounced, Event.fetches, Event.announces]
  | skippedRequest read unusable => exact absurd unusable (sound.intake.usable read)
  | @answered j task ts pt here running room =>
      have changed := unannounced_setTask here { task with phase := .written }
      simp only [running, reduceCtorEq, decide_false, Bool.toNat_false, decide_true,
        Bool.toNat_true] at changed
      change (s.responseRing.messages ++
        [codecs.response.encode (task.id, task.request.echo ts pt)]).length + 0 + s.unannounced =
          s.responseRing.messages.length +
            (s.setTask j { task with phase := .written }).unannounced + 0
      rw [List.length_append, List.length_singleton]
      omega
  | @answerRefused j task ts pt here running full =>
      have changed := unannounced_setTask here { task with phase := .refused }
      simp only [running, reduceCtorEq, decide_false, Bool.toNat_false] at changed
      change s.responseRing.messages.length + 0 + s.unannounced = s.responseRing.messages.length +
        (s.setTask j { task with phase := .refused }).unannounced + 0
      omega
  | @finished j task here written =>
      have changed := unannounced_setTask here { task with phase := .finished }
      simp only [written, reduceCtorEq, decide_false, Bool.toNat_false, decide_true,
        Bool.toNat_true] at changed
      change s.responseRing.messages.length + 0 + s.unannounced = s.responseRing.messages.length +
        (s.setTask j { task with phase := .finished }).unannounced + 1
      omega
  | @fetched m ring answer free read decoded =>
      obtain ⟨_, held, _⟩ := Fifo.read_eq_ok read
      simp [held, Event.fetches, Event.announces, unannounced]
  | skippedResponse free read unusable => exact absurd unusable (sound.answers.usable read)
  | _ => rfl

theorem responses_le (sound : s.Sound codecs) (action : step codecs t s e = some u) :
    s.responseRing.messages.length ≤ u.responseRing.messages.length + e.fetches := by
  cases step_effect action with
  | moved here moves => cases moves <;> exact Nat.le_refl _
  | skippedRequest read unusable => exact absurd unusable (sound.intake.usable read)
  | answered ts pt here running room =>
      rw [List.length_append]
      exact Nat.le_add_right_of_le (Nat.le_add_right ..)
  | fetched free read decoded =>
      obtain ⟨_, held, _⟩ := Fifo.read_eq_ok read
      simp [held, Event.fetches]
  | skippedResponse free read unusable => exact absurd unusable (sound.answers.usable read)
  | _ => exact Nat.le_refl _

theorem unannounced_le (sound : s.Sound codecs) (action : step codecs t s e = some u) :
    s.unannounced ≤ u.unannounced + e.announces := by
  have balance := answer_balance sound action
  have kept := responses_le sound action
  omega

/-! ## Who stays in that phase -/

def taskPhase? (s : Exchange) (j : Nat) : Option TaskPhase := s.tasks[j]?.map Task.phase

theorem unsignalled_pos {i : Nat} (written : s.phase? i = some .written) : 0 < s.unsignalled := by
  obtain ⟨call, here, phase⟩ := Option.map_eq_some_iff.mp written
  exact List.countP_pos_iff.mpr ⟨call, List.mem_of_getElem? here, by simpa using phase⟩

theorem unannounced_pos {j : Nat} (written : s.taskPhase? j = some .written) :
    0 < s.unannounced := by
  obtain ⟨task, here, phase⟩ := Option.map_eq_some_iff.mp written
  exact List.countP_pos_iff.mpr ⟨task, List.mem_of_getElem? here, by simpa using phase⟩

theorem phase?_setCall {i : Nat} {call other : Call} (here : s.calls[i]? = some call) (j : Nat) :
    (s.setCall i other).phase? j = if i = j then some other.phase else s.phase? j := by
  rw [phase?, setCall, getElem?_set_of here]
  split <;> rfl

theorem taskPhase?_setTask {i : Nat} {task other : Task} (here : s.tasks[i]? = some task)
    (j : Nat) :
    (s.setTask i other).taskPhase? j = if i = j then some other.phase else s.taskPhase? j := by
  rw [taskPhase?, setTask, getElem?_set_of here]
  split <;> rfl

theorem written_stable {j : Nat} (action : step codecs t s e = some u)
    (written : s.phase? j = some .written)
    (other : e ≠ .notified j ∧ e ≠ .notifyFailed j ∧ e ≠ .drop j) :
    u.phase? j = some .written := by
  have elsewhere : ∀ {i call}, s.calls[i]? = some call → call.phase ≠ .written → i ≠ j := by
    rintro i call here phase rfl
    rw [phase?, here] at written
    exact phase (Option.some.inj written)
  cases step_effect action with
  | called request fresh =>
      obtain ⟨call, here, phase⟩ := Option.map_eq_some_iff.mp written
      rw [phase?, List.getElem?_append_left (lt_of_getElem?_eq here), here, Option.map_some, phase]
  | registered here starting =>
      exact (phase?_setCall here j).trans
        ((if_neg (elsewhere here (by simp [starting]))).trans written)
  | wrote here registered =>
      exact (phase?_setCall here j).trans
        ((if_neg (elsewhere here (by simp [registered]))).trans written)
  | moved here moves =>
      refine (phase?_setCall here j).trans ((if_neg ?_).trans written)
      cases moves with
      | writeRefused before => exact elsewhere here (by simp [before])
      | received before => exact elsewhere here (by simp [before])
      | closed before => exact elsewhere here (by simp [before])
      | _ =>
          rintro rfl
          simp at other
  | @resolved id response i call held found here =>
      refine (phase?_setCall here j).trans ?_
      split
      · subst_vars
        rwa [phase?, here] at written
      · exact written
  | _ => exact written

theorem task_written_stable {j : Nat} (action : step codecs t s e = some u)
    (written : s.taskPhase? j = some .written) (other : e ≠ .finish j) :
    u.taskPhase? j = some .written := by
  have elsewhere : ∀ {i task}, s.tasks[i]? = some task → task.phase ≠ .written → i ≠ j := by
    rintro i task here phase rfl
    rw [taskPhase?, here] at written
    exact phase (Option.some.inj written)
  cases step_effect action with
  | served =>
      obtain ⟨task, here, phase⟩ := Option.map_eq_some_iff.mp written
      rw [taskPhase?, List.getElem?_append_left (lt_of_getElem?_eq here), here, Option.map_some,
        phase]
  | answered ts pt here running =>
      exact (taskPhase?_setTask here j).trans
        ((if_neg (elsewhere here (by simp [running]))).trans written)
  | answerRefused ts pt here running =>
      exact (taskPhase?_setTask here j).trans
        ((if_neg (elsewhere here (by simp [running]))).trans written)
  | finished here =>
      refine (taskPhase?_setTask here j).trans ((if_neg ?_).trans written)
      rintro rfl
      exact other rfl
  | _ => exact written

/-! ## Messages that fit their readers -/

variable (codecs t) in
def FitsBackend (p : Text × EchoRequest) : Prop :=
  (codecs.request.encode p).length ≤ t.requestBuf

variable (codecs t) in
def FitsGateway (p : Text × EchoRequest) : Prop :=
  ∀ ts pt, (codecs.response.encode (p.1, p.2.echo ts pt)).length ≤ t.responseBuf

variable (codecs t) in
def FitsReaders (p : Text × EchoRequest) : Prop := FitsBackend codecs t p ∧ FitsGateway codecs t p

theorem fitsReaders_bincode {id : Text} {request : EchoRequest}
    (small : id.val.utf8ByteSize + request.message.val.utf8ByteSize +
      request.payload.val.length ≤ 65496) : FitsReaders bincodeCodecs t (id, request) := by
  have requestLength := Bincode.length_requestCodec id request
  have requestBuf : t.requestBuf = 65536 := by cases t <;> rfl
  have responseBuf : 65536 ≤ t.responseBuf := by cases t <;> decide
  refine ⟨?_, fun ts pt => ?_⟩
  · change (Bincode.requestCodec.encode (id, request)).length ≤ t.requestBuf
    omega
  · have responseLength := Bincode.length_responseCodec id (request.echo ts pt)
    change _ = id.val.utf8ByteSize + request.message.val.utf8ByteSize +
      request.payload.val.length + 40 at responseLength
    change (Bincode.responseCodec.encode (id, request.echo ts pt)).length ≤ t.responseBuf
    omega

def Asked (F : Text × EchoRequest → Prop) (s : Exchange) : Prop := ∀ call ∈ s.calls, F call.key

def Event.Asks (F : Text × EchoRequest → Prop) : Event → Prop
  | .call id request => F (id, request)
  | _ => True

theorem Asked.mono {F G : Text × EchoRequest → Prop} (asked : s.Asked F)
    (weaker : ∀ p, F p → G p) : s.Asked G :=
  fun call member => weaker _ (asked call member)

theorem Asked.setCall {F : Text × EchoRequest → Prop} {i : Nat} {call other : Call}
    (asked : s.Asked F) (here : s.calls[i]? = some call) (key : other.key = call.key) :
    (s.setCall i other).Asked F := by
  intro first member
  rcases List.mem_or_eq_of_mem_set member with before | rfl
  · exact asked first before
  · exact key ▸ asked call (List.mem_of_getElem? here)

theorem Asked.step {F : Text × EchoRequest → Prop} (asked : s.Asked F) (asks : e.Asks F)
    (action : step codecs t s e = some u) : u.Asked F := by
  cases step_effect action with
  | called request fresh =>
      intro first member
      rcases List.mem_append.mp member with before | last
      · exact asked first before
      · rw [List.mem_singleton.mp last]
        exact asks
  | registered here | wrote here | moved here | resolved held found here =>
      exact asked.setCall here rfl
  | _ => exact asked

theorem Sound.request_fits (sound : s.Sound codecs) (asked : s.Asked (FitsBackend codecs t))
    {m : Message} (member : m ∈ s.requestRing.messages) : m.length ≤ t.requestBuf := by
  obtain ⟨p, rfl⟩ := sound.intake.queued m member
  have inside : p ∈ s.entered codecs :=
    List.mem_append_right _ (List.mem_filterMap.mpr ⟨_, member, codecs.request.decode_encode p⟩)
  obtain ⟨call, here, rfl, _⟩ := sound.intake.caller inside
  exact asked call here

theorem Sound.answer_fits (sound : s.Sound codecs) (asked : s.Asked (FitsGateway codecs t))
    {m : Message} (member : m ∈ s.responseRing.messages) : m.length ≤ t.responseBuf := by
  obtain ⟨⟨id, response⟩, rfl⟩ := sound.answers.queued m member
  have inside : (id, response) ∈ s.answered codecs :=
    List.mem_append_right _ (List.mem_append_right _
      (List.mem_filterMap.mpr ⟨_, member, codecs.response.decode_encode _⟩))
  obtain ⟨call, here, rfl, _, message, payload⟩ := sound.addressee inside
  have built : response =
      call.request.echo response.timestampNs response.processingTimeUs := by
    cases response
    cases message
    cases payload
    rfl
  rw [built]
  exact asked call here _ _

theorem Sound.read_request (sound : s.Sound codecs) (asked : s.Asked (FitsBackend codecs t))
    (nonempty : s.requestRing.messages ≠ []) :
    ∃ b m ring, s.requestRing.read t.requestBuf = (.ok (b :: m), ring) := by
  obtain ⟨head, rest, held⟩ := List.exists_cons_of_ne_nil nonempty
  have small := sound.request_fits asked (m := head) (by simp [held])
  obtain ⟨p, encoded⟩ := sound.intake.queued head (by simp [held])
  obtain ⟨b, m, rfl⟩ := List.exists_cons_of_ne_nil (encoded ▸ codecs.request.encode_ne_nil p)
  exact ⟨b, m, _, by rw [Fifo.read, held]; exact if_neg (by omega)⟩

theorem Sound.read_answer (sound : s.Sound codecs) (asked : s.Asked (FitsGateway codecs t))
    (nonempty : s.responseRing.messages ≠ []) :
    ∃ b m ring, s.responseRing.read t.responseBuf = (.ok (b :: m), ring) := by
  obtain ⟨head, rest, held⟩ := List.exists_cons_of_ne_nil nonempty
  have small := sound.answer_fits asked (m := head) (by simp [held])
  obtain ⟨p, encoded⟩ := sound.answers.queued head (by simp [held])
  obtain ⟨b, m, rfl⟩ := List.exists_cons_of_ne_nil (encoded ▸ codecs.response.encode_ne_nil p)
  exact ⟨b, m, _, by rw [Fifo.read, held]; exact if_neg (by omega)⟩

/-! ## Actions that may come with an event -/

def Event.count (f : Event → Nat) (e : Option Event) : Nat := e.elim 0 f

section Advance
variable {e : Option Event} (second : Layered.advance (Exchange.step codecs t) s e = some u)
include second

theorem request_balance_advance (sound : s.Sound codecs) :
    u.requestRing.messages.length + Event.count Event.takes e + s.unsignalled =
      s.requestRing.messages.length + u.unsignalled + Event.count (Event.leaves s) e := by
  cases e with
  | none =>
      cases second
      rfl
  | some e => exact request_balance sound second

theorem answer_balance_advance (sound : s.Sound codecs) :
    u.responseRing.messages.length + Event.count Event.fetches e + s.unannounced =
      s.responseRing.messages.length + u.unannounced + Event.count Event.announces e := by
  cases e with
  | none =>
      cases second
      rfl
  | some e => exact answer_balance sound second

theorem unannounced_le_advance (sound : s.Sound codecs) :
    s.unannounced ≤ u.unannounced + Event.count Event.announces e := by
  cases e with
  | none =>
      cases second
      exact Nat.le_refl _
  | some e => exact unannounced_le sound second

theorem Asked.advance {F : Text × EchoRequest → Prop} (asked : s.Asked F)
    (asks : ∀ x ∈ e, x.Asks F) : u.Asked F := by
  cases e with
  | none => exact Option.some.inj second ▸ asked
  | some e => exact asked.step (asks e rfl) second

theorem written_stable_advance {i : Nat} (written : s.phase? i = some .written)
    (other : ∀ x ∈ e, x ≠ .notified i ∧ x ≠ .notifyFailed i ∧ x ≠ .drop i) :
    u.phase? i = some .written := by
  cases e with
  | none => exact Option.some.inj second ▸ written
  | some e => exact written_stable second written (other e rfl)

theorem task_written_stable_advance {j : Nat} (written : s.taskPhase? j = some .written)
    (other : ∀ x ∈ e, x ≠ .finish j) : u.taskPhase? j = some .written := by
  cases e with
  | none => exact Option.some.inj second ▸ written
  | some e => exact task_written_stable second written (other e rfl)

end Advance

end GatewayGrpc.Transport.Exchange
