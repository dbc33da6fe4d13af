import GatewayGrpc.Transport.Counting

/-!
# An exchange at rest

Nothing is left to do but for calls without an answer. Then a call still waits exactly if the
response ring refused its answer: the task that was refused ends without a word to anybody.
-/

namespace GatewayGrpc.Transport.Exchange
open Library Proto SharedMemory

structure Settled (s : Exchange) : Prop where
  calls : ∀ call ∈ s.calls,
    call.phase = .waiting ∧ call.reply = none ∨ ∃ result, call.phase = .returned result
  requests : s.requestRing.messages = []
  tasks : ∀ task ∈ s.tasks, task.phase = .finished ∨ task.phase = .refused
  responses : s.responseRing.messages = []
  inHand : s.inHand = none

def AllReturned (s : Exchange) : Prop := ∀ call ∈ s.calls, ∃ result, call.phase = .returned result

def NoneRefused (s : Exchange) : Prop := ∀ task ∈ s.tasks, task.phase ≠ .refused

def AnswerFindsRoom (codecs : IdCodecs) (s : Exchange) : Event → Prop
  | .respond j ts pt => ∀ task ∈ s.tasks[j]?,
      s.responseRing.Room (codecs.response.encode (task.id, task.request.echo ts pt))
  | _ => True

def Undisturbed (s : Exchange) : Prop :=
  ∀ call ∈ s.calls, call.phase ≠ .dropped ∧ call.phase ≠ .returned (.error .notify)

def Event.FromCaller : Event → Prop
  | .call _ _ | .drop _ => True
  | _ => False

def Event.Disturbs : Event → Prop
  | .drop _ | .notifyFailed _ => True
  | _ => False

variable {codecs : IdCodecs} {t : ShmTransport} {s u : Exchange} {e : Event}

theorem undisturbed_setCall {i : Nat} {other : Call} (undisturbed : s.Undisturbed)
    (new : other.phase ≠ .dropped ∧ other.phase ≠ .returned (.error .notify)) :
    (s.setCall i other).Undisturbed := by
  intro call member
  rcases List.mem_or_eq_of_mem_set member with before | rfl
  · exact undisturbed call before
  · exact new

theorem Undisturbed.step (undisturbed : s.Undisturbed) (calm : ¬ e.Disturbs)
    (action : step codecs t s e = some u) : u.Undisturbed := by
  cases step_effect action with
  | called request fresh =>
      intro call member
      rcases List.mem_append.mp member with before | last
      · exact undisturbed call before
      · rw [List.mem_singleton.mp last]
        simp
  | registered | wrote => exact undisturbed_setCall undisturbed (by simp)
  | moved here moves =>
      cases moves with
      | notifyFailed | dropped => exact absurd trivial calm
      | _ => exact undisturbed_setCall undisturbed (by simp)
  | @resolved _ _ _ call held found here =>
      exact undisturbed_setCall undisturbed (undisturbed call (List.mem_of_getElem? here))
  | _ => exact undisturbed

theorem Undisturbed.advance {e : Option Event} (undisturbed : s.Undisturbed)
    (second : Layered.advance (Exchange.step codecs t) s e = some u)
    (calm : ∀ x ∈ e, ¬ x.Disturbs) : u.Undisturbed := by
  cases e with
  | none => exact Option.some.inj second ▸ undisturbed
  | some e => exact undisturbed.step (calm e rfl) second

theorem noneRefused_setTask {j : Nat} {task other : Task} (here : s.tasks[j]? = some task)
    (before : task.phase ≠ .refused) (after : other.phase ≠ .refused) :
    (s.setTask j other).NoneRefused ↔ s.NoneRefused := by
  constructor
  · intro none first member
    obtain ⟨k, found⟩ := List.mem_iff_getElem?.mp member
    by_cases same : j = k
    · subst same
      cases here.symm.trans found
      exact before
    · refine none first (List.mem_of_getElem? (i := k) ?_)
      rw [setTask, getElem?_set_of here, if_neg same, found]
  · intro none first member
    rcases List.mem_or_eq_of_mem_set member with earlier | rfl
    · exact none first earlier
    · exact after

theorem noneRefused_step (sound : s.Sound codecs) (action : step codecs t s e = some u) :
    u.NoneRefused ↔ s.NoneRefused ∧ s.AnswerFindsRoom codecs e := by
  cases step_effect action with
  | called | registered | wrote => exact (and_iff_left trivial).symm
  | moved here moves => cases moves <;> exact (and_iff_left trivial).symm
  | served => simp [NoneRefused, AnswerFindsRoom, or_imp, forall_and]
  | skippedRequest read unusable => exact absurd unusable (sound.intake.usable read)
  | answered ts pt here running room =>
      refine (noneRefused_setTask here (by simp [running]) (by simp)).trans
        (and_iff_left fun task found => ?_).symm
      cases here.symm.trans found
      exact room
  | answerRefused ts pt here running full =>
      refine iff_of_false (fun none => ?_) fun both => full (both.2 _ here)
      exact none _ (List.mem_of_getElem? (getElem?_set_self_of here)) rfl
  | finished here written =>
      exact (noneRefused_setTask here (by simp [written]) (by simp)).trans
        (and_iff_left trivial).symm
  | fetched | resolved | unclaimed => exact (and_iff_left trivial).symm
  | skippedResponse free read unusable => exact absurd unusable (sound.answers.usable read)

theorem noneRefused_run {Front Action : Type*}
    {front : Exchange → Front → Action → Option (Front × Option Event)} {w : Front}
    {requestCapacity responseCapacity : Nat} {actions : List Action} {s : Layered Front Exchange}
    (ran : run (Layered.step front (Exchange.step codecs t))
      ⟨w, .initial requestCapacity responseCapacity⟩ actions = some s) :
    s.back.NoneRefused ↔ Along (Layered.step front (Exchange.step codecs t))
      (Layered.OnEvent front (AnswerFindsRoom codecs))
      ⟨w, .initial requestCapacity responseCapacity⟩ actions := by
  have none : (initial requestCapacity responseCapacity).NoneRefused := by
    simp [initial, NoneRefused]
  exact (Layered.run_iff_along (fun _ _ _ sound => sound.step)
    (fun _ _ _ sound => noneRefused_step sound) (sound_initial codecs _ _) ran).trans
    (and_iff_right none)

theorem Sound.allReturned_iff (sound : s.Sound codecs) (settled : s.Settled)
    (undisturbed : s.Undisturbed) : s.AllReturned ↔ s.NoneRefused := by
  have answered : s.answered codecs = s.handled := by
    simp [Exchange.answered, outbound, settled.responses, settled.inHand]
  constructor
  · intro returned task member refused
    obtain ⟨call, here, key, accepted⟩ := sound.intake.task_caller member
    obtain ⟨result, phase⟩ := returned call here
    have coherent := (sound.coherent call here).2
    have disturbed := (undisturbed call here).2
    rw [phase] at coherent disturbed
    cases result with
    | ok response =>
        have handled := sound.replies.replied call here response coherent
        obtain ⟨other, there, done, same, _⟩ := sound.answers.task _ (answered ▸ handled)
        obtain rfl := sound.intake.unique_task there member
          (same.trans (congrArg Prod.fst key))
        rcases done with done | done <;> cases done.symm.trans refused
    | error error =>
        cases error with
        | write => exact absurd (accepted.symm.trans coherent) (by decide)
        | notify => exact disturbed rfl
        | timeout | deserialize | closed => exact coherent
  · intro none call here
    apply (settled.calls call here).resolve_left
    rintro ⟨waiting, unanswered⟩
    have accepted := (sound.coherent call here).2
    rw [waiting] at accepted
    have entered : call.key ∈ s.entered codecs :=
      (sound.intake.entered call.key).mpr (accepted ▸ mem_book here)
    rw [Exchange.entered, inbound, settled.requests, List.filterMap_nil, List.append_nil] at entered
    obtain ⟨task, member, key⟩ := List.mem_map.mp entered
    have done : task.Answered := .inr ((settled.tasks task member).resolve_right (none task member))
    obtain ⟨p, inside, same⟩ := sound.answers.answer task member done
    have replied := sound.replies.handled p (answered ▸ inside) call here
      ((congrArg Prod.fst key).symm.trans same.symm)
    cases unanswered.symm.trans replied

/-! ## Events that are enabled -/

section Enabled
variable {i : Nat} {call : Call} {task : Task}

theorem register_isSome (here : s.calls[i]? = some call) (starting : call.phase = .starting) :
    (step codecs t s (.register i)).isSome := by
  simp [step, here, starting]

theorem write_isSome (here : s.calls[i]? = some call) (registered : call.phase = .registered) :
    (step codecs t s (.write i)).isSome := by
  simp only [step, here, registered, Option.bind_eq_bind, Option.bind_some, guard_true]
  split <;> rfl

theorem notified_isSome (here : s.calls[i]? = some call) (written : call.phase = .written) :
    (step codecs t s (.notified i)).isSome := by
  simp [step, move, here, written]

theorem receive_isSome (here : s.calls[i]? = some call) (waiting : call.phase = .waiting)
    {response : EchoResponse} (reply : call.reply = some response) :
    (step codecs t s (.receive i)).isSome := by
  simp [step, move, here, waiting, reply]

theorem serve_isSome {m : Message} {ring : Fifo}
    (read : s.requestRing.read t.requestBuf = (.ok m, ring)) :
    (step codecs t s .serve).isSome := by
  simp only [step, read]
  split <;> rfl

theorem respond_isSome (here : s.tasks[i]? = some task) (running : task.phase = .running)
    (ts pt : Int64) : (step codecs t s (.respond i ts pt)).isSome := by
  simp only [step, here, running, Option.bind_eq_bind, Option.bind_some, guard_true]
  split <;> rfl

theorem finish_isSome (here : s.tasks[i]? = some task) (written : task.phase = .written) :
    (step codecs t s (.finish i)).isSome := by
  simp [step, here, written]

theorem fetch_isSome (free : s.inHand = none) {m : Message} {ring : Fifo}
    (read : s.responseRing.read t.responseBuf = (.ok m, ring)) :
    (step codecs t s .fetch).isSome := by
  simp [step, free, read]

theorem resolve_isSome (sound : s.Sound codecs) {p : Text × EchoResponse}
    (held : s.inHand = some p) : (step codecs t s .resolve).isSome := by
  obtain ⟨i, call, found, here, _⟩ := sound.inHand_pending held
  simp [step, held, found, here]

end Enabled

theorem settled_call {i : Nat} {call : Call} (undisturbed : s.Undisturbed)
    (here : s.calls[i]? = some call) (signalled : call.phase ≠ .written)
    (noRegister : ¬ (step codecs t s (.register i)).isSome)
    (noWrite : ¬ (step codecs t s (.write i)).isSome)
    (noReceive : ¬ (step codecs t s (.receive i)).isSome) :
    call.phase = .waiting ∧ call.reply = none ∨ ∃ result, call.phase = .returned result := by
  cases phase : call.phase with
  | starting => exact absurd (register_isSome here phase) noRegister
  | registered => exact absurd (write_isSome here phase) noWrite
  | written => exact absurd phase signalled
  | waiting =>
      cases reply : call.reply with
      | none => exact .inl ⟨rfl, rfl⟩
      | some response => exact absurd (receive_isSome here phase reply) noReceive
  | returned result => exact .inr ⟨result, rfl⟩
  | dropped => exact absurd phase (undisturbed call (List.mem_of_getElem? here)).1

theorem settled_task {j : Nat} {task : Task} (here : s.tasks[j]? = some task)
    (signalled : task.phase ≠ .written)
    (noRespond : ¬ (step codecs t s (.respond j 0 0)).isSome) :
    task.phase = .finished ∨ task.phase = .refused := by
  cases phase : task.phase with
  | running => exact absurd (respond_isSome here phase 0 0) noRespond
  | written => exact absurd phase signalled
  | finished => exact .inl rfl
  | refused => exact .inr rfl

theorem settled_inHand (sound : s.Sound codecs)
    (noResolve : ¬ (step codecs t s .resolve).isSome) : s.inHand = none := by
  cases held : s.inHand with
  | none => rfl
  | some p => exact absurd (resolve_isSome sound held) noResolve

theorem Settled.call_later (settled : s.Settled) {i : Nat} {call : Call}
    (here : s.calls[i]? = some call) :
    call.phase ≠ .starting ∧ call.phase ≠ .registered ∧ call.phase ≠ .written := by
  rcases settled.calls call (List.mem_of_getElem? here) with ⟨phase, _⟩ | ⟨result, phase⟩ <;>
    simp [phase]

theorem Settled.task_later (settled : s.Settled) {j : Nat} {task : Task}
    (here : s.tasks[j]? = some task) : task.phase ≠ .running ∧ task.phase ≠ .written := by
  rcases settled.tasks task (List.mem_of_getElem? here) with phase | phase <;> simp [phase]

theorem Settled.stuck (settled : s.Settled) (sound : s.Sound codecs) (own : ¬ e.FromCaller) :
    Exchange.step codecs t s e = none := by
  apply Option.eq_none_iff_forall_ne_some.mpr
  intro u action
  have emptied : ∀ {ring next : Fifo} {m : Message} {bufLen : Nat}, ring.messages = [] →
      ring.read bufLen ≠ (.ok m, next) := by
    intro ring next m bufLen empty read
    obtain ⟨_, held, _⟩ := Fifo.read_eq_ok read
    cases empty.symm.trans held
  cases step_effect action with
  | called => exact own trivial
  | registered here starting => exact (settled.call_later here).1 starting
  | wrote here registered => exact (settled.call_later here).2.1 registered
  | @moved _ i call phase here moves =>
      cases moves with
      | writeRefused registered => exact (settled.call_later here).2.1 registered
      | notified written | notifyFailed written => exact (settled.call_later here).2.2 written
      | received waiting reply =>
          rcases settled.calls call (List.mem_of_getElem? here) with ⟨_, unanswered⟩ | ⟨_, other⟩
          · cases unanswered.symm.trans reply
          · cases waiting.symm.trans other
      | closed waiting unanswered gone =>
          exact gone (sound.pending_of_waiting here waiting unanswered)
      | dropped => exact own trivial
  | served read | skippedRequest read => exact emptied settled.requests read
  | answered ts pt here running | answerRefused ts pt here running =>
      exact (settled.task_later here).1 running
  | finished here written => exact (settled.task_later here).2 written
  | fetched free read | skippedResponse free read => exact emptied settled.responses read
  | resolved held | unclaimed held => cases settled.inHand.symm.trans held

theorem unsignalled_eq_zero (none : ∀ call ∈ s.calls, call.phase ≠ .written) :
    s.unsignalled = 0 :=
  List.countP_eq_zero.mpr fun call member => by simpa using none call member

theorem unannounced_eq_zero (none : ∀ task ∈ s.tasks, task.phase ≠ .written) :
    s.unannounced = 0 :=
  List.countP_eq_zero.mpr fun task member => by simpa using none task member

end GatewayGrpc.Transport.Exchange
