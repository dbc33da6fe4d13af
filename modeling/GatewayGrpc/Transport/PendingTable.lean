import GatewayGrpc.Transport.Eventfd
import GatewayGrpc.Transport.Uds

/-!
# Entries of the pending table

An entry goes when the answer to its request is resolved, and in no other way. So it stays behind
for good where its request is not accepted, or where its answer is refused and its caller is gone.
-/

namespace GatewayGrpc.Transport
open Library Proto SharedMemory

def Phase.Live : Phase → Prop
  | .starting | .registered | .written | .waiting => True
  | .returned _ | .dropped => False

instance : DecidablePred Phase.Live
  | .starting | .registered | .written | .waiting => .isTrue trivial
  | .returned _ | .dropped => .isFalse id

namespace Exchange

variable (codecs : IdCodecs)

/-- The request is in the request ring or in a task that is not over, or its answer is in the
response ring. -/
def OnItsWay (s : Exchange) (id : Text) : Prop :=
  (∃ p ∈ s.inbound codecs, p.1 = id) ∨
  (∃ task ∈ s.tasks, task.id = id ∧ (task.phase = .running ∨ task.phase = .written)) ∨
  ∃ p ∈ s.outbound codecs, p.1 = id

def LiveCaller (s : Exchange) (id : Text) : Prop := ∃ call ∈ s.calls, call.id = id ∧ call.phase.Live

/-- Every entry belongs to a live call or to a request on its way, and a call that failed before its
request entered the ring has none. -/
structure NoLeak (s : Exchange) : Prop where
  belongs : ∀ id i, s.pendingRequests id = some i → s.LiveCaller id ∨ s.OnItsWay codecs id
  failed : ∀ call ∈ s.calls, ∀ e, call.phase = .returned (.error e) → call.accepted = false →
    s.pendingRequests call.id = none

/-- No task of the request is over with its answer refused, or in the hand of the listener. -/
def Coming (s : Exchange) (id : Text) : Prop :=
  ∀ task ∈ s.tasks, task.id = id →
    task.phase ≠ .refused ∧ (task.phase = .finished → ∀ answer ∈ s.inHand, answer.1 ≠ id)

/-- A request is accepted, and the caller of an answer that is refused, or that the listener has in
hand when its task is over, is live and does not go. -/
def KeepsTable (s : Exchange) : Event → Prop
  | .write i => ∀ call ∈ s.calls[i]?, s.requestRing.Room (codecs.request.encode call.key)
  | .respond j ts pt => ∀ task ∈ s.tasks[j]?,
      s.responseRing.Room (codecs.response.encode (task.id, task.request.echo ts pt)) ∨
        s.LiveCaller task.id
  | .fetch => ∀ answer ∈ (s.outbound codecs).head?,
      (∃ task ∈ s.tasks, task.id = answer.1 ∧ task.phase = .written) ∨ s.LiveCaller answer.1
  | .finish j => ∀ task ∈ s.tasks[j]?,
      (∀ answer ∈ s.inHand, answer.1 ≠ task.id) ∨ s.LiveCaller task.id
  | .drop i | .notifyFailed i => ∀ call ∈ s.calls[i]?, s.Coming call.id
  | _ => True

instance (s : Exchange) (id : Text) : Decidable (s.LiveCaller id) :=
  inferInstanceAs (Decidable (∃ call ∈ s.calls, _ ∧ _))

instance (s : Exchange) (id : Text) : Decidable (s.Coming id) :=
  inferInstanceAs (Decidable (∀ task ∈ s.tasks, _ → _ ∧ (_ → ∀ answer ∈ s.inHand, _)))

instance (s : Exchange) : DecidablePred (s.KeepsTable codecs)
  | .write i => inferInstanceAs (Decidable (∀ call ∈ s.calls[i]?, _))
  | .respond j _ _ => inferInstanceAs (Decidable (∀ task ∈ s.tasks[j]?, _ ∨ _))
  | .fetch =>
      inferInstanceAs (Decidable (∀ answer ∈ (s.outbound codecs).head?, (∃ task ∈ s.tasks, _) ∨ _))
  | .finish j =>
      inferInstanceAs (Decidable (∀ task ∈ s.tasks[j]?, (∀ answer ∈ s.inHand, _) ∨ _))
  | .drop i | .notifyFailed i => inferInstanceAs (Decidable (∀ call ∈ s.calls[i]?, _))
  | .call _ _ | .register _ | .notified _ | .receive _ | .closed _ | .serve | .skipRequest
  | .skipResponse | .resolve => .isTrue trivial

variable {codecs} {t : ShmTransport} {s u : Exchange} {e : Event}

/-! ## Entries by call -/

def Owed (s : Exchange) (i : Nat) (call : Call) : Prop :=
  s.pendingRequests call.id = some i →
    call.phase.Live ∨ call.accepted = true ∧ s.Coming call.id

def Kept (s : Exchange) : Prop := ∀ i call, s.calls[i]? = some call → s.Owed i call

namespace Sound

theorem accepted_of_task (sound : s.Sound codecs) {call : Call} {task : Task}
    (here : call ∈ s.calls) (member : task ∈ s.tasks) (same : task.id = call.id) :
    call.accepted = true := by
  obtain ⟨other, there, key, accepted⟩ := sound.intake.task_caller member
  obtain rfl := sound.intake.unique_mem there here ((congrArg Prod.fst key).trans same)
  exact accepted

theorem coming_of_task (sound : s.Sound codecs) {task : Task} (member : task ∈ s.tasks)
    (good : task.phase ≠ .refused)
    (free : task.phase = .finished → ∀ answer ∈ s.inHand, answer.1 ≠ task.id) :
    s.Coming task.id := by
  intro other there same
  obtain rfl := sound.intake.unique_task there member same
  exact ⟨good, free⟩

theorem not_refused {task : Task} (answered : task.Answered) : task.phase ≠ .refused := by
  intro refused
  rcases answered with phase | phase <;> cases phase.symm.trans refused

theorem coming_of_reply (sound : s.Sound codecs) {call : Call} (here : call ∈ s.calls)
    {response : EchoResponse} (reply : call.reply = some response) :
    s.Coming call.id ∧ ∀ answer ∈ s.inHand, answer.1 ≠ call.id := by
  have handled := sound.replies.replied call here response reply
  have free : ∀ answer ∈ s.inHand, answer.1 ≠ call.id := fun answer held same =>
    sound.inHand_new held handled same.symm
  obtain ⟨task, member, answered, same, _⟩ :=
    sound.answers.task _ (List.mem_append_left _ handled)
  change task.id = call.id at same
  refine ⟨?_, free⟩
  rw [← same] at free ⊢
  exact sound.coming_of_task member (not_refused answered) fun _ => free

theorem coming_of_inbound (sound : s.Sound codecs) {p : Text × EchoRequest}
    (member : p ∈ s.inbound codecs) : s.Coming p.1 := by
  intro task there same
  have once := sound.intake.once
  rw [entered, List.map_append, List.nodup_append] at once
  exact absurd same (once.2.2 task.id
    (List.mem_map.mpr ⟨task.key, List.mem_map_of_mem there, rfl⟩) p.1 (List.mem_map_of_mem member))

theorem outbound_new (sound : s.Sound codecs) {p q : Text × EchoResponse}
    (queued : q ∈ s.outbound codecs) (member : p ∈ s.handled ++ s.inHand.toList) : p.1 ≠ q.1 := by
  have once := sound.answers.once
  rw [answered, ← List.append_assoc, List.map_append, List.nodup_append] at once
  exact once.2.2 p.1 (List.mem_map_of_mem member) q.1 (List.mem_map_of_mem queued)

theorem reply_eq_none (sound : s.Sound codecs) {call : Call} (here : call ∈ s.calls)
    (new : ∀ p ∈ s.handled, p.1 ≠ call.id) : call.reply = none := by
  by_contra replied
  obtain ⟨response, replied⟩ := Option.ne_none_iff_exists'.mp replied
  exact new _ (sound.replies.replied call here response replied) rfl

theorem unanswered (sound : s.Sound codecs) {i : Nat} {call : Call} (here : s.calls[i]? = some call)
    (found : s.pendingRequests call.id = some i) : call.reply = none ∧ call.phase ≠ .starting := by
  obtain ⟨other, there, _, rest⟩ := sound.table.pending _ i found
  cases here.symm.trans there
  exact rest

theorem onItsWay_iff (sound : s.Sound codecs) {i : Nat} {call : Call}
    (here : s.calls[i]? = some call) (found : s.pendingRequests call.id = some i) :
    s.OnItsWay codecs call.id ↔ call.accepted = true ∧ s.Coming call.id := by
  have member := List.mem_of_getElem? here
  constructor
  · rintro (⟨p, inside, same⟩ | ⟨task, there, same, phase⟩ | ⟨p, inside, same⟩)
    · obtain ⟨other, there, key, accepted⟩ := sound.intake.caller (List.mem_append_right _ inside)
      obtain rfl := sound.intake.unique_mem there member ((congrArg Prod.fst key).trans same)
      exact ⟨accepted, same ▸ sound.coming_of_inbound inside⟩
    · refine ⟨sound.accepted_of_task member there same, same ▸ sound.coming_of_task there ?_ ?_⟩
      · rcases phase with phase | phase <;> simp [phase]
      · intro finished
        rcases phase with phase | phase <;> cases phase.symm.trans finished
    · obtain ⟨task, there, answered, id, _⟩ := sound.answers.task p
        (List.mem_append_right _ (List.mem_append_right _ inside))
      have same := id.trans same
      refine ⟨sound.accepted_of_task member there same,
        same ▸ sound.coming_of_task there (not_refused answered) fun _ answer held other => ?_⟩
      exact sound.outbound_new inside (List.mem_append_right _ (Option.mem_toList.mpr held))
        (other.trans id)
  · rintro ⟨accepted, coming⟩
    have entered := (sound.intake.entered call.key).mpr (accepted ▸ mem_book member)
    rcases List.mem_append.mp entered with served | waiting
    · obtain ⟨task, there, key⟩ := List.mem_map.mp served
      have same : task.id = call.id := congrArg Prod.fst key
      cases phase : task.phase with
      | running => exact .inr (.inl ⟨task, there, same, .inl phase⟩)
      | written => exact .inr (.inl ⟨task, there, same, .inr phase⟩)
      | refused => exact absurd phase (coming task there same).1
      | finished =>
          obtain ⟨p, inside, id⟩ := sound.answers.answer task there (.inr phase)
          have same' := id.trans same
          rcases List.mem_append.mp inside with handled | inside
          · have replied := sound.replies.handled p handled call member same'.symm
            cases (sound.unanswered here found).1.symm.trans replied
          · rcases List.mem_append.mp inside with held | queued
            · exact absurd same' ((coming task there same).2 phase p (Option.mem_toList.mp held))
            · exact .inr (.inr ⟨p, queued, same'⟩)
    · exact .inl ⟨call.key, waiting, rfl⟩

theorem noLeak_iff (sound : s.Sound codecs) : s.NoLeak codecs ↔ s.Kept := by
  constructor
  · intro noLeak i call here found
    refine (noLeak.belongs call.id i found).imp ?_ (sound.onItsWay_iff here found).mp
    rintro ⟨other, there, same, live⟩
    obtain rfl := sound.intake.unique_mem there (List.mem_of_getElem? here) same
    exact live
  · intro kept
    refine ⟨fun id i found => ?_, fun call member error phase accepted => ?_⟩
    · obtain ⟨call, here, rfl, _⟩ := sound.table.pending id i found
      exact (kept i call here found).imp (fun live => ⟨call, List.mem_of_getElem? here, rfl, live⟩)
        (sound.onItsWay_iff here found).mpr
    · by_contra entry
      obtain ⟨i, found⟩ := Option.ne_none_iff_exists'.mp entry
      obtain ⟨other, here, same, _⟩ := sound.table.pending call.id i found
      obtain rfl := sound.intake.unique_mem (List.mem_of_getElem? here) member same
      rcases kept i other here found with live | ⟨inRing, _⟩
      · rw [phase] at live
        exact live
      · cases accepted.symm.trans inRing

end Sound

/-! ## One event -/

theorem Owed.mono {i : Nat} {call : Call} (owed : s.Owed i call)
    (pending : u.pendingRequests call.id = s.pendingRequests call.id)
    (coming : s.Coming call.id → u.Coming call.id) : u.Owed i call := fun found =>
  (owed (pending ▸ found)).imp_right (And.imp_right coming)

theorem owed_of_live {i : Nat} {call : Call} (live : call.phase.Live) : s.Owed i call :=
  fun _ => .inl live

theorem kept_iff_owed {i : Nat} {call other : Call} (kept : s.Kept) (here : s.calls[i]? = some call)
    (calls : u.calls = s.calls.set i other)
    (elsewhere : ∀ j first, j ≠ i → s.calls[j]? = some first → s.Owed j first → u.Owed j first) :
    u.Kept ↔ u.Owed i other := by
  constructor
  · intro kept
    refine kept i other ?_
    rw [calls, getElem?_set_of here, if_pos rfl]
  · intro owed j first there
    rw [calls] at there
    rcases getElem?_set_cases here there with ⟨rfl, rfl⟩ | ⟨index, before⟩
    · exact owed
    · exact elsewhere j first (Ne.symm index) before (kept j first before)

theorem Coming.setTask {j : Nat} {task : Task} {phase : TaskPhase} {id : Text}
    (coming : s.Coming id) (new : task.id = id → phase ≠ .refused ∧
      (phase = .finished → ∀ answer ∈ s.inHand, answer.1 ≠ id)) :
    (s.setTask j { task with phase := phase }).Coming id := by
  intro first member same
  rcases List.mem_or_eq_of_mem_set member with before | rfl
  · exact coming first before same
  · exact new same

theorem owed_of_gone (sound : s.Sound codecs) {i : Nat} {call : Call} {phase : Phase}
    (here : s.calls[i]? = some call) (gone : ¬ phase.Live)
    (begun : call.phase = .starting ∨ call.accepted = true) :
    (s.setCall i { call with phase := phase }).Owed i { call with phase := phase } ↔
      s.Coming call.id := by
  have member := List.mem_of_getElem? here
  constructor
  · intro owed
    rcases begun with starting | accepted
    · intro task there same
      have coherent := (sound.coherent call member).2
      rw [starting] at coherent
      cases coherent.symm.trans (sound.accepted_of_task member there same)
    · cases reply : call.reply with
      | some response => exact (sound.coming_of_reply member reply).1
      | none =>
          have found := sound.table.entry i call here (.inr ⟨accepted, reply⟩)
          exact ((owed found).resolve_left gone).2
  · intro coming found
    rcases begun with starting | accepted
    · exact absurd starting (sound.unanswered here found).2
    · exact .inr ⟨accepted, coming⟩

theorem kept_moved (sound : s.Sound codecs) (kept : s.Kept) {i : Nat} {call : Call} {phase : Phase}
    (here : s.calls[i]? = some call) (moves : Moves codecs s i call e phase) :
    (s.setCall i { call with phase := phase }).Kept ↔ s.KeepsTable codecs e := by
  have coherent := (sound.coherent call (List.mem_of_getElem? here)).2
  have rest : (s.setCall i { call with phase := phase }).Kept ↔
      (s.setCall i { call with phase := phase }).Owed i { call with phase := phase } :=
    kept_iff_owed kept here rfl fun _ _ _ _ owed => owed
  refine rest.trans ?_
  cases moves with
  | writeRefused registered full =>
      rw [registered] at coherent
      refine iff_of_false (fun owed => ?_) fun room => full (room call here)
      rcases owed (sound.table.entry i call here (.inl registered)) with live | ⟨accepted, _⟩
      · exact live
      · cases coherent.symm.trans accepted
  | notified written => exact iff_of_true (owed_of_live trivial) trivial
  | notifyFailed written =>
      rw [written] at coherent
      refine (owed_of_gone sound here id (.inr coherent)).trans ?_
      simp [KeepsTable, here]
  | received waiting reply =>
      refine iff_of_true (fun found => ?_) trivial
      cases (sound.unanswered here found).1.symm.trans reply
  | closed waiting unanswered gone =>
      exact absurd (sound.pending_of_waiting here waiting unanswered) gone
  | dropped before =>
      have begun : call.phase = .starting ∨ call.accepted = true := by
        rcases before with phase | phase | phase
        · exact .inl phase
        · rw [phase] at coherent
          exact .inr coherent
        · rw [phase] at coherent
          exact .inr coherent
      refine (owed_of_gone sound here id begun).trans ?_
      simp [KeepsTable, here]

section Answer
variable (sound : s.Sound codecs) (kept : s.Kept)
include sound

theorem exists_call {task : Task} (member : task ∈ s.tasks) :
    ∃ i call, s.calls[i]? = some call ∧ call.id = task.id ∧ call.accepted = true ∧
      (call.reply = none → s.pendingRequests call.id = some i) := by
  obtain ⟨call, inCalls, key, accepted⟩ := sound.intake.task_caller member
  obtain ⟨i, here⟩ := List.mem_iff_getElem?.mp inCalls
  exact ⟨i, call, here, congrArg Prod.fst key, accepted,
    fun reply => sound.table.entry i call here (.inr ⟨accepted, reply⟩)⟩

theorem live_iff {i : Nat} {call : Call} {id : Text} (here : s.calls[i]? = some call)
    (same : call.id = id) : s.LiveCaller id ↔ call.phase.Live := by
  constructor
  · rintro ⟨other, there, named, live⟩
    obtain rfl := sound.intake.unique_mem there (List.mem_of_getElem? here) (named.trans same.symm)
    exact live
  · intro live
    exact ⟨call, List.mem_of_getElem? here, same, live⟩

include kept

theorem kept_setTask {i j : Nat} {call : Call} {task : Task} {phase : TaskPhase}
    (there : s.calls[i]? = some call) (same : call.id = task.id) :
    (s.setTask j { task with phase := phase }).Kept ↔
      (s.setTask j { task with phase := phase }).Owed i call := by
  refine kept_iff_owed kept there (set_self_of there).symm fun k first index before owed => ?_
  refine owed.mono rfl fun coming => coming.setTask fun id => ?_
  exact absurd (sound.intake.unique before there (id.symm.trans same.symm)).1 index

theorem kept_refused {j : Nat} {task : Task} (here : s.tasks[j]? = some task)
    (running : task.phase = .running) :
    (s.setTask j { task with phase := .refused }).Kept ↔ s.LiveCaller task.id := by
  have inTasks := List.mem_of_getElem? here
  obtain ⟨i, call, there, same, _, entry⟩ := exists_call sound inTasks
  have reply : call.reply = none := by
    refine sound.reply_eq_none (List.mem_of_getElem? there) fun p handled named => ?_
    obtain ⟨other, found, answered, id, _⟩ :=
      sound.answers.task p (List.mem_append_left _ handled)
    obtain rfl := sound.intake.unique_task found inTasks (id.trans (named.trans same))
    exact Answers.notAnswered running answered
  refine (kept_setTask sound kept there same).trans (.trans ?_ (live_iff sound there same).symm)
  constructor
  · intro owed
    rcases owed (entry reply) with live | ⟨_, coming⟩
    · exact live
    · exact absurd rfl (coming _ (List.mem_of_getElem? (getElem?_set_self_of here)) same.symm).1
  · exact owed_of_live

theorem kept_finished {j : Nat} {task : Task} (here : s.tasks[j]? = some task) :
    (s.setTask j { task with phase := .finished }).Kept ↔
      (∀ answer ∈ s.inHand, answer.1 ≠ task.id) ∨ s.LiveCaller task.id := by
  obtain ⟨i, call, there, same, _, entry⟩ := exists_call sound (List.mem_of_getElem? here)
  refine (kept_setTask sound kept there same).trans ?_
  rw [live_iff sound there same]
  constructor
  · intro owed
    cases reply : call.reply with
    | some response =>
        exact .inl (same ▸ (sound.coming_of_reply (List.mem_of_getElem? there) reply).2)
    | none =>
        refine (owed (entry reply)).symm.imp_left fun gone => ?_
        have coming := gone.2 _ (List.mem_of_getElem? (getElem?_set_self_of here)) same.symm
        exact same ▸ coming.2 rfl
  · rintro (free | live)
    · exact (kept i call there).mono rfl fun coming =>
        coming.setTask fun _ => ⟨TaskPhase.noConfusion, fun _ => same ▸ free⟩
    · exact owed_of_live live

theorem kept_fetched {ring : Fifo} {answer : Text × EchoResponse}
    {rest : List (Text × EchoResponse)} (queue : s.outbound codecs = answer :: rest) :
    Kept { s with responseRing := ring, inHand := some answer } ↔
      (∃ task ∈ s.tasks, task.id = answer.1 ∧ task.phase = .written) ∨ s.LiveCaller answer.1 := by
  have queued : answer ∈ s.outbound codecs := queue ▸ List.mem_cons_self
  obtain ⟨task, inTasks, answered, id, _⟩ := sound.answers.task answer
    (List.mem_append_right _ (List.mem_append_right _ queued))
  obtain ⟨i, call, there, same, _, entry⟩ := exists_call sound inTasks
  have reply : call.reply = none :=
    sound.reply_eq_none (List.mem_of_getElem? there) fun p handled named =>
      sound.outbound_new queued (List.mem_append_left _ handled) (named.trans (same.trans id))
  refine (kept_iff_owed (u := { s with responseRing := ring, inHand := some answer }) kept there
    (set_self_of there).symm fun k first index before owed => ?_).trans ?_
  · refine owed.mono rfl fun coming other member held => ⟨(coming other member held).1, ?_⟩
    intro _ _ inHand named
    cases inHand
    exact index (sound.intake.unique before there (named.symm.trans (id.symm.trans same.symm))).1
  · rw [live_iff sound there (same.trans id)]
    constructor
    · intro owed
      refine (owed (entry reply)).symm.imp_left fun gone => ⟨task, inTasks, id, ?_⟩
      exact answered.resolve_right fun finished =>
        (gone.2 task inTasks same.symm).2 finished answer rfl (id.symm.trans same.symm)
    · rintro (⟨other, member, named, written⟩ | live)
      · intro found
        refine (kept i call there found).imp_right (And.imp_right fun coming => ?_)
        intro first inside held
        obtain rfl := sound.intake.unique_task inside member
          (held.trans (same.trans (id.trans named.symm)))
        refine ⟨(coming first inside held).1, fun finished => ?_⟩
        cases written.symm.trans finished
      · exact owed_of_live live

end Answer

theorem Kept.mono (kept : s.Kept) (calls : u.calls = s.calls)
    (pending : u.pendingRequests = s.pendingRequests)
    (coming : ∀ id, s.Coming id → u.Coming id) : u.Kept := fun i call here =>
  (kept i call (calls ▸ here)).mono (congrFun pending call.id) (coming call.id)

theorem Coming.of_idle {id : Text} (coming : s.Coming id) (tasks : u.tasks = s.tasks)
    (idle : u.inHand = none) : u.Coming id := by
  intro task member same
  refine ⟨(coming task (tasks ▸ member) same).1, fun _ answer held => ?_⟩
  rw [idle] at held
  cases held

theorem kept_step (sound : s.Sound codecs) (kept : s.Kept) (action : step codecs t s e = some u) :
    u.Kept ↔ s.KeepsTable codecs e := by
  cases step_effect action with
  | @called id request fresh =>
      refine iff_of_true (fun i call here => ?_) trivial
      rcases getElem?_append_cases here with before | ⟨_, rfl⟩
      · exact kept i call before
      · exact owed_of_live trivial
  | @registered i call here starting =>
      refine iff_of_true ((kept_iff_owed kept here rfl fun j first index there owed => ?_).mpr ?_)
        trivial
      · refine owed.mono (Function.update_of_ne (fun same => ?_) ..) fun coming => coming
        exact index (sound.intake.unique there here same).1
      · exact owed_of_live trivial
  | @wrote i call here registered room =>
      refine iff_of_true ((kept_iff_owed kept here rfl fun _ _ _ _ owed => ?_).mpr ?_) ?_
      · exact owed.mono rfl fun coming => coming
      · exact owed_of_live trivial
      · simpa [KeepsTable, here] using room
  | moved here moves => exact kept_moved sound kept here moves
  | @served m ring id request read decoded =>
      refine iff_of_true (kept.mono rfl rfl fun other coming task member same => ?_) trivial
      rcases List.mem_append.mp member with before | last
      · exact coming task before same
      · obtain rfl := List.mem_singleton.mp last
        exact ⟨TaskPhase.noConfusion, TaskPhase.noConfusion⟩
  | skippedRequest read unusable => exact absurd unusable (sound.intake.usable read)
  | @answered j task ts pt here running room =>
      refine iff_of_true (kept.mono rfl rfl fun id coming => ?_) ?_
      · exact coming.setTask (s := s) fun _ => ⟨TaskPhase.noConfusion, TaskPhase.noConfusion⟩
      · simpa [KeepsTable, here] using .inl room
  | answerRefused ts pt here running full =>
      refine (kept_refused sound kept here running).trans ?_
      simp [KeepsTable, here, full]
  | finished here written =>
      refine (kept_finished sound kept here).trans ?_
      simp [KeepsTable, here]
  | @fetched m ring answer free read decoded =>
      obtain ⟨_, held, _⟩ := Fifo.read_eq_ok read
      have queue : s.outbound codecs =
          answer :: ring.messages.filterMap codecs.response.decode := by
        simp [outbound, held, decoded]
      refine (kept_fetched sound kept queue).trans ?_
      simp [KeepsTable, queue]
  | skippedResponse free read unusable => exact absurd unusable (sound.answers.usable read)
  | unclaimed =>
      exact iff_of_true (kept.mono rfl rfl fun _ coming => coming.of_idle rfl rfl) trivial
  | @resolved id response i call held found here =>
      obtain ⟨k, first, foundToo, there, rfl, _⟩ := sound.inHand_pending held
      cases found.symm.trans foundToo
      cases here.symm.trans there
      refine iff_of_true ((kept_iff_owed kept here rfl fun j first index there owed => ?_).mpr
        fun entry => ?_) trivial
      · refine owed.mono (Function.update_of_ne (fun same => ?_) ..) fun coming =>
          coming.of_idle rfl rfl
        exact index (sound.intake.unique there here same).1
      · cases (Function.update_self ..).symm.trans entry

theorem noLeak_run {Front Action : Type*}
    {front : Exchange → Front → Action → Option (Front × Option Event)} {w : Front}
    {requestCapacity responseCapacity : Nat} {actions : List Action} {s : Layered Front Exchange}
    (ran : run (Layered.step front (Exchange.step codecs t))
      ⟨w, .initial requestCapacity responseCapacity⟩ actions = some s) :
    Throughout (Layered.step front (Exchange.step codecs t)) (fun s => s.back.NoLeak codecs)
        ⟨w, .initial requestCapacity responseCapacity⟩ actions ↔
      Along (Layered.step front (Exchange.step codecs t))
        (Layered.OnEvent front (KeepsTable codecs))
        ⟨w, .initial requestCapacity responseCapacity⟩ actions := by
  have start := sound_initial codecs requestCapacity responseCapacity
  have empty : (initial requestCapacity responseCapacity).NoLeak codecs :=
    start.noLeak_iff.mpr (by simp [initial, Kept])
  refine Layered.throughout_iff_along (fun _ _ _ sound => sound.step)
    (fun b e c sound noLeak action => ?_) start empty ran
  exact (sound.step action).noLeak_iff.trans (kept_step sound (sound.noLeak_iff.mp noLeak) action)

end Exchange

/-- The table never keeps an entry of a call that is gone and has its request nowhere exactly if
every request is accepted, an answer is refused only while its caller is live, such a caller does
not go, and no caller is gone while its task is over and its answer in the hand of the listener. -/
theorem no_leak_iff (codecs : IdCodecs) (requestCapacity responseCapacity : Nat) :
    (∀ actions s, run (Uds.step codecs) (Uds.start requestCapacity responseCapacity) actions =
        some s →
      (Throughout (Uds.step codecs) (fun s => s.back.NoLeak codecs)
          (Uds.start requestCapacity responseCapacity) actions ↔
        Along (Uds.step codecs) (Layered.OnEvent Uds.front (Exchange.KeepsTable codecs))
          (Uds.start requestCapacity responseCapacity) actions)) ∧
    ∀ actions s, run (Eventfd.step codecs) (Eventfd.start requestCapacity responseCapacity)
        actions = some s →
      (Throughout (Eventfd.step codecs) (fun s => s.back.NoLeak codecs)
          (Eventfd.start requestCapacity responseCapacity) actions ↔
        Along (Eventfd.step codecs) (Layered.OnEvent Eventfd.front (Exchange.KeepsTable codecs))
          (Eventfd.start requestCapacity responseCapacity) actions) :=
  ⟨fun _ _ ran => Exchange.noLeak_run ran, fun _ _ ran => Exchange.noLeak_run ran⟩

def Uds.abandonedRun : List Uds.Action :=
  [.call sampleId ping, .register 0, .write 0, .lockNotify 0, .notify 0, .flush 0, .drop 0]

def Eventfd.abandonedRun : List Eventfd.Action :=
  [.call sampleId ping, .register 0, .write 0, .signal 0, .drop 0, .backendWake, .take]

theorem no_leak_iff_abandoned :
    (∃ s, run (Uds.step bincodeCodecs) (Uds.start 4096 4096) Uds.abandonedRun = some s ∧
      s.back.NoLeak bincodeCodecs) ∧
    ∃ s, run (Eventfd.step bincodeCodecs) (Eventfd.start 4096 4096) Eventfd.abandonedRun =
      some s ∧ s.back.NoLeak bincodeCodecs := by
  have uds : (run (Uds.step bincodeCodecs) (Uds.start 4096 4096) Uds.abandonedRun).isSome := rfl
  have eventfd : (run (Eventfd.step bincodeCodecs) (Eventfd.start 4096 4096)
      Eventfd.abandonedRun).isSome := rfl
  have ranUds := (Option.some_get uds).symm
  have ranEventfd := (Option.some_get eventfd).symm
  exact ⟨⟨_, ranUds, ((no_leak_iff bincodeCodecs 4096 4096).1 _ _ ranUds).mpr (by decide) _ _
      List.prefix_rfl ranUds⟩,
    ⟨_, ranEventfd, ((no_leak_iff bincodeCodecs 4096 4096).2 _ _ ranEventfd).mpr (by decide) _ _
      List.prefix_rfl ranEventfd⟩⟩

def refusedState (capacity : Nat) (request : EchoRequest) : Eventfd.State where
  front := Eventfd.initial
  back := { Exchange.initial capacity capacity with
    calls := [⟨sampleId, request, .returned (.error (.write .bufferFull)), false, none⟩]
    pendingRequests := Function.update (fun _ => none) sampleId (some 0) }

theorem run_refused {capacity : Nat} {request : EchoRequest}
    (full : ¬ (Fifo.empty capacity).Room (bincodeCodecs.request.encode (sampleId, request))) :
    run (Eventfd.step bincodeCodecs) (Eventfd.start capacity capacity)
      [.call sampleId request, .register 0, .write 0] = some (refusedState capacity request) := by
  let registered : Eventfd.State :=
    ⟨Eventfd.initial, { (refusedState capacity request).back with
      calls := [⟨sampleId, request, .registered, false, none⟩] }⟩
  have write : (Fifo.empty capacity).write (bincodeCodecs.request.encode (sampleId, request)) =
      (.error .bufferFull, .empty capacity) := if_neg full
  have written : Eventfd.step bincodeCodecs registered (.write 0) =
      some (refusedState capacity request) := by
    simp [registered, refusedState, Layered.step, Eventfd.front, Layered.advance, Exchange.step,
      Exchange.initial, Exchange.setCall, write]
  exact (run_cons_eq_some _).mpr ⟨_, rfl, (run_cons_eq_some _).mpr ⟨registered, rfl,
    (run_cons_eq_some _).mpr ⟨_, written, rfl⟩⟩⟩

theorem leak_of_refused {capacity : Nat} {request : EchoRequest} :
    ¬ (refusedState capacity request).back.NoLeak bincodeCodecs := by
  intro noLeak
  have gone : Function.update (fun _ => none) sampleId (some 0) sampleId = none :=
    noLeak.failed _ (List.mem_singleton_self _) _ rfl rfl
  rw [Function.update_self] at gone
  cases gone

theorem no_room_of_large {capacity n : Nat} (small : n < 2 ^ 63) (large : capacity ≤ n) :
    ¬ (Fifo.empty capacity).Room (bincodeCodecs.request.encode (sampleId, blank n small)) := by
  have length := Bincode.length_requestCodec sampleId (blank n small)
  rw [blank_message, blank_payload] at length
  change _ + (4 + (Bincode.requestCodec.encode (sampleId, blank n small)).length) ≤
    capacity - 1 → False
  omega

theorem refused_request_leaks :
    ¬ ∀ (actions : List Eventfd.Action) (s : Eventfd.State),
      run (Eventfd.step bincodeCodecs) (Eventfd.start ShmConfig.default.bufferSize
        ShmConfig.default.bufferSize) actions = some s → s.back.NoLeak bincodeCodecs := by
  intro noLeak
  have full :=
    no_room_of_large (n := 67108864) (by decide) (Nat.le_refl ShmConfig.default.bufferSize)
  exact leak_of_refused (noLeak _ _ (run_refused full))

end GatewayGrpc.Transport
