import GatewayGrpc.Transport.Exchange
import Mathlib.Data.List.Nodup

/-!
# What holds in every state of the exchange

The requests that entered the ring and the answers that were written are two lists that only grow:
serving moves a request, and fetching and resolving move an answer, without a change of the list.
The pending table holds exactly the calls that are registered and have no answer.
-/

namespace GatewayGrpc.Transport.Exchange
open Library Proto SharedMemory

variable (codecs : IdCodecs)

def book (s : Exchange) : List ((Text × EchoRequest) × Bool) :=
  s.calls.map fun call => (call.key, call.accepted)

def inbound (s : Exchange) : List (Text × EchoRequest) :=
  s.requestRing.messages.filterMap codecs.request.decode

def entered (s : Exchange) : List (Text × EchoRequest) :=
  s.tasks.map Task.key ++ s.inbound codecs

def outbound (s : Exchange) : List (Text × EchoResponse) :=
  s.responseRing.messages.filterMap codecs.response.decode

def answered (s : Exchange) : List (Text × EchoResponse) :=
  s.handled ++ (s.inHand.toList ++ s.outbound codecs)

structure Intake (s : Exchange) : Prop where
  ids : (s.book.map fun entry => entry.1.1).Nodup
  queued : ∀ m ∈ s.requestRing.messages, ∃ p, m = codecs.request.encode p
  entered : ∀ p, p ∈ s.entered codecs ↔ (p, true) ∈ s.book
  once : ((s.entered codecs).map Prod.fst).Nodup

structure Answers (s : Exchange) : Prop where
  queued : ∀ m ∈ s.responseRing.messages, ∃ p, m = codecs.response.encode p
  task : ∀ p ∈ s.answered codecs, ∃ task ∈ s.tasks,
    task.Answered ∧ task.id = p.1 ∧ p.2.Echoes task.request
  answer : ∀ task ∈ s.tasks, task.Answered → ∃ p ∈ s.answered codecs, p.1 = task.id
  once : ((s.answered codecs).map Prod.fst).Nodup

structure Table (s : Exchange) : Prop where
  pending : ∀ id i, s.pendingRequests id = some i →
    ∃ call, s.calls[i]? = some call ∧ call.id = id ∧ call.reply = none ∧ call.phase ≠ .starting
  entry : ∀ i call, s.calls[i]? = some call →
    call.phase = .registered ∨ call.accepted = true ∧ call.reply = none →
    s.pendingRequests call.id = some i

structure Replies (s : Exchange) : Prop where
  replied : ∀ call ∈ s.calls, ∀ response, call.reply = some response →
    (call.id, response) ∈ s.handled
  handled : ∀ p ∈ s.handled, ∀ call ∈ s.calls, call.id = p.1 → call.reply = some p.2
  sent : ∀ p ∈ s.sends, ∃ call, s.calls[p.2]? = some call ∧ call.id = p.1 ∧ call.reply.isSome
  once : (s.sends.map Prod.snd).Nodup

structure Sound (s : Exchange) : Prop where
  intake : s.Intake codecs
  coherent : ∀ call ∈ s.calls, call.Coherent
  answers : s.Answers codecs
  table : s.Table
  replies : s.Replies

theorem sound_initial (requestCapacity responseCapacity : Nat) :
    (initial requestCapacity responseCapacity).Sound codecs where
  intake := ⟨.nil, by simp [initial, Fifo.empty],
    by simp [entered, inbound, initial, Fifo.empty, book], .nil⟩
  coherent := by simp [initial]
  answers := ⟨by simp [initial, Fifo.empty],
    by simp [answered, outbound, initial, Fifo.empty], by simp [initial], .nil⟩
  table := ⟨by simp [initial], by simp [initial]⟩
  replies := ⟨by simp [initial], by simp [initial], by simp [initial], .nil⟩

variable {codecs} {t : ShmTransport} {s u : Exchange}

/-! ## Requests -/

theorem mem_book {call : Call} (member : call ∈ s.calls) : (call.key, call.accepted) ∈ s.book :=
  List.mem_map_of_mem member

theorem mem_of_book {p : Text × EchoRequest} {accepted : Bool} (member : (p, accepted) ∈ s.book) :
    ∃ call ∈ s.calls, call.key = p ∧ call.accepted = accepted := by
  obtain ⟨call, here, same⟩ := List.mem_map.mp member
  exact ⟨call, here, congrArg Prod.fst same, congrArg Prod.snd same⟩

theorem book_setCall {i : Nat} {call other : Call} (here : s.calls[i]? = some call)
    (key : other.key = call.key) (accepted : other.accepted = call.accepted) :
    (s.setCall i other).book = s.book :=
  map_set_of here (by rw [key, accepted])

theorem mem_book_accept {i : Nat} {call : Call} (here : s.calls[i]? = some call)
    (p : Text × EchoRequest) :
    (p, true) ∈ (s.setCall i { call with phase := .written, accepted := true }).book ↔
      (p, true) ∈ s.book ∨ p = call.key := by
  constructor
  · intro member
    obtain ⟨other, there, rfl, accepted⟩ := mem_of_book member
    rcases List.mem_or_eq_of_mem_set there with before | rfl
    · exact .inl (accepted ▸ mem_book before)
    · exact .inr rfl
  · rintro (member | rfl)
    · obtain ⟨other, there, rfl, accepted⟩ := mem_of_book member
      obtain ⟨j, found⟩ := List.mem_iff_getElem?.mp there
      by_cases same : i = j
      · subst same
        cases here.symm.trans found
        exact List.mem_map.mpr ⟨_, List.mem_of_getElem? (getElem?_set_self_of here), rfl⟩
      · refine List.mem_map.mpr ⟨other, List.mem_of_getElem? (i := j) ?_, by rw [accepted]⟩
        rw [setCall, getElem?_set_of here, if_neg same, found]
    · exact List.mem_map.mpr ⟨_, List.mem_of_getElem? (getElem?_set_self_of here), rfl⟩

theorem entered_setTask {j : Nat} {task other : Task} (here : s.tasks[j]? = some task)
    (key : other.key = task.key) : (s.setTask j other).entered codecs = s.entered codecs := by
  simp only [entered, setTask, map_set_of here key]
  rfl

namespace Intake

theorem idsNodup (intake : s.Intake codecs) : (s.calls.map Call.id).Nodup := by
  have ids := intake.ids
  rwa [book, List.map_map] at ids

theorem unique (intake : s.Intake codecs) {i j : Nat} {call other : Call}
    (here : s.calls[i]? = some call) (there : s.calls[j]? = some other)
    (same : call.id = other.id) : i = j ∧ call = other := by
  have index : i = j := by
    refine (List.getElem?_inj (by simpa using lt_of_getElem?_eq here) intake.idsNodup).mp ?_
    rw [List.getElem?_map, List.getElem?_map, here, there, Option.map_some, Option.map_some, same]
  subst index
  exact ⟨rfl, Option.some.inj (here.symm.trans there)⟩

theorem unique_mem (intake : s.Intake codecs) {call other : Call} (here : call ∈ s.calls)
    (there : other ∈ s.calls) (same : call.id = other.id) : call = other :=
  List.inj_on_of_nodup_map intake.idsNodup here there same

theorem tasksNodup (intake : s.Intake codecs) : (s.tasks.map Task.id).Nodup := by
  have once := intake.once
  rw [Exchange.entered, List.map_append, List.map_map] at once
  exact once.of_append_left

theorem unique_task (intake : s.Intake codecs) {task other : Task} (here : task ∈ s.tasks)
    (there : other ∈ s.tasks) (same : task.id = other.id) : task = other :=
  List.inj_on_of_nodup_map intake.tasksNodup here there same

theorem caller (intake : s.Intake codecs) {p : Text × EchoRequest}
    (member : p ∈ s.entered codecs) : ∃ call ∈ s.calls, call.key = p ∧ call.accepted = true :=
  mem_of_book ((intake.entered p).mp member)

theorem task_caller (intake : s.Intake codecs) {task : Task} (member : task ∈ s.tasks) :
    ∃ call ∈ s.calls, call.key = task.key ∧ call.accepted = true :=
  intake.caller (List.mem_append_left _ (List.mem_map_of_mem member))

theorem of_same (intake : s.Intake codecs) (book : u.book = s.book)
    (entered : u.entered codecs = s.entered codecs)
    (queued : ∀ m ∈ u.requestRing.messages, m ∈ s.requestRing.messages) : u.Intake codecs where
  ids := book ▸ intake.ids
  queued := fun m member => intake.queued m (queued m member)
  entered := by rw [entered, book]; exact intake.entered
  once := entered ▸ intake.once

theorem usable (intake : s.Intake codecs) {m : Message} {ring : Fifo}
    (read : s.requestRing.read t.requestBuf = (.ok m, ring)) :
    ¬ (m = [] ∨ codecs.request.decode m = none) := by
  obtain ⟨_, held, _⟩ := Fifo.read_eq_ok read
  obtain ⟨p, rfl⟩ := intake.queued m (by simp [held])
  simp [codecs.request.encode_ne_nil]

theorem effect {e : Event} (sound : s.Sound codecs) (effect : Effect codecs t s e u) :
    u.Intake codecs := by
  have intake := sound.intake
  cases effect with
  | @called id request fresh =>
      have same : book { s with calls := s.calls ++ [⟨id, request, .starting, false, none⟩] } =
          s.book ++ [((id, request), false)] := List.map_append
      refine ⟨?_, intake.queued, fun p => ?_, intake.once⟩
      · rw [same, List.map_append, List.nodup_append]
        refine ⟨intake.ids, List.nodup_singleton _, fun a member b last => ?_⟩
        obtain ⟨⟨p, accepted⟩, inBook, rfl⟩ := List.mem_map.mp member
        obtain ⟨call, here, key, _⟩ := mem_of_book inBook
        rw [List.mem_singleton.mp last, ← key]
        exact fresh call here
      · rw [same, List.mem_append]
        refine (intake.entered p).trans ⟨.inl, fun member => member.resolve_right ?_⟩
        simp
  | registered here starting =>
      exact intake.of_same (book_setCall here rfl rfl) rfl fun _ => id
  | @wrote i call here registered room =>
      have fresh : ∀ p ∈ s.entered codecs, p.1 ≠ call.id := by
        intro p member same
        obtain ⟨other, there, rfl, accepted⟩ := intake.caller member
        obtain rfl := intake.unique_mem there (List.mem_of_getElem? here) same
        have coherent := (sound.coherent other there).2
        rw [registered] at coherent
        exact absurd (accepted.symm.trans coherent) (by decide)
      have appended : Exchange.entered codecs { s.setCall i { call with phase := .written, accepted := true }
          with requestRing := { s.requestRing with
            messages := s.requestRing.messages ++ [codecs.request.encode call.key] } } =
          s.entered codecs ++ [call.key] := by
        simp [Exchange.entered, inbound, setCall]
      refine ⟨?_, fun m member => ?_, fun p => ?_, ?_⟩
      · rw [book, List.map_map]
        have same : (s.calls.set i { call with phase := .written, accepted := true }).map Call.id =
            s.calls.map Call.id := map_set_of here rfl
        exact same.symm ▸ intake.idsNodup
      · rcases List.mem_append.mp member with before | last
        · exact intake.queued m before
        · exact ⟨call.key, List.mem_singleton.mp last⟩
      · rw [appended, List.mem_append, List.mem_singleton, intake.entered]
        exact (mem_book_accept here p).symm
      · rw [appended, List.map_append, List.nodup_append]
        refine ⟨intake.once, List.nodup_singleton _, fun id member other last => ?_⟩
        obtain ⟨p, inside, rfl⟩ := List.mem_map.mp member
        rw [List.mem_singleton.mp last]
        exact fresh p inside
  | moved here moves => exact intake.of_same (book_setCall here rfl rfl) rfl fun _ => id
  | @served m ring id request read decoded =>
      obtain ⟨_, held, _⟩ := Fifo.read_eq_ok read
      refine intake.of_same rfl ?_ fun m member => by simp [held, member]
      simp [Exchange.entered, inbound, held, decoded, Task.key]
  | skippedRequest read unusable => exact absurd unusable (intake.usable read)
  | answered ts pt here => exact intake.of_same rfl (entered_setTask here rfl) fun _ => id
  | answerRefused ts pt here => exact intake.of_same rfl (entered_setTask here rfl) fun _ => id
  | finished here => exact intake.of_same rfl (entered_setTask here rfl) fun _ => id
  | fetched => exact intake.of_same rfl rfl fun _ => id
  | skippedResponse => exact intake.of_same rfl rfl fun _ => id
  | resolved held found here => exact intake.of_same (book_setCall here rfl rfl) rfl fun _ => id
  | unclaimed => exact intake.of_same rfl rfl fun _ => id

end Intake

/-! ## Answers -/

namespace Answers

theorem usable (answers : s.Answers codecs) {m : Message} {ring : Fifo}
    (read : s.responseRing.read t.responseBuf = (.ok m, ring)) :
    ¬ (m = [] ∨ codecs.response.decode m = none) := by
  obtain ⟨_, held, _⟩ := Fifo.read_eq_ok read
  obtain ⟨p, rfl⟩ := answers.queued m (by simp [held])
  simp [codecs.response.encode_ne_nil]

theorem of_same (answers : s.Answers codecs) (tasks : u.tasks = s.tasks)
    (answered : u.answered codecs = s.answered codecs)
    (queued : ∀ m ∈ u.responseRing.messages, m ∈ s.responseRing.messages) : u.Answers codecs where
  queued := fun m member => answers.queued m (queued m member)
  task := by rw [answered, tasks]; exact answers.task
  answer := by rw [answered, tasks]; exact answers.answer
  once := answered ▸ answers.once

theorem notAnswered {task : Task} (running : task.phase = .running) : ¬ task.Answered := by
  simp [Task.Answered, running]

theorem task_setTask (answers : s.Answers codecs) {j : Nat} {task : Task} (other : Task)
    (here : s.tasks[j]? = some task) (running : task.phase = .running)
    (p : Text × EchoResponse) (member : p ∈ s.answered codecs) :
    ∃ task ∈ (s.setTask j other).tasks,
      task.Answered ∧ task.id = p.1 ∧ p.2.Echoes task.request := by
  obtain ⟨first, there, done, same, echoes⟩ := answers.task p member
  obtain ⟨k, found⟩ := List.mem_iff_getElem?.mp there
  have index : j ≠ k := by
    rintro rfl
    cases here.symm.trans found
    exact notAnswered running done
  refine ⟨first, List.mem_of_getElem? (i := k) ?_, done, same, echoes⟩
  rw [setTask, getElem?_set_of here, if_neg index, found]

theorem effect {e : Event} (sound : s.Sound codecs) (effect : Effect codecs t s e u) :
    u.Answers codecs := by
  have answers := sound.answers
  cases effect with
  | called | registered | wrote | moved | skippedRequest =>
      exact answers.of_same rfl rfl fun _ => id
  | @served m ring id request read decoded =>
      refine ⟨answers.queued, fun p member => ?_, fun task member done => ?_, answers.once⟩
      · obtain ⟨task, there, rest⟩ := answers.task p member
        exact ⟨task, List.mem_append_left _ there, rest⟩
      · rcases List.mem_append.mp member with before | last
        · exact answers.answer task before done
        · rw [List.mem_singleton.mp last] at done
          exact absurd done (notAnswered rfl)
  | @answered j task ts pt here running room =>
      have appended : Exchange.answered codecs { s.setTask j { task with phase := .written } with
          responseRing := { s.responseRing with messages := s.responseRing.messages ++
            [codecs.response.encode (task.id, task.request.echo ts pt)] } } =
          s.answered codecs ++ [(task.id, task.request.echo ts pt)] := by
        simp [Exchange.answered, outbound, setTask]
      refine ⟨fun m member => ?_, fun p member => ?_, fun other member done => ?_, ?_⟩
      · rcases List.mem_append.mp member with before | last
        · exact answers.queued m before
        · exact ⟨_, List.mem_singleton.mp last⟩
      · rw [appended] at member
        rcases List.mem_append.mp member with before | last
        · exact answers.task_setTask _ here running p before
        · rw [List.mem_singleton.mp last]
          exact ⟨_, List.mem_of_getElem? (getElem?_set_self_of here), .inl rfl, rfl, by simp⟩
      · rw [appended]
        rcases List.mem_or_eq_of_mem_set member with before | rfl
        · obtain ⟨p, inside, same⟩ := answers.answer other before done
          exact ⟨p, List.mem_append_left _ inside, same⟩
        · exact ⟨_, List.mem_append_right _ (List.mem_singleton_self _), rfl⟩
      · rw [appended, List.map_append, List.nodup_append]
        refine ⟨answers.once, List.nodup_singleton _, fun id member other last => ?_⟩
        obtain ⟨p, inside, rfl⟩ := List.mem_map.mp member
        rw [List.mem_singleton.mp last]
        intro same
        obtain ⟨first, there, done, id, _⟩ := answers.task p inside
        obtain rfl := sound.intake.unique_task there (List.mem_of_getElem? here) (id.trans same)
        exact notAnswered running done
  | @answerRefused j task ts pt here running full =>
      refine ⟨answers.queued, answers.task_setTask _ here running, fun other member done => ?_,
        answers.once⟩
      rcases List.mem_or_eq_of_mem_set member with before | rfl
      · exact answers.answer other before done
      · rcases done with done | done <;> cases done
  | @finished j task here written =>
      refine ⟨answers.queued, fun p member => ?_, fun other member done => ?_, answers.once⟩
      · obtain ⟨first, there, done, same, echoes⟩ := answers.task p member
        obtain ⟨k, found⟩ := List.mem_iff_getElem?.mp there
        by_cases index : j = k
        · subst index
          cases here.symm.trans found
          exact ⟨_, List.mem_of_getElem? (getElem?_set_self_of here), .inr rfl, same, echoes⟩
        · refine ⟨first, List.mem_of_getElem? (i := k) ?_, done, same, echoes⟩
          rw [setTask, getElem?_set_of here, if_neg index, found]
      · rcases List.mem_or_eq_of_mem_set member with before | rfl
        · exact answers.answer other before done
        · exact answers.answer task (List.mem_of_getElem? here) (.inl written)
  | @fetched m ring answer free read decoded =>
      obtain ⟨_, held, _⟩ := Fifo.read_eq_ok read
      refine answers.of_same rfl ?_ fun m member => by simp [held, member]
      simp [Exchange.answered, outbound, held, decoded, free]
  | skippedResponse free read unusable => exact absurd unusable (answers.usable read)
  | resolved held found here =>
      refine answers.of_same rfl ?_ fun _ => id
      simp [Exchange.answered, outbound, setCall, held]
  | unclaimed held missing =>
      refine answers.of_same rfl ?_ fun _ => id
      simp [Exchange.answered, outbound, held]

end Answers

/-! ## The pending table -/

namespace Sound

theorem addressee (sound : s.Sound codecs) {p : Text × EchoResponse}
    (member : p ∈ s.answered codecs) :
    ∃ call ∈ s.calls, call.id = p.1 ∧ call.accepted = true ∧ p.2.Echoes call.request := by
  obtain ⟨task, there, _, same, echoes⟩ := sound.answers.task p member
  obtain ⟨call, here, key, accepted⟩ := sound.intake.task_caller there
  have request : call.request = task.request := congrArg Prod.snd key
  exact ⟨call, here, (congrArg Prod.fst key).trans same, accepted, request ▸ echoes⟩

theorem inHand_new (sound : s.Sound codecs) {p : Text × EchoResponse} (held : s.inHand = some p)
    {q : Text × EchoResponse} (member : q ∈ s.handled) : q.1 ≠ p.1 := by
  have once := sound.answers.once
  rw [answered, List.map_append, List.nodup_append] at once
  exact once.2.2 q.1 (List.mem_map_of_mem member) p.1 (by simp [held])

theorem inHand_pending (sound : s.Sound codecs) {p : Text × EchoResponse}
    (held : s.inHand = some p) :
    ∃ i call, s.pendingRequests p.1 = some i ∧ s.calls[i]? = some call ∧ call.id = p.1 ∧
      call.accepted = true ∧ call.reply = none ∧ p.2.Echoes call.request := by
  obtain ⟨call, there, same, accepted, echoes⟩ :=
    sound.addressee (p := p) (by simp [answered, held])
  obtain ⟨i, here⟩ := List.mem_iff_getElem?.mp there
  have reply : call.reply = none := by
    cases reply : call.reply with
    | none => rfl
    | some response =>
        exact absurd same (sound.inHand_new held (sound.replies.replied call there response reply))
  exact ⟨i, call, same ▸ sound.table.entry i call here (.inr ⟨accepted, reply⟩), here, same,
    accepted, reply, echoes⟩

end Sound

theorem Moves.notStarting {i : Nat} {call : Call} {e : Event} {phase : Phase}
    (moves : Moves codecs s i call e phase) : phase ≠ .starting ∧ phase ≠ .registered := by
  cases moves <;> simp

theorem Table.of_same (table : s.Table) (calls : u.calls = s.calls)
    (pending : u.pendingRequests = s.pendingRequests) : u.Table where
  pending := by rw [pending, calls]; exact table.pending
  entry := by rw [pending, calls]; exact table.entry

theorem Table.setCall (table : s.Table) {i : Nat} {call other : Call}
    (here : s.calls[i]? = some call) (id : other.id = call.id) (reply : other.reply = call.reply)
    (later : other.phase ≠ .starting ∧ other.phase ≠ .registered)
    (entry : other.accepted = true → call.phase = .registered ∨ call.accepted = true) :
    (s.setCall i other).Table where
  pending := fun key j found => by
    obtain ⟨first, there, same, unanswered, notStarting⟩ := table.pending key j found
    rw [Exchange.setCall, getElem?_set_of here]
    split
    · subst_vars
      cases here.symm.trans there
      exact ⟨other, rfl, id, reply.trans unanswered, later.1⟩
    · exact ⟨first, there, same, unanswered, notStarting⟩
  entry := fun j first there condition => by
    rcases getElem?_set_cases here there with ⟨rfl, rfl⟩ | ⟨_, before⟩
    · rw [id]
      apply table.entry i call here
      rcases condition with registered | ⟨accepted, unanswered⟩
      · exact absurd registered later.2
      · exact (entry accepted).imp_right fun accepted => ⟨accepted, reply ▸ unanswered⟩
    · exact table.entry j first before condition

theorem Table.effect {e : Event} (sound : s.Sound codecs) (effect : Effect codecs t s e u) :
    u.Table := by
  have table := sound.table
  cases effect with
  | skippedRequest | answered | answerRefused | finished | fetched | skippedResponse | served =>
      exact table.of_same rfl rfl
  | @called id request fresh =>
      refine ⟨fun key j found => ?_, fun j first there condition => ?_⟩
      · obtain ⟨first, there, rest⟩ := table.pending key j found
        exact ⟨first, (List.getElem?_append_left (lt_of_getElem?_eq there)).trans there, rest⟩
      · rcases Nat.lt_or_ge j s.calls.length with inside | outside
        · exact table.entry j first ((List.getElem?_append_left inside).symm.trans there) condition
        · rw [List.getElem?_append_right outside] at there
          rw [List.mem_singleton.mp (List.mem_of_getElem? there)] at condition
          simp at condition
  | @registered i call here starting =>
      have coherent := sound.coherent call (List.mem_of_getElem? here)
      simp only [Call.Coherent, starting] at coherent
      have unanswered : call.reply = none := by
        cases reply : call.reply with
        | none => rfl
        | some response => simp [reply, coherent.2] at coherent
      refine ⟨fun key j found => ?_, fun j first there condition => ?_⟩
      · dsimp only at found
        by_cases same : key = call.id
        · subst same
          rw [Function.update_self] at found
          cases found
          exact ⟨_, getElem?_set_self_of here, rfl, unanswered, by simp⟩
        · rw [Function.update_of_ne same] at found
          obtain ⟨first, there, rfl, rest⟩ := table.pending key j found
          refine ⟨first, ?_, rfl, rest⟩
          rw [Exchange.setCall, getElem?_set_of here, if_neg ?_, there]
          rintro rfl
          cases here.symm.trans there
          exact same rfl
      · rcases getElem?_set_cases here there with ⟨rfl, rfl⟩ | ⟨index, before⟩
        · exact Function.update_self ..
        · have other : first.id ≠ call.id := fun same =>
            index (sound.intake.unique before here same).1.symm
          exact (Function.update_of_ne other ..).trans (table.entry j first before condition)
  | @wrote i call here registered room =>
      have next : (s.setCall i { call with phase := .written, accepted := true }).Table :=
        table.setCall here rfl rfl (by simp) fun _ => .inl registered
      exact next.of_same rfl rfl
  | moved here moves => exact table.setCall here rfl rfl moves.notStarting .inr
  | @resolved id response i call held found here =>
      obtain ⟨k, first, foundToo, there, rfl, accepted, _, _⟩ := sound.inHand_pending held
      cases found.symm.trans foundToo
      cases here.symm.trans there
      refine ⟨fun key j found => ?_, fun j first there condition => ?_⟩
      · dsimp only at found
        by_cases same : key = call.id
        · subst same
          rw [Function.update_self] at found
          cases found
        · rw [Function.update_of_ne same] at found
          obtain ⟨first, there, rfl, rest⟩ := table.pending key j found
          refine ⟨first, ?_, rfl, rest⟩
          rw [Exchange.setCall, getElem?_set_of here, if_neg ?_, there]
          rintro rfl
          cases here.symm.trans there
          exact same rfl
      · rcases getElem?_set_cases here there with ⟨rfl, rfl⟩ | ⟨index, before⟩
        · have coherent := (sound.coherent call (List.mem_of_getElem? here)).2
          rcases condition with registered | ⟨_, unanswered⟩
          · change call.phase = .registered at registered
            simp [registered, accepted] at coherent
          · cases unanswered
        · have other : first.id ≠ call.id := fun same =>
            index (sound.intake.unique before here same).1.symm
          exact (Function.update_of_ne other ..).trans (table.entry j first before condition)
  | unclaimed held missing =>
      obtain ⟨k, first, found, _⟩ := sound.inHand_pending held
      cases missing.symm.trans found

theorem Replies.of_same (replies : s.Replies) (calls : u.calls = s.calls)
    (handled : u.handled = s.handled) (sends : u.sends = s.sends) : u.Replies where
  replied := by rw [handled, calls]; exact replies.replied
  handled := by rw [handled, calls]; exact replies.handled
  sent := by rw [sends, calls]; exact replies.sent
  once := sends ▸ replies.once

theorem Replies.setCall (replies : s.Replies) {i : Nat} {call other : Call}
    (here : s.calls[i]? = some call) (id : other.id = call.id)
    (reply : other.reply = call.reply) : (s.setCall i other).Replies where
  replied := fun first member response replied => by
    rcases List.mem_or_eq_of_mem_set member with before | rfl
    · exact replies.replied first before response replied
    · exact id ▸ replies.replied call (List.mem_of_getElem? here) response (reply ▸ replied)
  handled := fun p inside first member same => by
    rcases List.mem_or_eq_of_mem_set member with before | rfl
    · exact replies.handled p inside first before same
    · exact reply ▸ replies.handled p inside call (List.mem_of_getElem? here) (id ▸ same)
  sent := fun p inside => by
    obtain ⟨first, there, same, replied⟩ := replies.sent p inside
    rw [Exchange.setCall, getElem?_set_of here]
    split
    · rename_i index
      rw [index] at here
      cases here.symm.trans there
      exact ⟨other, rfl, id.trans same, reply ▸ replied⟩
    · exact ⟨first, there, same, replied⟩
  once := replies.once

theorem Replies.effect {e : Event} (sound : s.Sound codecs) (effect : Effect codecs t s e u) :
    u.Replies := by
  have replies := sound.replies
  cases effect with
  | skippedRequest | answered | answerRefused | finished | fetched | skippedResponse | served =>
      exact replies.of_same rfl rfl rfl
  | @called id request fresh =>
      refine ⟨fun first member response replied => ?_, fun p inside first member same => ?_,
        fun p inside => ?_, replies.once⟩
      · rcases List.mem_append.mp member with before | last
        · exact replies.replied first before response replied
        · rw [List.mem_singleton.mp last] at replied
          cases replied
      · rcases List.mem_append.mp member with before | last
        · exact replies.handled p inside first before same
        · obtain ⟨call, there, id, _⟩ := sound.addressee (List.mem_append_left _ inside)
          rw [List.mem_singleton.mp last] at same
          exact absurd (id.trans same.symm) (fresh call there)
      · obtain ⟨first, there, rest⟩ := replies.sent p inside
        exact ⟨first, (List.getElem?_append_left (lt_of_getElem?_eq there)).trans there, rest⟩
  | @registered i call here starting =>
      have next : (s.setCall i { call with phase := .registered }).Replies :=
        replies.setCall here rfl rfl
      exact next.of_same rfl rfl rfl
  | @wrote i call here registered room =>
      have next : (s.setCall i { call with phase := .written, accepted := true }).Replies :=
        replies.setCall here rfl rfl
      exact next.of_same rfl rfl rfl
  | moved here => exact replies.setCall here rfl rfl
  | @resolved id response i call held found here =>
      obtain ⟨k, first, foundToo, there, rfl, accepted, unanswered, _⟩ := sound.inHand_pending held
      cases found.symm.trans foundToo
      cases here.symm.trans there
      refine ⟨fun first member answer replied => ?_, fun p inside first member same => ?_,
        fun p inside => ?_, ?_⟩
      · rcases List.mem_or_eq_of_mem_set member with before | rfl
        · exact List.mem_append_left _ (replies.replied first before answer replied)
        · cases replied
          exact List.mem_append_right _ (List.mem_singleton_self _)
      · obtain ⟨j, there⟩ := List.mem_iff_getElem?.mp member
        rcases getElem?_set_cases here there with ⟨rfl, rfl⟩ | ⟨index, before⟩
        · rcases List.mem_append.mp inside with earlier | last
          · exact absurd same.symm (sound.inHand_new held earlier)
          · rw [List.mem_singleton.mp last]
        · rcases List.mem_append.mp inside with earlier | last
          · exact replies.handled p earlier first (List.mem_of_getElem? before) same
          · rw [List.mem_singleton.mp last] at same
            exact absurd (sound.intake.unique before here same).1.symm index
      · rcases List.mem_append.mp inside with earlier | last
        · obtain ⟨first, there, same, replied⟩ := replies.sent p earlier
          dsimp only
          rw [Exchange.setCall, getElem?_set_of here]
          split
          · rename_i index
            rw [index] at here
            cases here.symm.trans there
            exact ⟨_, rfl, same, rfl⟩
          · exact ⟨first, there, same, replied⟩
        · rw [List.mem_singleton.mp last]
          exact ⟨_, getElem?_set_self_of here, rfl, rfl⟩
      · rw [List.map_append, List.nodup_append]
        refine ⟨replies.once, List.nodup_singleton _, fun j member k last => ?_⟩
        obtain ⟨p, inside, rfl⟩ := List.mem_map.mp member
        obtain ⟨first, earlier, _, replied⟩ := replies.sent p inside
        rw [List.mem_singleton.mp last]
        rintro rfl
        cases here.symm.trans earlier
        rw [unanswered] at replied
        cases replied
  | unclaimed held missing =>
      obtain ⟨k, first, found, _⟩ := sound.inHand_pending held
      cases missing.symm.trans found

/-! ## All together -/

theorem coherent_setCall {i : Nat} {other : Call} (coherent : ∀ call ∈ s.calls, call.Coherent)
    (new : other.Coherent) : ∀ call ∈ (s.setCall i other).calls, call.Coherent := by
  intro call member
  rcases List.mem_or_eq_of_mem_set member with before | rfl
  · exact coherent call before
  · exact new

namespace Sound

/-- The source of `closed` cannot be reached: the sender of a waiting call is in the table. -/
theorem pending_of_waiting (sound : s.Sound codecs) {i : Nat} {call : Call}
    (here : s.calls[i]? = some call) (waiting : call.phase = .waiting)
    (unanswered : call.reply = none) : s.pendingRequests call.id = some i := by
  have coherent := (sound.coherent call (List.mem_of_getElem? here)).2
  rw [waiting] at coherent
  exact sound.table.entry i call here (.inr ⟨coherent, unanswered⟩)

theorem coherent_move (sound : s.Sound codecs) {e : Event} {i : Nat} {call : Call} {phase : Phase}
    (here : s.calls[i]? = some call) (moves : Moves codecs s i call e phase) :
    Call.Coherent { call with phase := phase } := by
  have coherent := sound.coherent call (List.mem_of_getElem? here)
  refine ⟨coherent.1, ?_⟩
  cases moves with
  | writeRefused here => simpa [here] using coherent.2
  | notified here => simpa [here] using coherent.2
  | notifyFailed here => simpa [here] using coherent.2
  | received here reply => exact reply
  | closed waiting unanswered gone => exact gone (sound.pending_of_waiting here waiting unanswered)
  | dropped => trivial

theorem coherent_effect (sound : s.Sound codecs) {e : Event} (effect : Effect codecs t s e u) :
    ∀ call ∈ u.calls, call.Coherent := by
  cases effect with
  | called request fresh =>
      intro call member
      rcases List.mem_append.mp member with before | last
      · exact sound.coherent call before
      · rw [List.mem_singleton.mp last]
        exact ⟨by simp, rfl⟩
  | @registered i call here starting =>
      have coherent := sound.coherent call (List.mem_of_getElem? here)
      exact coherent_setCall sound.coherent ⟨coherent.1, by simpa [starting] using coherent.2⟩
  | wrote here => exact coherent_setCall sound.coherent ⟨fun _ => rfl, rfl⟩
  | moved here moves => exact coherent_setCall sound.coherent (sound.coherent_move here moves)
  | @resolved id response i call held found here =>
      obtain ⟨k, first, foundToo, there, rfl, accepted, unanswered, _⟩ := sound.inHand_pending held
      cases found.symm.trans foundToo
      cases here.symm.trans there
      have coherent := (sound.coherent call (List.mem_of_getElem? here)).2
      refine coherent_setCall sound.coherent ⟨fun _ => accepted, ?_⟩
      dsimp only
      split at coherent <;> simp_all
  | _ => exact sound.coherent

theorem effect (sound : s.Sound codecs) {e : Event} (effect : Effect codecs t s e u) :
    u.Sound codecs where
  intake := .effect sound effect
  coherent := sound.coherent_effect effect
  answers := .effect sound effect
  table := .effect sound effect
  replies := .effect sound effect

theorem step (sound : s.Sound codecs) {e : Event} (action : step codecs t s e = some u) :
    u.Sound codecs :=
  sound.effect (step_effect action)

theorem of_run {Front Action : Type*}
    {front : Exchange → Front → Action → Option (Front × Option Event)} {w : Front}
    {requestCapacity responseCapacity : Nat} {actions : List Action} {s : Layered Front Exchange}
    (ran : run (Layered.step front (Exchange.step codecs t))
      ⟨w, .initial requestCapacity responseCapacity⟩ actions = some s) : s.back.Sound codecs :=
  Layered.run_preserves (fun _ _ _ sound => Sound.step sound) (sound_initial codecs _ _) ran

theorem reply_echoes (sound : s.Sound codecs) {call : Call} (member : call ∈ s.calls)
    {response : EchoResponse} (reply : call.reply = some response) :
    response.Echoes call.request := by
  have handled := sound.replies.replied call member response reply
  obtain ⟨other, there, same, _, echoes⟩ := sound.addressee (List.mem_append_left _ handled)
  obtain rfl := sound.intake.unique_mem there member same
  exact echoes

theorem returned_echoes (sound : s.Sound codecs) {call : Call} (member : call ∈ s.calls)
    {response : EchoResponse} (returned : call.phase = .returned (.ok response)) :
    response.Echoes call.request := by
  have coherent := (sound.coherent call member).2
  rw [returned] at coherent
  exact sound.reply_echoes member coherent

theorem sends_ids (sound : s.Sound codecs) : (s.sends.map Prod.fst).Nodup := by
  have once := sound.replies.once
  apply (once.of_map _).map_on
  intro p member q there same
  obtain ⟨call, here, id, _⟩ := sound.replies.sent p member
  obtain ⟨other, found, otherId, _⟩ := sound.replies.sent q there
  exact Prod.ext same (sound.intake.unique here found (id.trans (same.trans otherId.symm))).1

end Sound

end GatewayGrpc.Transport.Exchange
