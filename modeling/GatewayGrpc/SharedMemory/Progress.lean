import GatewayGrpc.Library.Potential
import GatewayGrpc.SharedMemory.Linearization

/-!
# No call waits for ever

Between lock and unlock a call never waits, so that each lock comes back after a few steps of its
holder, whatever the other side does.
-/

namespace GatewayGrpc.SharedMemory
open Library

def Pc.left : Pc → Nat
  | .locking => 7
  | .writing (.entered _) | .reading (.entered _) => 6
  | .writing (.loadedWritePos _ _) | .reading (.loadedWritePos _ _) => 5
  | .reading (.loadedReadPos _ _) => 4
  | .writing (.copying _ _ todo) => todo.length + 1
  | .reading (.copying _ _ _ todo) => todo.length + 1
  | _ => 0

namespace Threads
variable {writes reads c : Nat} {s u v : Threads} {tick : Tick}

def left (s : Threads) : Nat := (s.calls.map fun call => call.pc.left).sum

theorem length_frameCopies (capacity writePos : Nat) (data : Message) :
    (frameCopies capacity writePos data).length ≤ 3 := by
  unfold frameCopies payloadCopies
  split_ifs <;> simp

theorem length_payloadSegments (capacity dataStart dataLen : Nat) :
    (payloadSegments capacity dataStart dataLen).length ≤ 2 := by
  unfold payloadSegments
  split_ifs <;> simp

theorem writer_left {m n : Machine} (action : m.writerStep = some n) (more : m.writeReply = none) :
    Pc.left (.writing n.writer) < Pc.left (.writing m.writer) := by
  rcases state : m.writer with _ | d | ⟨d, writePos⟩ | ⟨d, writePos, _ | ⟨copy, todo⟩⟩
  all_goals simp only [Machine.writerStep, state, Machine.writeReply] at action more
  · cases action
  · cases action
    simp [Pc.left]
  · split_ifs at action more
    cases action
    have := length_frameCopies m.ring.header.capacity writePos d
    simp only [Pc.left]
    omega
  · cases more
  · cases action
    simp [Pc.left]

theorem reader_left {m n : Machine} (action : m.readerStep = some n) (more : m.readReply = none) :
    Pc.left (.reading n.reader) < Pc.left (.reading m.reader) := by
  rcases state : m.reader with
    _ | b | ⟨b, writePos⟩ | ⟨b, readPos⟩ | ⟨b, readPos, dataLen, _ | ⟨segment, todo⟩⟩
  all_goals simp only [Machine.readerStep, state, Machine.readReply] at action more
  · cases action
  · cases action
    simp [Pc.left]
  · split_ifs at action more
    cases action
    simp [Pc.left]
  · split_ifs at action more
    cases action
    have := length_payloadSegments m.ring.header.capacity
      ((readPos + 4) % m.ring.header.capacity)
      (readPrefix m.ring.data m.ring.header.capacity readPos)
    simp only [Pc.left]
    omega
  · cases more
  · cases action
    simp [Pc.left]

theorem writerStep_eq_none_iff {m : Machine} : m.writerStep = none ↔ m.writer = .idle := by
  rcases state : m.writer with _ | d | ⟨d, writePos⟩ | ⟨d, writePos, _ | ⟨copy, todo⟩⟩
  all_goals
    simp only [Machine.writerStep, state, reduceCtorEq]
    try split_ifs <;> simp

theorem readerStep_eq_none_iff {m : Machine} : m.readerStep = none ↔ m.reader = .idle := by
  rcases state : m.reader with
    _ | b | ⟨b, writePos⟩ | ⟨b, readPos⟩ | ⟨b, readPos, dataLen, _ | ⟨segment, todo⟩⟩
  all_goals
    simp only [Machine.readerStep, state, reduceCtorEq]
    try split_ifs <;> simp

theorem left_writing_pos {w : Writer} (busy : w ≠ .idle) : 0 < Pc.left (.writing w) := by
  cases w <;> simp_all [Pc.left]

theorem left_reading_pos {r : Reader} (busy : r ≠ .idle) : 0 < Pc.left (.reading r) := by
  cases r <;> simp_all [Pc.left]

theorem left_step (action : s.step tick = some u) :
    left u + 1 + 8 * s.calls.length ≤ left s + 8 * u.calls.length := by
  have set : ∀ {i : Nat} {call : ThreadCall} {pc : Pc}, s.calls[i]? = some call →
      pc.left < call.pc.left → ((s.calls.set i { call with pc := pc }).map fun call =>
        call.pc.left).sum + 1 + 8 * s.calls.length ≤
          left s + 8 * (s.calls.set i { call with pc := pc }).length := by
    intro i call pc here less
    have := sum_map_set_of (y := { call with pc := pc }) (fun call => call.pc.left) here
    rw [left, List.length_set]
    dsimp only at this
    omega
  cases step_effect action with
  | called process op =>
      simp only [left, List.map_append, List.sum_append, List.length_append]
      simp [Pc.left]
      omega
  | lockedWrite here pc op free => exact set here (by simp [pc, Pc.left])
  | lockedRead here pc op free => exact set here (by simp [pc, Pc.left])
  | wrote here pc inner more => exact set here (pc ▸ writer_left inner more)
  | wroteLast here pc inner last =>
      refine set here (pc ▸ left_writing_pos fun idle => ?_)
      rw [writerStep_eq_none_iff.mpr idle] at inner
      cases inner
  | read here pc inner more => exact set here (pc ▸ reader_left inner more)
  | readLast here pc inner last =>
      refine set here (pc ▸ left_reading_pos fun idle => ?_)
      rw [readerStep_eq_none_iff.mpr idle] at inner
      cases inner

theorem update_cases {α : Type} {f : Nat → Option α} {p q : Nat} {h : Option α} {a : α}
    (value : Function.update f q h p = some a) : p = q ∧ h = some a ∨ p ≠ q ∧ f p = some a := by
  rw [Function.update_apply] at value
  split_ifs at value with same
  · exact .inl ⟨same, value⟩
  · exact .inr ⟨same, value⟩

structure Held (s : Threads) : Prop where
  write : ∀ p i, s.writeLock p = some i →
    ∃ call w, s.calls[i]? = some call ∧ call.process = p ∧ call.pc = .writing w
  read : ∀ p i, s.readLock p = some i →
    ∃ call r, s.calls[i]? = some call ∧ call.process = p ∧ call.pc = .reading r

namespace Held
variable {i : Nat} {call : ThreadCall} {pc : Pc}

theorem write_other (held : Held s) (here : s.calls[i]? = some call)
    (calls : v.calls = s.calls.set i { call with pc := pc }) {p j : Nat} (different : i ≠ j)
    (lock : s.writeLock p = some j) :
    ∃ call w, v.calls[j]? = some call ∧ call.process = p ∧ call.pc = .writing w := by
  obtain ⟨other, w, there, process, writing⟩ := held.write p j lock
  exact ⟨other, w, by rw [calls, getElem?_set_of here, if_neg different, there], process, writing⟩

theorem read_other (held : Held s) (here : s.calls[i]? = some call)
    (calls : v.calls = s.calls.set i { call with pc := pc }) {p j : Nat} (different : i ≠ j)
    (lock : s.readLock p = some j) :
    ∃ call r, v.calls[j]? = some call ∧ call.process = p ∧ call.pc = .reading r := by
  obtain ⟨other, r, there, process, reading⟩ := held.read p j lock
  exact ⟨other, r, by rw [calls, getElem?_set_of here, if_neg different, there], process, reading⟩

theorem not_reader (held : Held s) (here : s.calls[i]? = some call)
    (outside : ∀ r, call.pc ≠ .reading r) {p j : Nat} (lock : s.readLock p = some j) : i ≠ j := by
  rintro rfl
  obtain ⟨other, r, there, _, reading⟩ := held.read p i lock
  cases here.symm.trans there
  exact outside r reading

theorem not_writer (held : Held s) (here : s.calls[i]? = some call)
    (outside : ∀ w, call.pc ≠ .writing w) {p j : Nat} (lock : s.writeLock p = some j) : i ≠ j := by
  rintro rfl
  obtain ⟨other, w, there, _, writing⟩ := held.write p i lock
  cases here.symm.trans there
  exact outside w writing

theorem step (held : Held s) (action : s.step tick = some u) : Held u := by
  cases step_effect action with
  | called process op =>
      constructor
      · intro p j lock
        obtain ⟨other, w, there, rest⟩ := held.write p j lock
        exact ⟨other, w, by rw [List.getElem?_append_left (lt_of_getElem?_eq there), there], rest⟩
      · intro p j lock
        obtain ⟨other, r, there, rest⟩ := held.read p j lock
        exact ⟨other, r, by rw [List.getElem?_append_left (lt_of_getElem?_eq there), there], rest⟩
  | @lockedWrite i call data here pc op free =>
      constructor
      · intro p j lock
        rcases update_cases lock with ⟨rfl, own⟩ | ⟨_, lock⟩
        · obtain rfl := Option.some.inj own
          exact ⟨_, _, getElem?_set_self_of here, rfl, rfl⟩
        · exact held.write_other here rfl (held.not_writer here (by simp [pc]) lock) lock
      · intro p j lock
        exact held.read_other here rfl (held.not_reader here (by simp [pc]) lock) lock
  | @lockedRead i call buf here pc op free =>
      constructor
      · intro p j lock
        exact held.write_other here rfl (held.not_writer here (by simp [pc]) lock) lock
      · intro p j lock
        rcases update_cases lock with ⟨rfl, own⟩ | ⟨_, lock⟩
        · obtain rfl := Option.some.inj own
          exact ⟨_, _, getElem?_set_self_of here, rfl, rfl⟩
        · exact held.read_other here rfl (held.not_reader here (by simp [pc]) lock) lock
  | @wrote i call w n here pc inner more =>
      constructor
      · intro p j lock
        by_cases same : i = j
        · subst same
          obtain ⟨other, w', there, process, _⟩ := held.write p i lock
          cases here.symm.trans there
          exact ⟨_, _, getElem?_set_self_of here, process, rfl⟩
        · exact held.write_other here rfl same lock
      · intro p j lock
        exact held.read_other here rfl (held.not_reader here (by simp [pc]) lock) lock
  | @wroteLast i call w n reply here pc inner last =>
      constructor
      · intro p j lock
        rcases update_cases lock with ⟨_, released⟩ | ⟨own, lock⟩
        · cases released
        · refine held.write_other here rfl ?_ lock
          rintro rfl
          obtain ⟨other, w', there, process, _⟩ := held.write p i lock
          cases here.symm.trans there
          exact own process.symm
      · intro p j lock
        exact held.read_other here rfl (held.not_reader here (by simp [pc]) lock) lock
  | @read i call r n here pc inner more =>
      constructor
      · intro p j lock
        exact held.write_other here rfl (held.not_writer here (by simp [pc]) lock) lock
      · intro p j lock
        by_cases same : i = j
        · subst same
          obtain ⟨other, r', there, process, _⟩ := held.read p i lock
          cases here.symm.trans there
          exact ⟨_, _, getElem?_set_self_of here, process, rfl⟩
        · exact held.read_other here rfl same lock
  | @readLast i call r n reply here pc inner last =>
      constructor
      · intro p j lock
        exact held.write_other here rfl (held.not_writer here (by simp [pc]) lock) lock
      · intro p j lock
        rcases update_cases lock with ⟨_, released⟩ | ⟨own, lock⟩
        · cases released
        · refine held.read_other here rfl ?_ lock
          rintro rfl
          obtain ⟨other, r', there, process, _⟩ := held.read p i lock
          cases here.symm.trans there
          exact own process.symm

end Held

theorem Good.returned_of_stuck (good : Good writes reads c s) (held : Held s)
    (stuck : ∀ i, s.step (.step i) = none) :
    ∀ call ∈ s.calls, ∃ reply, call.pc = .returned reply := by
  obtain ⟨writer, reader, follows⟩ := good.follows
  have noWriter : ∀ (i : Nat) (call : ThreadCall) (w : Writer), s.calls[i]? = some call →
      call.pc ≠ .writing w := by
    intro i call w here pc
    obtain ⟨_, _, _, data, _, registers⟩ := follows.writing i call w here pc
    have enabled : (s.machine w .idle).writerStep ≠ none := by
      rw [Ne, writerStep_eq_none_iff]
      rintro rfl
      exact registers
    obtain ⟨n, inner⟩ := Option.ne_none_iff_exists'.mp enabled
    have none := stuck i
    simp only [Threads.step, here, pc, writeStep, inner, Option.bind_eq_bind, Option.bind_some] at none
    split at none <;> cases none
  have noReader : ∀ (i : Nat) (call : ThreadCall) (r : Reader), s.calls[i]? = some call →
      call.pc ≠ .reading r := by
    intro i call r here pc
    obtain ⟨_, _, _, buf, _, registers⟩ := follows.reading i call r here pc
    have enabled : (s.machine .idle r).readerStep ≠ none := by
      rw [Ne, readerStep_eq_none_iff]
      rintro rfl
      exact registers
    obtain ⟨n, inner⟩ := Option.ne_none_iff_exists'.mp enabled
    have none := stuck i
    simp only [Threads.step, here, pc, readStep, inner, Option.bind_eq_bind, Option.bind_some] at none
    split at none <;> cases none
  intro call member
  obtain ⟨i, here⟩ := List.mem_iff_getElem?.mp member
  cases pc : call.pc with
  | returned reply => exact ⟨reply, rfl⟩
  | writing w => exact absurd pc (noWriter i call w here)
  | reading r => exact absurd pc (noReader i call r here)
  | locking =>
      have none := stuck i
      cases op : call.op with
      | write data =>
          cases lock : s.writeLock call.process with
          | none => simp [Threads.step, here, pc, Threads.lock, op, lock] at none
          | some j =>
              obtain ⟨other, w, there, _, writing⟩ := held.write _ j lock
              exact absurd writing (noWriter j other w there)
      | read buf =>
          cases lock : s.readLock call.process with
          | none => simp [Threads.step, here, pc, Threads.lock, op, lock] at none
          | some j =>
              obtain ⟨other, r, there, _, reading⟩ := held.read _ j lock
              exact absurd reading (noReader j other r there)

theorem Ordered.order_perm (ordered : Ordered c s s.unread)
    (returned : ∀ call ∈ s.calls, ∃ reply, call.pc = .returned reply) :
    (s.order.map Taken.call).Perm (List.range s.calls.length) := by
  rw [List.perm_ext_iff_of_nodup ordered.once List.nodup_range]
  intro i
  rw [List.mem_range]
  constructor
  · intro member
    obtain ⟨e, early, rfl⟩ := List.mem_map.mp member
    obtain ⟨call, here, _⟩ := ordered.begun e early
    exact lt_of_getElem?_eq here
  · intro inside
    have here := List.getElem?_eq_getElem inside
    obtain ⟨reply, pc⟩ := returned _ (List.mem_of_getElem? here)
    have recorded := ordered.recorded i _ here
    rw [Recorded, pc] at recorded
    exact List.mem_map_of_mem (f := Taken.call) recorded

/-- A run of `n` calls has at most `8 * n` steps, and where no call has a step left, all have
returned. -/
theorem calls_finish (writes reads c : Nat) (data : Nat → UInt8) (ticks : List Tick) (s : Threads)
    (positive : 1 ≤ c) (small : c < 2 ^ 32) (ran : run Threads.step (fresh c data) ticks = some s)
    (allowed : Along Threads.step (Allowed writes reads) (fresh c data) ticks) :
    ticks.length ≤ 8 * s.calls.length ∧
    ((∀ i, s.step (.step i) = none) →
      (∀ call ∈ s.calls, ∃ reply, call.pc = .returned reply) ∧
        (s.order.map Taken.call).Perm (List.range s.calls.length)) := by
  have good := good_of_run (good_fresh positive small) allowed ran
  have held : Held s := run_preserves (fun _ _ _ held action => held.step action)
    ⟨by simp [fresh], by simp [fresh]⟩ ran
  constructor
  · have paid := run_paid left (fun s => 8 * s.calls.length) (P := Allowed writes reads)
      (p := fun _ => true) (fun _ _ _ _ action => left_step action) allowed ran
    rw [List.countP_true] at paid
    have start : left (fresh c data) = 0 ∧ (fresh c data).calls.length = 0 := ⟨rfl, rfl⟩
    omega
  · intro stuck
    have returned := good.returned_of_stuck held stuck
    exact ⟨returned, good.ordered.order_perm returned⟩

theorem calls_finish_overlapping :
    ∃ s, run Threads.step (fresh 32 fun _ => 0) firstHalf = some s ∧
      (s.order.map Taken.call).Perm (List.range 2) :=
  ⟨_, rfl, ((calls_finish 0 1 32 (fun _ => 0) firstHalf _ (by decide) (by decide) rfl
    (by decide)).2 fun | 0 => rfl | 1 => rfl | _ + 2 => rfl).2⟩

end Threads

end GatewayGrpc.SharedMemory
