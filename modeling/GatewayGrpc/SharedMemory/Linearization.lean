import GatewayGrpc.SharedMemory.Threads

/-!
# The ring is linearizable

The locks leave one `write` and one `read` in progress where all writes come from one process and
all reads from one, as the transports have it. Then every call replies what a bounded queue would
reply at some moment between its begin and its return.
-/

namespace GatewayGrpc.SharedMemory
open Library

namespace Threads
variable {writes reads c : Nat} {s u v : Threads} {tick : Tick}

/-! ## The locks keep one writer and one reader -/

/-- The registers that are in use: those of the calls that hold the write lock of the one process
and the read lock of the other. -/
structure Follows (writes reads : Nat) (s : Threads) (writer : Writer) (reader : Reader) :
    Prop where
  inv : (s.machine writer reader).Inv
  writing : ∀ i call w, s.calls[i]? = some call → call.pc = .writing w →
    s.writeLock writes = some i ∧ writer = w ∧ call.process = writes ∧
      ∃ data, call.op = .write data ∧ w.For data
  reading : ∀ i call r, s.calls[i]? = some call → call.pc = .reading r →
    s.readLock reads = some i ∧ reader = r ∧ call.process = reads ∧
      ∃ buf, call.op = .read buf ∧ r.For buf
  noWriter : s.writeLock writes = none → writer = .idle
  noReader : s.readLock reads = none → reader = .idle
  origin : ∀ call ∈ s.calls, (Tick.call call.process call.op).From writes reads

theorem follows_fresh {data : Nat → UInt8} (positive : 1 ≤ c) (small : c < 2 ^ 32) :
    Follows writes reads (fresh c data) .idle .idle where
  inv := Machine.fresh_inv positive small data
  writing := by simp [fresh]
  reading := by simp [fresh]
  noWriter := fun _ => rfl
  noReader := fun _ => rfl
  origin := by simp [fresh]

namespace Follows
variable {writer : Writer} {reader : Reader} {i : Nat} {call : ThreadCall} {n : Machine}

theorem origin_set (follows : Follows writes reads s writer reader)
    (here : s.calls[i]? = some call) (pc : Pc) :
    ∀ other ∈ s.calls.set i { call with pc := pc },
      (Tick.call other.process other.op).From writes reads := by
  intro other member
  rcases List.mem_or_eq_of_mem_set member with before | ⟨_, rfl⟩
  · exact follows.origin other before
  · exact follows.origin call (List.mem_of_getElem? here)

theorem of_write (follows : Follows writes reads s writer reader) {pc : Pc} {writer' : Writer}
    (here : s.calls[i]? = some call) (inv : (v.machine writer' reader).Inv)
    (calls : v.calls = s.calls.set i { call with pc := pc }) (readLock : v.readLock = s.readLock)
    (notReading : ∀ r, pc ≠ .reading r)
    (alone : ∀ j other w, s.calls[j]? = some other → other.pc = .writing w → i = j)
    (self : ∀ w, pc = .writing w → v.writeLock writes = some i ∧ writer' = w ∧
      call.process = writes ∧ ∃ data, call.op = .write data ∧ w.For data)
    (noWriter : v.writeLock writes = none → writer' = .idle) :
    Follows writes reads v writer' reader where
  inv := inv
  writing := by
    intro j other w there pc'
    rw [calls] at there
    rcases getElem?_set_cases here there with ⟨rfl, rfl⟩ | ⟨different, before⟩
    · exact self w pc'
    · exact absurd (alone j other w before pc') different
  reading := by
    intro j other r there pc'
    rw [calls] at there
    rcases getElem?_set_cases here there with ⟨rfl, rfl⟩ | ⟨_, before⟩
    · exact absurd pc' (notReading r)
    · exact readLock ▸ follows.reading j other r before pc'
  noWriter := noWriter
  noReader := fun free => follows.noReader (readLock ▸ free)
  origin := calls ▸ follows.origin_set here pc

theorem of_read (follows : Follows writes reads s writer reader) {pc : Pc} {reader' : Reader}
    (here : s.calls[i]? = some call) (inv : (v.machine writer reader').Inv)
    (calls : v.calls = s.calls.set i { call with pc := pc }) (writeLock : v.writeLock = s.writeLock)
    (notWriting : ∀ w, pc ≠ .writing w)
    (alone : ∀ j other r, s.calls[j]? = some other → other.pc = .reading r → i = j)
    (self : ∀ r, pc = .reading r → v.readLock reads = some i ∧ reader' = r ∧
      call.process = reads ∧ ∃ buf, call.op = .read buf ∧ r.For buf)
    (noReader : v.readLock reads = none → reader' = .idle) :
    Follows writes reads v writer reader' where
  inv := inv
  writing := by
    intro j other w there pc'
    rw [calls] at there
    rcases getElem?_set_cases here there with ⟨rfl, rfl⟩ | ⟨_, before⟩
    · exact absurd pc' (notWriting w)
    · exact writeLock ▸ follows.writing j other w before pc'
  reading := by
    intro j other r there pc'
    rw [calls] at there
    rcases getElem?_set_cases here there with ⟨rfl, rfl⟩ | ⟨different, before⟩
    · exact self r pc'
    · exact absurd (alone j other r before pc') different
  noWriter := fun free => follows.noWriter (writeLock ▸ free)
  noReader := noReader
  origin := calls ▸ follows.origin_set here pc

theorem alone_writing (follows : Follows writes reads s writer reader) {w : Writer}
    (here : s.calls[i]? = some call) (pc : call.pc = .writing w) :
    ∀ j other w, s.calls[j]? = some other → other.pc = .writing w → i = j :=
  fun j other v there pc' => Option.some.inj
    ((follows.writing i call w here pc).1.symm.trans (follows.writing j other v there pc').1)

theorem alone_reading (follows : Follows writes reads s writer reader) {r : Reader}
    (here : s.calls[i]? = some call) (pc : call.pc = .reading r) :
    ∀ j other r, s.calls[j]? = some other → other.pc = .reading r → i = j :=
  fun j other v there pc' => Option.some.inj
    ((follows.reading i call r here pc).1.symm.trans (follows.reading j other v there pc').1)

theorem write_inv (follows : Follows writes reads s writer reader) {w : Writer}
    (here : s.calls[i]? = some call) (pc : call.pc = .writing w)
    (inside : s.AcceptsInside (.step i)) (action : (s.machine w .idle).writerStep = some n) :
    (({ s with ring := n.ring, accepted := n.accepted } : Threads).machine n.writer reader).Inv := by
  obtain ⟨_, rfl, _⟩ := follows.writing i call w here pc
  have ok : (s.machine writer reader).AcceptsInside .writer := by
    have given := inside call here
    rwa [pc] at given
  have moved := Machine.writerStep_reader (s.machine writer .idle) reader
  rw [action, Option.map_some] at moved
  have next := follows.inv.writerStep ok moved
  obtain ⟨delivered, _⟩ := Machine.writerStep_keeps action
  rw [machine, ← show n.delivered = s.delivered from delivered]
  exact next

theorem read_inv (follows : Follows writes reads s writer reader) {r : Reader}
    (here : s.calls[i]? = some call) (pc : call.pc = .reading r)
    (action : (s.machine .idle r).readerStep = some n) :
    (({ s with ring := n.ring, delivered := n.delivered } : Threads).machine writer
      n.reader).Inv := by
  obtain ⟨_, rfl, _⟩ := follows.reading i call r here pc
  have moved := Machine.readerStep_writer (s.machine .idle reader) writer
  rw [action, Option.map_some] at moved
  have next := follows.inv.readerStep moved
  obtain ⟨accepted, _⟩ := Machine.readerStep_keeps action
  rw [machine, ← show n.accepted = s.accepted from accepted]
  exact next

theorem write_effect (follows : Follows writes reads s writer reader) {w : Writer}
    (here : s.calls[i]? = some call) (pc : call.pc = .writing w)
    (action : (s.machine w .idle).writerStep = some n) :
    match (s.machine w .idle).writeReply with
    | none => n.unread = (s.machine writer reader).unread ∧
        ∃ data, call.op = .write data ∧ n.writer.For data
    | some reply => n.writer = .idle ∧
        (Fifo.mk s.ring.header.capacity (s.machine writer reader).unread).respond call.op =
          (reply, ⟨s.ring.header.capacity, n.unread⟩) := by
  obtain ⟨_, rfl, _, data, op, registers⟩ := follows.writing i call w here pc
  have moved := Machine.writerStep_reader (s.machine writer .idle) reader
  rw [action, Option.map_some] at moved
  have effect := follows.inv.write_effect registers moved
  rw [op]
  change match (s.machine writer reader).writeReply with | none => _ | some reply => _
  cases reply : (s.machine writer reader).writeReply with
  | none =>
      rw [reply] at effect
      exact ⟨effect.1, data, rfl, effect.2⟩
  | some reply' =>
      rw [reply] at effect
      exact effect

theorem read_effect (follows : Follows writes reads s writer reader) {r : Reader}
    (here : s.calls[i]? = some call) (pc : call.pc = .reading r)
    (action : (s.machine .idle r).readerStep = some n) :
    (match (s.machine .idle r).readEffect with
      | none => n.unread = (s.machine writer reader).unread
      | some reply =>
          (Fifo.mk s.ring.header.capacity (s.machine writer reader).unread).respond call.op =
            (reply, ⟨s.ring.header.capacity, n.unread⟩)) ∧
    match (s.machine .idle r).readReply with
      | none => ∃ buf, call.op = .read buf ∧ n.reader.For buf
      | some _ => n.reader = .idle := by
  obtain ⟨_, rfl, _, buf, op, registers⟩ := follows.reading i call r here pc
  have moved := Machine.readerStep_writer (s.machine .idle reader) writer
  rw [action, Option.map_some] at moved
  obtain ⟨effect, goesOn⟩ := follows.inv.read_effect registers moved
  rw [op]
  refine ⟨effect, ?_⟩
  change match (s.machine writer reader).readReply with | none => _ | some _ => _
  cases reply : (s.machine writer reader).readReply with
  | none =>
      rw [reply] at goesOn
      exact ⟨buf, rfl, goesOn⟩
  | some reply' =>
      rw [reply] at goesOn
      exact goesOn

theorem step (follows : Follows writes reads s writer reader) (asks : tick.From writes reads)
    (inside : s.AcceptsInside tick) (action : s.step tick = some u) :
    ∃ writer reader, Follows writes reads u writer reader := by
  cases step_effect action with
  | called process op =>
      refine ⟨writer, reader, follows.inv, ?_, ?_, follows.noWriter, follows.noReader, ?_⟩
      · intro i call w there pc
        rcases getElem?_append_cases there with before | ⟨_, rfl⟩
        · exact follows.writing i call w before pc
        · cases pc
      · intro i call r there pc
        rcases getElem?_append_cases there with before | ⟨_, rfl⟩
        · exact follows.reading i call r before pc
        · cases pc
      · intro call member
        rcases List.mem_append.mp member with before | last
        · exact follows.origin call before
        · rw [List.mem_singleton.mp last]
          exact asks
  | @lockedWrite i call data here pc op free =>
      have process := follows.origin call (List.mem_of_getElem? here)
      rw [op] at process
      obtain rfl : call.process = writes := process
      obtain rfl := follows.noWriter free
      have free' : (s.machine .idle reader).AcceptsInside (.beginWrite data) := trivial
      have begun : (s.machine (.entered data) reader).Inv := follows.inv.step free' rfl
      refine ⟨.entered data, reader, follows.of_write here begun rfl rfl
        (by simp) (fun j other w there pc' => ?_) (fun w same => ?_) (fun free' => ?_)⟩
      · exact absurd ((follows.writing j other w there pc').1.symm.trans free) (by simp)
      · cases same
        exact ⟨Function.update_self .., rfl, rfl, data, op, rfl⟩
      · simp at free'
  | @lockedRead i call buf here pc op free =>
      have process := follows.origin call (List.mem_of_getElem? here)
      rw [op] at process
      obtain rfl : call.process = reads := process
      obtain rfl := follows.noReader free
      have free' : (s.machine writer .idle).AcceptsInside (.beginRead buf) := trivial
      have begun : (s.machine writer (.entered buf)).Inv := follows.inv.step free' rfl
      refine ⟨writer, .entered buf, follows.of_read here begun rfl rfl
        (by simp) (fun j other r there pc' => ?_) (fun r same => ?_) (fun free' => ?_)⟩
      · exact absurd ((follows.reading j other r there pc').1.symm.trans free) (by simp)
      · cases same
        exact ⟨Function.update_self .., rfl, rfl, buf, op, rfl⟩
      · simp at free'
  | @wrote i call w n here pc inner more =>
      obtain ⟨held, _, process, _⟩ := follows.writing i call w here pc
      have effect := follows.write_effect here pc inner
      rw [more] at effect
      refine ⟨n.writer, reader, follows.of_write here (follows.write_inv here pc inside inner) rfl rfl
        (by simp) (follows.alone_writing here pc) (fun w same => ?_) (fun free => ?_)⟩
      · cases same
        exact ⟨held, rfl, process, effect.2⟩
      · exact absurd (held.symm.trans free) (by simp)
  | @wroteLast i call w n reply here pc inner last =>
      have effect := follows.write_effect here pc inner
      rw [last] at effect
      have next := follows.write_inv here pc inside inner
      refine ⟨n.writer, reader, follows.of_write here next rfl rfl (by simp)
        (follows.alone_writing here pc) (by simp) (fun _ => effect.1)⟩
  | @read i call r n here pc inner more =>
      obtain ⟨held, _, process, _⟩ := follows.reading i call r here pc
      have effect := (follows.read_effect here pc inner).2
      rw [more] at effect
      refine ⟨writer, n.reader, follows.of_read here (follows.read_inv here pc inner) rfl rfl
        (by simp) (follows.alone_reading here pc) (fun r same => ?_) (fun free => ?_)⟩
      · cases same
        exact ⟨held, rfl, process, effect⟩
      · exact absurd (held.symm.trans free) (by simp)
  | @readLast i call r n reply here pc inner last =>
      have effect := (follows.read_effect here pc inner).2
      rw [last] at effect
      refine ⟨writer, n.reader, follows.of_read here (follows.read_inv here pc inner) rfl rfl
        (by simp) (follows.alone_reading here pc) (by simp) (fun _ => effect)⟩

end Follows

/-! ## The order of effect -/

/-- What `order` says about a call. A `read` that has loaded the write position knows already
whether it will find the ring empty. -/
def Recorded (s : Threads) (i : Nat) (call : ThreadCall) : Prop :=
  match call.pc with
  | .returned reply => ⟨i, call.op, reply⟩ ∈ s.order
  | .reading (.loadedWritePos buf writePos) =>
      if writePos = s.ring.header.readPos then ⟨i, call.op, ⟨.err .bufferEmpty, buf⟩⟩ ∈ s.order
      else i ∉ s.order.map Taken.call
  | _ => i ∉ s.order.map Taken.call

structure Ordered (c : Nat) (s : Threads) (unread : List Message) : Prop where
  legal : Legal Fifo.respond (.empty c) s.order
  settled : settle Fifo.respond (.empty c) s.order = ⟨c, unread⟩
  once : (s.order.map Taken.call).Nodup
  begun : ∀ e ∈ s.order, ∃ call, s.calls[e.call]? = some call ∧ call.op = e.op
  recorded : ∀ i call, s.calls[i]? = some call → s.Recorded i call

theorem ordered_fresh (data : Nat → UInt8) : Ordered c (fresh c data) [] where
  legal := rfl
  settled := rfl
  once := .nil
  begun := by simp [fresh]
  recorded := by simp [fresh]

theorem Recorded.mono {i : Nat} {call : ThreadCall} (recorded : s.Recorded i call)
    {later : List (Taken Op Reply)} (order : v.order = s.order ++ later)
    (others : ∀ e ∈ later, e.call ≠ i)
    (readPos : ∀ r, call.pc = .reading r → v.ring.header.readPos = s.ring.header.readPos) :
    v.Recorded i call := by
  have absent : i ∉ s.order.map Taken.call → i ∉ v.order.map Taken.call := by
    intro before
    rw [order, List.map_append, List.mem_append, not_or]
    refine ⟨before, fun member => ?_⟩
    obtain ⟨e, last, same⟩ := List.mem_map.mp member
    exact others e last same
  have kept : ∀ e ∈ s.order, e ∈ v.order := fun e member =>
    order ▸ List.mem_append_left later member
  unfold Recorded at recorded ⊢
  split at recorded
  · exact kept _ recorded
  · rename_i pc
    rw [readPos _ pc]
    split_ifs at recorded ⊢
    · exact kept _ recorded
    · exact absent recorded
  · exact absent recorded

namespace Ordered
variable {unread unread' : List Message} {i : Nat} {call : ThreadCall} {pc : Pc}

theorem advance (ordered : Ordered c s unread) (here : s.calls[i]? = some call)
    (calls : v.calls = s.calls.set i { call with pc := pc }) (reply : Option Reply)
    (order : v.order = s.order ++ (reply.map (Taken.mk i call.op)).toList)
    (effect : match reply with
      | none => unread' = unread
      | some reply => (Fifo.mk c unread).respond call.op = (reply, ⟨c, unread'⟩))
    (first : reply.isSome → i ∉ s.order.map Taken.call)
    (self : v.Recorded i { call with pc := pc })
    (readPos : ∀ j other r, i ≠ j → s.calls[j]? = some other → other.pc = .reading r →
      v.ring.header.readPos = s.ring.header.readPos) : Ordered c v unread' := by
  have recorded : ∀ j other, v.calls[j]? = some other → v.Recorded j other := by
    intro j other there
    rw [calls] at there
    rcases getElem?_set_cases here there with ⟨rfl, rfl⟩ | ⟨different, before⟩
    · exact self
    · refine (ordered.recorded j other before).mono order (fun e member => ?_)
        (fun r pc => readPos j other r different before pc)
      obtain ⟨reply', _, rfl⟩ := Option.map_eq_some_iff.mp (Option.mem_toList.mp member)
      exact different
  have begun : ∀ e ∈ v.order, ∃ other, v.calls[e.call]? = some other ∧ other.op = e.op := by
    intro e member
    rw [calls]
    rw [order] at member
    rcases List.mem_append.mp member with before | last
    · obtain ⟨other, there, op⟩ := ordered.begun e before
      by_cases same : i = e.call
      · subst same
        cases here.symm.trans there
        exact ⟨_, getElem?_set_self_of here, op⟩
      · exact ⟨other, by rw [getElem?_set_of here, if_neg same, there], op⟩
    · obtain ⟨reply', _, rfl⟩ := Option.map_eq_some_iff.mp (Option.mem_toList.mp last)
      exact ⟨_, getElem?_set_self_of here, rfl⟩
  cases reply with
  | none =>
      dsimp only at effect
      rw [Option.map_none, Option.toList_none, List.append_nil] at order
      subst effect
      exact ⟨order ▸ ordered.legal, order ▸ ordered.settled, order ▸ ordered.once, begun, recorded⟩
  | some reply =>
      dsimp only at effect
      rw [Option.map_some, Option.toList_some] at order
      have answered : (Fifo.respond (settle Fifo.respond (.empty c) s.order) call.op).1 = reply := by
        rw [ordered.settled, effect]
      refine ⟨order ▸ ordered.legal.append answered, ?_, ?_, begun, recorded⟩
      · rw [order, settle_append, ordered.settled]
        exact congrArg Prod.snd effect
      · rw [order, List.map_append, List.nodup_append]
        refine ⟨ordered.once, List.nodup_singleton _, fun a before b last => ?_⟩
        rintro rfl
        rw [List.mem_singleton.mp last] at before
        exact first rfl before

theorem absent (ordered : Ordered c s unread) (here : s.calls[i]? = some call)
    (early : match call.pc with
      | .returned _ | .reading (.loadedWritePos _ _) => False
      | _ => True) : i ∉ s.order.map Taken.call := by
  have recorded := ordered.recorded i call here
  unfold Recorded at recorded
  split at recorded
  · simp_all
  · simp_all
  · exact recorded

theorem called (ordered : Ordered c s unread) (process : Nat) (op : Op) :
    Ordered c { s with calls := s.calls ++ [⟨process, op, .locking⟩] } unread where
  legal := ordered.legal
  settled := ordered.settled
  once := ordered.once
  begun := fun e member => by
    obtain ⟨other, there, same⟩ := ordered.begun e member
    exact ⟨other, by rw [List.getElem?_append_left (lt_of_getElem?_eq there), there], same⟩
  recorded := fun j other there => by
    rcases getElem?_append_cases there with before | ⟨rfl, rfl⟩
    · exact ordered.recorded j other before
    · intro member
      obtain ⟨e, early, same⟩ := List.mem_map.mp member
      obtain ⟨other, there, _⟩ := ordered.begun e early
      exact absurd (lt_of_getElem?_eq there) (by omega)

theorem first_effect (ordered : Ordered c s unread) {r : Reader} (here : s.calls[i]? = some call)
    (pc : call.pc = .reading r) (effect : (s.machine .idle r).readEffect.isSome) :
    i ∉ s.order.map Taken.call := by
  apply ordered.absent here
  rw [pc]
  cases r with
  | loadedWritePos buf writePos => simp [Machine.readEffect] at effect
  | _ => trivial

theorem recorded_read (ordered : Ordered c s unread) {r : Reader} {n : Machine}
    (here : s.calls[i]? = some call) (at_ : call.pc = .reading r)
    (action : (s.machine .idle r).readerStep = some n) (more : (s.machine .idle r).readReply = none)
    (order : v.order = s.order ++
      ((s.machine .idle r).readEffect.map (Taken.mk i call.op)).toList)
    (ring : v.ring = n.ring) : v.Recorded i { call with pc := .reading n.reader } := by
  have recorded := ordered.recorded i call here
  have absent := ordered.absent here
  simp only [Recorded, at_] at recorded
  rw [at_] at absent
  cases r with
  | idle => simp [Machine.readerStep] at action
  | entered buf =>
      simp only [Machine.readerStep] at action
      cases action
      simp only [Recorded, ring]
      by_cases empty : s.ring.header.writePos = s.ring.header.readPos
      · rw [if_pos empty, order]
        simp [Machine.readEffect, empty]
      · rw [if_neg empty, order]
        simpa [Machine.readEffect, empty] using absent trivial
  | loadedWritePos buf writePos =>
      have noEffect : (s.machine .idle (.loadedWritePos buf writePos)).readEffect = none := rfl
      by_cases empty : writePos = s.ring.header.readPos
      · simp [Machine.readReply, empty] at more
      · simp only [Machine.readerStep, if_neg empty] at action
        cases action
        dsimp only at recorded
        rw [if_neg empty] at recorded
        rw [noEffect] at order
        simpa only [Recorded, order, Option.map_none, Option.toList_none, List.append_nil] using
          recorded
  | loadedReadPos buf readPos =>
      have noEffect : (s.machine .idle (.loadedReadPos buf readPos)).readEffect = none := more
      by_cases short : buf.length < readPrefix s.ring.data s.ring.header.capacity readPos
      · simp [Machine.readReply, short] at more
      · simp only [Machine.readerStep, if_neg short] at action
        cases action
        rw [noEffect] at order
        simpa only [Recorded, order, Option.map_none, Option.toList_none, List.append_nil] using
          absent trivial
  | copying buf readPos dataLen todo =>
      have noEffect : (s.machine .idle (.copying buf readPos dataLen todo)).readEffect = none := more
      cases todo with
      | nil => simp [Machine.readReply] at more
      | cons segment todo =>
          simp only [Machine.readerStep] at action
          cases action
          rw [noEffect] at order
          simpa only [Recorded, order, Option.map_none, Option.toList_none, List.append_nil] using
            absent trivial

theorem recorded_reply (ordered : Ordered c s unread) {r : Reader} {reply : Reply}
    (here : s.calls[i]? = some call) (pc : call.pc = .reading r)
    (last : (s.machine .idle r).readReply = some reply)
    (order : v.order = s.order ++
      ((s.machine .idle r).readEffect.map (Taken.mk i call.op)).toList) :
    v.Recorded i { call with pc := .returned reply } := by
  have recorded := ordered.recorded i call here
  simp only [Recorded, pc] at recorded
  unfold Recorded
  rw [order]
  cases r with
  | idle | entered buf => simp [Machine.readReply] at last
  | loadedWritePos buf writePos =>
      simp only [Machine.readReply, Option.ite_none_right_eq_some, Option.some.injEq] at last
      obtain ⟨empty, rfl⟩ := last
      dsimp only at recorded
      rw [if_pos empty] at recorded
      exact List.mem_append_left _ recorded
  | loadedReadPos buf readPos =>
      have took : (s.machine .idle (.loadedReadPos buf readPos)).readEffect = some reply := last
      simp [took]
  | copying buf readPos dataLen todo =>
      have took : (s.machine .idle (.copying buf readPos dataLen todo)).readEffect = some reply :=
        last
      simp [took]

theorem step {writer : Writer} {reader : Reader} (ordered : Ordered c s s.unread)
    (follows : Follows writes reads s writer reader) (capacity : s.ring.header.capacity = c)
    (action : s.step tick = some u) : Ordered c u u.unread := by
  subst capacity
  cases step_effect action with
  | called process op => exact ordered.called process op
  | lockedWrite here pc op free =>
      refine ordered.advance here rfl none (List.append_nil _).symm rfl (by simp) ?_
        fun _ _ _ _ _ _ => rfl
      exact ordered.absent here (by rw [pc]; trivial)
  | lockedRead here pc op free =>
      refine ordered.advance here rfl none (List.append_nil _).symm rfl (by simp) ?_
        fun _ _ _ _ _ _ => rfl
      exact ordered.absent here (by rw [pc]; trivial)
  | @wrote i call w n here pc inner more =>
      obtain ⟨delivered, _, readPos⟩ := Machine.writerStep_keeps inner
      have effect := follows.write_effect here pc inner
      rw [more] at effect
      refine ordered.advance here rfl none (List.append_nil _).symm ?_ (by simp) ?_
        fun _ _ _ _ _ _ => readPos
      · refine Eq.trans ?_ effect.1
        exact congrArg (fun d => n.accepted.drop (List.length d)) delivered.symm
      · exact ordered.absent here (by rw [pc]; trivial)
  | @wroteLast i call w n reply here pc inner last =>
      obtain ⟨delivered, _, readPos⟩ := Machine.writerStep_keeps inner
      have effect := follows.write_effect here pc inner
      rw [last] at effect
      refine ordered.advance here rfl (some reply) rfl ?_ (fun _ => ?_) ?_
        fun _ _ _ _ _ _ => readPos
      · refine effect.2.trans ?_
        exact congrArg (fun d => (reply, Fifo.mk _ (n.accepted.drop d.length))) delivered
      · exact ordered.absent here (by rw [pc]; trivial)
      · exact List.mem_append_right _ (List.mem_singleton_self _)
  | @read i call r n here pc inner more =>
      obtain ⟨accepted, _⟩ := Machine.readerStep_keeps inner
      have effect := (follows.read_effect here pc inner).1
      refine ordered.advance here rfl _ rfl ?_ (ordered.first_effect here pc)
        (ordered.recorded_read here pc inner more rfl rfl) fun j other r' different there pc' => ?_
      · cases took : (s.machine .idle r).readEffect with
        | none =>
            rw [took] at effect
            exact (congrArg (fun a => List.drop n.delivered.length a) accepted.symm).trans effect
        | some reply =>
            rw [took] at effect
            refine effect.trans ?_
            exact congrArg (fun a => (reply, Fifo.mk _ (a.drop n.delivered.length))) accepted
      · exact absurd (follows.alone_reading here pc j other r' there pc') different
  | @readLast i call r n reply here pc inner last =>
      obtain ⟨accepted, _⟩ := Machine.readerStep_keeps inner
      have effect := (follows.read_effect here pc inner).1
      refine ordered.advance here rfl _ rfl ?_ (ordered.first_effect here pc)
        (ordered.recorded_reply here pc last rfl) fun j other r' different there pc' => ?_
      · cases took : (s.machine .idle r).readEffect with
        | none =>
            rw [took] at effect
            exact (congrArg (fun a => List.drop n.delivered.length a) accepted.symm).trans effect
        | some reply =>
            rw [took] at effect
            refine effect.trans ?_
            exact congrArg (fun a => (reply, Fifo.mk _ (a.drop n.delivered.length))) accepted
      · exact absurd (follows.alone_reading here pc j other r' there pc') different

end Ordered

/-! ## Every interleaving -/

def history (s : Threads) : List (Op × Option Reply) :=
  s.calls.map fun call => (call.op, match call.pc with
    | .returned reply => some reply
    | _ => none)

theorem history_eq_some {i : Nat} {op : Op} {reply : Option Reply}
    (here : s.history[i]? = some (op, reply)) :
    ∃ call, s.calls[i]? = some call ∧ call.op = op ∧
      ∀ r, reply = some r → call.pc = .returned r := by
  rw [history, List.getElem?_map, Option.map_eq_some_iff] at here
  obtain ⟨call, found, same⟩ := here
  cases same
  refine ⟨call, found, rfl, fun r returned => ?_⟩
  split at returned
  · cases returned
    assumption
  · cases returned

theorem Ordered.linearized (ordered : Ordered c s s.unread) :
    Linearized Fifo.respond (.empty c) s.history s.order where
  legal := ordered.legal
  once := ordered.once
  begun := fun e member => by
    obtain ⟨call, here, op⟩ := ordered.begun e member
    exact ⟨_, by rw [history, List.getElem?_map, here, Option.map_some, op]⟩
  returned := fun i op reply here => by
    obtain ⟨call, found, rfl, returned⟩ := history_eq_some here
    have recorded := ordered.recorded i call found
    rwa [Recorded, returned reply rfl] at recorded

theorem order_grows (action : s.step tick = some u) : s.order <+: u.order := by
  cases step_effect action with
  | wroteLast | read | readLast => exact List.prefix_append ..
  | _ => exact List.prefix_rfl

variable (writes reads c) in
structure Good (s : Threads) : Prop where
  follows : ∃ writer reader, Follows writes reads s writer reader
  ordered : Ordered c s s.unread
  capacity : s.ring.header.capacity = c

theorem capacity_step (action : s.step tick = some u) :
    u.ring.header.capacity = s.ring.header.capacity := by
  cases step_effect action with
  | @wrote i call w n here pc inner | @wroteLast i call w n reply here pc inner =>
      have kept : (s.machine w .idle).step .writer = some n := inner
      exact Machine.capacity_step kept
  | @read i call r n here pc inner | @readLast i call r n reply here pc inner =>
      have kept : (s.machine .idle r).step .reader = some n := inner
      exact Machine.capacity_step kept
  | _ => rfl

theorem Good.step (good : Good writes reads c s) (asks : tick.From writes reads)
    (inside : s.AcceptsInside tick) (action : s.step tick = some u) : Good writes reads c u := by
  obtain ⟨writer, reader, follows⟩ := good.follows
  exact ⟨follows.step asks inside action, good.ordered.step follows good.capacity action,
    (capacity_step action).trans good.capacity⟩

theorem good_fresh {data : Nat → UInt8} (positive : 1 ≤ c) (small : c < 2 ^ 32) :
    Good writes reads c (fresh c data) :=
  ⟨⟨.idle, .idle, follows_fresh positive small⟩, ordered_fresh data, rfl⟩

def Allowed (writes reads : Nat) (s : Threads) (tick : Tick) : Prop :=
  tick.From writes reads ∧ s.AcceptsInside tick

instance (writes reads : Nat) (s : Threads) (tick : Tick) : Decidable (Allowed writes reads s tick) :=
  inferInstanceAs (Decidable (_ ∧ _))

theorem good_of_run {ticks : List Tick} (start : Good writes reads c s)
    (allowed : Along Threads.step (Allowed writes reads) s ticks)
    (ran : run Threads.step s ticks = some u) : Good writes reads c u :=
  run_invariant (fun _ _ _ good ok action => good.step ok.1 ok.2 action) start allowed ran

structure Linearizable (c : Nat) (s u : Threads) : Prop where
  linearized : Linearized Fifo.respond (.empty c) u.history u.order
  refines : Refines u.ring (settle Fifo.respond (.empty c) u.order)
  realTime : ∀ i j op reply, s.history[i]? = some (op, some reply) → s.history.length ≤ j →
    j ∈ u.order.map Taken.call → Precedes u.order i j

/-- The calls of any number of threads are linearizable: all together they reply what a bounded
queue replies to one call after the other, in an order that keeps real time. -/
theorem ring_linearizable (writes reads c : Nat) (data : Nat → UInt8) (before after : List Tick)
    (s u : Threads) (positive : 1 ≤ c) (small : c < 2 ^ 32)
    (ran : run Threads.step (fresh c data) before = some s)
    (allowed : Along Threads.step (Allowed writes reads) (fresh c data) before)
    (continued : run Threads.step s after = some u)
    (allowed' : Along Threads.step (Allowed writes reads) s after) : Linearizable c s u := by
  have good := good_of_run (good_fresh positive small) allowed ran
  have final := good_of_run good allowed' continued
  have grows : ∀ v tick w, s.order <+: v.order → Threads.step v tick = some w →
      s.order <+: w.order := fun _ _ _ inv action => inv.trans (order_grows action)
  have grown : s.order <+: u.order := run_preserves grows List.prefix_rfl continued
  refine ⟨final.ordered.linearized, ?_, fun i j op reply returned notBegun tookEffect =>
    good.ordered.linearized.precedes grown returned notBegun tookEffect⟩
  obtain ⟨writer, reader, follows⟩ := final.follows
  rw [final.ordered.settled]
  exact ⟨final.capacity, _, follows.inv.ring⟩

def firstHalf : List Tick :=
  [.call 0 (.write [7]), .call 1 (.read [0]), .step 0, .step 1, .step 1, .step 0, .step 0, .step 1,
    .step 0, .step 0, .step 0]

def secondHalf : List Tick :=
  [.call 0 (.write [8, 9]), .call 1 (.read [0, 0]), .step 2, .step 3, .step 3, .step 2, .step 3,
    .step 3, .step 2, .step 3, .step 3, .step 2, .step 2, .step 2]

theorem ring_linearizable_overlapping :
    ∃ s u, run Threads.step (fresh 32 fun _ => 0) firstHalf = some s ∧
      run Threads.step s secondHalf = some u ∧ Linearizable 32 s u :=
  ⟨_, _, rfl, rfl, ring_linearizable 0 1 32 (fun _ => 0) firstHalf secondHalf _ _ (by decide)
    (by decide) rfl (by decide) rfl (by decide)⟩

end Threads

end GatewayGrpc.SharedMemory
