import GatewayGrpc.SharedMemory.WeakMemory

/-!
# No data races on the ring

The invariant of the ring in weak memory: that of `Machine`, with the newest store of each side in
the header, and `Ordered`. Every run of `Machine` is one in weak memory, and no run in weak memory
has a data race.
-/

namespace GatewayGrpc.SharedMemory
open Library

/-- A `write` that was granted has room in front of the newest read position its side knows. -/
def Writer.Granted (c : Nat) (accepted : List Message) (known : Nat) : Writer → Prop
  | .copying data _ _ => streamSize accepted + frameSize data < place accepted known + c
  | _ => True

/-- A `read` that found the ring not empty knows of the message it reads. -/
def Reader.Informed (c : Nat) (accepted : List Message) (delivered known : Nat) : Reader → Prop
  | .loadedWritePos _ writePos => writePos = place accepted known % c
  | .loadedReadPos _ _ | .copying _ _ _ _ => delivered < known
  | _ => True

namespace WeakMachine

/-- The ring with the newest store of each side in its header. -/
def machine (m : WeakMachine) : Machine where
  ring :=
    { header :=
        { writePos := streamSize m.accepted % m.capacity
          readPos := streamSize m.delivered % m.capacity
          capacity := m.capacity
          magic := RingBufferHeader.MAGIC }
      data := m.data }
  writer := m.writer
  reader := m.reader
  accepted := m.accepted
  delivered := m.delivered

@[simp] theorem machine_writer (m : WeakMachine) : m.machine.writer = m.writer := rfl

@[simp] theorem machine_reader (m : WeakMachine) : m.machine.reader = m.reader := rfl

structure Inv (m : WeakMachine) : Prop where
  machine : m.machine.Inv
  ordered : Ordered m.capacity m.accepted m.delivered.length m.positions
  writer : m.writer.Granted m.capacity m.accepted (m.positions.known .writer .reader)
  reader : m.reader.Informed m.capacity m.accepted m.delivered.length
    (m.positions.known .reader .writer)

theorem fresh_inv {c : Nat} (positive : 1 ≤ c) (small : c < 2 ^ 32) (data : Nat → UInt8) :
    (fresh c data).Inv where
  machine := by
    have same : (fresh c data).machine = .fresh c data := by
      simp [machine, fresh, Machine.fresh, SharedMemoryRingBuffer.fresh, RingBufferHeader.new]
    rw [same]
    exact Machine.fresh_inv positive small data
  ordered := .initial positive
  writer := trivial
  reader := trivial

namespace Inv
variable {m m' : WeakMachine}

theorem place_delivered (inv : m.Inv) :
    place m.accepted m.delivered.length = streamSize m.delivered := by
  have delivered : m.delivered = m.accepted.take m.delivered.length :=
    List.prefix_iff_eq_take.mp inv.machine.fifo
  rw [place, ← delivered]

theorem delivered_add_unread (inv : m.Inv) :
    streamSize m.delivered + streamSize m.unread = streamSize m.accepted := by
  rw [← inv.place_delivered]
  exact place_add_drop

theorem place_succ (inv : m.Inv) {msg : Message} {rest : List Message}
    (unread : m.unread = msg :: rest) :
    place m.accepted (m.delivered.length + 1) = streamSize m.delivered + frameSize msg := by
  have whole : m.delivered ++ msg :: rest = m.accepted := unread ▸ inv.machine.accepted_eq
  rw [place, ← whole, List.take_length_add_append]
  simp

/-- A read position loaded late only makes the queue look longer. -/
theorem room_of_stale (inv : m.Inv) {store : Nat} (old : store ≤ m.delivered.length)
    {data : Message} (room : (Fifo.mk m.capacity (m.accepted.drop store)).Room data) :
    (Fifo.mk m.capacity m.unread).Room data := by
  have before : place m.accepted store + streamSize (m.accepted.drop store) =
      streamSize m.accepted := place_add_drop
  have now := inv.delivered_add_unread
  have order : place m.accepted store ≤ place m.accepted m.delivered.length := place_mono old
  rw [inv.place_delivered] at order
  simp only [Fifo.Room, Fifo.used] at room ⊢
  omega

theorem writePos_eq (inv : m.Inv) {data : Message} {writePos : Nat}
    (loaded : m.writer = .loadedWritePos data writePos) :
    writePos = streamSize m.accepted % m.capacity := by
  have w := inv.machine.writer
  simp only [Machine.WriterInv, machine_writer, loaded] at w
  exact w

theorem available_lt_iff (inv : m.Inv) {data : Message} {writePos store readPos : Nat}
    {next : Atomics Side Nat Nat} (loadedWritePos : m.writer = .loadedWritePos data writePos)
    (loaded : m.positions.acquire .writer .reader store = some (readPos, next)) :
    available m.capacity writePos readPos < 4 + data.length ↔
      ¬ (Fifo.mk m.capacity (m.accepted.drop store)).Room data := by
  have small : m.capacity < 2 ^ 32 := inv.machine.ring.small
  rw [inv.writePos_eq loadedWritePos]
  exact inv.ordered.available_lt_iff (by omega) loaded data

theorem granted (inv : m.Inv) {data : Message} {writePos : Nat} {todo : List Copy}
    (copying : m.writer = .copying data writePos todo) :
    streamSize m.accepted + frameSize data <
      place m.accepted (m.positions.known .writer .reader) + m.capacity := by
  have w := inv.writer
  rw [copying] at w
  exact w

theorem copyIn (inv : m.Inv) {data : Message} {writePos : Nat} {copy : Copy} {todo : List Copy}
    (copying : m.writer = .copying data writePos (copy :: todo)) :
    ({ m with
      data := overlay m.data copy.offset copy.bytes
      positions := m.positions.writeCells .writer copy.cells
      writer := .copying data writePos todo } : WeakMachine).Inv := by
  have w := inv.machine.writer
  simp only [Machine.WriterInv, machine_writer, copying] at w
  obtain ⟨-, -, -, done, split, -⟩ := w
  have member : copy ∈ frameCopies m.capacity writePos data := by
    change done ++ copy :: todo = frameCopies m.capacity writePos data at split
    simp [← split]
  have within : copy.Within m.capacity (streamSize m.accepted) (frameSize data) :=
    inv.delivered_add_unread ▸ inv.machine.copy_within copying member
  have cells : ∀ x ∈ copy.cells, ∃ j < frameSize data,
      x = (streamSize m.accepted + j) % m.capacity := by
    intro x cell
    rw [Copy.cells, List.mem_range'_1] at cell
    obtain ⟨j, hj, e⟩ := within (x - copy.offset) (by omega)
    exact ⟨j, hj, by omega⟩
  exact ⟨inv.machine.copyIn copying, inv.ordered.writeCells cells (inv.granted copying).le,
    inv.granted copying, inv.reader⟩

theorem writePos_after (inv : m.Inv) {data : Message} {writePos : Nat} {todo : List Copy}
    (copying : m.writer = .copying data writePos todo) :
    (writePos + frameSize data) % m.capacity = streamSize (m.accepted ++ [data]) % m.capacity := by
  have w := inv.machine.writer
  simp only [Machine.WriterInv, machine_writer, copying] at w
  rw [show writePos = streamSize m.accepted % m.capacity from w.1, Nat.mod_add_mod,
    streamSize_append, streamSize_cons, streamSize_nil, Nat.add_zero]

theorem publish (inv : m.Inv) {data : Message} {writePos : Nat}
    (copying : m.writer = .copying data writePos []) :
    ({ m with
      positions := m.positions.release .writer ((writePos + frameSize data) % m.capacity)
      writer := .idle
      accepted := m.accepted ++ [data] } : WeakMachine).Inv := by
  have value := inv.writePos_after copying
  refine ⟨?_, inv.ordered.publish (inv.granted copying) value, trivial, ?_⟩
  · unfold WeakMachine.machine
    rw [← value]
    exact inv.machine.publish copying
  · have r := inv.reader
    have same : (m.positions.release .writer ((writePos + frameSize data) % m.capacity)).known
        .reader .writer = m.positions.known .reader .writer := by simp [Atomics.release]
    rw [same]
    cases reading : m.reader with
    | loadedWritePos buf loaded =>
        rw [reading] at r
        exact r.trans (by rw [place_append inv.ordered.informed_le])
    | idle | entered buf | loadedReadPos buf readPos | copying buf readPos dataLen todo =>
        rw [reading] at r
        exact r

theorem reader_kept (inv : m.Inv) {u : Side} {i value : Nat} {next : Atomics Side Nat Nat}
    (loaded : m.positions.acquire .writer u i = some (value, next)) :
    m.reader.Informed m.capacity m.accepted m.delivered.length (next.known .reader .writer) := by
  rw [inv.ordered.coherent.acquire_known_of_ne loaded (by decide)]
  exact inv.reader

theorem writer_kept (inv : m.Inv) {u : Side} {i value : Nat} {next : Atomics Side Nat Nat}
    (loaded : m.positions.acquire .reader u i = some (value, next)) :
    m.writer.Granted m.capacity m.accepted (next.known .writer .reader) := by
  rw [inv.ordered.coherent.acquire_known_of_ne loaded (by decide)]
  exact inv.writer

theorem grant (inv : m.Inv) {data : Message} {writePos store readPos : Nat}
    {next : Atomics Side Nat Nat} (loadedWritePos : m.writer = .loadedWritePos data writePos)
    (loaded : m.positions.acquire .writer .reader store = some (readPos, next))
    (room : (Fifo.mk m.capacity (m.accepted.drop store)).Room data)
    (inside : writePos + 4 ≤ m.capacity) :
    ({ m with
      positions := next
      writer := .copying data writePos (frameCopies m.capacity writePos data) } :
        WeakMachine).Inv := by
  have ordered := (inv.ordered.acquire loaded).1
  have known := inv.ordered.coherent.acquire_known loaded
  have now := inv.room_of_stale (known ▸ ordered.known_le) room
  have granted : streamSize m.accepted + frameSize data <
      place m.accepted (next.known .writer .reader) + m.capacity := by
    have whole : place m.accepted store + streamSize (m.accepted.drop store) =
      streamSize m.accepted := place_add_drop
    have positive : 0 < m.capacity := inv.machine.ring.positive
    simp only [Fifo.Room, Fifo.used] at room
    rw [known]
    omega
  exact ⟨⟨inv.machine.fifo, inv.machine.ring,
    ⟨inv.writePos_eq loadedWritePos, now, inside, [], rfl, by simp⟩, inv.machine.reader⟩, ordered,
    granted, inv.reader_kept loaded⟩

theorem writerStep (inv : m.Inv) {store : Nat} (inside : m.AcceptsInside (.writer store))
    (action : m.writerStep store = some m') : m'.Inv := by
  unfold WeakMachine.writerStep at action
  split at action
  · cases action
  case h_2 data entered =>
    obtain ⟨⟨writePos, next⟩, loaded, same⟩ := Option.map_eq_some_iff.mp action
    cases same
    obtain ⟨ordered, value⟩ := inv.ordered.acquire loaded
    obtain ⟨rfl, last⟩ := inv.ordered.coherent.acquire_self loaded
    have newest : writePos = streamSize m.accepted % m.capacity := by
      rw [value, last, ordered.published, place, List.take_length]
    exact ⟨⟨inv.machine.fifo, inv.machine.ring, newest, inv.machine.reader⟩, ordered, trivial,
      inv.reader⟩
  case h_3 data writePos loadedWritePos =>
    obtain ⟨⟨readPos, next⟩, loaded, same⟩ := Option.map_eq_some_iff.mp action
    have check := inv.available_lt_iff loadedWritePos loaded
    simp only [AcceptsInside, loadedWritePos, Option.mem_def, loaded, Option.some.injEq,
      forall_eq', check] at inside
    simp only [check] at same
    split_ifs at same with room <;> cases same
    · exact inv.grant loadedWritePos loaded room (inside.resolve_right (not_not.mpr room))
    · exact ⟨⟨inv.machine.fifo, inv.machine.ring, trivial, inv.machine.reader⟩,
        (inv.ordered.acquire loaded).1, trivial, inv.reader_kept loaded⟩
  case h_4 copying =>
    cases action
    exact inv.copyIn copying
  case h_5 copying =>
    cases action
    exact inv.publish copying

theorem seen_of_stale (inv : m.Inv) {store : Nat} (fresh : m.delivered.length ≤ store) :
    ∃ seen later, m.unread = seen ++ later ∧
      place m.accepted store = streamSize m.delivered + streamSize seen ∧
      m.delivered.length + seen.length = min store m.accepted.length := by
  obtain ⟨seen, split⟩ : m.delivered <+: m.accepted.take store :=
    List.prefix_take_iff.mpr ⟨inv.machine.fifo, fresh⟩
  refine ⟨seen, m.accepted.drop store, ?_, by rw [place, ← split, streamSize_append], ?_⟩
  · have whole : m.delivered ++ m.unread = m.accepted := inv.machine.accepted_eq
    rw [← List.append_cancel_left_eq m.delivered, whole, ← List.append_assoc, split,
      List.take_append_drop]
  · rw [← List.length_append, split, List.length_take]

theorem readCells (inv : m.Inv) {cells : List Nat} {msg : Message} {rest : List Message}
    (unread : m.unread = msg :: rest)
    (within : ∀ x ∈ cells, ∃ j < frameSize msg, x = (streamSize m.delivered + j) % m.capacity)
    (learned : m.delivered.length < m.positions.known .reader .writer) :
    Ordered m.capacity m.accepted m.delivered.length (m.positions.readCells .reader cells) := by
  refine inv.ordered.readCells (fun x member => ?_) learned
  obtain ⟨j, hj, e⟩ := within x member
  refine ⟨streamSize m.delivered + j, ?_, ?_, e⟩
  · rw [inv.place_delivered]
    exact Nat.le_add_right ..
  · rw [inv.place_succ unread]
    exact Nat.add_lt_add_left hj _

theorem learned_of_loaded (inv : m.Inv) {buf : List UInt8} {readPos : Nat}
    (loaded : m.reader = .loadedReadPos buf readPos) :
    m.delivered.length < m.positions.known .reader .writer := by
  have r := inv.reader
  rw [loaded] at r
  exact r

theorem readPrefix (inv : m.Inv) {buf : List UInt8} {readPos : Nat}
    (loaded : m.reader = .loadedReadPos buf readPos) :
    Ordered m.capacity m.accepted m.delivered.length
      (m.positions.readCells .reader (prefixCells m.capacity readPos)) := by
  have r := inv.machine.reader
  simp only [Machine.ReaderInv, machine_reader, loaded] at r
  obtain ⟨atHead, some⟩ := r
  obtain ⟨msg, rest, unread⟩ := List.exists_cons_of_ne_nil some
  refine inv.readCells unread (fun x member => ?_) (inv.learned_of_loaded loaded)
  have cell : ∃ j < 4, x = (streamSize m.delivered + j) % m.capacity := by
    rw [show readPos = streamSize m.delivered % m.capacity from atHead] at member
    simp only [prefixCells, Nat.mod_add_mod, List.mem_cons, List.not_mem_nil, or_false] at member
    rcases member with rfl | rfl | rfl | rfl
    · exact ⟨0, by decide, rfl⟩
    · exact ⟨1, by decide, rfl⟩
    · exact ⟨2, by decide, rfl⟩
    · exact ⟨3, by decide, rfl⟩
  obtain ⟨j, hj, e⟩ := cell
  exact ⟨j, hj.trans_le (Nat.le_add_right ..), e⟩

theorem learned (inv : m.Inv) {buf : List UInt8} {readPos dataLen : Nat} {todo : List Segment}
    (copying : m.reader = .copying buf readPos dataLen todo) :
    m.delivered.length < m.positions.known .reader .writer := by
  have r := inv.reader
  rw [copying] at r
  exact r

theorem copyOut (inv : m.Inv) {buf : List UInt8} {readPos dataLen : Nat} {segment : Segment}
    {todo : List Segment} (copying : m.reader = .copying buf readPos dataLen (segment :: todo)) :
    ({ m with
      positions := m.positions.readCells .reader segment.cells
      reader := .copying (copyOut m.data buf segment) readPos dataLen todo } :
        WeakMachine).Inv := by
  have stepped : m.machine.readerStep = some ({ m with
      positions := m.positions.readCells .reader segment.cells
      reader := .copying (SharedMemory.copyOut m.data buf segment) readPos dataLen todo } :
        WeakMachine).machine := by
    simp only [Machine.readerStep, machine_reader, copying]
    rfl
  have r := inv.machine.reader
  simp only [Machine.ReaderInv, machine_reader, copying] at r
  obtain ⟨-, _, _, _, _, _, _, members⟩ := r
  obtain ⟨msg, rest, unread, within⟩ := inv.machine.segment_in_frame copying
  refine ⟨inv.machine.readerStep stepped, inv.readCells unread (fun x cell => ?_)
    (inv.learned copying), inv.writer, inv.learned copying⟩
  rw [Segment.cells, List.mem_range'_1] at cell
  obtain ⟨j, hj, e⟩ := within segment (members segment List.mem_cons_self) (x - segment.src)
    (by omega)
  exact ⟨j, hj, (show x = segment.src + (x - segment.src) by omega).trans e⟩

theorem readPos_after (inv : m.Inv) {buf : List UInt8} {readPos dataLen : Nat}
    (copying : m.reader = .copying buf readPos dataLen []) :
    (readPos + 4 + dataLen) % m.capacity =
      streamSize (m.delivered ++ [buf.take dataLen]) % m.capacity := by
  have r := inv.machine.reader
  simp only [Machine.ReaderInv, machine_reader, copying, List.foldl_nil] at r
  obtain ⟨atHead, msg, rest, tail, unread, rfl, rfl, -⟩ := r
  rw [show readPos = streamSize m.delivered % m.capacity from atHead, List.take_left' rfl,
    Nat.add_assoc, Nat.mod_add_mod, streamSize_append, streamSize_cons, streamSize_nil,
    Nat.add_zero, frameSize]

theorem consume (inv : m.Inv) {buf : List UInt8} {readPos dataLen : Nat}
    (copying : m.reader = .copying buf readPos dataLen []) :
    ({ m with
      positions := m.positions.release .reader ((readPos + 4 + dataLen) % m.capacity)
      reader := .idle
      delivered := m.delivered ++ [buf.take dataLen] } : WeakMachine).Inv := by
  have value := inv.readPos_after copying
  refine ⟨?_, ?_, ?_, trivial⟩
  · unfold WeakMachine.machine
    rw [← value]
    exact (inv.machine.consume copying).2
  · have oldest : m.unread.head? = some (buf.take dataLen) := (inv.machine.consume copying).1
    obtain ⟨rest, unread⟩ := List.head?_eq_some_iff.mp oldest
    rw [List.length_append, List.length_singleton]
    refine inv.ordered.consume (inv.learned copying) (value.trans ?_)
    rw [inv.place_succ unread, streamSize_append, streamSize_cons, streamSize_nil, Nat.add_zero]
  · have same : (m.positions.release .reader ((readPos + 4 + dataLen) % m.capacity)).known
        .writer .reader = m.positions.known .writer .reader := by simp [Atomics.release]
    rw [same]
    exact inv.writer

theorem readerStep (inv : m.Inv) {store : Nat} (action : m.readerStep store = some m') :
    m'.Inv := by
  unfold WeakMachine.readerStep at action
  split at action
  · cases action
  case h_2 buf entered =>
    obtain ⟨⟨writePos, next⟩, loaded, same⟩ := Option.map_eq_some_iff.mp action
    cases same
    obtain ⟨ordered, value⟩ := inv.ordered.acquire loaded
    have known := inv.ordered.coherent.acquire_known loaded
    obtain ⟨seen, later, split, here, -⟩ := inv.seen_of_stale (known ▸ ordered.behind)
    have position : writePos = (streamSize m.delivered + streamSize seen) % m.capacity := by
      rw [value, here]
    exact ⟨⟨inv.machine.fifo, inv.machine.ring, inv.machine.writer, seen, later, split, position⟩,
      ordered, inv.writer_kept loaded, known.symm ▸ value⟩
  case h_3 buf writePos loadedWritePos =>
    obtain ⟨⟨readPos, next⟩, loaded, same⟩ := Option.map_eq_some_iff.mp action
    obtain ⟨ordered, value⟩ := inv.ordered.acquire loaded
    obtain ⟨rfl, last⟩ := inv.ordered.coherent.acquire_self loaded
    rw [last, ordered.consumed] at value
    dsimp only at same
    split_ifs at same with empty <;> cases same
    · exact ⟨⟨inv.machine.fifo, inv.machine.ring, inv.machine.writer, trivial⟩, ordered,
        inv.writer, trivial⟩
    · have r := inv.reader
      rw [loadedWritePos] at r
      have stepped : m.machine.readerStep = some ({ m with
          reader := .loadedReadPos buf readPos } : WeakMachine).machine := by
        rw [value, inv.place_delivered] at empty ⊢
        simp only [Machine.readerStep, machine_reader, loadedWritePos]
        exact if_neg empty
      refine ⟨inv.machine.readerStep stepped, ordered, inv.writer, ?_⟩
      refine lt_of_le_of_ne ordered.behind fun same => empty ?_
      rw [value, same]
      exact r
  case h_4 buf readPos loaded =>
    have ordered := inv.readPrefix loaded
    dsimp only at action
    split_ifs at action with short <;> cases action
    · exact ⟨⟨inv.machine.fifo, inv.machine.ring, inv.machine.writer, trivial⟩, ordered,
        inv.writer, trivial⟩
    · have stepped : m.machine.readerStep = some ({ m with
          reader := .copying buf readPos (SharedMemory.readPrefix m.data m.capacity readPos)
            (payloadSegments m.capacity ((readPos + 4) % m.capacity)
              (SharedMemory.readPrefix m.data m.capacity readPos)) } : WeakMachine).machine := by
        simp only [Machine.readerStep, machine_reader, loaded]
        exact if_neg short
      exact ⟨inv.machine.readerStep stepped, ordered, inv.writer, inv.learned_of_loaded loaded⟩
  case h_5 copying =>
    cases action
    exact inv.copyOut copying
  case h_6 copying =>
    cases action
    exact inv.consume copying

theorem step (inv : m.Inv) {tick : Tick} (inside : m.AcceptsInside tick)
    (action : m.step tick = some m') : m'.Inv := by
  cases tick with
  | beginWrite data =>
      simp only [WeakMachine.step] at action
      split at action <;> cases action
      exact ⟨⟨inv.machine.fifo, inv.machine.ring, trivial, inv.machine.reader⟩, inv.ordered,
        trivial, inv.reader⟩
  | writer store => exact inv.writerStep inside action
  | beginRead buf =>
      simp only [WeakMachine.step] at action
      split at action <;> cases action
      exact ⟨⟨inv.machine.fifo, inv.machine.ring, inv.machine.writer, trivial⟩, inv.ordered,
        inv.writer, trivial⟩
  | reader store => exact inv.readerStep action

end Inv

/-! ## Safety -/

structure Safe (c : Nat) (m : WeakMachine) : Prop where
  /-- No two accesses to one byte, one of them a write, are unordered. -/
  raceFree : m.positions.raced = false
  fifo : m.delivered <+: m.accepted
  readOldest : ∀ buf readPos dataLen, m.reader = .copying buf readPos dataLen [] →
    m.unread.head? = some (buf.take dataLen)
  readInvalid : ∀ buf readPos, m.reader = .loadedReadPos buf readPos →
    m.unread.head?.map List.length = some (readPrefix m.data c readPos)
  /-- A write that loads the position after `store` reads is refused exactly if the queue of all
  messages from there on has no room; these are the unread ones and some that have been read. -/
  writeFull : ∀ data writePos store loaded, m.writer = .loadedWritePos data writePos →
    m.positions.acquire .writer .reader store = some loaded →
      store ≤ m.delivered.length ∧
      (available c writePos loaded.1 < 4 + data.length ↔
        ¬ (Fifo.mk c (m.accepted.drop store)).Room data)
  writeRoom : ∀ data writePos todo, m.writer = .copying data writePos todo →
    (Fifo.mk c m.unread).Room data
  /-- A read finds the ring empty exactly if it knows of no message that has not been read. -/
  readEmpty : ∀ buf writePos store loaded, m.reader = .loadedWritePos buf writePos →
    m.positions.acquire .reader .reader store = some loaded →
      (writePos = loaded.1 ↔ m.positions.known .reader .writer = m.delivered.length)

theorem Inv.safe {m : WeakMachine} (inv : m.Inv) : m.Safe m.capacity where
  raceFree := inv.ordered.calm
  fifo := inv.machine.fifo
  readOldest := inv.machine.safe.readOldest
  readInvalid := inv.machine.safe.readInvalid
  writeFull := by
    intro data writePos store ⟨readPos, next⟩ loadedWritePos loaded
    have known := inv.ordered.coherent.acquire_known loaded
    exact ⟨known ▸ (inv.ordered.acquire loaded).1.known_le,
      inv.available_lt_iff loadedWritePos loaded⟩
  writeRoom := inv.machine.safe.writeRoom
  readEmpty := by
    intro buf writePos store ⟨readPos, next⟩ loadedWritePos loaded
    obtain ⟨ordered, value⟩ := inv.ordered.acquire loaded
    obtain ⟨rfl, last⟩ := inv.ordered.coherent.acquire_self loaded
    rw [last, ordered.consumed, inv.place_delivered] at value
    have r := inv.reader
    rw [loadedWritePos] at r
    obtain ⟨seen, later, split, here, length⟩ := inv.seen_of_stale ordered.behind
    have fits : streamSize m.unread < m.capacity := inv.machine.ring.fits
    rw [split, streamSize_append] at fits
    rw [show writePos = place m.accepted (m.positions.known .reader .writer) % m.capacity from r,
      value, here, position_eq_iff (by omega), ← List.length_eq_zero_iff]
    rw [Nat.min_eq_left ordered.informed_le] at length
    omega

/-! ## The runs of the machine -/

theorem Inv.acquire_newest {m : WeakMachine} (inv : m.Inv) (t u : Side) :
    ∃ next, m.positions.acquire t u (m.positions.known u u) =
      some (place m.accepted (m.positions.known u u) % m.capacity, next) := by
  obtain ⟨⟨value, next⟩, loaded⟩ :=
    Option.isSome_iff_exists.mp (inv.ordered.coherent.acquire_newest t u)
  exact ⟨next, (inv.ordered.acquire loaded).2 ▸ loaded⟩

theorem Inv.acquire_writePos {m : WeakMachine} (inv : m.Inv) (t : Side) :
    ∃ store next, m.positions.acquire t .writer store =
      some (m.machine.ring.header.writePos, next) := by
  obtain ⟨next, loaded⟩ := inv.acquire_newest t .writer
  rw [inv.ordered.published, place, List.take_length] at loaded
  exact ⟨_, next, loaded⟩

theorem Inv.acquire_readPos {m : WeakMachine} (inv : m.Inv) (t : Side) :
    ∃ store next, m.positions.acquire t .reader store =
      some (m.machine.ring.header.readPos, next) := by
  obtain ⟨next, loaded⟩ := inv.acquire_newest t .reader
  rw [inv.ordered.consumed, inv.place_delivered] at loaded
  exact ⟨_, next, loaded⟩

section Newest
variable {m : WeakMachine} {n : Machine}

theorem newest_writerStep (inv : m.Inv) (inside : m.machine.AcceptsInside .writer)
    (action : m.machine.writerStep = some n) :
    ∃ store m', m.AcceptsInside (.writer store) ∧ m.writerStep store = some m' ∧
      m'.machine = n := by
  unfold Machine.writerStep at action
  dsimp only at action
  split at action
  · cases action
  case h_2 data entered =>
    cases action
    rw [machine_writer] at entered
    obtain ⟨store, next, loaded⟩ := inv.acquire_writePos .writer
    refine ⟨store, { m with positions := next, writer := .loadedWritePos data _ }, ?_, ?_, rfl⟩
    · simp [AcceptsInside, entered]
    · simp [writerStep, entered, loaded]
  case h_3 data writePos loadedWritePos =>
    rw [machine_writer] at loadedWritePos
    obtain ⟨store, next, loaded⟩ := inv.acquire_readPos .writer
    split_ifs at action with full <;> cases action
    · refine ⟨store, { m with positions := next, writer := .idle }, ?_, ?_, rfl⟩
      · simp only [AcceptsInside, loadedWritePos, Option.mem_def, loaded, Option.some.injEq,
          forall_eq']
        exact .inr full
      · simp only [writerStep, loadedWritePos, loaded, Option.map_some]
        exact congrArg some (if_pos full)
    · simp only [Machine.AcceptsInside, machine_writer, loadedWritePos] at inside
      refine ⟨store, { m with positions := next, writer := .copying data writePos _ }, ?_, ?_, rfl⟩
      · simp only [AcceptsInside, loadedWritePos]
        exact .inl (inside.resolve_left full)
      · simp only [writerStep, loadedWritePos, loaded, Option.map_some]
        exact congrArg some (if_neg full)
  case h_4 data writePos copy todo copying =>
    cases action
    rw [machine_writer] at copying
    refine ⟨0, { m with
      data := overlay m.data copy.offset copy.bytes
      positions := m.positions.writeCells .writer copy.cells
      writer := .copying data writePos todo }, ?_, ?_, rfl⟩
    · simp [AcceptsInside, copying]
    · simp [writerStep, copying]
  case h_5 data writePos copying =>
    cases action
    rw [machine_writer] at copying
    refine ⟨0, { m with
      positions := m.positions.release .writer ((writePos + frameSize data) % m.capacity)
      writer := .idle
      accepted := m.accepted ++ [data] }, ?_, ?_, ?_⟩
    · simp [AcceptsInside, copying]
    · simp [writerStep, copying]
    · unfold machine
      rw [← inv.writePos_after copying]
      rfl

theorem newest_readerStep (inv : m.Inv) (action : m.machine.readerStep = some n) :
    ∃ store m', m.readerStep store = some m' ∧ m'.machine = n := by
  unfold Machine.readerStep at action
  dsimp only at action
  split at action
  · cases action
  case h_2 buf entered =>
    cases action
    rw [machine_reader] at entered
    obtain ⟨store, next, loaded⟩ := inv.acquire_writePos .reader
    refine ⟨store, { m with positions := next, reader := .loadedWritePos buf _ }, ?_, rfl⟩
    simp [readerStep, entered, loaded]
  case h_3 buf writePos loadedWritePos =>
    rw [machine_reader] at loadedWritePos
    obtain ⟨store, next, loaded⟩ := inv.acquire_readPos .reader
    split_ifs at action with empty <;> cases action
    · refine ⟨store, { m with positions := next, reader := .idle }, ?_, rfl⟩
      simp only [readerStep, loadedWritePos, loaded, Option.map_some]
      exact congrArg some (if_pos empty)
    · refine ⟨store, { m with positions := next, reader := .loadedReadPos buf _ }, ?_, rfl⟩
      simp only [readerStep, loadedWritePos, loaded, Option.map_some]
      exact congrArg some (if_neg empty)
  case h_4 buf readPos loaded =>
    rw [machine_reader] at loaded
    let positions := m.positions.readCells .reader (prefixCells m.capacity readPos)
    split_ifs at action with short <;> cases action
    · refine ⟨0, { m with positions := positions, reader := .idle }, ?_, rfl⟩
      simp only [readerStep, loaded]
      exact if_pos short
    · refine ⟨0, { m with positions := positions, reader := .copying buf readPos _ _ }, ?_, rfl⟩
      simp only [readerStep, loaded]
      exact if_neg short
  case h_5 buf readPos dataLen segment todo copying =>
    cases action
    rw [machine_reader] at copying
    refine ⟨0, { m with
      positions := m.positions.readCells .reader segment.cells
      reader := .copying (copyOut m.data buf segment) readPos dataLen todo }, ?_, rfl⟩
    simp [readerStep, copying]
  case h_6 buf readPos dataLen copying =>
    cases action
    rw [machine_reader] at copying
    refine ⟨0, { m with
      positions := m.positions.release .reader ((readPos + 4 + dataLen) % m.capacity)
      reader := .idle
      delivered := m.delivered ++ [buf.take dataLen] }, ?_, ?_⟩
    · simp [readerStep, copying]
    · unfold machine
      rw [← inv.readPos_after copying]
      rfl

theorem newest_step (inv : m.Inv) {tick : SharedMemory.Tick}
    (inside : m.machine.AcceptsInside tick) (action : m.machine.step tick = some n) :
    ∃ tick m', m.AcceptsInside tick ∧ m.step tick = some m' ∧ m'.machine = n := by
  cases tick with
  | beginWrite data =>
      simp only [Machine.step] at action
      split at action <;> cases action
      case h_1 idle =>
        rw [machine_writer] at idle
        refine ⟨.beginWrite data, { m with writer := .entered data }, trivial, ?_, rfl⟩
        simp [WeakMachine.step, idle]
  | beginRead buf =>
      simp only [Machine.step] at action
      split at action <;> cases action
      case h_1 idle =>
        rw [machine_reader] at idle
        refine ⟨.beginRead buf, { m with reader := .entered buf }, trivial, ?_, rfl⟩
        simp [WeakMachine.step, idle]
  | writer =>
      obtain ⟨store, m', accepts, stepped, same⟩ := newest_writerStep inv inside action
      exact ⟨.writer store, m', accepts, stepped, same⟩
  | reader =>
      obtain ⟨store, m', stepped, same⟩ := newest_readerStep inv action
      exact ⟨.reader store, m', trivial, stepped, same⟩

end Newest

/-- Every run of the machine is one in weak memory. -/
theorem run_newest {m : WeakMachine} {n : Machine} {ticks : List SharedMemory.Tick} (inv : m.Inv)
    (inside : Along Machine.step Machine.AcceptsInside m.machine ticks)
    (ran : run Machine.step m.machine ticks = some n) :
    ∃ ticks m', Along step AcceptsInside m ticks ∧ run step m ticks = some m' ∧ m'.machine = n := by
  induction ticks generalizing m with
  | nil => exact ⟨[], m, trivial, rfl, Option.some.inj ran⟩
  | cons tick ticks ih =>
      obtain ⟨mid, action, rest⟩ := (run_cons_eq_some Machine.step).mp ran
      obtain ⟨first, m', accepts, stepped, rfl⟩ := newest_step inv inside.1 action
      obtain ⟨later, final, along, ran, same⟩ :=
        ih (inv.step accepts stepped) (inside.2 m'.machine action) rest
      refine ⟨first :: later, final, ⟨accepts, fun other here => ?_⟩, ?_, same⟩
      · rw [stepped] at here
        exact Option.some.inj here ▸ along
      · exact (run_cons_eq_some step).mpr ⟨m', stepped, ran⟩

/-! ## Every run -/

theorem capacity_step {m m' : WeakMachine} {tick : Tick} (action : m.step tick = some m') :
    m'.capacity = m.capacity := by
  cases tick with
  | beginWrite data | beginRead buf =>
      simp only [step] at action
      split at action <;> cases action
      rfl
  | writer store =>
      simp only [step, writerStep] at action
      split at action
      case h_2 =>
        obtain ⟨⟨_, next⟩, _, same⟩ := Option.map_eq_some_iff.mp action
        cases same
        rfl
      case h_3 =>
        obtain ⟨⟨_, next⟩, _, same⟩ := Option.map_eq_some_iff.mp action
        dsimp only at same
        split at same <;> cases same <;> rfl
      all_goals cases action <;> rfl
  | reader store =>
      simp only [step, readerStep] at action
      split at action
      case h_2 =>
        obtain ⟨⟨_, next⟩, _, same⟩ := Option.map_eq_some_iff.mp action
        cases same
        rfl
      case h_3 =>
        obtain ⟨⟨_, next⟩, _, same⟩ := Option.map_eq_some_iff.mp action
        dsimp only at same
        split at same <;> cases same <;> rfl
      case h_4 =>
        split at action <;> cases action <;> rfl
      all_goals cases action <;> rfl

/-- On every run that accepts no frame whose prefix crosses the end of the region, whatever old
positions the loads take. -/
theorem race_free (c : Nat) (data : Nat → UInt8) (ticks : List Tick) (m : WeakMachine)
    (positive : 1 ≤ c) (small : c < 2 ^ 32) (inside : Along step AcceptsInside (fresh c data) ticks)
    (ran : run step (fresh c data) ticks = some m) : m.Safe c := by
  have preserved : ∀ (m : WeakMachine) (tick : Tick) (m' : WeakMachine),
      m.Inv ∧ m.capacity = c → m.AcceptsInside tick → m.step tick = some m' →
        m'.Inv ∧ m'.capacity = c := fun m tick m' ⟨inv, capacity⟩ inside action =>
    ⟨inv.step inside action, (capacity_step action).trans capacity⟩
  have final := run_invariant preserved ⟨fresh_inv positive small data, rfl⟩ inside ran
  exact final.2 ▸ final.1.safe

/-- The reader misses both messages, then the second; the writer is refused room that a read has
made, and granted it when it knows of the read. -/
def buffering : List Tick :=
  [.beginWrite [7, 8], .writer 0, .writer 0, .writer 0, .writer 0, .writer 0,
    .beginWrite [9, 10], .writer 1, .writer 0, .writer 0, .writer 0, .writer 0,
    .beginRead [0, 0], .reader 0, .reader 0,
    .beginRead [0, 0], .reader 1, .reader 0, .reader 0, .reader 0, .reader 0,
    .beginWrite [11, 12], .writer 2, .writer 0,
    .beginWrite [11, 12], .writer 2, .writer 1, .writer 0, .writer 0, .writer 0]

theorem race_free_buffering :
    ∃ m, run step (fresh 16 fun _ => 0) buffering = some m ∧ m.Safe 16 ∧ m.delivered = [[7, 8]] ∧
      m.unread = [[9, 10], [11, 12]] := by
  have ends : (run step (fresh 16 fun _ => 0) buffering).map (fun m => (m.delivered, m.unread)) =
      some ([[7, 8]], [[9, 10], [11, 12]]) := by decide
  obtain ⟨m, ran, same⟩ := Option.map_eq_some_iff.mp ends
  obtain ⟨delivered, unread⟩ := Prod.mk.inj same
  exact ⟨m, ran, race_free 16 (fun _ => 0) buffering m (by decide) (by decide) (by decide) ran,
    delivered, unread⟩

end WeakMachine

end GatewayGrpc.SharedMemory
