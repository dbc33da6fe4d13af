import GatewayGrpc.SharedMemory.Fifo
import Mathlib.Data.Set.Lattice
import Mathlib.Order.CompletePartialOrder

/-!
# One writer and one reader

`write` and `read` as the steps a writer and a reader take on the shared ring: the loads of the
positions, the copies one by one, the store. The two mutexes and the one process on each side
leave at most one of each in progress. `accepted` and `delivered` are histories: the messages whose
`write` returned `Ok`, and what the buffer of each `read` that returned `Ok(n)` held in its first
`n` bytes.
-/

namespace GatewayGrpc.SharedMemory
open Library

inductive Writer
  | idle
  | entered (data : Message)
  | loadedWritePos (data : Message) (writePos : Nat)
  | copying (data : Message) (writePos : Nat) (todo : List Copy)
  deriving DecidableEq, Repr

inductive Reader
  | idle
  | entered (buf : List UInt8)
  | loadedWritePos (buf : List UInt8) (writePos : Nat)
  | loadedReadPos (buf : List UInt8) (readPos : Nat)
  | copying (buf : List UInt8) (readPos dataLen : Nat) (todo : List Segment)
  deriving DecidableEq, Repr

structure Machine where
  ring : SharedMemoryRingBuffer
  writer : Writer
  reader : Reader
  accepted : List Message
  delivered : List Message

inductive Tick
  | beginWrite (data : Message)
  | writer
  | beginRead (buf : List UInt8)
  | reader
  deriving DecidableEq, Repr

namespace Machine

def fresh (capacity : Nat) (data : Nat → UInt8) : Machine where
  ring := .fresh capacity data
  writer := .idle
  reader := .idle
  accepted := []
  delivered := []

def writerStep (m : Machine) : Option Machine :=
  let capacity := m.ring.header.capacity
  match m.writer with
  | .idle => none
  | .entered data => some { m with writer := .loadedWritePos data m.ring.header.writePos }
  | .loadedWritePos data writePos =>
      -- the load of `read_pos`, and the space check on the two loaded positions
      if available capacity writePos m.ring.header.readPos < 4 + data.length then
        some { m with writer := .idle }
      else some { m with writer := .copying data writePos (frameCopies capacity writePos data) }
  | .copying data writePos (copy :: todo) =>
      some { m with ring := m.ring.copyIn copy, writer := .copying data writePos todo }
  | .copying data writePos [] =>
      some { m with
        ring := m.ring.storeWritePos ((writePos + frameSize data) % capacity)
        writer := .idle
        accepted := m.accepted ++ [data] }

def readerStep (m : Machine) : Option Machine :=
  let capacity := m.ring.header.capacity
  match m.reader with
  | .idle => none
  | .entered buf => some { m with reader := .loadedWritePos buf m.ring.header.writePos }
  | .loadedWritePos buf writePos =>
      if writePos = m.ring.header.readPos then some { m with reader := .idle }
      else some { m with reader := .loadedReadPos buf m.ring.header.readPos }
  | .loadedReadPos buf readPos =>
      let dataLen := readPrefix m.ring.data capacity readPos
      if buf.length < dataLen then some { m with reader := .idle }
      else some { m with
        reader := .copying buf readPos dataLen
          (payloadSegments capacity ((readPos + 4) % capacity) dataLen) }
  | .copying buf readPos dataLen (segment :: todo) =>
      some { m with reader := .copying (copyOut m.ring.data buf segment) readPos dataLen todo }
  | .copying buf readPos dataLen [] =>
      some { m with
        ring := m.ring.storeReadPos ((readPos + 4 + dataLen) % capacity)
        reader := .idle
        delivered := m.delivered ++ [buf.take dataLen] }

def step (m : Machine) : Tick → Option Machine
  | .beginWrite data =>
      match m.writer with
      | .idle => some { m with writer := .entered data }
      | _ => none
  | .writer => m.writerStep
  | .beginRead buf =>
      match m.reader with
      | .idle => some { m with reader := .entered buf }
      | _ => none
  | .reader => m.readerStep

/-- The writer is not about to accept a frame whose prefix crosses the end of the region. -/
def AcceptsInside (m : Machine) : Tick → Prop
  | .writer =>
      match m.writer with
      | .loadedWritePos data writePos =>
          available m.ring.header.capacity writePos m.ring.header.readPos < 4 + data.length ∨
            writePos + 4 ≤ m.ring.header.capacity
      | _ => True
  | _ => True

instance (m : Machine) (tick : Tick) : Decidable (m.AcceptsInside tick) := by
  unfold AcceptsInside
  cases tick <;> dsimp only <;> try split
  all_goals infer_instance

def unread (m : Machine) : List Message := m.accepted.drop m.delivered.length

def unreadCells (m : Machine) : Set Nat :=
  {x | ∃ i < streamSize m.unread, x = (streamSize m.delivered + i) % m.ring.header.capacity}

def writerCells (m : Machine) : Set Nat :=
  match m.writer with
  | .copying data writePos _ =>
      {x | ∃ copy ∈ frameCopies m.ring.header.capacity writePos data,
        ∃ i < copy.bytes.length, x = copy.offset + i}
  | _ => ∅

def readerCells (m : Machine) : Set Nat :=
  let capacity := m.ring.header.capacity
  match m.reader with
  | .loadedReadPos _ readPos => {x | ∃ i < 4, x = (readPos + i) % capacity}
  | .copying _ readPos dataLen _ =>
      {x | (∃ i < 4, x = (readPos + i) % capacity) ∨
        ∃ segment ∈ payloadSegments capacity ((readPos + 4) % capacity) dataLen,
          ∃ i < segment.len, x = segment.src + i}
  | _ => ∅

/-! ## Uninterrupted calls -/

theorem run_copying {m : Machine} {data : Message} {writePos : Nat} {todo : List Copy}
    (copying : m.writer = .copying data writePos todo) :
    run step m (List.replicate todo.length .writer) = some { m with
      ring := todo.foldl SharedMemoryRingBuffer.copyIn m.ring
      writer := .copying data writePos [] } := by
  induction todo generalizing m with
  | nil => simp [← copying]
  | cons copy todo ih =>
      rw [List.length_cons, List.replicate_succ, run_cons]
      simp only [step, writerStep, copying, Option.bind_some]
      rw [ih rfl, List.foldl_cons]

/-- The steps of one `write` on its own are `SharedMemoryRingBuffer::write`. -/
theorem run_write {m : Machine} (idle : m.writer = .idle) (positive : 0 < m.ring.header.capacity)
    (data : Message) :
    ∃ n, run step m (.beginWrite data :: List.replicate n .writer) = some { m with
      ring := (m.ring.write data).2
      accepted := m.accepted ++
        if (m.ring.write data).1 = .ok data.length then [data] else [] } := by
  have pos : m.ring.header.capacity ≠ 0 := by omega
  by_cases full : available m.ring.header.capacity m.ring.header.writePos m.ring.header.readPos <
      4 + data.length
  · refine ⟨2, ?_⟩
    simp [step, writerStep, idle, List.replicate_succ, SharedMemoryRingBuffer.write, full]
  · let copies := frameCopies m.ring.header.capacity m.ring.header.writePos data
    refine ⟨2 + (copies.length + 1), ?_⟩
    rw [List.replicate_add, List.replicate_add, ← List.cons_append, run_append]
    have entered : run step m (.beginWrite data :: List.replicate 2 .writer) =
        some { m with writer := .copying data m.ring.header.writePos copies } := by
      simp [step, writerStep, idle, List.replicate_succ, full, copies]
    rw [entered, Option.bind_some, run_append, run_copying rfl]
    simp [step, writerStep, SharedMemoryRingBuffer.write, full, pos, copies, frameCopies,
      frameSize, ← idle]

theorem run_gathering {m : Machine} {buf : List UInt8} {readPos dataLen : Nat}
    {todo : List Segment} (copying : m.reader = .copying buf readPos dataLen todo) :
    run step m (List.replicate todo.length .reader) = some { m with
      reader := .copying (todo.foldl (copyOut m.ring.data) buf) readPos dataLen [] } := by
  induction todo generalizing m buf with
  | nil => simp [← copying]
  | cons segment todo ih =>
      rw [List.length_cons, List.replicate_succ, run_cons]
      simp only [step, readerStep, copying, Option.bind_some]
      rw [ih rfl, List.foldl_cons]

theorem run_read {m : Machine} (idle : m.reader = .idle) (positive : 0 < m.ring.header.capacity)
    (buf : List UInt8) :
    ∃ n, run step m (.beginRead buf :: List.replicate n .reader) = some { m with
      ring := (m.ring.read buf).2.2
      delivered := m.delivered ++ match (m.ring.read buf).1 with
        | .ok n => [(m.ring.read buf).2.1.take n]
        | _ => [] } := by
  have pos : m.ring.header.capacity ≠ 0 := by omega
  by_cases empty : m.ring.header.writePos = m.ring.header.readPos
  · refine ⟨2, ?_⟩
    simp [step, readerStep, idle, List.replicate_succ, SharedMemoryRingBuffer.read, empty]
  · let dataLen := readPrefix m.ring.data m.ring.header.capacity m.ring.header.readPos
    by_cases short : buf.length < dataLen
    · refine ⟨3, ?_⟩
      simp [step, readerStep, idle, List.replicate_succ, SharedMemoryRingBuffer.read, empty, pos,
        short, dataLen]
    · let segments := payloadSegments m.ring.header.capacity
        ((m.ring.header.readPos + 4) % m.ring.header.capacity) dataLen
      refine ⟨3 + (segments.length + 1), ?_⟩
      rw [List.replicate_add, List.replicate_add, ← List.cons_append, run_append]
      have entered : run step m (.beginRead buf :: List.replicate 3 .reader) =
          some { m with reader := .copying buf m.ring.header.readPos dataLen segments } := by
        simp [step, readerStep, idle, List.replicate_succ, empty, short, dataLen, segments]
      rw [entered, Option.bind_some, run_append, run_gathering rfl]
      simp [step, readerStep, SharedMemoryRingBuffer.read, empty, pos, short, dataLen, segments,
        ← idle]

/-! ## The invariant -/

def WriterInv (m : Machine) : Prop :=
  match m.writer with
  | .idle | .entered _ => True
  | .loadedWritePos _ writePos => writePos = m.ring.header.writePos
  | .copying data writePos todo =>
      writePos = m.ring.header.writePos ∧
        (Fifo.mk m.ring.header.capacity m.unread).Room data ∧
        writePos + 4 ≤ m.ring.header.capacity ∧
        ∃ done, done ++ todo = frameCopies m.ring.header.capacity writePos data ∧
          ∀ copy ∈ done, copy.Laid m.ring.data

/-- What the reader's registers say about the ring. The write position it loaded may be old: the
messages `later` have been published since. -/
def ReaderInv (m : Machine) : Prop :=
  match m.reader with
  | .idle | .entered _ => True
  | .loadedWritePos _ writePos =>
      ∃ seen later, m.unread = seen ++ later ∧
        writePos = (streamSize m.delivered + streamSize seen) % m.ring.header.capacity
  | .loadedReadPos _ readPos => readPos = m.ring.header.readPos ∧ m.unread ≠ []
  | .copying buf readPos dataLen todo =>
      readPos = m.ring.header.readPos ∧
        ∃ msg rest tail, m.unread = msg :: rest ∧ dataLen = msg.length ∧
          todo.foldl (copyOut m.ring.data) buf = msg ++ tail ∧
          ∀ segment ∈ todo, segment ∈ payloadSegments m.ring.header.capacity
            ((readPos + 4) % m.ring.header.capacity) dataLen

structure Inv (m : Machine) : Prop where
  fifo : m.delivered <+: m.accepted
  ring : Represents m.ring (streamSize m.delivered) m.unread
  writer : m.WriterInv
  reader : m.ReaderInv

theorem fresh_inv {c : Nat} (positive : 1 ≤ c) (small : c < 2 ^ 32) (data : Nat → UInt8) :
    (fresh c data).Inv where
  fifo := List.nil_prefix
  ring := represents_fresh positive small data
  writer := trivial
  reader := trivial

namespace Inv
variable {m : Machine}

theorem accepted_eq (inv : m.Inv) : m.delivered ++ m.unread = m.accepted :=
  List.prefix_iff_eq_append.mp inv.fifo

theorem copy_within (inv : m.Inv) {data : Message} {writePos : Nat} {todo : List Copy}
    (copying : m.writer = .copying data writePos todo) {copy : Copy}
    (member : copy ∈ frameCopies m.ring.header.capacity writePos data) :
    copy.Within m.ring.header.capacity (streamSize m.delivered + streamSize m.unread)
      (frameSize data) := by
  have w := inv.writer
  simp only [WriterInv, copying] at w
  obtain ⟨rfl, room, inside, -⟩ := w
  have positive := inv.ring.positive
  simp only [Fifo.Room, Fifo.used] at room
  rw [inv.ring.writePos] at inside member
  exact frameCopies_within inv.ring.small (by omega) inside member

theorem copy_room (inv : m.Inv) {data : Message} {writePos : Nat} {todo : List Copy}
    (copying : m.writer = .copying data writePos todo) :
    streamSize m.unread + frameSize data ≤ m.ring.header.capacity - 1 := by
  have w := inv.writer
  simp only [WriterInv, copying] at w
  exact w.2.1

theorem segment_in_frame (inv : m.Inv) {buf : List UInt8} {readPos dataLen : Nat}
    {todo : List Segment} (copying : m.reader = .copying buf readPos dataLen todo) :
    ∃ msg rest, m.unread = msg :: rest ∧
      ∀ segment ∈ payloadSegments m.ring.header.capacity
        ((readPos + 4) % m.ring.header.capacity) dataLen,
        segment.Within m.ring.header.capacity (streamSize m.delivered) (frameSize msg) := by
  have r := inv.reader
  simp only [ReaderInv, copying] at r
  obtain ⟨rfl, msg, rest, tail, unread, rfl, -⟩ := r
  refine ⟨msg, rest, unread, fun segment member i hi => ?_⟩
  have rep := inv.ring
  rw [unread] at rep
  have small := rep.small
  obtain ⟨j, hj, e⟩ := payloadSegments_within (Nat.mod_lt _ rep.positive) (by omega)
    rep.length_lt member i hi
  refine ⟨4 + j, by simp only [frameSize]; omega, ?_⟩
  rw [e, rep.readPos, mod_mod_add_four, Nat.mod_add_mod, Nat.add_assoc]

theorem segment_within (inv : m.Inv) {buf : List UInt8} {readPos dataLen : Nat}
    {todo : List Segment} (copying : m.reader = .copying buf readPos dataLen todo)
    {segment : Segment}
    (member : segment ∈ payloadSegments m.ring.header.capacity
      ((readPos + 4) % m.ring.header.capacity) dataLen) :
    segment.Within m.ring.header.capacity (streamSize m.delivered) (streamSize m.unread) := by
  obtain ⟨msg, rest, unread, within⟩ := inv.segment_in_frame copying
  intro i hi
  obtain ⟨j, hj, e⟩ := within segment member i hi
  exact ⟨j, by rw [unread, streamSize_cons]; omega, e⟩

theorem available_lt_iff (inv : m.Inv) {data : Message} {writePos : Nat}
    (loaded : m.writer = .loadedWritePos data writePos) :
    available m.ring.header.capacity writePos m.ring.header.readPos < 4 + data.length ↔
      ¬ (Fifo.mk m.ring.header.capacity m.unread).Room data := by
  have w := inv.writer
  simp only [WriterInv, loaded] at w
  rw [w, inv.ring.available_eq]
  simp only [Fifo.Room, Fifo.used, frameSize]
  have := inv.ring.fits
  omega

theorem copyIn (inv : m.Inv) {data : Message} {writePos : Nat} {copy : Copy} {todo : List Copy}
    (copying : m.writer = .copying data writePos (copy :: todo)) :
    ({ m with
      ring := m.ring.copyIn copy
      writer := .copying data writePos todo } : Machine).Inv := by
  have w := inv.writer
  simp only [WriterInv, copying] at w
  obtain ⟨atEnd, room, inside, done, split, laid⟩ := w
  have member : copy ∈ frameCopies m.ring.header.capacity writePos data := by simp [← split]
  have within := inv.copy_within copying member
  have free := inv.copy_room copying
  have positive := inv.ring.positive
  have apart : ∀ other ∈ done, other.Apart copy := by
    have fits : frameSize data < m.ring.header.capacity := by omega
    have pairwise : (frameCopies m.ring.header.capacity writePos data).Pairwise Copy.Apart := by
      rw [atEnd, inv.ring.writePos] at inside ⊢
      exact frameCopies_apart inv.ring.small fits inside
    rw [← split] at pairwise
    exact fun other first => (List.pairwise_append.mp pairwise).2.2 other first copy (by simp)
  refine ⟨inv.fifo, inv.ring.copyIn within (by omega), ?_, ?_⟩
  · refine ⟨atEnd, room, inside, done ++ [copy], by simp [← split], ?_⟩
    intro other first
    rcases List.mem_append.mp first with earlier | last
    · exact (laid other earlier).overlay (apart other earlier)
    · rw [List.mem_singleton.mp last]
      exact copy.laid_overlay _
  · have r := inv.reader
    unfold ReaderInv at r ⊢
    dsimp only [unread] at r ⊢
    split
    case h_5 buf readPos dataLen segments reading =>
      simp only [reading] at r
      obtain ⟨atHead, msg, rest, tail, unread, len, gathers, members⟩ := r
      refine ⟨atHead, msg, rest, tail, unread, len, ?_, members⟩
      rw [← gathers]
      apply foldl_copyOut_congr
      intro segment queued
      apply block_congr
      intro i low high
      obtain ⟨k, hk, e⟩ := inv.segment_within reading (members segment queued) (i - segment.src)
        (by omega)
      apply overlay_apply_of_within within
      intro j hj
      rw [show i = segment.src + (i - segment.src) by omega, e]
      exact cells_disjoint (by omega) hk hj
    all_goals simp_all

theorem publish (inv : m.Inv) {data : Message} {writePos : Nat}
    (copying : m.writer = .copying data writePos []) :
    ({ m with
      ring := m.ring.storeWritePos ((writePos + frameSize data) % m.ring.header.capacity)
      writer := .idle
      accepted := m.accepted ++ [data] } : Machine).Inv := by
  have w := inv.writer
  simp only [WriterInv, copying, List.append_nil] at w
  obtain ⟨rfl, room, inside, done, rfl, laid⟩ := w
  have grown : (m.accepted ++ [data]).drop m.delivered.length = m.unread ++ [data] :=
    List.drop_append_of_le_length inv.fifo.length_le
  refine ⟨inv.fifo.trans (List.prefix_append ..), ?_, trivial, ?_⟩
  · simpa only [unread, grown] using inv.ring.publish room inside laid
  · have r := inv.reader
    unfold ReaderInv at r ⊢
    dsimp only [unread] at r ⊢
    rw [grown]
    split
    case h_3 buf loaded reading =>
      simp only [reading] at r
      obtain ⟨seen, later, e, pos⟩ := r
      exact ⟨seen, later ++ [data], by rw [unread, e, List.append_assoc], pos⟩
    case h_4 => simp_all [SharedMemoryRingBuffer.storeWritePos]
    case h_5 buf readPos dataLen segments reading =>
      simp only [reading] at r
      obtain ⟨atHead, msg, rest, tail, e, len, gathers, members⟩ := r
      exact ⟨atHead, msg, rest ++ [data], tail, by rw [unread, e, List.cons_append], len, gathers,
        members⟩
    all_goals trivial

theorem consume (inv : m.Inv) {buf : List UInt8} {readPos dataLen : Nat}
    (copying : m.reader = .copying buf readPos dataLen []) :
    m.unread.head? = some (buf.take dataLen) ∧
    ({ m with
      ring := m.ring.storeReadPos ((readPos + 4 + dataLen) % m.ring.header.capacity)
      reader := .idle
      delivered := m.delivered ++ [buf.take dataLen] } : Machine).Inv := by
  have r := inv.reader
  simp only [ReaderInv, copying, List.foldl_nil] at r
  obtain ⟨rfl, msg, rest, tail, e, rfl, rfl, -⟩ := r
  have whole := inv.accepted_eq
  have shrunk : m.accepted.drop (m.delivered ++ [msg]).length = rest := by
    rw [← whole, e]
    simp
  rw [List.take_left' rfl]
  refine ⟨by simp [e], ⟨rest, by rw [← whole, e]; simp⟩, ?_, ?_, trivial⟩
  · have rep := inv.ring
    rw [e] at rep
    simpa only [unread, shrunk, streamSize_append, streamSize_cons, streamSize_nil,
      Nat.add_zero] using rep.consume
  · have w := inv.writer
    unfold WriterInv at w ⊢
    dsimp only [unread] at w ⊢
    rw [shrunk]
    split
    case h_4 data writePos todo writing =>
      simp only [writing] at w
      obtain ⟨atEnd, room, inside, laid⟩ := w
      refine ⟨atEnd, ?_, inside, laid⟩
      change (Fifo.mk _ m.unread).Room data at room
      simp only [e, Fifo.Room, Fifo.used, streamSize_cons] at room ⊢
      change streamSize rest + frameSize data ≤ m.ring.header.capacity - 1
      omega
    all_goals simp_all [SharedMemoryRingBuffer.storeReadPos]

theorem writerStep (inv : m.Inv) (inside : m.AcceptsInside .writer) {m' : Machine}
    (action : m.writerStep = some m') : m'.Inv := by
  unfold Machine.writerStep at action
  dsimp only at action
  split at action
  · cases action
  · cases action
    exact ⟨inv.fifo, inv.ring, rfl, inv.reader⟩
  case h_3 data writePos loaded =>
    simp only [inv.available_lt_iff loaded] at action
    have w := inv.writer
    simp only [WriterInv, loaded] at w
    simp only [AcceptsInside, loaded, inv.available_lt_iff loaded] at inside
    split_ifs at action with room <;> cases action
    · exact ⟨inv.fifo, inv.ring, ⟨w, room, inside.resolve_left (not_not.mpr room), [], rfl,
        by simp⟩, inv.reader⟩
    · exact ⟨inv.fifo, inv.ring, trivial, inv.reader⟩
  case h_4 copying =>
    cases action
    exact inv.copyIn copying
  case h_5 copying =>
    cases action
    exact inv.publish copying

theorem readerStep (inv : m.Inv) {m' : Machine} (action : m.readerStep = some m') : m'.Inv := by
  have r := inv.reader
  unfold Machine.readerStep at action
  dsimp only at action
  split at action
  · cases action
  · cases action
    exact ⟨inv.fifo, inv.ring, inv.writer, m.unread, [], by simp [unread], inv.ring.writePos⟩
  case h_3 buf writePos loaded =>
    simp only [ReaderInv, loaded] at r
    obtain ⟨seen, later, split, pos⟩ := r
    split_ifs at action with empty <;> cases action
    · exact ⟨inv.fifo, inv.ring, inv.writer, trivial⟩
    · refine ⟨inv.fifo, inv.ring, inv.writer, rfl, ?_⟩
      intro (none : m.unread = [])
      rw [none, eq_comm, List.append_eq_nil_iff] at split
      rw [pos, split.1, inv.ring.readPos] at empty
      exact empty rfl
  case h_4 buf readPos loaded =>
    simp only [ReaderInv, loaded] at r
    obtain ⟨rfl, some⟩ := r
    obtain ⟨msg, rest, e⟩ := List.exists_cons_of_ne_nil some
    have rep := inv.ring
    rw [e] at rep
    rw [rep.readPrefix_eq] at action
    split_ifs at action with short <;> cases action
    · exact ⟨inv.fifo, inv.ring, inv.writer, trivial⟩
    · exact ⟨inv.fifo, inv.ring, inv.writer, rfl, msg, rest, buf.drop msg.length, e, rfl,
        rep.foldl_copyOut_eq buf, fun _ member => member⟩
  case h_5 buf readPos dataLen segment todo copying =>
    cases action
    simp only [ReaderInv, copying] at r
    obtain ⟨atHead, msg, rest, tail, e, len, gathers, members⟩ := r
    exact ⟨inv.fifo, inv.ring, inv.writer, atHead, msg, rest, tail, e, len, gathers,
      fun other member => members other (by simp [member])⟩
  case h_6 copying =>
    cases action
    exact (inv.consume copying).2

theorem step (inv : m.Inv) {tick : Tick} (inside : m.AcceptsInside tick) {m' : Machine}
    (action : m.step tick = some m') : m'.Inv := by
  cases tick with
  | beginWrite data =>
      simp only [Machine.step] at action
      split at action <;> cases action
      exact ⟨inv.fifo, inv.ring, trivial, inv.reader⟩
  | writer => exact inv.writerStep inside action
  | beginRead buf =>
      simp only [Machine.step] at action
      split at action <;> cases action
      exact ⟨inv.fifo, inv.ring, inv.writer, trivial⟩
  | reader => exact inv.readerStep action

end Inv

/-! ## Safety -/

structure Safe (c : Nat) (m : Machine) : Prop where
  writeApart : Disjoint m.writerCells m.unreadCells
  writeReadApart : Disjoint m.writerCells m.readerCells
  /-- The read position never passes the write position, nor does the write position lap it. -/
  order : ∃ gap, gap ≤ c - 1 ∧ streamSize m.accepted = streamSize m.delivered + gap ∧
    m.ring.header.readPos = streamSize m.delivered % c ∧
    m.ring.header.writePos = streamSize m.accepted % c
  /-- Nothing lost, duplicated, torn or out of order. -/
  fifo : m.delivered <+: m.accepted
  /-- A read about to return `Ok` has the oldest unread message at the head of its buffer. -/
  readOldest : ∀ buf readPos dataLen, m.reader = .copying buf readPos dataLen [] →
    m.unread.head? = some (buf.take dataLen)
  /-- A read returns `InvalidState` exactly if the oldest unread message is too long for it. -/
  readInvalid : ∀ buf readPos, m.reader = .loadedReadPos buf readPos →
    m.unread.head?.map List.length = some (readPrefix m.ring.data c readPos)
  /-- A write is refused exactly if the queue has no room when it loads the read position. -/
  writeFull : ∀ data writePos, m.writer = .loadedWritePos data writePos →
    (available c writePos m.ring.header.readPos < 4 + data.length ↔
      ¬ (Fifo.mk c m.unread).Room data)
  /-- An accepted frame still has room when it is published, whatever was read since. -/
  writeRoom : ∀ data writePos todo, m.writer = .copying data writePos todo →
    (Fifo.mk c m.unread).Room data
  /-- A stale write position makes a read miss the messages published since, and return
  `BufferEmpty` exactly if there were no others. -/
  readStale : ∀ buf writePos, m.reader = .loadedWritePos buf writePos →
    ∃ seen later, m.unread = seen ++ later ∧ (writePos = m.ring.header.readPos ↔ seen = [])

theorem Inv.readerCells_subset {m : Machine} (inv : m.Inv) : m.readerCells ⊆ m.unreadCells := by
  have r := inv.reader
  have headerCells : m.unread ≠ [] → ∀ i < 4,
      (m.ring.header.readPos + i) % m.ring.header.capacity ∈ m.unreadCells := by
    intro some i hi
    obtain ⟨msg, rest, e⟩ := List.exists_cons_of_ne_nil some
    refine ⟨i, ?_, by rw [inv.ring.readPos, Nat.mod_add_mod]⟩
    rw [e, streamSize_cons, frameSize]
    omega
  intro x read
  unfold readerCells at read
  dsimp only at read
  split at read
  case h_1 buf readPos loaded =>
    simp only [ReaderInv, loaded] at r
    obtain ⟨rfl, some⟩ := r
    obtain ⟨i, hi, rfl⟩ := read
    exact headerCells some i hi
  case h_2 buf readPos dataLen todo copying =>
    simp only [ReaderInv, copying] at r
    obtain ⟨rfl, msg, rest, tail, e, -⟩ := r
    rcases read with ⟨i, hi, rfl⟩ | ⟨segment, member, i, hi, rfl⟩
    · exact headerCells (by simp [e]) i hi
    · exact inv.segment_within copying member i hi
  case h_3 => exact read.elim

theorem Inv.writerCells_disjoint {m : Machine} (inv : m.Inv) :
    Disjoint m.writerCells m.unreadCells := by
  rw [Set.disjoint_left]
  intro x written ⟨i, hi, unread⟩
  unfold writerCells at written
  split at written
  case h_1 data writePos todo copying =>
    obtain ⟨copy, member, k, hk, rfl⟩ := written
    obtain ⟨j, hj, e⟩ := inv.copy_within copying member k hk
    have room := inv.copy_room copying
    exact cells_disjoint (by omega) hi hj (unread.symm.trans e)
  case h_2 => exact written

theorem Inv.safe {m : Machine} (inv : m.Inv) : m.Safe m.ring.header.capacity where
  writeApart := inv.writerCells_disjoint
  writeReadApart := inv.writerCells_disjoint.mono_right inv.readerCells_subset
  order := by
    have whole := inv.accepted_eq
    have fits := inv.ring.fits
    refine ⟨streamSize m.unread, by omega, by rw [← whole, streamSize_append], inv.ring.readPos, ?_⟩
    rw [inv.ring.writePos, ← whole, streamSize_append]
  fifo := inv.fifo
  readOldest := fun buf readPos dataLen copying => (inv.consume copying).1
  readInvalid := by
    intro buf readPos loaded
    have r := inv.reader
    simp only [ReaderInv, loaded] at r
    obtain ⟨rfl, some⟩ := r
    obtain ⟨msg, rest, e⟩ := List.exists_cons_of_ne_nil some
    have rep := inv.ring
    rw [e] at rep
    simp [e, rep.readPrefix_eq]
  writeFull := fun data writePos loaded => inv.available_lt_iff loaded
  writeRoom := fun data writePos todo copying => inv.copy_room copying
  readStale := by
    intro buf writePos loaded
    have r := inv.reader
    simp only [ReaderInv, loaded] at r
    obtain ⟨seen, later, e, pos⟩ := r
    refine ⟨seen, later, e, ?_⟩
    have fits := inv.ring.fits
    rw [e, streamSize_append] at fits
    rw [pos, inv.ring.readPos]
    exact position_eq_iff (by omega)

/-! ## Every interleaving -/

theorem capacity_step {m m' : Machine} {tick : Tick} (action : m.step tick = some m') :
    m'.ring.header.capacity = m.ring.header.capacity := by
  unfold step writerStep readerStep at action
  dsimp only at action
  split at action <;> split at action <;> (try split at action) <;> cases action <;> rfl

/-- One writer and one reader may interleave freely, on every run that accepts no frame whose
prefix crosses the end of the region. -/
theorem interleaving_safe (c : Nat) (data : Nat → UInt8) (ticks : List Tick) (m : Machine)
    (room : 5 ≤ c) (small : c < 2 ^ 32) (inside : Along step AcceptsInside (fresh c data) ticks)
    (ran : run step (fresh c data) ticks = some m) : m.Safe c := by
  have preserved : ∀ (m : Machine) (tick : Tick) (m' : Machine),
      m.Inv ∧ m.ring.header.capacity = c → m.AcceptsInside tick → m.step tick = some m' →
        m'.Inv ∧ m'.ring.header.capacity = c := fun m tick m' ⟨inv, capacity⟩ inside action =>
    ⟨inv.step inside action, (capacity_step action).trans capacity⟩
  have final := run_invariant preserved ⟨fresh_inv (by omega) small data, rfl⟩ inside ran
  exact final.2 ▸ final.1.safe

def overlappingRun : List Tick :=
  [.beginWrite [7, 8], .writer, .writer, .writer, .writer, .writer, .beginWrite [9], .writer,
    .beginRead [0, 0], .writer, .reader, .writer, .reader, .reader, .reader, .writer, .reader,
    .writer]

theorem interleaving_safe_overlapping :
    ∃ m, run step (fresh 12 fun _ => 0) overlappingRun = some m ∧ m.Safe 12 :=
  ⟨_, rfl, interleaving_safe 12 (fun _ => 0) overlappingRun _ (by decide) (by decide) (by decide)
    rfl⟩

end Machine

end GatewayGrpc.SharedMemory
