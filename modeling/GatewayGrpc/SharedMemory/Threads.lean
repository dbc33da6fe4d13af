import GatewayGrpc.Library.Linearizability
import GatewayGrpc.Library.Lists
import GatewayGrpc.SharedMemory.Interleaving
import Mathlib.Logic.Function.Basic

/-!
# Any number of threads

`write` and `read` called by threads of several processes. Each process has a `write_lock` and a
`read_lock` of its own, which a call takes before its first step and gives back with its result.
`order` is history: the calls in the order in which they take effect. A refused write, a write that
stores its position, a read that stores its position and a read that is refused take effect where
they return, and a read that returns `BufferEmpty` where it loads the write position.
-/

namespace GatewayGrpc.SharedMemory
open Library

namespace Machine

def writeReply (m : Machine) : Option Reply :=
  match m.writer with
  | .loadedWritePos data writePos =>
      if available m.ring.header.capacity writePos m.ring.header.readPos < 4 + data.length then
        some ⟨.err .bufferFull, []⟩
      else none
  | .copying data _ [] => some ⟨.ok data.length, []⟩
  | _ => none

def readReply (m : Machine) : Option Reply :=
  match m.reader with
  | .loadedWritePos buf writePos =>
      if writePos = m.ring.header.readPos then some ⟨.err .bufferEmpty, buf⟩ else none
  | .loadedReadPos buf readPos =>
      if buf.length < readPrefix m.ring.data m.ring.header.capacity readPos then
        some ⟨.err .invalidState, buf⟩
      else none
  | .copying buf _ dataLen [] => some ⟨.ok dataLen, buf⟩
  | _ => none

def readEffect (m : Machine) : Option Reply :=
  match m.reader with
  | .entered buf =>
      if m.ring.header.writePos = m.ring.header.readPos then some ⟨.err .bufferEmpty, buf⟩ else none
  | .loadedWritePos _ _ => none
  | _ => m.readReply

end Machine

/-- Where a call is: before its lock, between lock and unlock, or back. -/
inductive Pc
  | locking
  | writing (writer : Writer)
  | reading (reader : Reader)
  | returned (reply : Reply)
  deriving DecidableEq, Repr

structure ThreadCall where
  process : Nat
  op : Op
  pc : Pc
  deriving DecidableEq, Repr

structure Threads where
  ring : SharedMemoryRingBuffer
  writeLock : Nat → Option Nat
  readLock : Nat → Option Nat
  calls : List ThreadCall
  accepted : List Message
  delivered : List Message
  order : List (Taken Op Reply)

namespace Threads

inductive Tick
  | call (process : Nat) (op : Op)
  | step (i : Nat)
  deriving DecidableEq, Repr

def fresh (capacity : Nat) (data : Nat → UInt8) : Threads where
  ring := .fresh capacity data
  writeLock := fun _ => none
  readLock := fun _ => none
  calls := []
  accepted := []
  delivered := []
  order := []

abbrev machine (s : Threads) (writer : Writer) (reader : Reader) : Machine :=
  ⟨s.ring, writer, reader, s.accepted, s.delivered⟩

def unread (s : Threads) : List Message := s.accepted.drop s.delivered.length

def setPc (s : Threads) (i : Nat) (call : ThreadCall) (pc : Pc) : Threads :=
  { s with calls := s.calls.set i { call with pc := pc } }

def record (s : Threads) (i : Nat) (op : Op) (reply : Option Reply) : Threads :=
  { s with order := s.order ++ (reply.map (Taken.mk i op)).toList }

def lock (s : Threads) (i : Nat) (call : ThreadCall) : Option Threads :=
  match call.op with
  | .write data => do
      guard (s.writeLock call.process = none)
      some { s.setPc i call (.writing (.entered data)) with
        writeLock := Function.update s.writeLock call.process (some i) }
  | .read buf => do
      guard (s.readLock call.process = none)
      some { s.setPc i call (.reading (.entered buf)) with
        readLock := Function.update s.readLock call.process (some i) }

def writeStep (s : Threads) (i : Nat) (call : ThreadCall) (writer : Writer) : Option Threads := do
  let before := s.machine writer .idle
  let m ← before.writerStep
  let s := { s with ring := m.ring, accepted := m.accepted }
  match before.writeReply with
  | none => some (s.setPc i call (.writing m.writer))
  | some reply =>
      some { (s.record i call.op reply).setPc i call (.returned reply) with
        writeLock := Function.update s.writeLock call.process none }

def readStep (s : Threads) (i : Nat) (call : ThreadCall) (reader : Reader) : Option Threads := do
  let before := s.machine .idle reader
  let m ← before.readerStep
  let s := { s with ring := m.ring, delivered := m.delivered }.record i call.op before.readEffect
  match before.readReply with
  | none => some (s.setPc i call (.reading m.reader))
  | some reply =>
      some { s.setPc i call (.returned reply) with
        readLock := Function.update s.readLock call.process none }

def step (s : Threads) : Tick → Option Threads
  | .call process op => some { s with calls := s.calls ++ [⟨process, op, .locking⟩] }
  | .step i => do
      let call ← s.calls[i]?
      match call.pc with
      | .locking => s.lock i call
      | .writing writer => s.writeStep i call writer
      | .reading reader => s.readStep i call reader
      | .returned _ => none

def AcceptsInside (s : Threads) : Tick → Prop
  | .call _ _ => True
  | .step i => ∀ call ∈ s.calls[i]?, match call.pc with
      | .writing writer => (s.machine writer .idle).AcceptsInside .writer
      | _ => True

instance (s : Threads) (tick : Tick) : Decidable (s.AcceptsInside tick) := by
  unfold AcceptsInside
  cases tick with
  | call => infer_instance
  | step i =>
      refine @Option.decidableForallMem _ _ (fun call => ?_) _
      split <;> infer_instance

def Tick.From (writes reads : Nat) : Tick → Prop
  | .call process (.write _) => process = writes
  | .call process (.read _) => process = reads
  | .step _ => True

instance (writes reads : Nat) (tick : Tick) : Decidable (tick.From writes reads) := by
  unfold Tick.From
  split <;> infer_instance

end Threads

/-! ## When a call takes effect -/

def Writer.For (data : Message) : Writer → Prop
  | .idle => False
  | .entered d | .loadedWritePos d _ | .copying d _ _ => d = data

/-- The registers of a `read` into `buf`: what it has copied so far lies in the first `dataLen`
bytes. -/
def Reader.For (buf : List UInt8) : Reader → Prop
  | .idle => False
  | .entered b | .loadedWritePos b _ | .loadedReadPos b _ => b = buf
  | .copying b _ dataLen todo =>
      dataLen ≤ buf.length ∧ dataLen ≤ b.length ∧ b.drop dataLen = buf.drop dataLen ∧
        ∀ segment ∈ todo, segment.dst + segment.len ≤ dataLen

theorem copyOut_drop (data : Nat → UInt8) {b : List UInt8} {segment : Segment} {n : Nat}
    (inside : segment.dst + segment.len ≤ n) (room : n ≤ b.length) :
    n ≤ (copyOut data b segment).length ∧ (copyOut data b segment).drop n = b.drop n := by
  have front : (b.take segment.dst ++ block data segment.src segment.len).length =
      segment.dst + segment.len := by
    simp only [List.length_append, List.length_take, length_block]
    omega
  unfold copyOut
  constructor
  · rw [List.length_append, front, List.length_drop]
    omega
  · rw [List.drop_append, front, List.drop_eq_nil_of_le (by omega), List.nil_append, List.drop_drop]
    congr 1
    omega

theorem payloadSegments_dst {c start n : Nat} (inside : start < c) (small : c < 2 ^ 64)
    (room : n < c) : ∀ segment ∈ payloadSegments c start n, segment.dst + segment.len ≤ n := by
  intro segment member
  rcases payloadSegments_eq inside small room with ⟨_, e⟩ | ⟨_, e⟩
  all_goals
    rw [e] at member
    simp only [List.mem_cons, List.not_mem_nil, or_false] at member
  · subst member
    simp
  · rcases member with rfl | rfl
    all_goals
      dsimp only
      omega

namespace Fifo
variable {q : Fifo}

theorem respond_write_room {data : Message} (room : q.Room data) :
    q.respond (.write data) =
      (⟨.ok data.length, []⟩, { q with messages := q.messages ++ [data] }) := by
  simp [respond, write, room]

theorem respond_write_full {data : Message} (full : ¬ q.Room data) :
    q.respond (.write data) = (⟨.err .bufferFull, []⟩, q) := by
  simp [respond, write, full]

theorem respond_read_empty (buf : List UInt8) (empty : q.messages = []) :
    q.respond (.read buf) = (⟨.err .bufferEmpty, buf⟩, q) := by
  simp [respond, read, empty]

theorem respond_read_large {buf : List UInt8} {m : Message} {rest : List Message}
    (oldest : q.messages = m :: rest) (large : buf.length < m.length) :
    q.respond (.read buf) = (⟨.err .invalidState, buf⟩, q) := by
  simp [respond, read, oldest, large]

theorem respond_read_small {buf : List UInt8} {m : Message} {rest : List Message}
    (oldest : q.messages = m :: rest) (small : m.length ≤ buf.length) :
    q.respond (.read buf) =
      (⟨.ok m.length, m ++ buf.drop m.length⟩, { q with messages := rest }) := by
  simp [respond, read, oldest, Nat.not_lt.mpr small]

end Fifo

namespace Machine
variable {m n : Machine}

theorem writerStep_reader (m : Machine) (reader : Reader) :
    ({ m with reader := reader } : Machine).writerStep =
      m.writerStep.map fun n => { n with reader := reader } := by
  unfold writerStep
  dsimp only
  split
  all_goals try split
  all_goals rfl

theorem readerStep_writer (m : Machine) (writer : Writer) :
    ({ m with writer := writer } : Machine).readerStep =
      m.readerStep.map fun n => { n with writer := writer } := by
  unfold readerStep
  dsimp only
  split
  all_goals try split
  all_goals rfl

theorem writerStep_keeps (action : m.writerStep = some n) :
    n.delivered = m.delivered ∧ n.reader = m.reader ∧
      n.ring.header.readPos = m.ring.header.readPos := by
  unfold writerStep at action
  dsimp only at action
  split at action
  all_goals try split at action
  all_goals
    cases action
    try exact ⟨rfl, rfl, rfl⟩

theorem readerStep_keeps (action : m.readerStep = some n) :
    n.accepted = m.accepted ∧ n.writer = m.writer := by
  unfold readerStep at action
  dsimp only at action
  split at action
  all_goals try split at action
  all_goals
    cases action
    try exact ⟨rfl, rfl⟩

namespace Inv

theorem write_effect (inv : m.Inv) {data : Message} (registers : m.writer.For data)
    (action : m.writerStep = some n) :
    match m.writeReply with
    | none => n.unread = m.unread ∧ n.writer.For data
    | some reply => n.writer = .idle ∧
        (Fifo.mk m.ring.header.capacity m.unread).respond (.write data) =
          (reply, ⟨m.ring.header.capacity, n.unread⟩) := by
  rcases state : m.writer with _ | d | ⟨d, writePos⟩ | ⟨d, writePos, _ | ⟨copy, todo⟩⟩
  · simp [Machine.writerStep, state] at action
  all_goals
    simp only [state, Writer.For] at registers
    simp only [Machine.writerStep, state] at action
    simp only [writeReply, state]
  · cases action
    exact ⟨rfl, registers⟩
  · subst registers
    have full := inv.available_lt_iff state
    split_ifs at action ⊢ with check <;> cases action
    · exact ⟨rfl, Fifo.respond_write_full (full.mp check)⟩
    · exact ⟨rfl, rfl⟩
  · subst registers
    cases action
    have room : (Fifo.mk m.ring.header.capacity m.unread).Room d := inv.copy_room state
    have grown : (m.accepted ++ [d]).drop m.delivered.length = m.unread ++ [d] :=
      List.drop_append_of_le_length inv.fifo.length_le
    refine ⟨rfl, (Fifo.respond_write_room room).trans ?_⟩
    exact congrArg (fun messages => (_, Fifo.mk _ messages)) grown.symm
  · cases action
    exact ⟨rfl, registers⟩

/-- One step of a `read`: where it takes effect the queue answers the same, and elsewhere the queue
stays as it is. -/
theorem read_effect (inv : m.Inv) {buf : List UInt8} (registers : m.reader.For buf)
    (action : m.readerStep = some n) :
    (match m.readEffect with
      | none => n.unread = m.unread
      | some reply => (Fifo.mk m.ring.header.capacity m.unread).respond (.read buf) =
          (reply, ⟨m.ring.header.capacity, n.unread⟩)) ∧
    match m.readReply with
      | none => n.reader.For buf
      | some _ => n.reader = .idle := by
  have r := inv.reader
  rcases state : m.reader with
    _ | b | ⟨b, writePos⟩ | ⟨b, readPos⟩ | ⟨b, readPos, dataLen, _ | ⟨segment, todo⟩⟩
  · simp [Machine.readerStep, state] at action
  all_goals
    simp only [state, Reader.For] at registers
    simp only [Machine.readerStep, state] at action
    simp only [ReaderInv, state] at r
    simp only [readEffect, readReply, state]
  · subst registers
    cases action
    refine ⟨?_, rfl⟩
    split_ifs with empty
    · have none := inv.ring.writePos_eq_readPos_iff.mp empty
      exact Fifo.respond_read_empty b none
    · rfl
  · subst registers
    split_ifs at action ⊢ with empty <;> cases action <;> exact ⟨rfl, rfl⟩
  · subst registers
    obtain ⟨rfl, some⟩ := r
    obtain ⟨msg, rest, e⟩ := List.exists_cons_of_ne_nil some
    have rep := inv.ring
    rw [e] at rep
    have bounded := rep.length_lt
    have small := rep.small
    rw [rep.readPrefix_eq] at action ⊢
    split_ifs at action ⊢ with large <;> cases action
    · exact ⟨Fifo.respond_read_large e large, rfl⟩
    · have room : msg.length ≤ b.length := Nat.le_of_not_lt large
      exact ⟨rfl, room, room, rfl,
        payloadSegments_dst (Nat.mod_lt _ rep.positive) (by omega) bounded⟩
  · cases action
    obtain ⟨rfl, msg, rest, tail, e, rfl, gathered, -⟩ := r
    obtain ⟨large, fits, behind, -⟩ := registers
    refine ⟨?_, rfl⟩
    have filled : b = msg ++ buf.drop msg.length := by
      have head : b.take msg.length = msg := by
        rw [show b = msg ++ tail from gathered, List.take_left' rfl]
      rw [← behind, ← List.take_append_drop msg.length b, head]
      simp
    have shrunk : m.accepted.drop (m.delivered ++ [b.take msg.length]).length = rest := by
      rw [← inv.accepted_eq, e]
      simp
    refine (Fifo.respond_read_small e large).trans ?_
    rw [← filled]
    exact congrArg (fun rest => (_, Fifo.mk _ rest)) shrunk.symm
  · cases action
    obtain ⟨large, fits, behind, inside⟩ := registers
    obtain ⟨longer, same⟩ := copyOut_drop m.ring.data (inside segment (by simp)) fits
    exact ⟨rfl, large, longer, same.trans behind, fun other member => inside other (by simp [member])⟩

end Inv

end Machine

namespace Threads
variable {writes reads c : Nat} {s u : Threads} {tick : Tick}

/-! ## What a step does -/

inductive Effect (s : Threads) : Tick → Threads → Prop
  | called (process : Nat) (op : Op) :
      Effect s (.call process op) { s with calls := s.calls ++ [⟨process, op, .locking⟩] }
  | lockedWrite {i : Nat} {call : ThreadCall} {data : Message} (here : s.calls[i]? = some call)
      (pc : call.pc = .locking) (op : call.op = .write data)
      (free : s.writeLock call.process = none) :
      Effect s (.step i) { s.setPc i call (.writing (.entered data)) with
        writeLock := Function.update s.writeLock call.process (some i) }
  | lockedRead {i : Nat} {call : ThreadCall} {buf : List UInt8} (here : s.calls[i]? = some call)
      (pc : call.pc = .locking) (op : call.op = .read buf)
      (free : s.readLock call.process = none) :
      Effect s (.step i) { s.setPc i call (.reading (.entered buf)) with
        readLock := Function.update s.readLock call.process (some i) }
  | wrote {i : Nat} {call : ThreadCall} {w : Writer} {n : Machine} (here : s.calls[i]? = some call)
      (pc : call.pc = .writing w) (action : (s.machine w .idle).writerStep = some n)
      (more : (s.machine w .idle).writeReply = none) :
      Effect s (.step i) (({ s with ring := n.ring, accepted := n.accepted } : Threads).setPc i call
        (.writing n.writer))
  | wroteLast {i : Nat} {call : ThreadCall} {w : Writer} {n : Machine} {reply : Reply}
      (here : s.calls[i]? = some call) (pc : call.pc = .writing w)
      (action : (s.machine w .idle).writerStep = some n)
      (last : (s.machine w .idle).writeReply = some reply) :
      Effect s (.step i)
        { (({ s with ring := n.ring, accepted := n.accepted } : Threads).record i call.op
            reply).setPc i call (.returned reply) with
          writeLock := Function.update s.writeLock call.process none }
  | read {i : Nat} {call : ThreadCall} {r : Reader} {n : Machine} (here : s.calls[i]? = some call)
      (pc : call.pc = .reading r) (action : (s.machine .idle r).readerStep = some n)
      (more : (s.machine .idle r).readReply = none) :
      Effect s (.step i)
        ((({ s with ring := n.ring, delivered := n.delivered } : Threads).record i call.op
          (s.machine .idle r).readEffect).setPc i call (.reading n.reader))
  | readLast {i : Nat} {call : ThreadCall} {r : Reader} {n : Machine} {reply : Reply}
      (here : s.calls[i]? = some call) (pc : call.pc = .reading r)
      (action : (s.machine .idle r).readerStep = some n)
      (last : (s.machine .idle r).readReply = some reply) :
      Effect s (.step i)
        { (({ s with ring := n.ring, delivered := n.delivered } : Threads).record i call.op
            (s.machine .idle r).readEffect).setPc i call (.returned reply) with
          readLock := Function.update s.readLock call.process none }

theorem step_effect (action : s.step tick = some u) : Effect s tick u := by
  cases tick with
  | call process op =>
      cases action
      exact .called process op
  | step i =>
      obtain ⟨call, here, action⟩ := Option.bind_eq_some_iff.mp action
      cases pc : call.pc with
      | locking =>
          simp only [pc, lock] at action
          cases op : call.op with
          | write data =>
              simp only [op] at action
              obtain ⟨free, action⟩ := guard_bind_eq_some.mp action
              cases action
              exact .lockedWrite here pc op free
          | read buf =>
              simp only [op] at action
              obtain ⟨free, action⟩ := guard_bind_eq_some.mp action
              cases action
              exact .lockedRead here pc op free
      | writing w =>
          simp only [pc] at action
          obtain ⟨n, inner, action⟩ := Option.bind_eq_some_iff.mp action
          cases reply : (s.machine w .idle).writeReply with
          | none =>
              simp only [reply] at action
              cases action
              exact .wrote here pc inner reply
          | some reply' =>
              simp only [reply] at action
              cases action
              exact .wroteLast here pc inner reply
      | reading r =>
          simp only [pc] at action
          obtain ⟨n, inner, action⟩ := Option.bind_eq_some_iff.mp action
          cases reply : (s.machine .idle r).readReply with
          | none =>
              simp only [reply] at action
              cases action
              exact .read here pc inner reply
          | some reply' =>
              simp only [reply] at action
              cases action
              exact .readLast here pc inner reply
      | returned reply =>
          simp only [pc] at action
          cases action

end Threads

end GatewayGrpc.SharedMemory
