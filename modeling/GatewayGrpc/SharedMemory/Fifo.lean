import GatewayGrpc.Library.Run
import GatewayGrpc.SharedMemory.Frames

/-!
# The ring as a bounded FIFO queue

`Fifo` says what the ring is for: a queue of byte messages in which each message takes four bytes
more than its length and one byte of the capacity stays free. `Represents` ties the bytes of the
ring to such a queue.
-/

namespace GatewayGrpc.SharedMemory
open Library

structure Fifo where
  capacity : Nat
  messages : List Message
  deriving DecidableEq, Repr

namespace Fifo

def empty (capacity : Nat) : Fifo := ⟨capacity, []⟩

def used (q : Fifo) : Nat := streamSize q.messages

def Room (q : Fifo) (m : Message) : Prop := q.used + frameSize m ≤ q.capacity - 1

instance (q : Fifo) (m : Message) : Decidable (q.Room m) := inferInstanceAs (Decidable (_ ≤ _))

def write (q : Fifo) (m : Message) : Except ShmError Nat × Fifo :=
  if q.Room m then (.ok m.length, { q with messages := q.messages ++ [m] })
  else (.error .bufferFull, q)

def read (q : Fifo) (bufLen : Nat) : Except ShmError Message × Fifo :=
  match q.messages with
  | [] => (.error .bufferEmpty, q)
  | m :: rest =>
      if bufLen < m.length then (.error .invalidState, q)
      else (.ok m, { q with messages := rest })

theorem write_eq_ok {q ring : Fifo} {m : Message} {n : Nat} (result : q.write m = (.ok n, ring)) :
    q.Room m ∧ ring = { q with messages := q.messages ++ [m] } := by
  unfold write at result
  split_ifs at result with room
  · cases result
    exact ⟨room, rfl⟩
  · cases result

theorem write_eq_error {q ring : Fifo} {m : Message} {e : ShmError}
    (result : q.write m = (.error e, ring)) : ¬ q.Room m ∧ e = .bufferFull ∧ ring = q := by
  unfold write at result
  split_ifs at result with room
  · cases result
  · cases result
    exact ⟨room, rfl, rfl⟩

theorem read_eq_ok {q ring : Fifo} {m : Message} {bufLen : Nat}
    (result : q.read bufLen = (.ok m, ring)) :
    m.length ≤ bufLen ∧ q.messages = m :: ring.messages ∧ ring.capacity = q.capacity := by
  unfold read at result
  split at result
  · cases result
  · rename_i head rest held
    split_ifs at result with large
    · cases result
    · cases result
      exact ⟨Nat.le_of_not_lt large, held, rfl⟩

theorem read_eq_error {q ring : Fifo} {bufLen : Nat} {e : ShmError}
    (result : q.read bufLen = (.error e, ring)) :
    ring = q ∧ ∀ m ∈ q.messages.head?, bufLen < m.length := by
  unfold read at result
  split at result
  · rename_i empty
    cases result
    simp [empty]
  · rename_i head rest held
    split_ifs at result with large
    · cases result
      simpa [held] using large
    · cases result

def respond (q : Fifo) : Op → Reply × Fifo
  | .write data =>
      match (q.write data).1 with
      | .ok n => (⟨.ok n, []⟩, (q.write data).2)
      | .error e => (⟨.err e, []⟩, (q.write data).2)
  | .read buf =>
      match (q.read buf.length).1 with
      | .ok m => (⟨.ok m.length, m ++ buf.drop m.length⟩, (q.read buf.length).2)
      | .error e => (⟨.err e, buf⟩, (q.read buf.length).2)

theorem respond_capacity (q : Fifo) (op : Op) : (q.respond op).2.capacity = q.capacity := by
  cases op with
  | write data =>
      simp only [respond, write]
      split_ifs <;> rfl
  | read buf =>
      cases result : q.read buf.length with
      | mk out next =>
          simp only [respond, result]
          cases out with
          | ok m => exact (read_eq_ok result).2.2
          | error e => exact congrArg capacity (read_eq_error result).1

end Fifo

structure Represents (ring : SharedMemoryRingBuffer) (base : Nat) (messages : List Message) :
    Prop where
  small : ring.header.capacity < 2 ^ 32
  readPos : ring.header.readPos = base % ring.header.capacity
  writePos : ring.header.writePos = (base + streamSize messages) % ring.header.capacity
  fits : streamSize messages < ring.header.capacity
  content : window ring.data ring.header.capacity base (streamSize messages) = stream messages

theorem position_eq_iff {c base : Nat} {messages : List Message}
    (fits : streamSize messages < c) :
    (base + streamSize messages) % c = base % c ↔ messages = [] := by
  constructor
  · intro same
    have zero := eq_of_mod_eq (Nat.le_add_right ..) (Nat.add_lt_add_left fits _) same.symm
    cases messages with
    | nil => rfl
    | cons m rest =>
        simp only [streamSize_cons, frameSize] at zero
        omega
  · rintro rfl
    rfl

theorem represents_fresh {c : Nat} (positive : 1 ≤ c) (small : c < 2 ^ 32) (data : Nat → UInt8) :
    Represents (.fresh c data) 0 [] where
  small := small
  readPos := by simp [SharedMemoryRingBuffer.fresh, RingBufferHeader.new]
  writePos := by simp [SharedMemoryRingBuffer.fresh, RingBufferHeader.new]
  fits := positive
  content := rfl

/-- The write that goes wrong copies its prefix past the end of the region. -/
def SharedMemoryRingBuffer.PrefixInside (ring : SharedMemoryRingBuffer) : Op → Prop
  | .write data =>
      available ring.header.capacity ring.header.writePos ring.header.readPos < 4 + data.length ∨
        ring.header.writePos + 4 ≤ ring.header.capacity
  | .read _ => True

instance (ring : SharedMemoryRingBuffer) (op : Op) : Decidable (ring.PrefixInside op) :=
  match op with
  | .write _ => inferInstanceAs (Decidable (_ ∨ _))
  | .read _ => .isTrue trivial

section Copies
variable (ring : SharedMemoryRingBuffer) (copies : List Copy)

@[simp] theorem copyIn_header (copy : Copy) : (ring.copyIn copy).header = ring.header := rfl

@[simp] theorem foldl_copyIn_header :
    (copies.foldl SharedMemoryRingBuffer.copyIn ring).header = ring.header := by
  induction copies generalizing ring with
  | nil => rfl
  | cons copy copies ih => rw [List.foldl_cons, ih, copyIn_header]

variable {ring copies}

theorem laid_foldl_copyIn {copy : Copy} (laid : copy.Laid ring.data)
    (apart : ∀ other ∈ copies, copy.Apart other) :
    copy.Laid (copies.foldl SharedMemoryRingBuffer.copyIn ring).data := by
  induction copies generalizing ring with
  | nil => exact laid
  | cons first copies ih =>
      rw [List.foldl_cons]
      exact ih (laid.overlay (apart first (by simp))) fun other member =>
        apart other (by simp [member])

theorem foldl_copyIn_laid (apart : copies.Pairwise Copy.Apart) {copy : Copy}
    (member : copy ∈ copies) : copy.Laid (copies.foldl SharedMemoryRingBuffer.copyIn ring).data := by
  induction copies generalizing ring with
  | nil => cases member
  | cons first copies ih =>
      obtain ⟨here, rest⟩ := List.pairwise_cons.mp apart
      rw [List.foldl_cons]
      rcases List.mem_cons.mp member with rfl | later
      · exact laid_foldl_copyIn (copy.laid_overlay _) here
      · exact ih rest later

end Copies

@[simp] theorem read_capacity (ring : SharedMemoryRingBuffer) (buf : List UInt8) :
    (ring.read buf).2.2.header.capacity = ring.header.capacity := by
  unfold SharedMemoryRingBuffer.read
  dsimp only
  split_ifs <;> rfl

namespace Represents
variable {ring : SharedMemoryRingBuffer} {base : Nat} {messages : List Message}

theorem positive (rep : Represents ring base messages) : 0 < ring.header.capacity :=
  Nat.zero_lt_of_lt rep.fits

theorem available_eq (rep : Represents ring base messages) :
    available ring.header.capacity ring.header.writePos ring.header.readPos =
      ring.header.capacity - 1 - streamSize messages := by
  rw [rep.writePos, rep.readPos,
    SharedMemory.available_eq (by have := rep.small; omega) rep.fits]

theorem write_full (rep : Represents ring base messages) {data : Message}
    (full : ¬ (Fifo.mk ring.header.capacity messages).Room data) :
    ring.write data = (.err .bufferFull, ring) := by
  simp only [Fifo.Room, Fifo.used, frameSize] at full
  unfold SharedMemoryRingBuffer.write
  dsimp only
  rw [if_pos (by rw [rep.available_eq]; omega)]

theorem write_eq (rep : Represents ring base messages) {data : Message}
    (room : (Fifo.mk ring.header.capacity messages).Room data) :
    ring.write data = (.ok data.length,
      ((frameCopies ring.header.capacity ring.header.writePos data).foldl
        SharedMemoryRingBuffer.copyIn ring).storeWritePos
          ((ring.header.writePos + frameSize data) % ring.header.capacity)) := by
  have positive := rep.positive
  simp only [Fifo.Room, Fifo.used, frameSize] at room
  unfold SharedMemoryRingBuffer.write
  dsimp only
  rw [if_neg (by rw [rep.available_eq]; omega), if_neg (by omega)]
  rfl

theorem copyIn (rep : Represents ring base messages) {copy : Copy} {n : Nat}
    (within : copy.Within ring.header.capacity (base + streamSize messages) n)
    (room : streamSize messages + n ≤ ring.header.capacity) :
    Represents (ring.copyIn copy) base messages where
  small := rep.small
  readPos := rep.readPos
  writePos := rep.writePos
  fits := rep.fits
  content := by
    refine Eq.trans (window_congr fun i hi => ?_) rep.content
    exact overlay_apply_of_within within fun j hj => cells_disjoint room hi hj

theorem foldl_copyIn (rep : Represents ring base messages) {copies : List Copy} {n : Nat}
    (within : ∀ copy ∈ copies,
      copy.Within ring.header.capacity (base + streamSize messages) n)
    (room : streamSize messages + n ≤ ring.header.capacity) :
    Represents (copies.foldl SharedMemoryRingBuffer.copyIn ring) base messages := by
  induction copies generalizing ring with
  | nil => exact rep
  | cons copy copies ih =>
      rw [List.foldl_cons]
      exact ih (rep.copyIn (within copy (by simp)) room)
        (fun other member => within other (by simp [member])) room

theorem publish (rep : Represents ring base messages) {data : Message}
    (room : (Fifo.mk ring.header.capacity messages).Room data)
    (inside : ring.header.writePos + 4 ≤ ring.header.capacity)
    (laid : ∀ copy ∈ frameCopies ring.header.capacity ring.header.writePos data,
      copy.Laid ring.data) :
    Represents (ring.storeWritePos ((ring.header.writePos + frameSize data) %
      ring.header.capacity)) base (messages ++ [data]) where
  small := rep.small
  readPos := rep.readPos
  writePos := by
    simp only [SharedMemoryRingBuffer.storeWritePos, rep.writePos, streamSize_append,
      streamSize_cons, streamSize_nil, Nat.mod_add_mod]
    ac_rfl
  fits := by
    have := rep.positive
    simp only [Fifo.Room, Fifo.used, frameSize] at room
    simp only [streamSize_append, streamSize_cons, streamSize_nil, frameSize]
    change _ < ring.header.capacity
    omega
  content := by
    have fits : frameSize data < ring.header.capacity := by
      have := rep.positive
      simp only [Fifo.Room, Fifo.used] at room
      omega
    rw [rep.writePos] at inside laid
    have last : window ring.data ring.header.capacity (base + streamSize messages)
        (streamSize [data]) = stream [data] := by
      simpa [stream] using window_eq_frame rep.small fits inside laid
    rw [streamSize_append, window_add, stream_append]
    exact congrArg₂ (· ++ ·) rep.content last

theorem write_ok (rep : Represents ring base messages) {data : Message}
    (room : (Fifo.mk ring.header.capacity messages).Room data)
    (inside : ring.header.writePos + 4 ≤ ring.header.capacity) :
    Represents (ring.write data).2 base (messages ++ [data]) := by
  have positive := rep.positive
  have room' := room
  simp only [Fifo.Room, Fifo.used] at room'
  have fits : frameSize data < ring.header.capacity := by
    simp only [frameSize] at room' ⊢
    omega
  have inside' := rep.writePos ▸ inside
  have within : ∀ copy ∈ frameCopies ring.header.capacity ring.header.writePos data,
      copy.Within ring.header.capacity (base + streamSize messages) (frameSize data) := by
    rw [rep.writePos]
    exact fun copy member => frameCopies_within rep.small fits inside' member
  have apart : (frameCopies ring.header.capacity ring.header.writePos data).Pairwise Copy.Apart := by
    rw [rep.writePos]
    exact frameCopies_apart rep.small fits inside'
  have copied : Represents ((frameCopies ring.header.capacity ring.header.writePos data).foldl
      SharedMemoryRingBuffer.copyIn ring) base messages :=
    rep.foldl_copyIn within (by omega)
  have laid : ∀ copy ∈ frameCopies ring.header.capacity ring.header.writePos data,
      copy.Laid ((frameCopies ring.header.capacity ring.header.writePos data).foldl
        SharedMemoryRingBuffer.copyIn ring).data :=
    fun copy member => foldl_copyIn_laid apart member
  have room : (Fifo.mk ((frameCopies ring.header.capacity ring.header.writePos data).foldl
      SharedMemoryRingBuffer.copyIn ring).header.capacity messages).Room data := by
    simpa using room
  rw [rep.write_eq (by simpa using room)]
  simpa using copied.publish room (by simpa using inside) (by simpa using laid)

theorem consume {m : Message} {rest : List Message} (rep : Represents ring base (m :: rest)) :
    Represents (ring.storeReadPos ((ring.header.readPos + 4 + m.length) % ring.header.capacity))
      (base + frameSize m) rest where
  small := rep.small
  readPos := by
    simp only [SharedMemoryRingBuffer.storeReadPos, rep.readPos, Nat.add_assoc, Nat.mod_add_mod,
      frameSize]
  writePos := by
    simp only [SharedMemoryRingBuffer.storeReadPos, rep.writePos, streamSize_cons, Nat.add_assoc]
  fits := by
    have := rep.fits
    rw [streamSize_cons] at this
    change _ < ring.header.capacity
    omega
  content := by
    have content := rep.content
    rw [streamSize_cons, window_add, stream_cons] at content
    exact (List.append_inj content (by simp)).2

theorem head_frame {m : Message} {rest : List Message} (rep : Represents ring base (m :: rest)) :
    window ring.data ring.header.capacity base (frameSize m) = frame m := by
  have content := rep.content
  rw [streamSize_cons, window_add, stream_cons] at content
  exact (List.append_inj content (by simp)).1

theorem length_lt {m : Message} {rest : List Message} (rep : Represents ring base (m :: rest)) :
    m.length < ring.header.capacity := by
  have := rep.fits
  rw [streamSize_cons, frameSize] at this
  omega

theorem readPrefix_eq {m : Message} {rest : List Message} (rep : Represents ring base (m :: rest)) :
    readPrefix ring.data ring.header.capacity ring.header.readPos = m.length := by
  rw [rep.readPos]
  exact readPrefix_frame (rep.length_lt.trans rep.small) rep.head_frame

theorem foldl_copyOut_eq {m : Message} {rest : List Message}
    (rep : Represents ring base (m :: rest)) (buf : List UInt8) :
    (payloadSegments ring.header.capacity ((ring.header.readPos + 4) % ring.header.capacity)
      m.length).foldl (copyOut ring.data) buf = m ++ buf.drop m.length := by
  have := rep.small
  rw [foldl_copyOut_payloadSegments (Nat.mod_lt _ rep.positive) (by omega) rep.length_lt,
    rep.readPos, mod_mod_add_four, window_mod, window_payload_of_frame rep.head_frame]

theorem writePos_eq_readPos_iff (rep : Represents ring base messages) :
    ring.header.writePos = ring.header.readPos ↔ messages = [] := by
  rw [rep.writePos, rep.readPos, position_eq_iff rep.fits]

theorem read_cons {m : Message} {rest : List Message} (rep : Represents ring base (m :: rest))
    (buf : List UInt8) :
    (buf.length < m.length → ring.read buf = (.err .invalidState, buf, ring)) ∧
    (m.length ≤ buf.length →
      (ring.read buf).1 = .ok m.length ∧ (ring.read buf).2.1 = m ++ buf.drop m.length ∧
        Represents (ring.read buf).2.2 (base + frameSize m) rest) := by
  have positive := rep.positive
  have distinct : ring.header.writePos ≠ ring.header.readPos := by
    simp [rep.writePos_eq_readPos_iff]
  unfold SharedMemoryRingBuffer.read
  dsimp only
  rw [if_neg distinct, if_neg (by omega), rep.readPrefix_eq]
  constructor
  · intro short
    rw [if_pos short]
  · intro large
    rw [if_neg (by omega)]
    exact ⟨rfl, rep.foldl_copyOut_eq buf, rep.consume⟩

theorem read_nil (rep : Represents ring base []) (buf : List UInt8) :
    ring.read buf = (.err .bufferEmpty, buf, ring) := by
  unfold SharedMemoryRingBuffer.read
  dsimp only
  rw [if_pos (rep.writePos_eq_readPos_iff.mpr rfl)]

end Represents

def Refines (ring : SharedMemoryRingBuffer) (q : Fifo) : Prop :=
  ring.header.capacity = q.capacity ∧ ∃ base, Represents ring base q.messages

theorem respond_refines {ring : SharedMemoryRingBuffer} {q : Fifo} {op : Op}
    (refines : Refines ring q) (inside : ring.PrefixInside op) :
    (ring.respond op).1 = (q.respond op).1 ∧ Refines (ring.respond op).2 (q.respond op).2 := by
  obtain ⟨capacity, messages⟩ := q
  obtain ⟨rfl, base, rep⟩ := refines
  change Represents ring base messages at rep
  cases op with
  | write data =>
      by_cases room : (Fifo.mk ring.header.capacity messages).Room data
      · have notFull : ¬ available ring.header.capacity ring.header.writePos
            ring.header.readPos < 4 + data.length := by
          have := rep.available_eq
          simp only [Fifo.Room, Fifo.used, frameSize] at room
          omega
        have next := rep.write_ok room (inside.resolve_left notFull)
        refine ⟨?_, ?_, base, ?_⟩
        · simp [SharedMemoryRingBuffer.respond, Fifo.respond, Fifo.write, room, rep.write_eq room]
        · simp [SharedMemoryRingBuffer.respond, Fifo.respond, Fifo.write, room, rep.write_eq room,
            SharedMemoryRingBuffer.storeWritePos]
        · simpa [SharedMemoryRingBuffer.respond, Fifo.respond, Fifo.write, room] using next
      · have full := rep.write_full room
        refine ⟨?_, ?_, base, ?_⟩ <;>
          simp [SharedMemoryRingBuffer.respond, Fifo.respond, Fifo.write, room, full, rep]
  | read buf =>
      cases messages with
      | nil =>
          have empty := rep.read_nil buf
          refine ⟨?_, ?_, base, ?_⟩ <;>
            simp [SharedMemoryRingBuffer.respond, Fifo.respond, Fifo.read, empty, rep]
      | cons m rest =>
          obtain ⟨short, large⟩ := rep.read_cons buf
          by_cases h : buf.length < m.length
          · refine ⟨?_, ?_, base, ?_⟩ <;>
              simp [SharedMemoryRingBuffer.respond, Fifo.respond, Fifo.read, short h, h, rep]
          · obtain ⟨result, filled, next⟩ := large (by omega)
            refine ⟨?_, ?_, base + frameSize m, ?_⟩ <;>
              simp [SharedMemoryRingBuffer.respond, Fifo.respond, Fifo.read, result, filled, h,
                next]

theorem respond_err_unchanged {ring : SharedMemoryRingBuffer} {op : Op} {e : ShmError}
    (failed : (ring.respond op).1.result = .err e) : (ring.respond op).2 = ring := by
  cases op with
  | write data =>
      simp only [SharedMemoryRingBuffer.respond, SharedMemoryRingBuffer.write] at failed ⊢
      split_ifs at failed ⊢
      all_goals simp_all
  | read buf =>
      simp only [SharedMemoryRingBuffer.respond, SharedMemoryRingBuffer.read] at failed ⊢
      split_ifs at failed ⊢
      all_goals simp_all

/-- The ring refines the bounded queue on every run whose accepted writes keep their length prefix
inside the region. -/
theorem ring_refines_fifo (c : Nat) (data : Nat → UInt8) (ops : List Op) (positive : 1 ≤ c)
    (small : c < 2 ^ 32)
    (inside : Along (fun ring op => some (SharedMemoryRingBuffer.respond ring op).2)
      SharedMemoryRingBuffer.PrefixInside (.fresh c data) ops) :
    replies SharedMemoryRingBuffer.respond (.fresh c data) ops =
      replies Fifo.respond (.empty c) ops ∧
    Refines (after SharedMemoryRingBuffer.respond (.fresh c data) ops)
      (after Fifo.respond (.empty c) ops) ∧
    ∀ op e, ((after SharedMemoryRingBuffer.respond (.fresh c data) ops).respond op).1.result =
        .err e →
      ((after SharedMemoryRingBuffer.respond (.fresh c data) ops).respond op).2 =
        after SharedMemoryRingBuffer.respond (.fresh c data) ops := by
  have start : Refines (.fresh c data) (.empty c) :=
    ⟨rfl, 0, represents_fresh positive small data⟩
  obtain ⟨same, final⟩ := replies_eq (fun _ _ _ => respond_refines) start inside
  exact ⟨same, final, fun _ _ failed => respond_err_unchanged failed⟩

theorem ring_refines_fifo_wrapping :
    replies SharedMemoryRingBuffer.respond (.fresh 16 fun _ => 0)
        [.write [1, 2, 3], .read [0, 0, 0], .write [4, 5, 6, 7, 8, 9], .read [0, 0, 0, 0, 0, 0]] =
      replies Fifo.respond (.empty 16)
        [.write [1, 2, 3], .read [0, 0, 0], .write [4, 5, 6, 7, 8, 9], .read [0, 0, 0, 0, 0, 0]] :=
  (ring_refines_fifo 16 (fun _ => 0) _ (by decide) (by decide)
    (by simp only [Along, Option.some.injEq, forall_eq']; decide)).1

/-- At capacity 8 the second write starts at offset 5: three bytes of its prefix fall into the
region and one behind it, and the read takes the stale byte 0 for the missing one. -/
theorem straddling_prefix_misread :
    ¬ ∀ (c : Nat) (ops : List Op), 1 ≤ c → c < 2 ^ 32 →
      replies SharedMemoryRingBuffer.respond (.fresh c fun _ => 0) ops =
        replies Fifo.respond (.empty c) ops := by
  intro refines
  have := refines 8 [.write [1], .read [0], .write [], .read []] (by decide) (by decide)
  revert this
  decide

end GatewayGrpc.SharedMemory
