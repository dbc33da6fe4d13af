import GatewayGrpc.SharedMemory.Fifo

/-!
# The memory that an operation touches

The copies of `write` and `read` are raw pointer copies: nothing but the position arithmetic keeps
them inside the data region and inside the caller's buffer.
-/

namespace GatewayGrpc.SharedMemory
open Library

def Copy.cells (copy : Copy) : List Nat := List.range' copy.offset copy.bytes.length

def Segment.cells (segment : Segment) : List Nat := List.range' segment.src segment.len

def Segment.bufferCells (segment : Segment) : List Nat := List.range' segment.dst segment.len

namespace SharedMemoryRingBuffer

def writeCopies (ring : SharedMemoryRingBuffer) (data : List UInt8) : List Copy :=
  let capacity := ring.header.capacity
  let writePos := ring.header.writePos
  if available capacity writePos ring.header.readPos < 4 + data.length then []
  else if capacity = 0 then [prefixCopy writePos data]
  else frameCopies capacity writePos data

def prefixCells (ring : SharedMemoryRingBuffer) : List Nat :=
  let capacity := ring.header.capacity
  let readPos := ring.header.readPos
  if ring.header.writePos = readPos then []
  else if capacity = 0 then [readPos]
  else [readPos, (readPos + 1) % capacity, (readPos + 2) % capacity, (readPos + 3) % capacity]

def readSegments (ring : SharedMemoryRingBuffer) (buf : List UInt8) : List Segment :=
  let capacity := ring.header.capacity
  let readPos := ring.header.readPos
  if ring.header.writePos = readPos then []
  else if capacity = 0 then []
  else
    let dataLen := readPrefix ring.data capacity readPos
    if buf.length < dataLen then []
    else payloadSegments capacity ((readPos + 4) % capacity) dataLen

def touched (ring : SharedMemoryRingBuffer) : Op → List Nat
  | .write data => (ring.writeCopies data).flatMap Copy.cells
  | .read buf => ring.prefixCells ++ (ring.readSegments buf).flatMap Segment.cells

def filled (ring : SharedMemoryRingBuffer) : Op → List Nat
  | .write _ => []
  | .read buf => (ring.readSegments buf).flatMap Segment.bufferCells

def AccessesInside (c : Nat) (ring : SharedMemoryRingBuffer) (op : Op) : Prop :=
  (∀ offset ∈ ring.touched op, offset < c) ∧
    match op with
    | .write _ => True
    | .read buf => ∀ offset ∈ ring.filled op, offset < buf.length

instance (c : Nat) (ring : SharedMemoryRingBuffer) (op : Op) :
    Decidable (ring.AccessesInside c op) :=
  match op with
  | .write _ => inferInstanceAs (Decidable (_ ∧ True))
  | .read _ => inferInstanceAs (Decidable (_ ∧ ∀ _ ∈ _, _))

end SharedMemoryRingBuffer

open SharedMemoryRingBuffer

variable {ring : SharedMemoryRingBuffer}

/-! ## Nothing else is touched -/

theorem foldl_copyIn_apply {copies : List Copy} {x : Nat}
    (untouched : ∀ copy ∈ copies, x ∉ copy.cells) :
    (copies.foldl copyIn ring).data x = ring.data x := by
  induction copies generalizing ring with
  | nil => rfl
  | cons copy copies ih =>
      rw [List.foldl_cons, ih fun other member => untouched other (by simp [member])]
      have apart := untouched copy (by simp)
      rw [Copy.cells, List.mem_range'_1] at apart
      apply overlay_apply_of_outside
      omega

theorem write_data (ring : SharedMemoryRingBuffer) (data : List UInt8) :
    (ring.write data).2.data = ((ring.writeCopies data).foldl copyIn ring).data := by
  unfold SharedMemoryRingBuffer.write writeCopies
  dsimp only
  split_ifs <;> rfl

theorem respond_untouched {op : Op} {x : Nat} (untouched : x ∉ ring.touched op) :
    (ring.respond op).2.data x = ring.data x := by
  cases op with
  | write data =>
      simp only [touched, List.mem_flatMap, not_exists, not_and] at untouched
      simp only [respond, write_data]
      exact foldl_copyIn_apply untouched
  | read buf =>
      simp only [respond, SharedMemoryRingBuffer.read]
      split_ifs <;> rfl

theorem read_buf (ring : SharedMemoryRingBuffer) (buf : List UInt8) :
    (ring.read buf).2.1 = (ring.readSegments buf).foldl (copyOut ring.data) buf := by
  unfold SharedMemoryRingBuffer.read readSegments
  dsimp only
  split_ifs <;> rfl

theorem block_eq_of_cells {data other : Nat → UInt8} {segment : Segment}
    (same : ∀ x ∈ segment.cells, other x = data x) :
    block other segment.src segment.len = block data segment.src segment.len := by
  apply block_congr
  intro i first last
  apply same
  rw [Segment.cells, List.mem_range'_1]
  omega

theorem readPrefix_eq_of_cells {c p : Nat} {data other : Nat → UInt8}
    (same : ∀ x ∈ [p, (p + 1) % c, (p + 2) % c, (p + 3) % c], other x = data x) :
    readPrefix other c p = readPrefix data c p := by
  simp only [List.mem_cons, List.not_mem_nil, or_false, forall_eq_or_imp, forall_eq] at same
  obtain ⟨first, second, third, fourth⟩ := same
  rw [readPrefix, readPrefix, first, second, third, fourth]

theorem read_congr {header : RingBufferHeader} {data other : Nat → UInt8} (buf : List UInt8)
    (same : ∀ x ∈ (SharedMemoryRingBuffer.mk header data).touched (.read buf), other x = data x) :
    ((SharedMemoryRingBuffer.mk header other).respond (.read buf)).1 =
      ((SharedMemoryRingBuffer.mk header data).respond (.read buf)).1 := by
  simp only [touched, List.mem_append, List.mem_flatMap] at same
  have segments : ∀ segment ∈ (SharedMemoryRingBuffer.mk header data).readSegments buf,
      block other segment.src segment.len = block data segment.src segment.len :=
    fun segment member => block_eq_of_cells fun x inside => same x (.inr ⟨segment, member, inside⟩)
  have cells := fun x member => same x (.inl member)
  clear same
  by_cases empty : header.writePos = header.readPos
  · simp only [respond, SharedMemoryRingBuffer.read, if_pos empty]
  · by_cases zero : header.capacity = 0
    · simp only [respond, SharedMemoryRingBuffer.read, if_neg empty, if_pos zero]
    · simp only [prefixCells, readSegments, if_neg empty, if_neg zero] at cells segments
      simp only [respond, SharedMemoryRingBuffer.read, if_neg empty, if_neg zero,
        readPrefix_eq_of_cells cells]
      by_cases short : buf.length < readPrefix data header.capacity header.readPos
      · simp only [if_pos short]
      · simp only [if_neg short] at segments ⊢
        rw [foldl_copyOut_congr segments]

/-! ## Inside the region -/

theorem cells_lt_of_within {c p n : Nat} (positive : 0 < c) {copy : Copy}
    (within : copy.Within c p n) {x : Nat} (member : x ∈ copy.cells) : x < c := by
  rw [Copy.cells, List.mem_range'_1] at member
  obtain ⟨j, _, same⟩ := within (x - copy.offset) (by omega)
  have inside : (p + j) % c < c := Nat.mod_lt _ positive
  omega

theorem segment_cells_lt_of_within {c p n : Nat} (positive : 0 < c) {segment : Segment}
    (within : segment.Within c p n) {x : Nat} (member : x ∈ segment.cells) : x < c := by
  rw [Segment.cells, List.mem_range'_1] at member
  obtain ⟨j, _, same⟩ := within (x - segment.src) (by omega)
  have inside : (p + j) % c < c := Nat.mod_lt _ positive
  omega

theorem bufferCells_lt {c s n : Nat} (start : s < c) (small : c < 2 ^ 64) (room : n < c)
    {segment : Segment} (member : segment ∈ payloadSegments c s n) {x : Nat}
    (cell : x ∈ segment.bufferCells) : x < n := by
  rw [Segment.bufferCells, List.mem_range'_1] at cell
  rcases payloadSegments_eq start small room with ⟨fits, e⟩ | ⟨wraps, e⟩
  · rw [e, List.mem_singleton] at member
    subst member
    dsimp only at cell
    omega
  · simp only [e, List.mem_cons, List.not_mem_nil, or_false] at member
    rcases member with rfl | rfl <;> dsimp only at cell <;> omega

section Represented
variable {base : Nat} {messages : List Message} (rep : Represents ring base messages)
include rep

theorem writeCopies_inside {data : List UInt8} (inside : ring.PrefixInside (.write data))
    {copy : Copy} (member : copy ∈ ring.writeCopies data) {x : Nat} (cell : x ∈ copy.cells) :
    x < ring.header.capacity := by
  have positive := rep.positive
  have small := rep.small
  simp only [writeCopies] at member
  split_ifs at member with full zero
  · cases member
  · omega
  · have room : frameSize data < ring.header.capacity := by
      rw [rep.available_eq] at full
      unfold frameSize
      omega
    have start := inside.resolve_left full
    rw [rep.writePos] at member start
    exact cells_lt_of_within positive (frameCopies_within small room start member) cell

theorem prefixCells_inside {x : Nat} (member : x ∈ ring.prefixCells) :
    x < ring.header.capacity := by
  have positive := rep.positive
  have turn (n : Nat) : n % ring.header.capacity < ring.header.capacity := Nat.mod_lt n positive
  simp only [prefixCells] at member
  split_ifs at member with empty zero
  · cases member
  · omega
  · simp only [List.mem_cons, List.not_mem_nil, or_false] at member
    rcases member with rfl | rfl | rfl | rfl
    · rw [rep.readPos]
      exact turn base
    all_goals exact turn _

theorem readSegments_inside {buf : List UInt8} {segment : Segment}
    (member : segment ∈ ring.readSegments buf) :
    (∀ x ∈ segment.cells, x < ring.header.capacity) ∧
      ∀ x ∈ segment.bufferCells, x < buf.length := by
  have positive := rep.positive
  have small : ring.header.capacity < 2 ^ 64 := rep.small.trans (by decide)
  simp only [readSegments] at member
  split_ifs at member with empty zero short
  · cases member
  · cases member
  · cases member
  · cases messages with
    | nil => exact absurd (rep.writePos_eq_readPos_iff.mpr rfl) empty
    | cons m rest =>
        have start : (ring.header.readPos + 4) % ring.header.capacity < ring.header.capacity :=
          Nat.mod_lt _ positive
        rw [rep.readPrefix_eq] at short member
        constructor
        · intro x cell
          exact segment_cells_lt_of_within positive
            (payloadSegments_within start small rep.length_lt member) cell
        · intro x cell
          have := bufferCells_lt start small rep.length_lt member cell
          omega

theorem accessesInside {op : Op} (inside : ring.PrefixInside op) :
    ring.AccessesInside ring.header.capacity op := by
  cases op with
  | write data =>
      refine ⟨?_, trivial⟩
      intro x member
      obtain ⟨copy, made, cell⟩ := List.mem_flatMap.mp member
      exact writeCopies_inside rep inside made cell
  | read buf =>
      constructor
      · intro x member
        rcases List.mem_append.mp member with header | payload
        · exact prefixCells_inside rep header
        · obtain ⟨segment, made, cell⟩ := List.mem_flatMap.mp payload
          exact (readSegments_inside rep made).1 x cell
      · intro x member
        obtain ⟨segment, made, cell⟩ := List.mem_flatMap.mp member
        exact (readSegments_inside rep made).2 x cell

end Represented

theorem prefixInside_of_accessesInside {op : Op}
    (inside : ring.AccessesInside ring.header.capacity op) : ring.PrefixInside op := by
  cases op with
  | read buf => trivial
  | write data =>
      by_cases full : available ring.header.capacity ring.header.writePos ring.header.readPos <
          4 + data.length
      · exact .inl full
      · have first : prefixCopy ring.header.writePos data ∈ ring.writeCopies data := by
          simp only [writeCopies, if_neg full]
          split_ifs
          · exact List.mem_singleton_self _
          · exact List.mem_cons_self ..
        have last : ring.header.writePos + 3 ∈ (prefixCopy ring.header.writePos data).cells := by
          simp only [Copy.cells, prefixCopy, length_toLeBytes, List.mem_range'_1]
          omega
        have bound := inside.1 _ (List.mem_flatMap.mpr ⟨_, first, last⟩)
        exact .inr (by omega)

/-- All accesses of a run are inside the region and the buffers if and only if the length prefix of
each accepted write is. -/
theorem accesses_inside_iff (c : Nat) (data : Nat → UInt8) (ops : List Op) (positive : 1 ≤ c)
    (small : c < 2 ^ 32) :
    Along (fun ring op => some (respond ring op).2) (AccessesInside c) (.fresh c data) ops ↔
      Along (fun ring op => some (respond ring op).2) PrefixInside (.fresh c data) ops := by
  apply along_iff (I := fun ring => ∃ q : Fifo, q.capacity = c ∧ Refines ring q)
  · intro ring op next ⟨q, same, refines⟩ inside action
    cases action
    refine ⟨_, ?_, (respond_refines refines inside).2⟩
    rw [← same]
    exact Fifo.respond_capacity q op
  · intro ring op _ ⟨q, same, capacity, base, rep⟩
    obtain rfl : c = ring.header.capacity := by rw [capacity, same]
    exact ⟨prefixInside_of_accessesInside, accessesInside rep⟩
  · exact ⟨.empty c, rfl, rfl, 0, represents_fresh positive small data⟩

theorem accesses_inside_wrapping :
    Along (fun ring op => some (respond ring op).2) (AccessesInside 16) (.fresh 16 fun _ => 0)
      [.write [1, 2, 3], .read [0, 0, 0], .write [4, 5, 6, 7, 8, 9], .read [0, 0, 0, 0, 0, 0]] :=
  (accesses_inside_iff 16 (fun _ => 0) _ (by decide) (by decide)).mpr (by decide)

/-- The prefix of the empty message at offset 5 takes the offsets 5 to 8. -/
theorem prefix_leaves_region :
    ¬ ∀ (c : Nat) (ops : List Op), 1 ≤ c → c < 2 ^ 32 →
      Along (fun ring op => some (respond ring op).2) (AccessesInside c) (.fresh c fun _ => 0)
        ops := by
  intro inside
  have := inside 8 [.write [1], .read [0], .write []] (by decide) (by decide)
  revert this
  decide

end GatewayGrpc.SharedMemory
