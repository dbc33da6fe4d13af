import GatewayGrpc.SharedMemory.Fifo

/-!
# Checked arithmetic

The release profile wraps, so `write` and `read` are followed here with every `+`, `-` and `%` on
`usize` checked: `none` where one of them overflows, goes below zero or divides by zero.
-/

namespace GatewayGrpc.SharedMemory
open Library

def usizeAdd? (a b : Nat) : Option Nat := if a + b < 2 ^ 64 then some (a + b) else none

def usizeSub? (a b : Nat) : Option Nat := if b ≤ a then some (a - b) else none

def usizeRem? (a b : Nat) : Option Nat := if b = 0 then none else some (a % b)

def headerSize : Nat := 32

/-- `create` asks `ftruncate` for `total_size as i64`, with `total_size` a wrapping sum. -/
def Admits (bufferSize : Nat) : Prop :=
  bufferSize < 2 ^ 64 ∧ (headerSize + bufferSize) % 2 ^ 64 < 2 ^ 63

instance (bufferSize : Nat) : Decidable (Admits bufferSize) :=
  inferInstanceAs (Decidable (_ ∧ _))

def available? (capacity writePos readPos : Nat) : Option Nat :=
  if writePos ≥ readPos then do
    let used ← usizeSub? writePos readPos
    let free ← usizeSub? capacity used
    usizeSub? free 1
  else do
    let free ← usizeSub? readPos writePos
    usizeSub? free 1

def payloadCopies? (capacity dataStart : Nat) (data : List UInt8) : Option (List Copy) := do
  let dataEnd ← usizeAdd? dataStart data.length
  if dataEnd ≤ capacity then some [⟨dataStart, data⟩]
  else
    let firstPart ← usizeSub? capacity dataStart
    let secondPart ← usizeSub? data.length firstPart
    some [⟨dataStart, data.take firstPart⟩, ⟨0, (data.drop firstPart).take secondPart⟩]

def payloadSegments? (capacity dataStart dataLen : Nat) : Option (List Segment) := do
  let dataEnd ← usizeAdd? dataStart dataLen
  if dataEnd ≤ capacity then some [⟨dataStart, 0, dataLen⟩]
  else
    let firstPart ← usizeSub? capacity dataStart
    let secondPart ← usizeSub? dataLen firstPart
    some [⟨dataStart, 0, firstPart⟩, ⟨0, firstPart, secondPart⟩]

def readPrefix? (data : Nat → UInt8) (capacity readPos : Nat) : Option Nat := do
  let second ← usizeRem? (← usizeAdd? readPos 1) capacity
  let third ← usizeRem? (← usizeAdd? readPos 2) capacity
  let fourth ← usizeRem? (← usizeAdd? readPos 3) capacity
  some (fromLeBytes [data readPos, data second, data third, data fourth])

namespace SharedMemoryRingBuffer

def write? (ring : SharedMemoryRingBuffer) (data : List UInt8) :
    Option (Outcome Nat × SharedMemoryRingBuffer) := do
  let capacity := ring.header.capacity
  let writePos := ring.header.writePos
  let free ← available? capacity writePos ring.header.readPos
  let totalSize ← usizeAdd? 4 data.length
  if free < totalSize then some (.err .bufferFull, ring)
  else
    let ring := ring.copyIn (prefixCopy writePos data)
    let dataStart ← usizeRem? (← usizeAdd? writePos 4) capacity
    let copies ← payloadCopies? capacity dataStart data
    let newWritePos ← usizeRem? (← usizeAdd? writePos totalSize) capacity
    some (.ok data.length, (copies.foldl copyIn ring).storeWritePos newWritePos)

def read? (ring : SharedMemoryRingBuffer) (buf : List UInt8) :
    Option (Outcome Nat × List UInt8 × SharedMemoryRingBuffer) :=
  let capacity := ring.header.capacity
  let readPos := ring.header.readPos
  if ring.header.writePos = readPos then some (.err .bufferEmpty, buf, ring)
  else do
    let dataLen ← readPrefix? ring.data capacity readPos
    if buf.length < dataLen then some (.err .invalidState, buf, ring)
    else
      let dataStart ← usizeRem? (← usizeAdd? readPos 4) capacity
      let segments ← payloadSegments? capacity dataStart dataLen
      let newReadPos ← usizeRem? (← usizeAdd? (← usizeAdd? readPos 4) dataLen) capacity
      some (.ok dataLen, segments.foldl (copyOut ring.data) buf, ring.storeReadPos newReadPos)

def respond? (ring : SharedMemoryRingBuffer) : Op → Option (Reply × SharedMemoryRingBuffer)
  | .write data => (ring.write? data).map fun r => (⟨r.1, []⟩, r.2)
  | .read buf => (ring.read? buf).map fun r => (⟨r.1, r.2.1⟩, r.2.2)

end SharedMemoryRingBuffer

open SharedMemoryRingBuffer

def Op.Slice : Op → Prop
  | .write data => data.length < 2 ^ 63
  | .read buf => buf.length < 2 ^ 63

instance : DecidablePred Op.Slice
  | .write _ => inferInstanceAs (Decidable (_ < _))
  | .read _ => inferInstanceAs (Decidable (_ < _))

structure Positioned (c : Nat) (ring : SharedMemoryRingBuffer) : Prop where
  capacity : ring.header.capacity = c
  writePos : ring.header.writePos < c
  readPos : ring.header.readPos < c

/-- The arithmetic of one operation is exact: checking it changes nothing, the positions stay below
the capacity, and the length prefix of an accepted message is its length. -/
structure ExactStep (c : Nat) (ring : SharedMemoryRingBuffer) (op : Op) : Prop where
  checked : ring.respond? op = some (ring.respond op)
  positioned : Positioned c (ring.respond op).2
  lengthPrefix : ∀ data, op = .write data → (ring.write data).1 = .ok data.length →
    fromLeBytes (prefixCopy ring.header.writePos data).bytes = data.length

structure Exact (bufferSize : Nat) (data : Nat → UInt8) (ops : List Op) : Prop where
  created : (usizeAdd? headerSize bufferSize).isSome
  positioned : Positioned bufferSize (.fresh bufferSize data)
  steps : Along (fun ring op => some (respond ring op).2) (ExactStep bufferSize)
    (.fresh bufferSize data) ops

def SharedMemoryRingBuffer.LengthFits (ring : SharedMemoryRingBuffer) : Op → Prop
  | .write data =>
      available ring.header.capacity ring.header.writePos ring.header.readPos < 4 + data.length ∨
        data.length < 2 ^ 32
  | .read _ => True

instance (ring : SharedMemoryRingBuffer) (op : Op) : Decidable (ring.LengthFits op) :=
  match op with
  | .write _ => inferInstanceAs (Decidable (_ ∨ _))
  | .read _ => .isTrue trivial

/-! ## Each expression -/

theorem usizeAdd?_eq {a b : Nat} (small : a + b < 2 ^ 64) : usizeAdd? a b = some (a + b) :=
  if_pos small

theorem usizeSub?_eq {a b : Nat} (le : b ≤ a) (small : a < 2 ^ 64) :
    usizeSub? a b = some (usizeSub a b) := by
  rw [usizeSub_eq le small]
  exact if_pos le

theorem usizeRem?_eq {a b : Nat} (positive : 0 < b) : usizeRem? a b = some (a % b) :=
  if_neg (by omega)

section Expressions
variable {c : Nat} (small : c < 2 ^ 63)
include small

theorem available?_eq {writePos readPos : Nat} (writeInside : writePos < c)
    (readInside : readPos < c) :
    available? c writePos readPos = some (available c writePos readPos) := by
  unfold available? available
  split
  · have used : usizeSub writePos readPos = writePos - readPos := usizeSub_eq ‹_› (by omega)
    have free : usizeSub c (writePos - readPos) = c - (writePos - readPos) :=
      usizeSub_eq (by omega) (by omega)
    rw [usizeSub?_eq ‹_› (by omega), Option.bind_eq_bind, Option.bind_some, used,
      usizeSub?_eq (by omega) (by omega), Option.bind_some, free,
      usizeSub?_eq (by omega) (by omega)]
  · have free : usizeSub readPos writePos = readPos - writePos := usizeSub_eq (by omega) (by omega)
    rw [usizeSub?_eq (by omega) (by omega), Option.bind_eq_bind, Option.bind_some, free,
      usizeSub?_eq (by omega) (by omega)]

theorem available_lt {writePos readPos : Nat} (writeInside : writePos < c)
    (readInside : readPos < c) : available c writePos readPos < c := by
  unfold available usizeSub
  split <;> omega

theorem parts?_eq {α : Type} {start n : Nat} (inside : start < c) (slice : n < 2 ^ 63) (whole : α)
    (parts : Nat → Nat → α) :
    (do
      let last ← usizeAdd? start n
      if last ≤ c then some whole
      else
        let firstPart ← usizeSub? c start
        let secondPart ← usizeSub? n firstPart
        some (parts firstPart secondPart)) =
      some (if start + n ≤ c then whole
        else parts (usizeSub c start) (usizeSub n (usizeSub c start))) := by
  rw [usizeAdd?_eq (by omega), Option.bind_eq_bind, Option.bind_some]
  split
  · rfl
  · have first : usizeSub c start = c - start := usizeSub_eq (by omega) (by omega)
    rw [usizeSub?_eq (by omega) (by omega), Option.bind_some, first,
      usizeSub?_eq (by omega) (by omega), Option.bind_some]

theorem payloadCopies?_eq {start : Nat} {data : List UInt8} (inside : start < c)
    (slice : data.length < 2 ^ 63) :
    payloadCopies? c start data = some (payloadCopies c start data) := by
  unfold payloadCopies? payloadCopies
  exact parts?_eq small inside slice _ _

theorem payloadSegments?_eq {start n : Nat} (inside : start < c) (slice : n < 2 ^ 63) :
    payloadSegments? c start n = some (payloadSegments c start n) := by
  unfold payloadSegments? payloadSegments
  exact parts?_eq small inside slice _ _

theorem readPrefix?_eq {data : Nat → UInt8} {readPos : Nat} (inside : readPos < c) :
    readPrefix? data c readPos = some (readPrefix data c readPos) := by
  unfold readPrefix? readPrefix
  simp only [Option.bind_eq_bind, usizeAdd?_eq (show readPos + 1 < 2 ^ 64 by omega),
    usizeAdd?_eq (show readPos + 2 < 2 ^ 64 by omega),
    usizeAdd?_eq (show readPos + 3 < 2 ^ 64 by omega), Option.bind_some,
    usizeRem?_eq (show 0 < c by omega)]

end Expressions

theorem readPrefix_lt (data : Nat → UInt8) (c readPos : Nat) :
    readPrefix data c readPos < 2 ^ 32 := by
  have bound := fromLeBytes_lt [data readPos, data ((readPos + 1) % c), data ((readPos + 2) % c),
    data ((readPos + 3) % c)]
  rw [show 2 ^ 32 = 256 ^ 4 by decide]
  exact bound

/-! ## Each operation -/

section Operations
variable {c : Nat} {ring : SharedMemoryRingBuffer}

theorem Positioned.positive (positioned : Positioned c ring) : 0 < c :=
  Nat.zero_lt_of_lt positioned.writePos

theorem positioned_fresh {c : Nat} {data : Nat → UInt8} :
    Positioned c (.fresh c data) ↔ 1 ≤ c := by
  constructor
  · exact Positioned.positive
  · intro positive
    exact ⟨rfl, positive, positive⟩

theorem Positioned.respond (positioned : Positioned c ring) (op : Op) :
    Positioned c (ring.respond op).2 := by
  have turn (n : Nat) : n % ring.header.capacity < c := by
    rw [positioned.capacity]
    exact Nat.mod_lt n positioned.positive
  have capacity := positioned.capacity
  have writePos := positioned.writePos
  have readPos := positioned.readPos
  cases op with
  | write data =>
      simp only [SharedMemoryRingBuffer.respond, SharedMemoryRingBuffer.write]
      split_ifs
      · exact positioned
      · exact ⟨capacity, writePos, readPos⟩
      · refine ⟨?_, turn _, ?_⟩
        · simpa [storeWritePos] using capacity
        · simpa [storeWritePos] using readPos
  | read buf =>
      simp only [SharedMemoryRingBuffer.respond, SharedMemoryRingBuffer.read]
      split_ifs
      · exact positioned
      · exact positioned
      · exact positioned
      · exact ⟨capacity, writePos, turn _⟩

theorem write?_eq (positioned : Positioned c ring) (small : c < 2 ^ 63) {data : List UInt8}
    (slice : data.length < 2 ^ 63) : ring.write? data = some (ring.write data) := by
  obtain ⟨rfl, writePos, readPos⟩ := positioned
  have positive : 0 < ring.header.capacity := Nat.zero_lt_of_lt writePos
  have start : (ring.header.writePos + 4) % ring.header.capacity < ring.header.capacity :=
    Nat.mod_lt _ positive
  have room := available_lt small writePos readPos
  unfold SharedMemoryRingBuffer.write? SharedMemoryRingBuffer.write
  simp only [Option.bind_eq_bind, available?_eq small writePos readPos, Option.bind_some,
    usizeAdd?_eq (show 4 + data.length < 2 ^ 64 by omega)]
  split
  · rfl
  · rw [usizeAdd?_eq (by omega), Option.bind_some, usizeRem?_eq positive, Option.bind_some,
      payloadCopies?_eq small start slice, Option.bind_some, usizeAdd?_eq (by omega),
      Option.bind_some, usizeRem?_eq positive, Option.bind_some, if_neg (by omega)]

theorem read?_eq (positioned : Positioned c ring) (small : c < 2 ^ 63) (buf : List UInt8) :
    ring.read? buf = some (ring.read buf) := by
  obtain ⟨rfl, writePos, readPos⟩ := positioned
  have positive : 0 < ring.header.capacity := Nat.zero_lt_of_lt writePos
  have start : (ring.header.readPos + 4) % ring.header.capacity < ring.header.capacity :=
    Nat.mod_lt _ positive
  have long := readPrefix_lt ring.data ring.header.capacity ring.header.readPos
  unfold SharedMemoryRingBuffer.read? SharedMemoryRingBuffer.read
  dsimp only
  split
  · rfl
  · rw [if_neg (by omega), readPrefix?_eq small readPos, Option.bind_eq_bind, Option.bind_some]
    split
    · rfl
    · simp only [Option.bind_eq_bind,
        usizeAdd?_eq (show ring.header.readPos + 4 < 2 ^ 64 by omega), Option.bind_some,
        usizeRem?_eq positive, payloadSegments?_eq small start (long.trans (by decide)),
        usizeAdd?_eq (show ring.header.readPos + 4 +
          readPrefix ring.data ring.header.capacity ring.header.readPos < 2 ^ 64 by omega)]

theorem respond?_eq (positioned : Positioned c ring) (small : c < 2 ^ 63) {op : Op}
    (slice : op.Slice) : ring.respond? op = some (ring.respond op) := by
  cases op with
  | write data =>
      rw [respond?, write?_eq positioned small slice]
      rfl
  | read buf =>
      rw [respond?, read?_eq positioned small buf]
      rfl

theorem lengthPrefix_eq_iff {writePos : Nat} {data : List UInt8} :
    fromLeBytes (prefixCopy writePos data).bytes = data.length ↔ data.length < 2 ^ 32 := by
  have cut : data.length % 2 ^ 32 < 2 ^ 32 := Nat.mod_lt _ (by decide)
  rw [prefixCopy, fromLeBytes_toLeBytes_of_lt cut]
  omega

theorem accepted_iff (positioned : Positioned c ring) {data : List UInt8} :
    (ring.write data).1 = .ok data.length ↔
      ¬ available ring.header.capacity ring.header.writePos ring.header.readPos <
        4 + data.length := by
  have positive := positioned.positive
  have capacity := positioned.capacity
  unfold SharedMemoryRingBuffer.write
  dsimp only
  split_ifs with full zero
  · exact iff_of_false (by simp) (not_not_intro full)
  · omega
  · exact iff_of_true rfl full

theorem exactStep_iff (positioned : Positioned c ring) (small : c < 2 ^ 63) {op : Op}
    (slice : op.Slice) : ExactStep c ring op ↔ ring.LengthFits op := by
  constructor
  · intro exact
    cases op with
    | read buf => trivial
    | write data =>
        by_cases full : available ring.header.capacity ring.header.writePos ring.header.readPos <
            4 + data.length
        · exact .inl full
        · exact .inr (lengthPrefix_eq_iff.mp
            (exact.lengthPrefix data rfl ((accepted_iff positioned).mpr full)))
  · intro fits
    refine ⟨respond?_eq positioned small slice, positioned.respond op, ?_⟩
    rintro data rfl accepted
    exact lengthPrefix_eq_iff.mpr (fits.resolve_left ((accepted_iff positioned).mp accepted))

end Operations

/-- The arithmetic is exact if and only if the size is neither zero nor so large that the size of
the object wraps, and no accepted message is as long as 4 GiB. -/
theorem arithmetic_exact_iff (bufferSize : Nat) (data : Nat → UInt8) (ops : List Op)
    (admitted : Admits bufferSize) (slices : ∀ op ∈ ops, op.Slice) :
    Exact bufferSize data ops ↔
      1 ≤ bufferSize ∧ headerSize + bufferSize < 2 ^ 64 ∧
        Along (fun ring op => some (respond ring op).2) LengthFits (.fresh bufferSize data) ops := by
  have sum : (usizeAdd? headerSize bufferSize).isSome ↔ headerSize + bufferSize < 2 ^ 64 := by
    simp [usizeAdd?]
  have steps (positive : 1 ≤ bufferSize) (total : headerSize + bufferSize < 2 ^ 64) :
      Along (fun ring op => some (respond ring op).2) (ExactStep bufferSize)
          (.fresh bufferSize data) ops ↔
        Along (fun ring op => some (respond ring op).2) LengthFits (.fresh bufferSize data) ops := by
    have small : bufferSize < 2 ^ 63 := by
      have := admitted.2
      unfold headerSize at this total
      omega
    apply along_iff (I := Positioned bufferSize)
    · intro ring op next positioned _ action
      cases action
      exact positioned.respond op
    · intro ring op member positioned
      exact exactStep_iff positioned small (slices op member)
    · exact positioned_fresh.mpr positive
  constructor
  · intro exact
    have positive := positioned_fresh.mp exact.positioned
    have total := sum.mp exact.created
    exact ⟨positive, total, (steps positive total).mp exact.steps⟩
  · intro ⟨positive, total, fits⟩
    exact ⟨sum.mpr total, positioned_fresh.mpr positive, (steps positive total).mpr fits⟩

theorem arithmetic_exact_large :
    Exact (2 ^ 33) (fun _ => 0) [.write [1, 2, 3], .read [0, 0, 0], .write []] :=
  (arithmetic_exact_iff (2 ^ 33) (fun _ => 0) _ (by decide) (by decide)).mpr
    ⟨by decide, by decide, by decide⟩

theorem size_zero_underflows :
    ¬ ∀ (bufferSize : Nat) (ops : List Op), Admits bufferSize → (∀ op ∈ ops, op.Slice) →
      Exact bufferSize (fun _ => 0) ops := by
  intro claimed
  have step := (claimed 0 [.write []] (by decide) (by decide)).steps.1.checked
  have underflow : respond? (.fresh 0 fun _ => 0) (.write []) = none := rfl
  cases underflow.symm.trans step

end GatewayGrpc.SharedMemory
