import GatewayGrpc.Library.LittleEndian
import GatewayGrpc.Library.Cyclic

/-!
# The ring buffer of `shared-memory/src/shm.rs`

`SharedMemoryRingBuffer::write` and `read`, with the copies they make as data: a `Copy` goes into
the data region, a `Segment` out of it into the caller's buffer. The data region is a function of
the offset from `data_ptr`; offsets from the capacity on are memory behind the region.
-/

namespace GatewayGrpc.SharedMemory
open Library

inductive ShmError
  | bufferFull
  | bufferEmpty
  | invalidState
  deriving DecidableEq, Repr

def ShmError.display : ShmError → String
  | .bufferFull => "Buffer full"
  | .bufferEmpty => "Buffer empty"
  | .invalidState => "Invalid state"

/-- A `Result`, or the panic of a remainder by zero. -/
inductive Outcome (α : Type)
  | ok (value : α)
  | err (e : ShmError)
  | panic
  deriving DecidableEq, Repr

/-- `maxMessageSize` is set by `default` and read nowhere. -/
structure ShmConfig where
  bufferSize : Nat
  maxMessageSize : Nat
  deriving DecidableEq, Repr

def ShmConfig.default : ShmConfig where
  bufferSize := 64 * 1024 * 1024
  maxMessageSize := 64 * 1024

structure RingBufferHeader where
  writePos : Nat
  readPos : Nat
  capacity : Nat
  magic : Nat
  deriving DecidableEq, Repr

namespace RingBufferHeader

def MAGIC : Nat := 0x53484D5242554621

def new (capacity : Nat) : RingBufferHeader where
  writePos := 0
  readPos := 0
  capacity := capacity
  magic := MAGIC

def isValid (header : RingBufferHeader) : Bool := header.magic == MAGIC

end RingBufferHeader

structure SharedMemoryRingBuffer where
  header : RingBufferHeader
  data : Nat → UInt8

/-- Subtraction on `usize` in the release profile, which wraps. -/
def usizeSub (a b : Nat) : Nat := (a + 2 ^ 64 - b) % 2 ^ 64

def available (capacity writePos readPos : Nat) : Nat :=
  if writePos ≥ readPos then usizeSub (usizeSub capacity (usizeSub writePos readPos)) 1
  else usizeSub (usizeSub readPos writePos) 1

structure Copy where
  offset : Nat
  bytes : List UInt8
  deriving DecidableEq, Repr

structure Segment where
  src : Nat
  dst : Nat
  len : Nat
  deriving DecidableEq, Repr

def prefixCopy (writePos : Nat) (data : List UInt8) : Copy :=
  ⟨writePos, toLeBytes 4 (data.length % 2 ^ 32)⟩

def payloadCopies (capacity dataStart : Nat) (data : List UInt8) : List Copy :=
  if dataStart + data.length ≤ capacity then [⟨dataStart, data⟩]
  else
    let firstPart := usizeSub capacity dataStart
    let secondPart := usizeSub data.length firstPart
    [⟨dataStart, data.take firstPart⟩, ⟨0, (data.drop firstPart).take secondPart⟩]

def payloadSegments (capacity dataStart dataLen : Nat) : List Segment :=
  if dataStart + dataLen ≤ capacity then [⟨dataStart, 0, dataLen⟩]
  else
    let firstPart := usizeSub capacity dataStart
    let secondPart := usizeSub dataLen firstPart
    [⟨dataStart, 0, firstPart⟩, ⟨0, firstPart, secondPart⟩]

def readPrefix (data : Nat → UInt8) (capacity readPos : Nat) : Nat :=
  fromLeBytes [data readPos, data ((readPos + 1) % capacity), data ((readPos + 2) % capacity),
    data ((readPos + 3) % capacity)]

def copyOut (data : Nat → UInt8) (buf : List UInt8) (segment : Segment) : List UInt8 :=
  buf.take segment.dst ++ block data segment.src segment.len ++
    buf.drop (segment.dst + segment.len)

namespace SharedMemoryRingBuffer

def fresh (capacity : Nat) (data : Nat → UInt8) : SharedMemoryRingBuffer where
  header := .new capacity
  data := data

def copyIn (ring : SharedMemoryRingBuffer) (copy : Copy) : SharedMemoryRingBuffer :=
  { ring with data := overlay ring.data copy.offset copy.bytes }

def storeWritePos (ring : SharedMemoryRingBuffer) (pos : Nat) : SharedMemoryRingBuffer :=
  { ring with header := { ring.header with writePos := pos } }

def storeReadPos (ring : SharedMemoryRingBuffer) (pos : Nat) : SharedMemoryRingBuffer :=
  { ring with header := { ring.header with readPos := pos } }

/-- `SharedMemoryRingBuffer::write`. Additions are exact: a slice has at most `isize::MAX` bytes
and positions stay below the capacity. -/
def write (ring : SharedMemoryRingBuffer) (data : List UInt8) :
    Outcome Nat × SharedMemoryRingBuffer :=
  let capacity := ring.header.capacity
  let writePos := ring.header.writePos
  let totalSize := 4 + data.length
  if available capacity writePos ring.header.readPos < totalSize then (.err .bufferFull, ring)
  else
    let ring := ring.copyIn (prefixCopy writePos data)
    -- `(write_pos + 4) % capacity` panics at capacity 0, the prefix already copied
    if capacity = 0 then (.panic, ring)
    else
      let dataStart := (writePos + 4) % capacity
      let ring := (payloadCopies capacity dataStart data).foldl copyIn ring
      (.ok data.length, ring.storeWritePos ((writePos + totalSize) % capacity))

def read (ring : SharedMemoryRingBuffer) (buf : List UInt8) :
    Outcome Nat × List UInt8 × SharedMemoryRingBuffer :=
  let capacity := ring.header.capacity
  let readPos := ring.header.readPos
  if ring.header.writePos = readPos then (.err .bufferEmpty, buf, ring)
  else if capacity = 0 then (.panic, buf, ring)
  else
    let dataLen := readPrefix ring.data capacity readPos
    if buf.length < dataLen then (.err .invalidState, buf, ring)
    else
      let dataStart := (readPos + 4) % capacity
      let buf := (payloadSegments capacity dataStart dataLen).foldl (copyOut ring.data) buf
      (.ok dataLen, buf, ring.storeReadPos ((readPos + 4 + dataLen) % capacity))

end SharedMemoryRingBuffer

/-! ## Operations -/

inductive Op
  | write (data : List UInt8)
  | read (buf : List UInt8)
  deriving DecidableEq, Repr

structure Reply where
  result : Outcome Nat
  buf : List UInt8
  deriving DecidableEq, Repr

def SharedMemoryRingBuffer.respond (ring : SharedMemoryRingBuffer) :
    Op → Reply × SharedMemoryRingBuffer
  | .write data => (⟨(ring.write data).1, []⟩, (ring.write data).2)
  | .read buf => (⟨(ring.read buf).1, (ring.read buf).2.1⟩, (ring.read buf).2.2)

end GatewayGrpc.SharedMemory
