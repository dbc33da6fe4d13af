import GatewayGrpc.Proto.Json
import GatewayGrpc.SharedMemory.Fifo

/-!
# What the shared-memory transports put on their rings

All three transports read requests into a buffer of 65536 bytes. They differ in the encoding of the
messages and in the buffer with which the gateway reads the answers.
-/

namespace GatewayGrpc.Transport
open Library Proto SharedMemory

inductive ShmTransport | polling | uds | eventfd
  deriving DecidableEq, Repr

namespace ShmTransport

def requestBuf (_ : ShmTransport) : Nat := 65536

def responseBuf : ShmTransport → Nat
  | polling => 65536
  | uds => 131072
  | eventfd => 65536

/-- The polling transport sends a request without its id. -/
def serializeRequest : ShmTransport → Text → EchoRequest → Bytes
  | polling, _, request => Json.requestCodec.encode request
  | uds, id, request => Bincode.requestCodec.encode (id, request)
  | eventfd, id, request => Bincode.requestCodec.encode (id, request)

def serializeResponse : ShmTransport → Text → EchoResponse → Bytes
  | polling, _, response => Json.responseCodec.encode response
  | uds, id, response => Bincode.responseCodec.encode (id, response)
  | eventfd, id, response => Bincode.responseCodec.encode (id, response)

end ShmTransport

/-- `Uuid::to_string` gives 36 characters. -/
def RequestId (id : Text) : Prop := id.val.utf8ByteSize = 36

instance (id : Text) : Decidable (RequestId id) := inferInstanceAs (Decidable (_ = _))

/-- The bincode forms leave 65460 of the 65536 bytes to message and payload, and the JSON answer
grows by a field and by the digits of the clock. -/
def ShmTransport.AnswerFits (request : EchoRequest) (ts pt : Int64) : ShmTransport → Prop
  | polling =>
      (Json.requestCodec.encode request).length + Json.digitCount ts.toInt +
        Json.digitCount pt.toInt + 22 ≤ 65536 + Json.digitCount request.timestampNs.toInt
  | uds => True
  | eventfd => request.message.val.utf8ByteSize + request.payload.val.length ≤ 65460

theorem serializeResponse_fits {t : ShmTransport} {id : Text} (isId : RequestId id)
    {request : EchoRequest} (small : (t.serializeRequest id request).length ≤ t.requestBuf)
    (ts pt : Int64) :
    (t.serializeResponse id (request.echo ts pt)).length ≤ t.responseBuf ↔
      t.AnswerFits request ts pt := by
  cases t with
  | polling =>
      have grown := Json.length_responseCodec request ts pt
      simp only [ShmTransport.serializeResponse, ShmTransport.responseBuf, ShmTransport.AnswerFits]
      omega
  | uds =>
      simp only [ShmTransport.serializeRequest, ShmTransport.requestBuf,
        Bincode.length_requestCodec] at small
      simp only [ShmTransport.serializeResponse, ShmTransport.responseBuf,
        ShmTransport.AnswerFits, Bincode.length_responseCodec, EchoRequest.echo, iff_true]
      omega
  | eventfd =>
      simp only [RequestId] at isId
      simp only [ShmTransport.serializeResponse, ShmTransport.responseBuf,
        ShmTransport.AnswerFits, Bincode.length_responseCodec, EchoRequest.echo, isId]
      omega

theorem length_le_of_read {ring : SharedMemoryRingBuffer} {base n : Nat} {m : Message}
    {rest : List Message} (rep : Represents ring base (m :: rest)) {buf : List UInt8}
    (taken : (ring.read buf).1 = .ok n) : m.length ≤ buf.length := by
  by_contra longer
  have := (rep.read_cons buf).1 (by omega)
  rw [this] at taken
  cases taken

theorem read_stuck {ring : SharedMemoryRingBuffer} {base : Nat} {m : Message}
    {rest : List Message} (rep : Represents ring base (m :: rest)) {buf : List UInt8}
    (longer : buf.length < m.length) (reads : Nat) :
    after SharedMemoryRingBuffer.respond ring (List.replicate reads (.read buf)) = ring := by
  induction reads with
  | zero => rfl
  | succ reads ih =>
      have stuck : (ring.respond (.read buf)).2 = ring := by
        simp only [SharedMemoryRingBuffer.respond, (rep.read_cons buf).1 longer]
      rw [List.replicate_succ, after, List.foldl_cons, stuck]
      exact ih

/-- An answer fits the gateway, is taken off the response ring and lets those behind it through
exactly if `AnswerFits`; otherwise it stays at the head of the ring for ever. -/
theorem answer_fits_iff (t : ShmTransport) (id : Text) (request : EchoRequest) (ts pt : Int64)
    (requests : SharedMemoryRingBuffer) (base n : Nat) (rest : List Message) (buf : List UInt8)
    (isId : RequestId id) (size : buf.length = t.requestBuf)
    (rep : Represents requests base (t.serializeRequest id request :: rest))
    (taken : (requests.read buf).1 = .ok n) :
    ((t.serializeResponse id (request.echo ts pt)).length ≤ t.responseBuf ↔
      t.AnswerFits request ts pt) ∧
    ∀ (responses : SharedMemoryRingBuffer) (base : Nat) (behind : List Message)
      (buf : List UInt8), buf.length = t.responseBuf →
      Represents responses base (t.serializeResponse id (request.echo ts pt) :: behind) →
      (t.AnswerFits request ts pt →
        (responses.read buf).1 = .ok (t.serializeResponse id (request.echo ts pt)).length ∧
        ∃ base, Represents (responses.read buf).2.2 base behind) ∧
      (¬ t.AnswerFits request ts pt → ∀ reads,
        after SharedMemoryRingBuffer.respond responses (List.replicate reads (.read buf)) =
          responses ∧ (responses.read buf).1 = .err .invalidState) := by
  have fits := serializeResponse_fits isId (size ▸ length_le_of_read rep taken) ts pt
  refine ⟨fits, fun responses base behind buf size rep => ⟨fun small => ?_, fun large reads => ?_⟩⟩
  · have ⟨result, _, next⟩ := (rep.read_cons buf).2 (size ▸ fits.mpr small)
    exact ⟨result, _, next⟩
  · have longer : buf.length < (t.serializeResponse id (request.echo ts pt)).length := by
      rw [size]
      exact Nat.lt_of_not_le fun small => large (fits.mp small)
    exact ⟨read_stuck rep longer reads, by rw [(rep.read_cons buf).1 longer]⟩

def zeros (n : Nat) : Bytes := List.replicate n 0

@[simp] theorem length_zeros (n : Nat) : (zeros n).length = n := List.length_replicate

def blank (n : Nat) (small : n < 2 ^ 63) : EchoRequest :=
  ⟨⟨"", by decide⟩, 0, ⟨zeros n, by rwa [length_zeros]⟩⟩

@[simp] theorem blank_message (n : Nat) (small : n < 2 ^ 63) :
    (blank n small).message.val.utf8ByteSize = 0 := by
  change "".utf8ByteSize = 0
  decide

@[simp] theorem blank_payload (n : Nat) (small : n < 2 ^ 63) :
    (blank n small).payload.val.length = n := length_zeros n

def sampleId : Text := ⟨"f81d4fae-7dec-41d0-a765-00a0c91e6bf6", by decide⟩

def otherId : Text := ⟨"0b6d8f3e-53b5-4d0e-9f43-1c2e8d7a9b10", by decide⟩

def ping : EchoRequest := ⟨⟨"ping", by decide⟩, 7, ⟨[1, 2], by decide⟩⟩

theorem represents_ping : Represents
    ((SharedMemoryRingBuffer.fresh 128 fun _ => 0).write
      (ShmTransport.eventfd.serializeRequest sampleId ping)).2 0
    [ShmTransport.eventfd.serializeRequest sampleId ping] :=
  (represents_fresh (by decide) (by decide) _).write_ok (by decide) (by decide)

theorem answer_fits_iff_ping : (ShmTransport.eventfd.serializeResponse sampleId (ping.echo 3 4)).length
    ≤ ShmTransport.eventfd.responseBuf ↔ ShmTransport.eventfd.AnswerFits ping 3 4 :=
  (answer_fits_iff .eventfd sampleId ping 3 4 _ 0
    (ShmTransport.eventfd.serializeRequest sampleId ping).length [] (zeros 65536)
    (by decide) (length_zeros _) represents_ping
    ((represents_ping.read_cons _).2 (by
      rw [length_zeros]
      decide)).1).1

theorem answer_longer_than_buffer :
    ¬ ∀ (t : ShmTransport) (id : Text) (request : EchoRequest) (ts pt : Int64), RequestId id →
      (t.serializeRequest id request).length ≤ t.requestBuf →
      (t.serializeResponse id (request.echo ts pt)).length ≤ t.responseBuf := by
  intro fits
  have isId : sampleId.val.utf8ByteSize = 36 := by decide
  have := fits .eventfd sampleId (blank 65468 (by decide)) 0 0 isId
  simp [ShmTransport.serializeRequest, ShmTransport.serializeResponse, ShmTransport.requestBuf,
    ShmTransport.responseBuf, Bincode.length_requestCodec, Bincode.length_responseCodec, isId,
    EchoRequest.echo] at this

end GatewayGrpc.Transport
