import GatewayGrpc.Library.Format

/-!
# The messages of `proto/src/echo.proto`, and their bincode form

bincode writes integers and lengths as eight little-endian bytes, a string or a byte vector as its
length and its bytes, and a tuple or a struct as its fields in order.
-/

namespace GatewayGrpc.Proto
open Library

/-- A `String`. A `Vec` never holds more than `isize::MAX` bytes. -/
abbrev Text := { s : String // s.utf8ByteSize < 2 ^ 63 }

abbrev ByteVec := { bytes : Bytes // bytes.length < 2 ^ 63 }

structure EchoRequest where
  message : Text
  timestampNs : Int64
  payload : ByteVec
  deriving DecidableEq

structure EchoResponse where
  message : Text
  timestampNs : Int64
  processingTimeUs : Int64
  payload : ByteVec
  deriving DecidableEq

def EchoRequest.echo (request : EchoRequest) (timestampNs processingTimeUs : Int64) :
    EchoResponse where
  message := request.message
  timestampNs := timestampNs
  processingTimeUs := processingTimeUs
  payload := request.payload

def EchoResponse.Echoes (response : EchoResponse) (request : EchoRequest) : Prop :=
  response.message = request.message ∧ response.payload = request.payload

instance (response : EchoResponse) (request : EchoRequest) : Decidable (response.Echoes request) :=
  inferInstanceAs (Decidable (_ ∧ _))

@[simp] theorem EchoRequest.echo_echoes (request : EchoRequest) (ts pt : Int64) :
    (request.echo ts pt).Echoes request := ⟨rfl, rfl⟩

def Text.utf8 (text : Text) : Bytes := text.val.toByteArray.data.toList

theorem Text.length_utf8 (text : Text) : text.utf8.length = text.val.utf8ByteSize := rfl

def Text.fromUtf8? (bytes : Bytes) : Option Text := do
  let s ← String.fromUTF8? ⟨bytes.toArray⟩
  if h : s.utf8ByteSize < 2 ^ 63 then some ⟨s, h⟩ else none

theorem Text.fromUtf8?_utf8 (text : Text) : Text.fromUtf8? text.utf8 = some text := by
  have valid : text.val.toByteArray.IsValidUTF8 := text.val.isValidUTF8
  have decoded : String.fromUTF8? ⟨text.utf8.toArray⟩ = some text.val := by
    have whole : ByteArray.mk text.utf8.toArray = text.val.toByteArray := by
      simp [Text.utf8]
    rw [whole, String.fromUTF8?, dif_pos valid]
    rfl
  unfold Text.fromUtf8?
  rw [decoded]
  exact dif_pos text.property

theorem EchoRequest.some_eta (r : EchoRequest) :
    some (EchoRequest.mk r.message r.timestampNs r.payload) = some r := rfl

theorem EchoResponse.some_eta (r : EchoResponse) :
    some (EchoResponse.mk r.message r.timestampNs r.processingTimeUs r.payload) = some r := rfl

namespace Bincode

def bytes : Format ByteVec :=
  (Format.counted 8).map (fun b => ⟨b.val, b.property.trans (by decide)⟩)
    (fun b => if h : b.val.length < 2 ^ 63 then some ⟨b.val, h⟩ else none)
    (fun b => dif_pos b.property)

def text : Format Text :=
  bytes.map (fun s => ⟨s.utf8, s.property⟩) (fun b => Text.fromUtf8? b.val) Text.fromUtf8?_utf8

def int64 : Format Int64 :=
  (Format.littleEndian 8).map (fun n => ⟨n.toUInt64.toNat, n.toUInt64.toNat_lt⟩)
    (fun n => some (UInt64.ofNat n).toInt64) (fun n => by simp)

def request : Format EchoRequest :=
  (text.pair (int64.pair bytes)).map (fun r => (r.message, r.timestampNs, r.payload))
    (fun p => some ⟨p.1, p.2.1, p.2.2⟩) EchoRequest.some_eta

def response : Format EchoResponse :=
  (text.pair (int64.pair (int64.pair bytes))).map
    (fun r => (r.message, r.timestampNs, r.processingTimeUs, r.payload))
    (fun p => some ⟨p.1, p.2.1, p.2.2.1, p.2.2.2⟩) EchoResponse.some_eta

@[simp] theorem length_bytes (b : ByteVec) : (bytes.encode b).length = 8 + b.val.length := by
  simp [bytes, Format.map, Format.counted]

@[simp] theorem length_text (s : Text) : (text.encode s).length = 8 + s.val.utf8ByteSize := by
  simp [text, Format.map, Text.length_utf8]

@[simp] theorem length_int64 (n : Int64) : (int64.encode n).length = 8 := by
  simp [int64, Format.map, Format.littleEndian]

def requestCodec : Codec (Text × EchoRequest) :=
  (text.pair request).toCodec fun p empty => by
    have := congrArg List.length empty
    simp [Format.pair] at this

def responseCodec : Codec (Text × EchoResponse) :=
  (text.pair response).toCodec fun p empty => by
    have := congrArg List.length empty
    simp [Format.pair] at this

theorem length_requestCodec (id : Text) (r : EchoRequest) :
    (requestCodec.encode (id, r)).length =
      id.val.utf8ByteSize + r.message.val.utf8ByteSize + r.payload.val.length + 32 := by
  simp [requestCodec, Format.toCodec, Format.pair, request, Format.map]
  omega

theorem length_responseCodec (id : Text) (r : EchoResponse) :
    (responseCodec.encode (id, r)).length =
      id.val.utf8ByteSize + r.message.val.utf8ByteSize + r.payload.val.length + 40 := by
  simp [responseCodec, Format.toCodec, Format.pair, response, Format.map]
  omega

end Bincode

end GatewayGrpc.Proto
