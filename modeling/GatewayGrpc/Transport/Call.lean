import GatewayGrpc.Proto.Json
import GatewayGrpc.SharedMemory.Fifo

/-!
# What the calls of all transports share

From here on the rings are queues of whole messages, and the encodings are codecs.
-/

namespace GatewayGrpc.Transport
open Library Proto SharedMemory

inductive CallError
  | write (e : ShmError)
  | timeout
  | deserialize
  | notify
  | closed
  deriving DecidableEq, Repr

def CallError.display (cause : String) : CallError → String
  | .write e => "Failed to write to shared memory: " ++ e.display
  | .timeout => "Request timeout after 30s"
  | .deserialize => "Failed to deserialize response: " ++ cause
  | .notify => cause
  | .closed => "Response channel closed"

structure Codecs (Request Response : Type) where
  request : Codec Request
  response : Codec Response

def jsonCodecs : Codecs EchoRequest EchoResponse := ⟨Json.requestCodec, Json.responseCodec⟩

def bincodeCodecs : Codecs (Text × EchoRequest) (Text × EchoResponse) :=
  ⟨Bincode.requestCodec, Bincode.responseCodec⟩

end GatewayGrpc.Transport
