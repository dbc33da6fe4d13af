import GatewayGrpc.Library.Utf8
import GatewayGrpc.Proto.Json
import GatewayGrpc.Transport.Call

/-!
# HTTP requests and responses

What `handle_request` makes of the body of a request, and of the result of the call. The JSON parser
is `serde_json`'s; all that is asked of a value is the string under `message`.
-/

namespace GatewayGrpc.Gateway
open Library Proto Transport

inductive Value
  | null
  | bool (b : Bool)
  | number (digits : Text)
  | string (s : Text)
  | array (items : List Value)
  | object (fields : List (Text × Value))

def Value.get (key : String) : Value → Option Value
  | .object fields => (fields.find? fun field => field.1.val = key).map Prod.snd
  | _ => none

def Value.asStr : Value → Option Text
  | .string s => some s
  | _ => none

/-- A body whose text, three times as long at most, still fits into a `String`. -/
abbrev Body := { bytes : Bytes // 3 * bytes.length < 2 ^ 63 }

def Body.lossy (body : Body) : Text :=
  ⟨fromUtf8Lossy body.val, (fromUtf8Lossy_size body.val).trans_lt body.property⟩

def Body.payload (body : Body) : ByteVec := ⟨body.val, by have := body.property; omega⟩

abbrev FromSlice := Bytes → Option Value

theorem utf8ByteSize_empty_lt : "".utf8ByteSize < 2 ^ 63 := by decide

theorem length_nil_lt : ([] : Bytes).length < 2 ^ 63 := by decide

def message (fromSlice : FromSlice) (path : Text) (body : Body) : Text :=
  if body.val.isEmpty then path
  else
    match fromSlice body.val with
    | some json => ((json.get "message").bind Value.asStr).getD ⟨"", utf8ByteSize_empty_lt⟩
    | none => body.lossy

def echoRequest (fromSlice : FromSlice) (path : Text) (body : Body) (timestampNs : Int64) :
    EchoRequest where
  message := message fromSlice path body
  timestampNs := timestampNs
  payload := if body.val.isEmpty then ⟨[], length_nil_lt⟩ else body.payload

structure HttpResponse where
  status : Nat
  contentType : Option String
  body : Bytes
  deriving DecidableEq, Repr

theorem ofInt_toInt (n : Int64) : some (Int64.ofInt n.toInt) = some n := by simp

def lastInt64 : Format Int64 :=
  (Json.integer 0x7D (by decide)).map (fun n => n.toInt) (fun n => some (Int64.ofInt n)) ofInt_toInt

def reply : Format (Text × Int64 × Int64) :=
  (Json.text.after (Json.ascii "\x7b\"message\":")).pair
    ((Json.int64.after (Json.ascii ",\"processing_time_us\":")).pair
      (lastInt64.after (Json.ascii "\"timestamp_ns\":")))

def badRequest : HttpResponse := ⟨400, none, Json.ascii "Bad Request"⟩

def forwarded (response : EchoResponse) : HttpResponse :=
  ⟨200, some "application/json",
    reply.encode (response.message, response.processingTimeUs, response.timestampNs)⟩

def unavailable (error : CallError) (cause : String) : HttpResponse :=
  ⟨503, none, Json.ascii ("Service Unavailable: " ++ error.display cause)⟩

def respond (cause : String) : Except CallError EchoResponse → HttpResponse
  | .ok response => forwarded response
  | .error error => unavailable error cause

example : (forwarded ⟨⟨"hi", by decide⟩, 7, 1000, ⟨[1], by decide⟩⟩).body =
    Json.ascii "\x7b\"message\":\"hi\",\"processing_time_us\":1000,\"timestamp_ns\":7\x7d" := by
  decide

theorem reply_forwarded (response : EchoResponse) :
    reply.parse (forwarded response).body =
      some ((response.message, response.processingTimeUs, response.timestampNs), []) := by
  have := reply.parse_encode (response.message, response.processingTimeUs, response.timestampNs) []
  rwa [List.append_nil] at this

theorem message_of_text {fromSlice : FromSlice} {path text : Text} {body : Body}
    (bytes : body.val = text.utf8) (nonempty : body.val ≠ [])
    (plain : fromSlice body.val = none) : message fromSlice path body = text := by
  have notEmpty : body.val.isEmpty = false := by simpa using nonempty
  rw [message, notEmpty, plain]
  apply Subtype.ext
  change fromUtf8Lossy body.val = text.val
  rw [bytes]
  exact fromUtf8Lossy_utf8 text.val

/-- The strings of a JSON text are no longer than the text: an escape is longer than what it stands
for. -/
def Plain (fromSlice : FromSlice) : Prop :=
  ∀ bytes json s, fromSlice bytes = some json → (json.get "message").bind Value.asStr = some s →
    s.val.utf8ByteSize ≤ bytes.length

theorem message_size {fromSlice : FromSlice} (plain : Plain fromSlice) {path : Text} {body : Body}
    (nonempty : body.val ≠ []) :
    (message fromSlice path body).val.utf8ByteSize ≤ 3 * body.val.length := by
  have notEmpty : body.val.isEmpty = false := by simpa using nonempty
  simp only [message, notEmpty, Bool.false_eq_true, if_false]
  cases parsed : fromSlice body.val with
  | none => exact fromUtf8Lossy_size body.val
  | some json =>
      cases found : (json.get "message").bind Value.asStr with
      | none => simp [found]
      | some s =>
          have := plain _ _ _ parsed found
          simp only [found, Option.getD_some]
          omega

end GatewayGrpc.Gateway
