import GatewayGrpc.Gateway.Answers
import GatewayGrpc.Library.Simulation

/-!
# Every request is answered

Where no client gives up and nothing fails, a few more steps bring the gateway and the backend to
rest, and then every request that was forwarded has its response, unless the response ring refused
an answer. The bound on the bodies is what three copies of a byte as U+FFFD, and one as it is,
leave of a reader's buffer.
-/

namespace GatewayGrpc.Gateway
open Library Proto Transport

structure Resting {Front Act : Type} (codecs : IdCodecs) (link : Link Front Act) where
  calm : Layered Front Exchange → Prop
  internal : Act → Prop
  own : ∀ a, internal a → link.fromCaller a = false
  started : ∀ requestCapacity responseCapacity,
    calm ⟨link.initial, .initial requestCapacity responseCapacity⟩
  asks : ∀ b id request c, calm b → Exchange.FitsReaders codecs link.kind (id, request) →
    Layered.step link.front (Exchange.step codecs link.kind) b (link.ask id request) = some c →
    calm c
  steps : ∀ b a c, calm b → internal a →
    Layered.step link.front (Exchange.step codecs link.kind) b a = some c → calm c
  undisturbed : ∀ b, calm b → b.back.Undisturbed
  rests : ∀ b, calm b → ∃ rest c, (∀ a ∈ rest, internal a) ∧
    run (Layered.step link.front (Exchange.step codecs link.kind)) b rest = some c ∧ calm c ∧
      (∀ a, internal a → Layered.step link.front (Exchange.step codecs link.kind) c a = none) ∧
      c.back.Settled

namespace Handlers
variable {Front Act : Type} {fromSlice : FromSlice} {link : Link Front Act} {codecs : IdCodecs}

/-- Neither a new request nor the end of one by its client. -/
def Action.Internal (resting : Resting codecs link) : Action Act → Prop
  | .transport a => resting.internal a
  | .answer _ _ | .finish _ => True
  | _ => False

/-- Nobody gives up, nothing fails, and what is forwarded fits into the readers' buffers. -/
def Action.Smooth (resting : Resting codecs link) : Action Act → Prop
  | .accept path => path.val.utf8ByteSize ≤ 65460
  | .bodyFailed _ | .answer _ _ | .finish _ => True
  | .forward _ body _ id => id.val.utf8ByteSize = 36 ∧ body.val.length ≤ 16365
  | .transport a => resting.internal a
  | .drop _ => False

structure Calm (resting : Resting codecs link) (s : State Front) : Prop where
  calm : resting.calm s.back
  short : ∀ h ∈ s.front.handlers, h.path.val.utf8ByteSize ≤ 65460

theorem fitsReaders_small (plain : Plain fromSlice) {t : ShmTransport} {path id : Text}
    {body : Body} (ts : Int64) (uuid : id.val.utf8ByteSize = 36) (small : body.val.length ≤ 16365)
    (short : path.val.utf8ByteSize ≤ 65460) :
    Exchange.FitsReaders bincodeCodecs t (id, echoRequest fromSlice path body ts) := by
  apply Exchange.fitsReaders_bincode
  by_cases empty : body.val = []
  · simp only [echoRequest, message, empty, List.isEmpty_nil, if_true, List.length_nil]
    omega
  · have notEmpty : body.val.isEmpty = false := by simpa using empty
    have size : (message fromSlice path body).val.utf8ByteSize ≤ 3 * body.val.length :=
      message_size plain empty
    simp only [echoRequest, notEmpty, Body.payload, Bool.false_eq_true, if_false]
    omega

theorem short_set {handlers : List Handler} {i n : Nat} {h k : Handler}
    (short : ∀ h ∈ handlers, h.path.val.utf8ByteSize ≤ n) (here : handlers[i]? = some h)
    (same : k.path = h.path) : ∀ x ∈ handlers.set i k, x.path.val.utf8ByteSize ≤ n := by
  intro x member
  rcases List.mem_or_eq_of_mem_set member with before | rfl
  · exact short x before
  · exact same ▸ short h (List.mem_of_getElem? here)

theorem Calm.step {resting : Resting bincodeCodecs link} (plain : Plain fromSlice)
    {s u : State Front} {a : Action Act} (calm : Calm resting s) (smooth : a.Smooth resting)
    (action : step fromSlice link bincodeCodecs s a = some u) : Calm resting u := by
  obtain ⟨g, b⟩ := s
  obtain ⟨k, c⟩ := u
  obtain ⟨calm, short⟩ := calm
  obtain ⟨e, effect, second⟩ := step_effect action
  dsimp only at *
  cases effect with
  | accepted path =>
      refine ⟨Option.some.inj second ▸ calm, fun h member => ?_⟩
      rcases List.mem_append.mp member with before | last
      · exact short h before
      · rw [List.mem_singleton.mp last]
        exact smooth
  | bodyFailed here | answered cause here | failed cause here | finished here =>
      exact ⟨Option.some.inj second ▸ calm, short_set short here rfl⟩
  | @forwarded _ h body ts id here collecting =>
      have fits := fitsReaders_small (t := link.kind) plain ts smooth.1 smooth.2
        (short h (List.mem_of_getElem? here))
      exact ⟨resting.asks b id _ c calm fits second, short_set short here rfl⟩
  | transported other => exact ⟨resting.steps b _ c calm smooth second, short⟩
  | droppedEarly | dropped => exact smooth.elim

/-! ## The answers at rest -/

section Answering
variable {s u : State Front}

def Stage.left : Stage → Nat
  | .calling => 2
  | .responding _ => 1
  | _ => 0

def left (handlers : List Handler) : Nat := (handlers.map fun h => Stage.left h.stage).sum

theorem finish_isSome {i : Nat} {h : Handler} {response : HttpResponse}
    (here : s.front.handlers[i]? = some h) (responding : h.stage = .responding response) :
    (step fromSlice link codecs s (.finish i)).isSome := by
  simp [step, Layered.step, Layered.advance, front, here, responding]

end Answering

end Handlers

end GatewayGrpc.Gateway
