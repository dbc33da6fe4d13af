import GatewayGrpc.Library.Run
import GatewayGrpc.Transport.Call
import Mathlib.Data.List.Forall2

/-!
# The polling transport

`ShmTransport::call` against `run_shm_server`. A call writes its request under the request lock and
then polls the response ring, taking whatever answer is the oldest. The backend is one loop: it
answers a request before it reads the next.
-/

namespace GatewayGrpc.Transport
open Library Proto SharedMemory

namespace Polling

inductive Phase
  | sending
  | polling
  | returned (result : Except CallError EchoResponse)
  | dropped
  deriving DecidableEq

structure Call where
  request : EchoRequest
  phase : Phase
  deriving DecidableEq

end Polling

/-- `line` is history: the calls whose requests were accepted and whose answers were neither taken
nor lost, in the order of their requests. -/
structure Polling where
  calls : List Polling.Call
  requestRing : Fifo
  backend : Option EchoRequest
  responseRing : Fifo
  line : List Nat

namespace Polling

inductive Action
  | call (request : EchoRequest)
  | write (i : Nat)
  | timeout (i : Nat)
  | drop (i : Nat)
  | poll (i : Nat)
  | serve
  | answer (timestampNs processingTimeUs : Int64)

def initial (requestCapacity responseCapacity : Nat) : Polling where
  calls := []
  requestRing := .empty requestCapacity
  backend := none
  responseRing := .empty responseCapacity
  line := []

def phase? (s : Polling) (i : Nat) : Option Phase := s.calls[i]?.map Call.phase

def request? (s : Polling) (i : Nat) : Option EchoRequest := s.calls[i]?.map Call.request

def setPhase (s : Polling) (i : Nat) (phase : Phase) : Polling :=
  { s with calls := s.calls.modify i fun call => { call with phase := phase } }

def bufSize : Nat := 65536

variable (codecs : Codecs EchoRequest EchoResponse)

def step (s : Polling) : Action → Option Polling
  | .call request => some { s with calls := s.calls ++ [⟨request, .sending⟩] }
  | .write i => do
      let request ← s.request? i
      guard (s.phase? i = some .sending)
      match s.requestRing.write (codecs.request.encode request) with
      | (.ok _, ring) =>
          some { s.setPhase i .polling with requestRing := ring, line := s.line ++ [i] }
      | (.error e, _) => some (s.setPhase i (.returned (.error (.write e))))
  | .timeout i => do
      guard (s.phase? i = some .polling)
      some (s.setPhase i (.returned (.error .timeout)))
  | .drop i => do
      guard (s.phase? i = some .sending ∨ s.phase? i = some .polling)
      some (s.setPhase i .dropped)
  | .poll i => do
      guard (s.phase? i = some .polling)
      match s.responseRing.read bufSize with
      | (.error _, _) => some s
      | (.ok m, ring) =>
          let result := match codecs.response.decode m with
            | some response => .ok response
            | none => .error .deserialize
          some { s.setPhase i (.returned result) with responseRing := ring, line := s.line.tail }
  | .serve => do
      guard (s.backend = none)
      match s.requestRing.read bufSize with
      | (.error _, _) => some s
      | (.ok m, ring) =>
          match codecs.request.decode m with
          | some request => some { s with requestRing := ring, backend := some request }
          | none =>
              some { s with
                requestRing := ring, line := s.line.eraseIdx s.responseRing.messages.length }
  | .answer ts pt => do
      let request ← s.backend
      match s.responseRing.write (codecs.response.encode (request.echo ts pt)) with
      | (.ok _, ring) => some { s with backend := none, responseRing := ring }
      | (.error _, _) =>
          some { s with backend := none, line := s.line.eraseIdx s.responseRing.messages.length }

/-! ## What a step does -/

section Phases
variable (s : Polling) (i j : Nat) (phase : Phase)

@[simp] theorem request?_setPhase : (s.setPhase i phase).request? j = s.request? j := by
  simp only [request?, setPhase, List.getElem?_modify]
  cases s.calls[j]? with
  | none => rfl
  | some call =>
      simp only [Option.map_some]
      split <;> rfl

theorem phase?_setPhase : (s.setPhase i phase).phase? j =
    if i = j then (s.phase? j).map fun _ => phase else s.phase? j := by
  simp only [phase?, setPhase, List.getElem?_modify]
  cases s.calls[j]? with
  | none => split <;> rfl
  | some call =>
      simp only [Option.map_some]
      split <;> rfl

end Phases

def Phase.Live : Phase → Prop
  | .sending | .polling => True
  | _ => False

def Phase.Over : Phase → Prop
  | .returned (.ok _) => False
  | .polling => False
  | _ => True

inductive Effect (s : Polling) : Action → Polling → Prop
  | called (request : EchoRequest) :
      Effect s (.call request) { s with calls := s.calls ++ [⟨request, .sending⟩] }
  | wrote {i : Nat} {request : EchoRequest} (asks : s.request? i = some request)
      (here : s.phase? i = some .sending) :
      Effect s (.write i) { s.setPhase i .polling with
        requestRing := { s.requestRing with
          messages := s.requestRing.messages ++ [codecs.request.encode request] }
        line := s.line ++ [i] }
  | ended {a : Action} {i : Nat} {before phase : Phase} (here : s.phase? i = some before)
      (live : before.Live) (terminal : phase.Over) (noPoll : ∀ i, a ≠ .poll i) :
      Effect s a (s.setPhase i phase)
  | idle {a : Action}
      (noPoll : ∀ i, a = .poll i → ∃ e ring, s.responseRing.read bufSize = (.error e, ring)) :
      Effect s a s
  | took {i : Nat} {m : Message} {ring : Fifo} (here : s.phase? i = some .polling)
      (read : s.responseRing.read bufSize = (.ok m, ring)) :
      Effect s (.poll i) { s.setPhase i (.returned (match codecs.response.decode m with
          | some response => .ok response
          | none => .error .deserialize)) with
        responseRing := ring
        line := s.line.tail }
  | served {m : Message} {ring : Fifo} {request : EchoRequest} (free : s.backend = none)
      (read : s.requestRing.read bufSize = (.ok m, ring))
      (decoded : codecs.request.decode m = some request) :
      Effect s .serve { s with requestRing := ring, backend := some request }
  | skipped {m : Message} {ring : Fifo} (free : s.backend = none)
      (read : s.requestRing.read bufSize = (.ok m, ring))
      (garbled : codecs.request.decode m = none) :
      Effect s .serve { s with
        requestRing := ring
        line := s.line.eraseIdx s.responseRing.messages.length }
  | answered {request : EchoRequest} (ts pt : Int64) (busy : s.backend = some request) :
      Effect s (.answer ts pt) { s with
        backend := none
        responseRing := { s.responseRing with
          messages := s.responseRing.messages ++ [codecs.response.encode (request.echo ts pt)] } }
  | lost {request : EchoRequest} (ts pt : Int64) (busy : s.backend = some request) :
      Effect s (.answer ts pt) { s with
        backend := none
        line := s.line.eraseIdx s.responseRing.messages.length }

variable {codecs}

theorem step_effect {s t : Polling} {a : Action} (action : step codecs s a = some t) :
    Effect codecs s a t := by
  cases a with
  | call request =>
      cases action
      exact .called request
  | write i =>
      obtain ⟨request, asks, action⟩ := Option.bind_eq_some_iff.mp action
      obtain ⟨here, action⟩ := guard_bind_eq_some.mp action
      split at action
      · rename_i written
        obtain ⟨_, rfl⟩ := Fifo.write_eq_ok written
        cases action
        exact .wrote asks here
      · cases action
        exact .ended here trivial trivial (by simp)
  | timeout i =>
      obtain ⟨here, action⟩ := guard_bind_eq_some.mp action
      cases action
      exact .ended here trivial trivial (by simp)
  | drop i =>
      obtain ⟨here, action⟩ := guard_bind_eq_some.mp action
      cases action
      rcases here with here | here
      · exact .ended here trivial trivial (by simp)
      · exact .ended here trivial trivial (by simp)
  | poll i =>
      obtain ⟨here, action⟩ := guard_bind_eq_some.mp action
      split at action
      · rename_i e ring read
        cases action
        exact .idle fun _ _ => ⟨e, ring, read⟩
      · rename_i m ring read
        cases action
        exact .took here read
  | serve =>
      obtain ⟨free, action⟩ := guard_bind_eq_some.mp action
      split at action
      · cases action
        exact .idle (by simp)
      · rename_i m ring read
        split at action
        · rename_i request decoded
          cases action
          exact .served free read decoded
        · rename_i garbled
          cases action
          exact .skipped free read garbled
  | answer ts pt =>
      simp only [step, Option.bind_eq_bind, Option.bind_eq_some_iff] at action
      obtain ⟨request, busy, action⟩ := action
      split at action
      · rename_i written
        obtain ⟨_, rfl⟩ := Fifo.write_eq_ok written
        cases action
        exact .answered ts pt busy
      · cases action
        exact .lost ts pt busy

/-! ## Whose message is where -/

variable (codecs) in
def RequestOf (asks : Nat → Option EchoRequest) (i : Nat) (m : Message) : Prop :=
  ∃ request, asks i = some request ∧ m = codecs.request.encode request

variable (codecs) in
def AnswerOf (asks : Nat → Option EchoRequest) (i : Nat) (m : Message) : Prop :=
  ∃ request ts pt, asks i = some request ∧ m = codecs.response.encode (request.echo ts pt)

variable (codecs) in
/-- The line from its head: the answers in the ring, the request at work, the requests in the
ring. -/
structure InLine (s : Polling) (answers working waiting : List Nat) : Prop where
  line : s.line = answers ++ (working ++ waiting)
  answered : List.Forall₂ (AnswerOf codecs s.request?) answers s.responseRing.messages
  busy : List.Forall₂ (fun i request => s.request? i = some request) working s.backend.toList
  waits : List.Forall₂ (RequestOf codecs s.request?) waiting s.requestRing.messages

variable (codecs) in
def Lined (s : Polling) : Prop := ∃ answers working waiting, InLine codecs s answers working waiting

theorem inLine_initial (requestCapacity responseCapacity : Nat) :
    InLine codecs (initial requestCapacity responseCapacity) [] [] [] :=
  ⟨rfl, .nil, .nil, .nil⟩

theorem request?_append {s : Polling} {i : Nat} {request : EchoRequest} (last : Call)
    (asks : s.request? i = some request) :
    request? { s with calls := s.calls ++ [last] } i = some request := by
  obtain ⟨call, here, rfl⟩ := Option.map_eq_some_iff.mp asks
  have inside : i < s.calls.length := (List.getElem?_eq_some_iff.mp here).1
  simp only [request?, List.getElem?_append_left inside, here, Option.map_some]

namespace InLine
variable {s t : Polling} {answers working waiting : List Nat}

theorem head (inLine : InLine codecs s answers working waiting) {m : Message} {rest : List Message}
    (held : s.responseRing.messages = m :: rest) :
    ∃ i others, answers = i :: others ∧ s.line.head? = some i ∧ AnswerOf codecs s.request? i m ∧
      List.Forall₂ (AnswerOf codecs s.request?) others rest := by
  have answered := inLine.answered
  rw [held] at answered
  obtain ⟨i, others, here, behind, rfl⟩ := List.forall₂_cons_right_iff.mp answered
  exact ⟨i, others, rfl, by simp [inLine.line], here, behind⟩

theorem working_eq_nil (inLine : InLine codecs s answers working waiting)
    (free : s.backend = none) : working = [] := by
  have busy := inLine.busy
  rw [free] at busy
  exact List.forall₂_nil_right_iff.mp busy

theorem working_eq_singleton (inLine : InLine codecs s answers working waiting)
    {request : EchoRequest} (busy : s.backend = some request) :
    ∃ i, working = [i] ∧ s.request? i = some request := by
  have one := inLine.busy
  rw [busy] at one
  obtain ⟨i, others, asks, none, rfl⟩ := List.forall₂_cons_right_iff.mp one
  obtain rfl := List.forall₂_nil_right_iff.mp none
  exact ⟨i, rfl, asks⟩

theorem eraseIdx (inLine : InLine codecs s answers working waiting) {i : Nat}
    (alone : working = [i]) :
    s.line.eraseIdx s.responseRing.messages.length = answers ++ waiting := by
  rw [inLine.line, alone, ← inLine.answered.length_eq,
    List.eraseIdx_append_of_length_le (Nat.le_refl _), Nat.sub_self]
  rfl

end InLine

theorem Lined.effect {s t : Polling} {a : Action} (lined : Lined codecs s)
    (effect : Effect codecs s a t) : Lined codecs t := by
  obtain ⟨answers, working, waiting, inLine⟩ := lined
  cases effect with
  | called request =>
      have keeps : ∀ {i r}, s.request? i = some r →
          request? { s with calls := s.calls ++ [⟨request, .sending⟩] } i = some r :=
        fun asks => request?_append _ asks
      exact ⟨answers, working, waiting, inLine.line,
        inLine.answered.imp fun _ _ ⟨r, ts, pt, asks, encoded⟩ => ⟨r, ts, pt, keeps asks, encoded⟩,
        inLine.busy.imp fun _ _ asks => keeps asks,
        inLine.waits.imp fun _ _ ⟨r, asks, encoded⟩ => ⟨r, keeps asks, encoded⟩⟩
  | @wrote i request asks here =>
      have same : (s.setPhase i .polling).request? = s.request? := funext fun _ => by simp
      refine ⟨answers, working, waiting ++ [i], by simp [inLine.line], ?_, ?_, ?_⟩
      · exact same.symm ▸ inLine.answered
      · exact same.symm ▸ inLine.busy
      · exact same.symm ▸ List.rel_append inLine.waits (.cons ⟨request, asks, rfl⟩ .nil)
  | @ended _ i _ phase _ _ _ _ =>
      have same : (s.setPhase i phase).request? = s.request? := funext fun _ => by simp
      exact ⟨answers, working, waiting, inLine.line, same.symm ▸ inLine.answered,
        same.symm ▸ inLine.busy, same.symm ▸ inLine.waits⟩
  | idle => exact ⟨answers, working, waiting, inLine⟩
  | @took i m ring here read =>
      obtain ⟨_, held, _⟩ := Fifo.read_eq_ok read
      obtain ⟨first, others, rfl, _, _, behind⟩ := inLine.head held
      have same : ∀ phase, (s.setPhase i phase).request? = s.request? :=
        fun _ => funext fun _ => by simp
      exact ⟨others, working, waiting, by simp [inLine.line], (same _).symm ▸ behind,
        (same _).symm ▸ inLine.busy, (same _).symm ▸ inLine.waits⟩
  | @served m ring request free read decoded =>
      obtain ⟨_, held, _⟩ := Fifo.read_eq_ok read
      obtain rfl := inLine.working_eq_nil free
      have waits := inLine.waits
      rw [held] at waits
      obtain ⟨i, others, ⟨own, asks, rfl⟩, behind, rfl⟩ := List.forall₂_cons_right_iff.mp waits
      rw [codecs.request.decode_encode, Option.some.injEq] at decoded
      exact ⟨answers, [i], others, inLine.line, inLine.answered, .cons (decoded ▸ asks) .nil,
        behind⟩
  | @skipped m ring free read garbled =>
      obtain ⟨_, held, _⟩ := Fifo.read_eq_ok read
      have waits := inLine.waits
      rw [held] at waits
      obtain ⟨i, others, ⟨own, asks, rfl⟩, behind, rfl⟩ := List.forall₂_cons_right_iff.mp waits
      rw [codecs.request.decode_encode] at garbled
      cases garbled
  | @answered request ts pt busy =>
      obtain ⟨i, rfl, asks⟩ := inLine.working_eq_singleton busy
      exact ⟨answers ++ [i], [], waiting, by simp [inLine.line],
        List.rel_append inLine.answered (.cons ⟨request, ts, pt, asks, rfl⟩ .nil), .nil,
        inLine.waits⟩
  | @lost request ts pt busy =>
      obtain ⟨i, rfl, asks⟩ := inLine.working_eq_singleton busy
      exact ⟨answers, [], waiting, inLine.eraseIdx rfl, inLine.answered, .nil, inLine.waits⟩

/-! ## Who takes an answer -/

/-- A call that takes an answer asked for the same as the call at the head of the line. -/
def TakesOwn (s : Polling) : Action → Prop
  | .poll i =>
      ∀ _m ∈ (s.responseRing.read bufSize).1.toOption, ∀ first ∈ s.line.head?,
        ∀ own ∈ s.request? i, ∀ other ∈ s.request? first,
          other.message = own.message ∧ other.payload = own.payload
  | _ => True

/-- A request is written when no other is on its way, no answer is unread and no call polls. -/
def Serial (s : Polling) : Action → Prop
  | .write _ =>
      s.requestRing.messages = [] ∧ s.backend = none ∧ s.responseRing.messages = [] ∧
        ∀ call ∈ s.calls, call.phase ≠ .polling
  | _ => True

instance (s : Polling) (a : Action) : Decidable (s.Serial a) :=
  match a with
  | .write _ => inferInstanceAs (Decidable (_ ∧ _))
  | .call _ | .timeout _ | .drop _ | .poll _ | .serve | .answer _ _ => .isTrue trivial

def OwnAnswers (s : Polling) : Prop :=
  ∀ i request response, s.request? i = some request →
    s.phase? i = some (.returned (.ok response)) → response.Echoes request

theorem ownAnswers_congr {s t : Polling} (same : t.calls = s.calls) :
    t.OwnAnswers ↔ s.OwnAnswers := by
  simp only [OwnAnswers, request?, phase?, same]

theorem ownAnswers_setPhase {s : Polling} {i : Nat} {before : Phase}
    (here : s.phase? i = some before) (live : before.Live) (phase : Phase) :
    (s.setPhase i phase).OwnAnswers ↔ s.OwnAnswers ∧
      ∀ request response, s.request? i = some request → phase = .returned (.ok response) →
        response.Echoes request := by
  constructor
  · intro own
    refine ⟨fun j request response asks done => ?_, fun request response asks done => ?_⟩
    · by_cases same : i = j
      · subst same
        rw [here] at done
        cases done
        exact live.elim
      · apply own j request response (by simpa using asks)
        rwa [phase?_setPhase, if_neg same]
    · apply own i request response (by simpa using asks)
      rw [phase?_setPhase, if_pos rfl, here, done]
      rfl
  · rintro ⟨own, new⟩ j request response asks done
    rw [request?_setPhase] at asks
    rw [phase?_setPhase] at done
    split at done
    · subst_vars
      rw [here] at done
      exact new request response asks (Option.some.inj done)
    · exact own j request response asks done

theorem ownAnswers_call (s : Polling) (request : EchoRequest) :
    OwnAnswers { s with calls := s.calls ++ [⟨request, .sending⟩] } ↔ s.OwnAnswers := by
  constructor
  · intro own j asked response asks done
    obtain ⟨call, here, finished⟩ := Option.map_eq_some_iff.mp done
    have inside : j < s.calls.length := (List.getElem?_eq_some_iff.mp here).1
    refine own j asked response (request?_append _ asks) ?_
    simp only [phase?, List.getElem?_append_left inside, here, Option.map_some, finished]
  · intro own j asked response asks done
    simp only [request?, phase?] at asks done
    rcases Nat.lt_or_ge j s.calls.length with inside | outside
    · rw [List.getElem?_append_left inside] at asks done
      exact own j asked response asks done
    · rw [List.getElem?_append_right outside] at done
      obtain ⟨call, here, finished⟩ := Option.map_eq_some_iff.mp done
      have last := List.mem_of_getElem? here
      rw [List.mem_singleton.mp last] at finished
      cases finished

theorem ownAnswers_effect {s t : Polling} {a : Action} (lined : Lined codecs s)
    (effect : Effect codecs s a t) : t.OwnAnswers ↔ s.OwnAnswers ∧ s.TakesOwn a := by
  cases effect with
  | called request => simpa [TakesOwn] using ownAnswers_call s request
  | @wrote i request asks here =>
      refine (ownAnswers_setPhase here trivial .polling).trans (and_congr_right fun _ => ?_)
      simp [TakesOwn]
  | @ended _ i before phase here live terminal noPoll =>
      rw [ownAnswers_setPhase here live]
      refine and_congr_right fun _ => iff_of_true ?_ ?_
      · rintro request response _ rfl
        exact terminal.elim
      · cases a with
        | poll i => exact absurd rfl (noPoll i)
        | _ => trivial
  | idle noPoll =>
      refine (and_iff_left ?_).symm
      cases a with
      | poll i =>
          obtain ⟨e, ring, read⟩ := noPoll i rfl
          intro m member
          rw [read] at member
          cases member
      | _ => trivial
  | @took i m ring here read =>
      obtain ⟨answers, working, waiting, inLine⟩ := lined
      obtain ⟨_, held, _⟩ := Fifo.read_eq_ok read
      obtain ⟨first, others, _, atHead, ⟨other, ts, pt, asks, rfl⟩, _⟩ := inLine.head held
      refine (ownAnswers_setPhase here trivial _).trans (and_congr_right fun _ => ?_)
      constructor
      · intro echoes x _ j member own ownAsks request firstAsks
        cases atHead.symm.trans member
        cases asks.symm.trans firstAsks
        exact echoes own (other.echo ts pt) ownAsks (by simp)
      · intro takes own response ownAsks done
        simp only [Codec.decode_encode, Phase.returned.injEq, Except.ok.injEq] at done
        subst done
        exact takes _ (by rw [read]; rfl) first atHead own ownAsks other asks
  | served | skipped | answered | lost =>
      exact (ownAnswers_congr rfl).trans (and_iff_left trivial).symm

/-! ## Serial calls -/

def Alone (s : Polling) : Prop := ∀ i, s.phase? i = some .polling → ∀ j ∈ s.line, j = i

theorem polling_of_setPhase {s : Polling} {i j : Nat} {phase : Phase} (other : phase ≠ .polling)
    (polls : (s.setPhase i phase).phase? j = some .polling) : s.phase? j = some .polling := by
  rw [phase?_setPhase] at polls
  split at polls
  · obtain ⟨_, _, same⟩ := Option.map_eq_some_iff.mp polls
    exact absurd same other
  · exact polls

theorem polling_of_call {s : Polling} {request : EchoRequest} {j : Nat}
    (polls : phase? { s with calls := s.calls ++ [⟨request, .sending⟩] } j = some .polling) :
    s.phase? j = some .polling := by
  simp only [phase?] at polls ⊢
  rcases Nat.lt_or_ge j s.calls.length with inside | outside
  · rwa [List.getElem?_append_left inside] at polls
  · rw [List.getElem?_append_right outside] at polls
    obtain ⟨call, here, finished⟩ := Option.map_eq_some_iff.mp polls
    have last := List.mem_of_getElem? here
    rw [List.mem_singleton.mp last] at finished
    cases finished

theorem Lined.line_eq_nil {s : Polling} (lined : Lined codecs s)
    (requests : s.requestRing.messages = []) (free : s.backend = none)
    (responses : s.responseRing.messages = []) : s.line = [] := by
  obtain ⟨answers, working, waiting, inLine⟩ := lined
  have answered := inLine.answered
  have waits := inLine.waits
  rw [responses] at answered
  rw [requests] at waits
  rw [inLine.line, List.forall₂_nil_right_iff.mp answered, inLine.working_eq_nil free,
    List.forall₂_nil_right_iff.mp waits]
  rfl

theorem Alone.effect {s t : Polling} {a : Action} (lined : Lined codecs s) (alone : s.Alone)
    (serial : s.Serial a) (effect : Effect codecs s a t) : t.Alone := by
  cases effect with
  | called request => exact fun i polls j member => alone i (polling_of_call polls) j member
  | @wrote i request asks here =>
      obtain ⟨requests, free, responses, nobody⟩ := serial
      intro k polls j member
      have polls : (s.setPhase i .polling).phase? k = some .polling := polls
      rw [phase?_setPhase] at polls
      split at polls
      · rw [lined.line_eq_nil requests free responses] at member
        subst_vars
        exact List.mem_singleton.mp member
      · obtain ⟨call, found, polling⟩ := Option.map_eq_some_iff.mp polls
        exact absurd polling (nobody call (List.mem_of_getElem? found))
  | @ended _ i before phase here live terminal noPoll =>
      intro k polls
      refine alone k (polling_of_setPhase ?_ polls)
      rintro rfl
      exact terminal.elim
  | idle => exact alone
  | @took i m ring here read =>
      intro k polls j member
      exact alone k (polling_of_setPhase (by simp) polls) j (List.mem_of_mem_tail member)
  | served => exact alone
  | skipped => exact fun i polls j member => alone i polls j (List.mem_of_mem_eraseIdx member)
  | answered => exact alone
  | lost => exact fun i polls j member => alone i polls j (List.mem_of_mem_eraseIdx member)

theorem Alone.takesOwn {s t : Polling} {a : Action} (alone : s.Alone)
    (effect : Effect codecs s a t) : s.TakesOwn a := by
  cases effect with
  | @took i m ring here read =>
      intro _ _ first atHead own ownAsks other asks
      obtain rfl := alone i here first (List.mem_of_mem_head? atHead)
      cases ownAsks.symm.trans asks
      exact ⟨rfl, rfl⟩
  | @idle a noPoll =>
      cases a with
      | poll i =>
          obtain ⟨e, ring, read⟩ := noPoll i rfl
          intro m member
          rw [read] at member
          cases member
      | _ => trivial
  | @ended a i before phase here live terminal noPoll =>
      cases a with
      | poll i => exact absurd rfl (noPoll i)
      | _ => trivial
  | _ => trivial

/-- Every answer goes to a caller that asked for it exactly if the calls take the answers in the
order in which their requests were accepted, up to equal requests. Serial calls do. -/
theorem own_answers_iff (codecs : Codecs EchoRequest EchoResponse)
    (requestCapacity responseCapacity : Nat) (actions : List Action) (s : Polling)
    (ran : run (step codecs) (initial requestCapacity responseCapacity) actions = some s) :
    ((∀ i request response, s.request? i = some request →
        s.phase? i = some (.returned (.ok response)) → response.Echoes request) ↔
      Along (step codecs) TakesOwn (initial requestCapacity responseCapacity) actions) ∧
    (Along (step codecs) Serial (initial requestCapacity responseCapacity) actions →
      Along (step codecs) TakesOwn (initial requestCapacity responseCapacity) actions) := by
  have start : Lined codecs (initial requestCapacity responseCapacity) :=
    ⟨[], [], [], inLine_initial _ _⟩
  constructor
  · have exact := run_iff_along (fun _ _ _ lined action => lined.effect (step_effect action))
      (fun _ _ _ lined action => ownAnswers_effect lined (step_effect action)) start ran
    refine exact.trans (and_iff_right ?_)
    intro i request response asks
    cases asks
  · intro serial
    refine Along.imp (fun s a t (inv : Lined codecs s ∧ s.Alone) serial action =>
      ⟨inv.1.effect (step_effect action), inv.2.effect inv.1 serial (step_effect action)⟩)
      (fun s a t inv _ action => inv.2.takesOwn (step_effect action)) ⟨start, ?_⟩ serial ran
    intro i polls
    cases polls

def ask (message : String) (small : message.utf8ByteSize < 2 ^ 63) : EchoRequest :=
  ⟨⟨message, small⟩, 0, ⟨[], by decide⟩⟩

def serialRun : List Action :=
  [.call (ask "a" (by decide)), .write 0, .serve, .answer 5 6, .poll 0,
    .call (ask "b" (by decide)), .write 1, .serve, .answer 7 8, .poll 1]

theorem own_answers_iff_serial :
    Along (step jsonCodecs) TakesOwn (initial 4096 4096) serialRun := by
  have ran : (run (step jsonCodecs) (initial 4096 4096) serialRun).isSome := rfl
  exact (own_answers_iff jsonCodecs 4096 4096 serialRun _ (Option.some_get ran).symm).2
    (by decide +kernel)

def overtakingRun : List Action :=
  [.call (ask "a" (by decide)), .call (ask "b" (by decide)), .write 0, .write 1, .serve,
    .answer 5 6, .poll 1]

theorem overtaking_call_misled :
    ¬ ∀ (actions : List Action) (s : Polling),
      run (step jsonCodecs) (initial ShmConfig.default.bufferSize ShmConfig.default.bufferSize)
        actions = some s →
      ∀ i request response, s.request? i = some request →
        s.phase? i = some (.returned (.ok response)) → response.Echoes request := by
  intro own
  have ran : (run (step jsonCodecs) (initial ShmConfig.default.bufferSize
      ShmConfig.default.bufferSize) overtakingRun).isSome := rfl
  have echoes := own overtakingRun _ (Option.some_get ran).symm 1 (ask "b" (by decide))
    ((ask "a" (by decide)).echo 5 6) rfl rfl
  revert echoes
  decide

end Polling

end GatewayGrpc.Transport
