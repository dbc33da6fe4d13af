import GatewayGrpc.Library.Simulation
import GatewayGrpc.Transport.Correlation
import GatewayGrpc.Transport.Wire

/-!
# The id-based transports over the bytes of the rings

`Exchange` takes its rings as queues. Here the same parties write to the mapped rings and read from
them into buffers that are used again for every message. As long as no length prefix crosses the end
of a ring, the two take the same steps, with the same messages.
-/

namespace GatewayGrpc.Transport
open Library Proto SharedMemory

structure Parties where
  calls : List Call
  pendingRequests : Text → Option Nat
  tasks : List Task
  inHand : Option (Text × EchoResponse)
  handled : List (Text × EchoResponse)
  sends : List (Text × Nat)

def Exchange.parties (s : Exchange) : Parties :=
  ⟨s.calls, s.pendingRequests, s.tasks, s.inHand, s.handled, s.sends⟩

def Parties.onRings (p : Parties) (requestRing responseRing : Fifo) : Exchange :=
  ⟨p.calls, p.pendingRequests, requestRing, p.tasks, responseRing, p.inHand, p.handled, p.sends⟩

def Parties.alone (p : Parties) : Exchange := p.onRings (.empty 0) (.empty 0)

def Parties.setCall (p : Parties) (i : Nat) (call : Call) : Parties :=
  { p with calls := p.calls.set i call }

def Parties.setTask (p : Parties) (j : Nat) (task : Task) : Parties :=
  { p with tasks := p.tasks.set j task }

structure Mapping where
  ring : SharedMemoryRingBuffer
  buf : Bytes

namespace Mapping

def write (m : Mapping) (data : Message) : Outcome Nat × Mapping :=
  ((m.ring.write data).1, { m with ring := (m.ring.write data).2 })

def read (m : Mapping) : Outcome Message × Mapping :=
  match m.ring.read m.buf with
  | (.ok n, buf, ring) => (.ok (buf.take n), ⟨ring, buf⟩)
  | (.err e, buf, ring) => (.err e, ⟨ring, buf⟩)
  | (.panic, buf, ring) => (.panic, ⟨ring, buf⟩)

end Mapping

structure Mapped where
  parties : Parties
  requests : Mapping
  responses : Mapping

namespace Mapped

def initial (t : ShmTransport) (requestCapacity responseCapacity : Nat)
    (requestData responseData : Nat → UInt8) : Mapped where
  parties := (Exchange.initial requestCapacity responseCapacity).parties
  requests := ⟨.fresh requestCapacity requestData, zeros t.requestBuf⟩
  responses := ⟨.fresh responseCapacity responseData, zeros t.responseBuf⟩

variable (codecs : IdCodecs) (t : ShmTransport)

/-- The events of the exchange. A panic ends the process. -/
def step (s : Mapped) : Exchange.Event → Option Mapped
  | .write i => do
      let call ← s.parties.calls[i]?
      guard (call.phase = .registered)
      match s.requests.write (codecs.request.encode (call.id, call.request)) with
      | (.ok _, requests) =>
          some { s with
            parties := s.parties.setCall i { call with phase := .written, accepted := true }
            requests := requests }
      | (.err e, requests) =>
          some { s with
            parties := s.parties.setCall i { call with phase := .returned (.error (.write e)) }
            requests := requests }
      | (.panic, _) => none
  | .serve =>
      match s.requests.read with
      | (.ok m, requests) =>
          match codecs.request.decode m with
          | some (id, request) =>
              some { s with
                parties :=
                  { s.parties with tasks := s.parties.tasks ++ [⟨id, request, .running⟩] }
                requests := requests }
          | none => some { s with requests := requests }
      | _ => none
  | .skipRequest =>
      match s.requests.read with
      | (.ok [], requests) => some { s with requests := requests }
      | _ => none
  | .respond j ts pt => do
      let task ← s.parties.tasks[j]?
      guard (task.phase = .running)
      match s.responses.write (codecs.response.encode (task.id, task.request.echo ts pt)) with
      | (.ok _, responses) =>
          some { s with
            parties := s.parties.setTask j { task with phase := .written }
            responses := responses }
      | (.err _, responses) =>
          some { s with
            parties := s.parties.setTask j { task with phase := .refused }
            responses := responses }
      | (.panic, _) => none
  | .fetch => do
      guard (s.parties.inHand = none)
      match s.responses.read with
      | (.ok m, responses) =>
          some { s with
            parties := { s.parties with inHand := codecs.response.decode m }
            responses := responses }
      | _ => none
  | .skipResponse => do
      guard (s.parties.inHand = none)
      match s.responses.read with
      | (.ok [], responses) => some { s with responses := responses }
      | _ => none
  | e => (Exchange.step codecs t s.parties.alone e).map fun u => { s with parties := u.parties }

/-- A write is refused, or keeps its length prefix inside the region. -/
def PrefixInside (s : Mapped) : Exchange.Event → Prop
  | .write i => ∀ call ∈ s.parties.calls[i]?,
      s.requests.ring.PrefixInside (.write (codecs.request.encode (call.id, call.request)))
  | .respond j ts pt => ∀ task ∈ s.parties.tasks[j]?,
      s.responses.ring.PrefixInside
        (.write (codecs.response.encode (task.id, task.request.echo ts pt)))
  | _ => True

instance (s : Mapped) (e : Exchange.Event) : Decidable (s.PrefixInside codecs e) :=
  match e with
  | .write _ => inferInstanceAs (Decidable (∀ call ∈ _, _))
  | .respond _ _ _ => inferInstanceAs (Decidable (∀ task ∈ _, _))
  | .call _ _ | .register _ | .notified _ | .notifyFailed _ | .receive _ | .closed _ | .drop _
  | .serve | .skipRequest | .finish _ | .fetch | .skipResponse | .resolve => .isTrue trivial

end Mapped

/-! ## The mappings as queues -/

namespace Mapping
variable {m : Mapping} {q : Fifo}

theorem write_refines {data : Message} (refines : Refines m.ring q)
    (inside : m.ring.PrefixInside (.write data)) :
    (∃ n ring next, q.write data = (.ok n, ring) ∧ m.write data = (.ok n, next) ∧
        Refines next.ring ring ∧ next.buf = m.buf) ∨
      ∃ e, q.write data = (.error e, q) ∧ m.write data = (.err e, m) := by
  obtain ⟨same, after⟩ := respond_refines refines inside
  simp only [SharedMemoryRingBuffer.respond, Fifo.respond] at same after
  cases result : q.write data with
  | mk out ring =>
      rw [result] at same after
      cases out with
      | ok n =>
          simp only [Reply.mk.injEq] at same
          refine .inl ⟨n, ring, ⟨(m.ring.write data).2, m.buf⟩, rfl, ?_, after, rfl⟩
          rw [write, same.1]
      | error e =>
          simp only [Reply.mk.injEq] at same
          obtain ⟨_, rfl, rfl⟩ := Fifo.write_eq_error result
          have unchanged : (m.ring.write data).2 = m.ring :=
            @respond_err_unchanged _ (.write data) _ same.1
          refine .inr ⟨_, rfl, ?_⟩
          rw [write, same.1, unchanged]

theorem read_refines (refines : Refines m.ring q) :
    (∃ data ring next, q.read m.buf.length = (.ok data, ring) ∧ m.read = (.ok data, next) ∧
        Refines next.ring ring ∧ next.buf.length = m.buf.length) ∨
      ∃ e, q.read m.buf.length = (.error e, q) ∧ m.read = (.err e, m) := by
  obtain ⟨same, after⟩ := @respond_refines _ _ (.read m.buf) refines trivial
  simp only [SharedMemoryRingBuffer.respond, Fifo.respond] at same after
  cases bytes : m.ring.read m.buf with
  | mk out rest =>
      obtain ⟨buf, left⟩ := rest
      rw [bytes] at same after
      cases result : q.read m.buf.length with
      | mk taken ring =>
          rw [result] at same after
          cases taken with
          | ok data =>
              obtain ⟨rfl, rfl⟩ := Reply.mk.inj same
              have fits := (Fifo.read_eq_ok result).1
              refine .inl ⟨data, ring, ⟨left, data ++ m.buf.drop data.length⟩, rfl, ?_, after, ?_⟩
              · rw [read, bytes]
                simp
              · simp only [List.length_append, List.length_drop]
                omega
          | error e =>
              obtain ⟨rfl, rfl⟩ := Reply.mk.inj same
              obtain ⟨rfl, _⟩ := Fifo.read_eq_error result
              have unchanged : (m.ring.read m.buf).2.2 = m.ring :=
                @respond_err_unchanged _ (.read m.buf) e (by
                  simp only [SharedMemoryRingBuffer.respond, bytes])
              refine .inr ⟨e, rfl, ?_⟩
              rw [bytes] at unchanged
              obtain rfl : left = m.ring := unchanged
              rw [read, bytes]

end Mapping

namespace Mapped
variable {codecs : IdCodecs} {t : ShmTransport} {s : Mapped} {x : Exchange}

structure Abstracts (t : ShmTransport) (s : Mapped) (x : Exchange) : Prop where
  parties : x.parties = s.parties
  requests : Refines s.requests.ring x.requestRing
  responses : Refines s.responses.ring x.responseRing
  requestBuf : s.requests.buf.length = t.requestBuf
  responseBuf : s.responses.buf.length = t.responseBuf

theorem abstracts_initial {requestCapacity responseCapacity : Nat}
    (request : 1 ≤ requestCapacity ∧ requestCapacity < 2 ^ 32)
    (response : 1 ≤ responseCapacity ∧ responseCapacity < 2 ^ 32)
    (requestData responseData : Nat → UInt8) :
    Abstracts t (initial t requestCapacity responseCapacity requestData responseData)
      (.initial requestCapacity responseCapacity) where
  parties := rfl
  requests := ⟨rfl, 0, represents_fresh request.1 request.2 requestData⟩
  responses := ⟨rfl, 0, represents_fresh response.1 response.2 responseData⟩
  requestBuf := length_zeros _
  responseBuf := length_zeros _

def Apart : Exchange.Event → Prop
  | .write _ | .serve | .skipRequest | .respond _ _ _ | .fetch | .skipResponse => False
  | _ => True

theorem step_over (p : Parties) {e : Exchange.Event} (apart : Apart e)
    (requestRing responseRing : Fifo) :
    Exchange.step codecs t (p.onRings requestRing responseRing) e =
      (Exchange.step codecs t p.alone e).map fun u => u.parties.onRings requestRing responseRing := by
  cases e with
  | write | serve | skipRequest | respond | fetch | skipResponse => exact apart.elim
  | resolve =>
      simp only [Exchange.step, Parties.alone, Parties.onRings]
      cases p.inHand with
      | none => rfl
      | some answer =>
          obtain ⟨id, response⟩ := answer
          cases found : p.pendingRequests id with
          | none => simp [found, Exchange.parties]
          | some i => cases here : p.calls[i]? <;> simp [found, here, Exchange.parties, Exchange.setCall]
  | _ =>
      simp only [Exchange.step, Exchange.move, Parties.alone, Option.bind_eq_bind, Option.map_bind,
        Function.comp_def, Option.map_some]
      rfl

variable {p : Parties} {requests responses : Mapping} {q r : Fifo}

theorem Abstracts.requested (abstracts : Abstracts t ⟨p, requests, responses⟩ (p.onRings q r))
    {next : Mapping} {ring : Fifo} (refines : Refines next.ring ring)
    (length : next.buf.length = requests.buf.length) (other : Parties) :
    Abstracts t ⟨other, next, responses⟩ (other.onRings ring r) where
  parties := rfl
  requests := refines
  responses := abstracts.responses
  requestBuf := length.trans abstracts.requestBuf
  responseBuf := abstracts.responseBuf

theorem Abstracts.responded (abstracts : Abstracts t ⟨p, requests, responses⟩ (p.onRings q r))
    {next : Mapping} {ring : Fifo} (refines : Refines next.ring ring)
    (length : next.buf.length = responses.buf.length) (other : Parties) :
    Abstracts t ⟨other, requests, next⟩ (other.onRings q ring) where
  parties := rfl
  requests := abstracts.requests
  responses := refines
  requestBuf := abstracts.requestBuf
  responseBuf := length.trans abstracts.responseBuf

theorem Abstracts.read_request (abstracts : Abstracts t ⟨p, requests, responses⟩ (p.onRings q r)) :
    (∃ data ring next, q.read t.requestBuf = (.ok data, ring) ∧ requests.read = (.ok data, next) ∧
        ∀ other : Parties, Abstracts t ⟨other, next, responses⟩ (other.onRings ring r)) ∨
      ∃ e, q.read t.requestBuf = (.error e, q) ∧ requests.read = (.err e, requests) := by
  have length : requests.buf.length = t.requestBuf := abstracts.requestBuf
  have refines : Refines requests.ring q := abstracts.requests
  rw [← length]
  rcases Mapping.read_refines refines with ⟨data, ring, next, taken, bytes, after, kept⟩ | failed
  · exact .inl ⟨data, ring, next, taken, bytes, abstracts.requested after kept⟩
  · exact .inr failed

theorem Abstracts.read_response (abstracts : Abstracts t ⟨p, requests, responses⟩ (p.onRings q r)) :
    (∃ data ring next, r.read t.responseBuf = (.ok data, ring) ∧
        responses.read = (.ok data, next) ∧
        ∀ other : Parties, Abstracts t ⟨other, requests, next⟩ (other.onRings q ring)) ∨
      ∃ e, r.read t.responseBuf = (.error e, r) ∧ responses.read = (.err e, responses) := by
  have length : responses.buf.length = t.responseBuf := abstracts.responseBuf
  have refines : Refines responses.ring r := abstracts.responses
  rw [← length]
  rcases Mapping.read_refines refines with ⟨data, ring, next, taken, bytes, after, kept⟩ | failed
  · exact .inl ⟨data, ring, next, taken, bytes, abstracts.responded after kept⟩
  · exact .inr failed

theorem step_apart (s : Mapped) {e : Exchange.Event} (apart : Apart e) :
    step codecs t s e =
      (Exchange.step codecs t s.parties.alone e).map fun u => { s with parties := u.parties } := by
  cases e <;> first | rfl | exact apart.elim

theorem apart_related {e : Exchange.Event}
    (abstracts : Abstracts t ⟨p, requests, responses⟩ (p.onRings q r)) (apart : Apart e) :
    Option.Rel (Abstracts t) (step codecs t ⟨p, requests, responses⟩ e)
      (Exchange.step codecs t (p.onRings q r) e) := by
  rw [step_apart _ apart, step_over p apart q r]
  cases Exchange.step codecs t p.alone e with
  | none => exact .none
  | some u => exact .some (abstracts.requested abstracts.requests rfl _)

theorem step_related {e : Exchange.Event}
    (abstracts : Abstracts t ⟨p, requests, responses⟩ (p.onRings q r))
    (inside : PrefixInside codecs ⟨p, requests, responses⟩ e) :
    Option.Rel (Abstracts t) (step codecs t ⟨p, requests, responses⟩ e)
      (Exchange.step codecs t (p.onRings q r) e) := by
  cases e with
  | write i =>
      change Option.Rel _ (Option.bind p.calls[i]? _) (Option.bind p.calls[i]? _)
      apply rel_bind (rel_self _)
      rintro call _ here rfl
      apply rel_bind (rel_guard _)
      rintro _ _ _ registered
      rcases Mapping.write_refines abstracts.requests (inside call here) with
        ⟨n, ring, next, room, bytes, after, kept⟩ | ⟨e, full, bytes⟩
      · simp only [room, bytes]
        exact .some (abstracts.requested after (congrArg List.length kept) _)
      · simp only [full, bytes]
        exact .some (abstracts.requested abstracts.requests rfl _)
  | serve =>
      simp only [step, Exchange.step]
      rcases abstracts.read_request with ⟨data, ring, next, taken, bytes, after⟩ | ⟨e, taken, bytes⟩
      · simp only [Parties.onRings, taken, bytes]
        cases codecs.request.decode data with
        | none => exact .some (after _)
        | some request => exact .some (after _)
      · simp only [Parties.onRings, taken, bytes]
        exact .none
  | skipRequest =>
      simp only [step, Exchange.step]
      rcases abstracts.read_request with ⟨data, ring, next, taken, bytes, after⟩ | ⟨e, taken, bytes⟩
      · simp only [Parties.onRings, taken, bytes]
        cases data with
        | nil => exact .some (after _)
        | cons => exact .none
      · simp only [Parties.onRings, taken, bytes]
        exact .none
  | respond j ts pt =>
      change Option.Rel _ (Option.bind p.tasks[j]? _) (Option.bind p.tasks[j]? _)
      apply rel_bind (rel_self _)
      rintro task _ here rfl
      apply rel_bind (rel_guard _)
      rintro _ _ _ running
      rcases Mapping.write_refines abstracts.responses (inside task here) with
        ⟨n, ring, next, room, bytes, after, kept⟩ | ⟨e, full, bytes⟩
      · simp only [room, bytes]
        exact .some (abstracts.responded after (congrArg List.length kept) _)
      · simp only [full, bytes]
        exact .some (abstracts.responded abstracts.responses rfl _)
  | fetch =>
      change Option.Rel _ (Option.bind (guard (p.inHand = none)) _)
        (Option.bind (guard (p.inHand = none)) _)
      apply rel_bind (rel_guard _)
      rintro _ _ _ free
      rcases abstracts.read_response with
        ⟨data, ring, next, taken, bytes, after⟩ | ⟨e, taken, bytes⟩
      · simp only [Parties.onRings, taken, bytes]
        exact .some (after _)
      · simp only [Parties.onRings, taken, bytes]
        exact .none
  | skipResponse =>
      change Option.Rel _ (Option.bind (guard (p.inHand = none)) _)
        (Option.bind (guard (p.inHand = none)) _)
      apply rel_bind (rel_guard _)
      rintro _ _ _ free
      rcases abstracts.read_response with
        ⟨data, ring, next, taken, bytes, after⟩ | ⟨e, taken, bytes⟩
      · simp only [Parties.onRings, taken, bytes]
        cases data with
        | nil => exact .some (after _)
        | cons => exact .none
      · simp only [Parties.onRings, taken, bytes]
        exact .none
  | _ => exact apart_related abstracts trivial

/-! ## Both transports over the mappings -/

def udsFront (s : Mapped) (w : Uds) : Uds.Action → Option (Uds × Option Exchange.Event)
  | .take => do
      guard (w.backend = .awake)
      match s.requests.read with
      | (.ok _, _) => some ({ w with backend := .waiting }, some .serve)
      | (.err _, _) => some ({ w with backend := .waiting }, none)
      | (.panic, _) => none
  | .drain => do
      guard (w.listener = .awake ∧ s.parties.inHand = none)
      match s.responses.read with
      | (.ok _, _) => some (w, some .fetch)
      | (.err _, _) => some ({ w with listener := .waiting }, none)
      | (.panic, _) => none
  | a => Uds.front s.parties.alone w a

def eventfdFront (s : Mapped) (w : Eventfd) :
    Eventfd.Action → Option (Eventfd × Option Exchange.Event)
  | .take => do
      guard (0 < w.backendLeft)
      let w := { w with backendLeft := w.backendLeft - 1 }
      match s.requests.read with
      | (.ok [], _) => some (w, some .skipRequest)
      | (.ok (_ :: _), _) => some (w, some .serve)
      | (.err _, _) => some (w, none)
      | (.panic, _) => none
  | .drain => do
      guard (0 < w.listenerLeft ∧ s.parties.inHand = none)
      match s.responses.read with
      | (.ok [], _) => some ({ w with listenerLeft := 0 }, some .skipResponse)
      | (.ok (_ :: _), _) => some ({ w with listenerLeft := w.listenerLeft - 1 }, some .fetch)
      | (.err _, _) => some ({ w with listenerLeft := 0 }, none)
      | (.panic, _) => none
  | a => Eventfd.front s.parties.alone w a

theorem udsFront_eq (abstracts : Abstracts .uds ⟨p, requests, responses⟩ (p.onRings q r)) (w : Uds)
    (a : Uds.Action) :
    udsFront ⟨p, requests, responses⟩ w a = Uds.front (p.onRings q r) w a := by
  cases a with
  | take =>
      simp only [udsFront, Uds.front]
      rcases abstracts.read_request with ⟨data, ring, next, taken, bytes, _⟩ | ⟨e, taken, bytes⟩ <;>
        simp only [Parties.onRings, taken, bytes]
  | drain =>
      simp only [udsFront, Uds.front]
      rcases abstracts.read_response with ⟨data, ring, next, taken, bytes, _⟩ | ⟨e, taken, bytes⟩
      · simp only [Parties.onRings, taken, bytes]
        rfl
      · simp only [Parties.onRings, taken, bytes]
        rfl
  | _ => rfl

theorem eventfdFront_eq (abstracts : Abstracts .eventfd ⟨p, requests, responses⟩ (p.onRings q r))
    (w : Eventfd) (a : Eventfd.Action) :
    eventfdFront ⟨p, requests, responses⟩ w a = Eventfd.front (p.onRings q r) w a := by
  cases a with
  | take =>
      simp only [eventfdFront, Eventfd.front]
      rcases abstracts.read_request with ⟨data, ring, next, taken, bytes, _⟩ | ⟨e, taken, bytes⟩
      · simp only [Parties.onRings, taken, bytes]
        cases data <;> rfl
      · simp only [Parties.onRings, taken, bytes]
  | drain =>
      simp only [eventfdFront, Eventfd.front]
      rcases abstracts.read_response with ⟨data, ring, next, taken, bytes, _⟩ | ⟨e, taken, bytes⟩
      · simp only [Parties.onRings, taken, bytes]
        cases data <;> rfl
      · simp only [Parties.onRings, taken, bytes]
        rfl
  | _ => rfl

theorem run_related {Front Action : Type*} {t : ShmTransport}
    {front : Mapped → Front → Action → Option (Front × Option Exchange.Event)}
    {queued : Exchange → Front → Action → Option (Front × Option Exchange.Event)}
    (same : ∀ (p : Parties) (requests responses : Mapping) (q r : Fifo) w a,
      Abstracts t ⟨p, requests, responses⟩ (p.onRings q r) →
      front ⟨p, requests, responses⟩ w a = queued (p.onRings q r) w a)
    {s : Layered Front Mapped} {x : Layered Front Exchange} {actions : List Action}
    (related : Layered.Related (Abstracts t) s x)
    (inside : Along (Layered.step front (step codecs t))
      (Layered.OnEvent front (PrefixInside codecs)) s actions) :
    Option.Rel (Layered.Related (Abstracts t)) (run (Layered.step front (step codecs t)) s actions)
      (run (Layered.step queued (Exchange.step codecs t)) x actions) := by
  refine Library.run_related (fun s x a related inside => ?_) related inside
  obtain ⟨w, p, requests, responses⟩ := s
  obtain ⟨v, x⟩ := x
  obtain ⟨rfl, abstracts⟩ := related
  obtain rfl : x.parties = p := abstracts.parties
  refine Layered.step_related ⟨rfl, abstracts⟩ (same _ _ _ _ _ w a abstracts) fun f e action => ?_
  exact step_related abstracts (inside _ action e rfl)

theorem correlated_of_run {Front Action : Type*} {t : ShmTransport}
    {front : Exchange → Front → Action → Option (Front × Option Exchange.Event)} {w : Front}
    {requestCapacity responseCapacity : Nat} {actions : List Action} {s : Layered Front Mapped}
    {result : Option (Layered Front Mapped)}
    (related : Option.Rel (Layered.Related (Abstracts t)) result
      (run (Layered.step front (Exchange.step codecs t))
        ⟨w, .initial requestCapacity responseCapacity⟩ actions)) (reached : result = some s) :
    s.back.parties.alone.Correlated := by
  subst reached
  generalize outcome : run (Layered.step front (Exchange.step codecs t))
    ⟨w, .initial requestCapacity responseCapacity⟩ actions = other at related
  cases related with
  | some both =>
      obtain ⟨own, once, readOnce, resolvesOnce⟩ := (Exchange.Sound.of_run outcome).correlated
      have parties := both.2.parties
      simp only [Exchange.parties] at parties
      rw [← parties]
      exact ⟨own, once, readOnce, resolvesOnce⟩

abbrev udsStep (codecs : IdCodecs) := Layered.step udsFront (step codecs .uds)

abbrev eventfdStep (codecs : IdCodecs) := Layered.step eventfdFront (step codecs .eventfd)

def start {Front : Type} (t : ShmTransport) (front : Front) (requestCapacity responseCapacity : Nat)
    (requestData responseData : Nat → UInt8) : Layered Front Mapped :=
  ⟨front, initial t requestCapacity responseCapacity requestData responseData⟩

/-- Both transports over the bytes of the rings, whatever the kernel left in them, take exactly the
steps that they take over queues, as long as no accepted write lets its length prefix cross the end
of a ring. So every caller gets its own answer out of the bytes. -/
theorem bytes_refine_queues (codecs : IdCodecs) {requestCapacity responseCapacity : Nat}
    (request : 1 ≤ requestCapacity ∧ requestCapacity < 2 ^ 32)
    (response : 1 ≤ responseCapacity ∧ responseCapacity < 2 ^ 32)
    (requestData responseData : Nat → UInt8) :
    (∀ actions,
      Along (udsStep codecs) (Layered.OnEvent udsFront (PrefixInside codecs))
        (start .uds .initial requestCapacity responseCapacity requestData responseData) actions →
      Option.Rel (Layered.Related (Abstracts .uds))
        (run (udsStep codecs)
          (start .uds .initial requestCapacity responseCapacity requestData responseData) actions)
        (run (Uds.step codecs) (Uds.start requestCapacity responseCapacity) actions) ∧
      ∀ s, run (udsStep codecs)
          (start .uds .initial requestCapacity responseCapacity requestData responseData) actions =
        some s → s.back.parties.alone.Correlated) ∧
    ∀ actions,
      Along (eventfdStep codecs) (Layered.OnEvent eventfdFront (PrefixInside codecs))
        (start .eventfd .initial requestCapacity responseCapacity requestData responseData)
        actions →
      Option.Rel (Layered.Related (Abstracts .eventfd))
        (run (eventfdStep codecs)
          (start .eventfd .initial requestCapacity responseCapacity requestData responseData)
          actions)
        (run (Eventfd.step codecs) (Eventfd.start requestCapacity responseCapacity) actions) ∧
      ∀ s, run (eventfdStep codecs)
          (start .eventfd .initial requestCapacity responseCapacity requestData responseData)
          actions = some s → s.back.parties.alone.Correlated := by
  constructor
  · intro actions inside
    have related := run_related (x := Uds.start requestCapacity responseCapacity)
      (fun _ _ _ _ _ w a abstracts => udsFront_eq abstracts w a)
      ⟨rfl, abstracts_initial request response requestData responseData⟩ inside
    exact ⟨related, fun s reached => correlated_of_run related reached⟩
  · intro actions inside
    have related := run_related (x := Eventfd.start requestCapacity responseCapacity)
      (fun _ _ _ _ _ w a abstracts => eventfdFront_eq abstracts w a)
      ⟨rfl, abstracts_initial request response requestData responseData⟩ inside
    exact ⟨related, fun s reached => correlated_of_run related reached⟩

theorem bytes_refine_queues_used :
    (∃ s, run (udsStep bincodeCodecs) (start .uds .initial 256 512 (fun _ => 7) fun _ => 9)
        (udsRun.take 6) = some s ∧ s.back.parties.alone.Correlated) ∧
    ∃ s, run (eventfdStep bincodeCodecs)
        (start .eventfd .initial 256 512 (fun _ => 7) fun _ => 9) (eventfdRun.take 6) = some s ∧
      s.back.parties.alone.Correlated := by
  have uds : (run (udsStep bincodeCodecs) (start .uds .initial 256 512 (fun _ => 7) fun _ => 9)
      (udsRun.take 6)).isSome := by decide +kernel
  have eventfd : (run (eventfdStep bincodeCodecs)
      (start .eventfd .initial 256 512 (fun _ => 7) fun _ => 9) (eventfdRun.take 6)).isSome := by
    decide +kernel
  obtain ⟨first, ran⟩ := Option.isSome_iff_exists.mp uds
  obtain ⟨second, ranOn⟩ := Option.isSome_iff_exists.mp eventfd
  have sizes : (1 ≤ 256 ∧ 256 < 2 ^ 32) ∧ 1 ≤ 512 ∧ 512 < 2 ^ 32 := by decide
  have both := bytes_refine_queues bincodeCodecs sizes.1 sizes.2 (fun _ => 7) fun _ => 9
  exact ⟨⟨first, ran, (both.1 _ (by decide +kernel)).2 first ran⟩,
    ⟨second, ranOn, (both.2 _ (by decide +kernel)).2 second ranOn⟩⟩

end Mapped

end GatewayGrpc.Transport
