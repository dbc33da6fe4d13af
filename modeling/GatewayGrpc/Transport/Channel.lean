import GatewayGrpc.Transport.Wire

/-!
# The request channel

The gateway writes serialized requests to the request ring, and the backend loop reads the ring
into a buffer of its own. A read that fails leaves the ring as it is, and the loop tries again.
-/

namespace GatewayGrpc.Transport
open Library Proto SharedMemory

structure Channel where
  ring : SharedMemoryRingBuffer
  requestBuf : List UInt8
  accepted : List Message
  taken : List Message

namespace Channel

inductive Action
  | send (id : Text) (request : EchoRequest)
  | poll

def initial (t : ShmTransport) (data : Nat → UInt8) : Channel where
  ring := .fresh ShmConfig.default.bufferSize data
  requestBuf := zeros t.requestBuf
  accepted := []
  taken := []

def send (s : Channel) (payload : Message) : Channel :=
  match s.ring.write payload with
  | (.ok _, ring) => { s with ring := ring, accepted := s.accepted ++ [payload] }
  | (_, ring) => { s with ring := ring }

def poll (s : Channel) : Channel :=
  match s.ring.read s.requestBuf with
  | (.ok n, buf, ring) =>
      { s with ring := ring, requestBuf := buf, taken := s.taken ++ [buf.take n] }
  | (_, buf, ring) => { s with ring := ring, requestBuf := buf }

def step (t : ShmTransport) (s : Channel) : Action → Option Channel
  | .send id request => some (s.send (t.serializeRequest id request))
  | .poll => some s.poll

def Inside (t : ShmTransport) (s : Channel) : Action → Prop
  | .send id request => s.ring.PrefixInside (.write (t.serializeRequest id request))
  | .poll => True

def polled (s : Channel) (n : Nat) : Channel := poll^[n] s

structure Carries (t : ShmTransport) (s : Channel) (queue : List Message) : Prop where
  rep : ∃ base, Represents s.ring base queue
  size : s.requestBuf.length = t.requestBuf
  order : s.accepted = s.taken ++ queue
  small : ∀ m ∈ s.taken, m.length ≤ t.requestBuf

variable {t : ShmTransport} {s : Channel} {queue : List Message}

theorem carries_initial (data : Nat → UInt8) : Carries t (initial t data) [] where
  rep := ⟨0, represents_fresh (by decide) (by decide) data⟩
  size := length_zeros _
  order := rfl
  small := by simp [initial]

theorem send_accepted {base : Nat} (rep : Represents s.ring base queue) {payload : Message}
    (room : (Fifo.mk s.ring.header.capacity queue).Room payload) :
    (s.send payload).accepted = s.accepted ++ [payload] := by
  unfold send
  rw [rep.write_eq room]

namespace Carries

theorem send (carries : Carries t s queue) {payload : Message}
    (inside : s.ring.PrefixInside (.write payload)) :
    ∃ queue, Carries t (s.send payload) queue := by
  obtain ⟨base, rep⟩ := carries.rep
  by_cases room : (Fifo.mk s.ring.header.capacity queue).Room payload
  · have notFull : ¬ available s.ring.header.capacity s.ring.header.writePos
        s.ring.header.readPos < 4 + payload.length := by
      have := rep.available_eq
      simp only [Fifo.Room, Fifo.used, frameSize] at room
      omega
    have next := rep.write_ok room (inside.resolve_left notFull)
    have result : (s.ring.write payload).1 = .ok payload.length := by rw [rep.write_eq room]
    refine ⟨queue ++ [payload], ?_⟩
    unfold Channel.send
    rcases written : s.ring.write payload with ⟨outcome, ring⟩
    rw [written] at next result
    cases result
    exact ⟨⟨base, next⟩, carries.size, by simp [carries.order], carries.small⟩
  · refine ⟨queue, ?_⟩
    unfold Channel.send
    rw [rep.write_full room]
    exact ⟨carries.rep, carries.size, carries.order, carries.small⟩

theorem poll_nil (carries : Carries t s []) : s.poll = s := by
  obtain ⟨base, rep⟩ := carries.rep
  unfold Channel.poll
  rw [rep.read_nil]

theorem poll_large {m : Message} {rest : List Message} (carries : Carries t s (m :: rest))
    (large : t.requestBuf < m.length) :
    s.poll = s ∧ (s.ring.read s.requestBuf).1 = .err .invalidState := by
  obtain ⟨base, rep⟩ := carries.rep
  have refused := (rep.read_cons s.requestBuf).1 (carries.size ▸ large)
  unfold Channel.poll
  rw [refused]
  exact ⟨rfl, rfl⟩

theorem poll_small {m : Message} {rest : List Message} (carries : Carries t s (m :: rest))
    (small : m.length ≤ t.requestBuf) :
    Carries t s.poll rest ∧ s.poll.accepted = s.accepted ∧
      (s.ring.read s.requestBuf).1 = .ok m.length := by
  obtain ⟨base, rep⟩ := carries.rep
  obtain ⟨result, filled, next⟩ := (rep.read_cons s.requestBuf).2 (carries.size ▸ small)
  unfold Channel.poll
  rcases taken : s.ring.read s.requestBuf with ⟨outcome, buf, ring⟩
  rw [taken] at result filled next
  change buf = _ at filled
  cases result
  subst filled
  refine ⟨⟨⟨_, next⟩, ?_, ?_, ?_⟩, rfl, rfl⟩
  · have := carries.size
    simp only [List.length_append, List.length_drop]
    omega
  · simp [carries.order]
  · intro x member
    rcases List.mem_append.mp member with before | last
    · exact carries.small x before
    · rw [List.mem_singleton.mp last, List.take_left]
      exact small

theorem poll (carries : Carries t s queue) : ∃ queue, Carries t s.poll queue := by
  cases queue with
  | nil => exact ⟨[], carries.poll_nil.symm ▸ carries⟩
  | cons m rest =>
      rcases Nat.lt_or_ge t.requestBuf m.length with large | small
      · exact ⟨m :: rest, (carries.poll_large large).1.symm ▸ carries⟩
      · exact ⟨rest, (carries.poll_small small).1⟩

theorem drain (carries : Carries t s queue) :
    ∃ n rest, Carries t (s.polled n) rest ∧ (s.polled n).accepted = s.accepted ∧
      ∀ m ∈ rest.head?, t.requestBuf < m.length := by
  induction queue generalizing s with
  | nil => exact ⟨0, [], carries, rfl, by simp⟩
  | cons m queue ih =>
      rcases Nat.lt_or_ge t.requestBuf m.length with large | small
      · exact ⟨0, m :: queue, carries, rfl, by simpa using large⟩
      · obtain ⟨next, accepted, _⟩ := carries.poll_small small
        obtain ⟨n, rest, drained, same, stuck⟩ := ih next
        exact ⟨n + 1, rest, drained, same.trans accepted, stuck⟩

theorem polled (carries : Carries t s queue) (n : Nat) :
    (∃ queue, Carries t (s.polled n) queue) ∧ (s.polled n).accepted = s.accepted := by
  induction n generalizing s queue with
  | zero => exact ⟨⟨queue, carries⟩, rfl⟩
  | succ n ih =>
      obtain ⟨next, carries'⟩ := carries.poll
      obtain ⟨still, same⟩ := ih carries'
      refine ⟨still, same.trans ?_⟩
      unfold Channel.poll
      split <;> rfl

theorem large_of_invalidState (carries : Carries t s queue)
    (refused : (s.ring.read s.requestBuf).1 = .err .invalidState) :
    ∃ m ∈ s.accepted, t.requestBuf < m.length := by
  cases queue with
  | nil =>
      obtain ⟨base, rep⟩ := carries.rep
      rw [rep.read_nil] at refused
      cases refused
  | cons m rest =>
      refine ⟨m, by simp [carries.order], ?_⟩
      by_contra small
      rw [(carries.poll_small (by omega)).2.2] at refused
      cases refused

end Carries

def Blocked (s : Channel) : Prop :=
  ∀ n, ((s.polled n).ring.read (s.polled n).requestBuf).1 = .err .invalidState

theorem Carries.blocked {m : Message} {rest : List Message} (carries : Carries t s (m :: rest))
    (large : t.requestBuf < m.length) : s.Blocked := by
  intro n
  have fixed : s.polled n = s := Function.iterate_fixed (carries.poll_large large).1 n
  rw [fixed]
  exact (carries.poll_large large).2

theorem Carries.drains_iff (carries : Carries t s queue) :
    (∃ n, (s.polled n).taken = s.accepted) ↔ ∀ m ∈ s.accepted, m.length ≤ t.requestBuf := by
  constructor
  · rintro ⟨n, taken⟩
    obtain ⟨⟨rest, final⟩, _⟩ := carries.polled n
    exact taken ▸ final.small
  · intro small
    obtain ⟨n, rest, drained, accepted, stuck⟩ := carries.drain
    refine ⟨n, ?_⟩
    rw [← accepted, drained.order]
    cases rest with
    | nil => simp
    | cons m rest =>
        have large := stuck m rfl
        have := small m (by rw [← accepted, drained.order]; simp)
        omega

theorem Carries.blocks_iff (carries : Carries t s queue) :
    (∃ n, (s.polled n).Blocked) ↔ ∃ m ∈ s.accepted, t.requestBuf < m.length := by
  constructor
  · rintro ⟨n, blocked⟩
    obtain ⟨⟨rest, final⟩, accepted⟩ := carries.polled n
    exact accepted ▸ final.large_of_invalidState (blocked 0)
  · rintro ⟨m, member, large⟩
    obtain ⟨n, rest, drained, accepted, stuck⟩ := carries.drain
    refine ⟨n, ?_⟩
    cases rest with
    | nil =>
        rw [← accepted, drained.order, List.append_nil] at member
        have := drained.small m member
        omega
    | cons first rest => exact drained.blocked (stuck first rfl)

def Carried (t : ShmTransport) (s : Channel) : Prop := ∃ queue, Carries t s queue

theorem Carried.step {a : Action} {next : Channel} (carried : Carried t s) (inside : s.Inside t a)
    (action : s.step t a = some next) : Carried t next := by
  obtain ⟨queue, carries⟩ := carried
  cases a with
  | send id request =>
      cases action
      exact carries.send inside
  | poll =>
      cases action
      exact carries.poll

theorem carried_of_run {data : Nat → UInt8} {actions : List Action}
    (inside : Along (step t) (Inside t) (initial t data) actions)
    (ran : run (step t) (initial t data) actions = some s) : Carried t s :=
  run_invariant (fun _ _ _ carried ok action => carried.step ok action)
    ⟨[], carries_initial data⟩ inside ran

/-- The backend takes every accepted request off the ring exactly if each fits its buffer; else a
request that does not blocks the ring for all behind it. -/
theorem accepted_requests_read_iff (t : ShmTransport) (data : Nat → UInt8)
    (actions : List Action) (s : Channel)
    (inside : Along (step t) (Inside t) (initial t data) actions)
    (ran : run (step t) (initial t data) actions = some s) :
    ((∃ n, (s.polled n).taken = s.accepted) ↔ ∀ m ∈ s.accepted, m.length ≤ t.requestBuf) ∧
    ((∃ n, (s.polled n).Blocked) ↔ ∃ m ∈ s.accepted, t.requestBuf < m.length) := by
  obtain ⟨queue, carries⟩ := carried_of_run inside ran
  exact ⟨carries.drains_iff, carries.blocks_iff⟩

theorem accepted_requests_read_iff_ping :
    ∃ n, (((initial .eventfd fun _ => 0).send
      (ShmTransport.eventfd.serializeRequest sampleId ping)).polled n).taken =
        [ShmTransport.eventfd.serializeRequest sampleId ping] := by
  have accepted : ((initial .eventfd fun _ => 0).send
      (ShmTransport.eventfd.serializeRequest sampleId ping)).accepted =
        [ShmTransport.eventfd.serializeRequest sampleId ping] := rfl
  have read := (accepted_requests_read_iff .eventfd (fun _ => 0) [.send sampleId ping] _
    ⟨.inr (by decide), fun _ _ => trivial⟩ rfl).1
  rw [accepted] at read
  exact read.mpr (by simpa using by decide)

theorem large_request_never_read :
    ¬ ∀ (t : ShmTransport) (data : Nat → UInt8) (actions : List Action) (s : Channel),
      run (step t) (initial t data) actions = some s → ∃ n, (s.polled n).taken = s.accepted := by
  intro reads
  have isId : sampleId.val.utf8ByteSize = 36 := by decide
  let large := blank 65536 (by decide)
  have size : (ShmTransport.eventfd.serializeRequest sampleId large).length = 65604 := by
    simp [large, ShmTransport.serializeRequest, Bincode.length_requestCodec, isId]
  have ran : run (step .eventfd) (initial .eventfd fun _ => 0) [.send sampleId large] =
      some ((initial .eventfd fun _ => 0).send
        (ShmTransport.eventfd.serializeRequest sampleId large)) := rfl
  have start : Represents (initial .eventfd fun _ => 0).ring 0 [] :=
    represents_fresh (by decide) (by decide) _
  have room : (Fifo.mk (initial .eventfd fun _ => 0).ring.header.capacity []).Room
      (ShmTransport.eventfd.serializeRequest sampleId large) := by
    simp only [Fifo.Room, Fifo.used, frameSize, size]
    decide
  have inside : Along (step .eventfd) (Inside .eventfd) (initial .eventfd fun _ => 0)
      [.send sampleId large] := ⟨.inr (by decide), fun _ _ => trivial⟩
  obtain ⟨queue, carries⟩ := carried_of_run inside ran
  have small := carries.drains_iff.mp (reads _ _ _ _ ran)
  have := small (ShmTransport.eventfd.serializeRequest sampleId large) (by
    rw [send_accepted start room]
    exact List.mem_append_right _ (List.mem_singleton_self _))
  rw [size] at this
  exact absurd this (by decide)

end Channel

end GatewayGrpc.Transport
