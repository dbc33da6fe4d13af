import GatewayGrpc.Library.Run
import GatewayGrpc.Proto.Messages
import Mathlib.Data.List.Forall2

/-!
# `stream_echo` of `backend/src/main.rs`

A detached task reads requests and sends answers into a bounded channel; the client reads the other
end of it. A client that reads an answer stream to its end without an error sees status OK.
-/

namespace GatewayGrpc.Backend
open Library Proto

structure Status where
  code : Nat
  message : String
  deriving DecidableEq, Repr

/-- What `stream.message().await.transpose()` gives in turn, before it gives `None`. -/
abbrev Item := Except Status EchoRequest

def channelCapacity : Nat := 128

inductive Task
  | reading
  | sleeping (req : EchoRequest)
  | sending (response : EchoResponse)
  | done
  deriving DecidableEq

def Task.work : Task → Nat
  | .reading => 1
  | .sleeping _ => 5
  | .sending _ => 4
  | .done => 0

/-- `listening` until the client drops the receiver; `status` is what it sees at the end. -/
structure StreamEcho where
  input : List Item
  task : Task
  channel : List (Except Status EchoResponse)
  listening : Bool
  received : List EchoResponse
  status : Option (Except Status Unit)

inductive StreamEcho.Action
  | next
  | wake
  | send
  | receive
  | finish
  | hangUp
  deriving DecidableEq

def answer (delay : Nat) (req : EchoRequest) : EchoResponse := req.echo 0 (Int64.ofNat delay)

namespace StreamEcho

def start (items : List Item) : StreamEcho where
  input := items
  task := .reading
  channel := []
  listening := true
  received := []
  status := none

def step (delay : Nat) (s : StreamEcho) : Action → Option StreamEcho
  | .next =>
      match s.task, s.input with
      | .reading, [] => some { s with task := .done }
      | .reading, .error _ :: rest =>
          -- the error is logged and not sent
          some { s with input := rest, task := .done }
      | .reading, .ok req :: rest => some { s with
          input := rest
          task := if 0 < delay then .sleeping req else .sending (answer delay req) }
      | _, _ => none
  | .wake =>
      match s.task with
      | .sleeping req => some { s with task := .sending (answer delay req) }
      | _ => none
  | .send =>
      match s.task with
      | .sending response =>
          if s.listening = false then some { s with task := .done }
          else if s.channel.length < channelCapacity then
            some { s with channel := s.channel ++ [.ok response], task := .reading }
          else none
      | _ => none
  | .receive =>
      match s.status, s.channel with
      | none, .ok response :: rest =>
          some { s with channel := rest, received := s.received ++ [response] }
      | none, .error e :: rest => some { s with channel := rest, status := some (.error e) }
      | _, _ => none
  | .finish =>
      if s.status = none ∧ s.listening = true ∧ s.task = .done ∧ s.channel = [] then
        some { s with status := some (.ok ()) }
      else none
  | .hangUp =>
      if s.status = none ∧ s.listening = true then
        some { s with channel := [], listening := false }
      else none

end StreamEcho

def requests : List Item → List EchoRequest
  | .ok req :: items => req :: requests items
  | _ => []

def EndsNormally (items : List Item) : Prop := ∀ e, .error e ∉ items

namespace StreamEcho

/-- What the client has received answers the requests in order, all of them where it can receive no
more, and status OK tells that the request stream has ended normally. -/
structure Faithful (delay : Nat) (items : List Item) (s : StreamEcho) : Prop where
  inOrder : List.Forall₂ EchoResponse.Echoes s.received ((requests items).take s.received.length)
  complete : s.listening = true → (∀ a, a ≠ .hangUp → s.step delay a = none) →
    List.Forall₂ EchoResponse.Echoes s.received (requests items)
  ended : s.status ≠ none → List.Forall₂ EchoResponse.Echoes s.received (requests items)
  normal : s.status = some (.ok ()) → EndsNormally items

/-! ## What a step does -/

inductive Effect (delay : Nat) (s : StreamEcho) : Action → StreamEcho → Prop
  | ended (reading : s.task = .reading) (input : s.input = []) :
      Effect delay s .next { s with task := .done }
  | failed {e : Status} {rest : List Item} (reading : s.task = .reading)
      (input : s.input = .error e :: rest) :
      Effect delay s .next { s with input := rest, task := .done }
  | read {req : EchoRequest} {rest : List Item} (reading : s.task = .reading)
      (input : s.input = .ok req :: rest) :
      Effect delay s .next { s with
        input := rest
        task := if 0 < delay then .sleeping req else .sending (answer delay req) }
  | woke {req : EchoRequest} (sleeping : s.task = .sleeping req) :
      Effect delay s .wake { s with task := .sending (answer delay req) }
  | unheard {response : EchoResponse} (sending : s.task = .sending response)
      (gone : s.listening = false) : Effect delay s .send { s with task := .done }
  | sent {response : EchoResponse} (sending : s.task = .sending response)
      (listening : s.listening = true) (room : s.channel.length < channelCapacity) :
      Effect delay s .send { s with channel := s.channel ++ [.ok response], task := .reading }
  | received {response : EchoResponse} {rest : List (Except Status EchoResponse)}
      (running : s.status = none) (next : s.channel = .ok response :: rest) :
      Effect delay s .receive { s with channel := rest, received := s.received ++ [response] }
  | receivedError {e : Status} {rest : List (Except Status EchoResponse)}
      (running : s.status = none) (next : s.channel = .error e :: rest) :
      Effect delay s .receive { s with channel := rest, status := some (.error e) }
  | finished (running : s.status = none) (listening : s.listening = true) (done : s.task = .done)
      (empty : s.channel = []) : Effect delay s .finish { s with status := some (.ok ()) }
  | hungUp (running : s.status = none) (listening : s.listening = true) :
      Effect delay s .hangUp { s with channel := [], listening := false }

theorem step_effect {delay : Nat} {s t : StreamEcho} {a : Action}
    (action : s.step delay a = some t) : Effect delay s a t := by
  cases a with
  | next =>
      simp only [step] at action
      split at action <;> cases action
      · rename_i reading input
        exact .ended reading input
      · rename_i reading input
        exact .failed reading input
      · rename_i reading input
        exact .read reading input
  | wake =>
      simp only [step] at action
      split at action <;> cases action
      rename_i sleeping
      exact .woke sleeping
  | send =>
      simp only [step] at action
      split at action
      · rename_i response sending
        split_ifs at action with gone room <;> cases action
        · exact .unheard sending gone
        · exact .sent sending (by simpa using gone) room
      · cases action
  | receive =>
      simp only [step] at action
      split at action <;> cases action
      · rename_i running next
        exact .received running next
      · rename_i running next
        exact .receivedError running next
  | finish =>
      simp only [step] at action
      split_ifs at action with ready
      cases action
      exact .finished ready.1 ready.2.1 ready.2.2.1 ready.2.2.2
  | hangUp =>
      simp only [step] at action
      split_ifs at action with ready
      cases action
      exact .hungUp ready.1 ready.2

/-! ## The way of the answers -/

def pending (delay : Nat) (s : StreamEcho) : List EchoResponse :=
  match s.task with
  | .reading => (requests s.input).map (answer delay)
  | .sleeping req => answer delay req :: (requests s.input).map (answer delay)
  | .sending response => response :: (requests s.input).map (answer delay)
  | .done => []

structure Flows (delay : Nat) (items : List Item) (s : StreamEcho) : Prop where
  isPrefix : s.received <+: (requests items).map (answer delay)
  onTheWay : s.listening = true → ∃ queued, s.channel = queued.map .ok ∧
    s.received ++ (queued ++ s.pending delay) = (requests items).map (answer delay)
  hungUp : s.listening = false → s.channel = [] ∧ s.status = none
  ended : s.status ≠ none → s.received = (requests items).map (answer delay)

variable {delay : Nat} {items : List Item} {s t : StreamEcho} {a : Action}

theorem flows_start (delay : Nat) (items : List Item) : Flows delay items (start items) where
  isPrefix := List.nil_prefix
  onTheWay := fun _ => ⟨[], rfl, rfl⟩
  hungUp := fun gone => by cases gone
  ended := fun some => absurd rfl some

theorem Flows.setTask (flows : Flows delay items s) {input : List Item} {task : Task}
    (kept : s.listening = true → pending delay { s with input := input, task := task } =
      s.pending delay) :
    Flows delay items { s with input := input, task := task } where
  isPrefix := flows.isPrefix
  onTheWay := by
    intro listening
    obtain ⟨queued, channel, whole⟩ := flows.onTheWay listening
    exact ⟨queued, channel, by rw [kept listening]; exact whole⟩
  hungUp := flows.hungUp
  ended := flows.ended

theorem Flows.send (flows : Flows delay items s) {response : EchoResponse}
    (sending : s.task = .sending response) (listening : s.listening = true) :
    Flows delay items { s with channel := s.channel ++ [.ok response], task := .reading } where
  isPrefix := flows.isPrefix
  onTheWay := by
    intro _
    obtain ⟨queued, channel, whole⟩ := flows.onTheWay listening
    refine ⟨queued ++ [response], by rw [channel, List.map_append]; rfl, ?_⟩
    rw [← whole, List.append_assoc]
    simp only [pending, sending]
    rfl
  hungUp := fun gone => by cases listening.symm.trans gone
  ended := flows.ended

theorem Flows.front (flows : Flows delay items s) {item : Except Status EchoResponse}
    {rest : List (Except Status EchoResponse)} (next : s.channel = item :: rest) :
    s.listening = true ∧ ∃ response queued, item = .ok response ∧ rest = queued.map .ok ∧
      s.received ++ [response] ++ (queued ++ s.pending delay) =
        (requests items).map (answer delay) := by
  have listening : s.listening = true := by
    by_contra gone
    cases next.symm.trans (flows.hungUp (by simpa using gone)).1
  obtain ⟨queued, channel, whole⟩ := flows.onTheWay listening
  rw [next] at channel
  cases queued with
  | nil => cases channel
  | cons response queued =>
      obtain ⟨same, tail⟩ := List.cons.inj channel
      exact ⟨listening, response, queued, same, tail, by simpa using whole⟩

theorem Flows.receive (flows : Flows delay items s) {response : EchoResponse}
    {rest : List (Except Status EchoResponse)} (next : s.channel = .ok response :: rest)
    (running : s.status = none) :
    Flows delay items { s with channel := rest, received := s.received ++ [response] } := by
  obtain ⟨listening, _, queued, same, tail, whole⟩ := flows.front next
  cases same
  exact ⟨⟨_, whole⟩, fun _ => ⟨queued, tail, whole⟩,
    (fun gone => by cases listening.symm.trans gone), fun ended => absurd running ended⟩

theorem Flows.finish (flows : Flows delay items s) (listening : s.listening = true)
    (done : s.task = .done) (empty : s.channel = []) :
    s.received = (requests items).map (answer delay) := by
  obtain ⟨queued, channel, whole⟩ := flows.onTheWay listening
  rw [empty] at channel
  have none_queued : queued = [] := List.map_eq_nil_iff.mp channel.symm
  rw [none_queued, pending, done] at whole
  simpa using whole

theorem Flows.step (flows : Flows delay items s) (action : s.step delay a = some t) :
    Flows delay items t := by
  cases step_effect action with
  | ended reading input =>
      apply flows.setTask
      intro _
      simp [pending, reading, input, requests]
  | failed reading input =>
      apply flows.setTask
      intro _
      simp [pending, reading, input, requests]
  | read reading input =>
      apply flows.setTask
      intro _
      split_ifs <;> simp [pending, reading, input, requests]
  | woke sleeping =>
      apply flows.setTask
      intro _
      simp [pending, sleeping]
  | unheard sending gone =>
      apply flows.setTask
      intro listening
      cases listening.symm.trans gone
  | sent sending listening room => exact flows.send sending listening
  | received running next => exact flows.receive next running
  | receivedError running next =>
      obtain ⟨_, _, _, same, _⟩ := flows.front next
      cases same
  | finished running listening done empty =>
      refine ⟨flows.isPrefix, flows.onTheWay, ?_, fun _ => flows.finish listening done empty⟩
      intro gone
      cases listening.symm.trans gone
  | hungUp running listening =>
      refine ⟨flows.isPrefix, ?_, fun _ => ⟨rfl, running⟩, fun ended => absurd running ended⟩
      intro heard
      cases heard

theorem flows_of_run {actions : List Action}
    (ran : run (step delay) (start items) actions = some s) : Flows delay items s :=
  run_preserves (fun _ _ _ flows action => flows.step action) (flows_start delay items) ran

theorem ended_of_stuck (flows : Flows delay items s) (listening : s.listening = true)
    (stuck : ∀ a, a ≠ .hangUp → s.step delay a = none) : s.status ≠ none := by
  intro running
  have next := stuck .next (by simp)
  have wake := stuck .wake (by simp)
  have send := stuck .send (by simp)
  have receive := stuck .receive (by simp)
  have finish := stuck .finish (by simp)
  have empty : s.channel = [] := by
    cases queued : s.channel with
    | nil => rfl
    | cons item rest =>
        obtain ⟨_, _, _, same, _⟩ := flows.front queued
        subst same
        simp [step, running, queued] at receive
  cases phase : s.task with
  | reading =>
      cases input : s.input with
      | nil => simp [step, phase, input] at next
      | cons item rest => cases item <;> simp [step, phase, input] at next
  | sleeping req => simp [step, phase] at wake
  | sending response => simp [step, phase, listening, empty, channelCapacity] at send
  | done => simp [step, phase, running, listening, empty] at finish

def work (s : StreamEcho) : Nat :=
  6 * s.input.length + s.task.work + s.channel.length + (s.status.isNone.toNat + s.listening.toNat)

theorem work_lt (action : s.step delay a = some t) : t.work < s.work := by
  cases step_effect action with
  | ended reading input => simp [work, Task.work, reading, input]
  | failed reading input =>
      simp only [work, Task.work, reading, input, List.length_cons]
      omega
  | read reading input =>
      simp only [work, reading, input, List.length_cons]
      split_ifs <;> simp only [Task.work] <;> omega
  | woke sleeping => simp [work, Task.work, sleeping]
  | unheard sending gone => simp [work, Task.work, sending]
  | sent sending listening room =>
      simp only [work, Task.work, sending, List.length_append, List.length_singleton]
      omega
  | received running next => simp [work, next]
  | receivedError running next =>
      simp only [work, running, next, List.length_cons, Option.isNone_none, Option.isNone_some,
        Bool.toNat_true, Bool.toNat_false]
      omega
  | finished running listening done empty => simp [work, running]
  | hungUp running listening =>
      simp only [work, listening, List.length_nil, Bool.toNat_true, Bool.toNat_false]
      omega

/-- Every run comes to an end: a client that keeps receiving sees the end of the stream. -/
theorem run_bounded {actions : List Action} (ran : run (step delay) (start items) actions = some s) :
    actions.length ≤ 6 * items.length + 3 := by
  have bound := run_length_le (fun _ _ _ action => work_lt action) ran
  have initial : (start items).work = 6 * items.length + 3 := rfl
  omega

theorem forall₂_echoes (reqs : List EchoRequest) :
    List.Forall₂ EchoResponse.Echoes (reqs.map (answer delay)) reqs := by
  induction reqs with
  | nil => exact .nil
  | cons req reqs ih => exact .cons (req.echo_echoes _ _) ih

theorem faithful_iff_of_run {actions : List Action}
    (ran : run (step delay) (start items) actions = some s) :
    Faithful delay items s ↔ (s.status = some (.ok ()) → EndsNormally items) := by
  have flows := flows_of_run ran
  have whole : s.status ≠ none → List.Forall₂ EchoResponse.Echoes s.received (requests items) := by
    intro ended
    rw [flows.ended ended]
    exact forall₂_echoes _
  have inOrder : List.Forall₂ EchoResponse.Echoes s.received
      ((requests items).take s.received.length) := by
    have cut := List.prefix_iff_eq_take.mp flows.isPrefix
    rw [← List.map_take] at cut
    have echoes : List.Forall₂ EchoResponse.Echoes
      (((requests items).take s.received.length).map (answer delay)) _ := forall₂_echoes _
    rwa [← cut] at echoes
  constructor
  · exact Faithful.normal
  · intro normal
    refine ⟨inOrder, ?_, whole, normal⟩
    intro listening stuck
    exact whole (ended_of_stuck flows listening stuck)

theorem run_answer (delay : Nat) (req : EchoRequest) (items : List Item)
    (received : List EchoResponse) :
    ∃ actions, run (step delay) { start (.ok req :: items) with received := received } actions =
      some { start items with received := received ++ [answer delay req] } := by
  by_cases positive : 0 < delay
  · refine ⟨[.next, .wake, .send, .receive], ?_⟩
    simp [step, start, positive, channelCapacity]
  · refine ⟨[.next, .send, .receive], ?_⟩
    simp [step, start, positive, channelCapacity]

theorem serve (delay : Nat) (items : List Item) (received : List EchoResponse) :
    ∃ actions s, run (step delay) { start items with received := received } actions = some s ∧
      s.status = some (.ok ()) := by
  induction items generalizing received with
  | nil => exact ⟨[.next, .finish], _, rfl, rfl⟩
  | cons item items ih =>
      cases item with
      | error e => exact ⟨[.next, .finish], _, rfl, rfl⟩
      | ok req =>
          obtain ⟨first, answered⟩ := run_answer delay req items received
          obtain ⟨actions, s, ran, ok⟩ := ih (received ++ [answer delay req])
          refine ⟨first ++ actions, s, ?_, ok⟩
          rw [run_append, answered, Option.bind_some, ran]

/-- `stream_echo` is faithful to a client if and only if the request stream ends normally. -/
theorem stream_echo_iff (delay : Nat) (items : List Item) :
    (∀ actions s, run (step delay) (start items) actions = some s → Faithful delay items s) ↔
      EndsNormally items := by
  constructor
  · intro faithful
    obtain ⟨actions, s, ran, ok⟩ := serve delay items []
    exact (faithful actions s ran).normal ok
  · intro normally actions s ran
    exact (faithful_iff_of_run ran).mpr fun _ => normally

theorem error_looks_complete :
    ¬ ∀ delay items actions s, run (step delay) (start items) actions = some s →
      Faithful delay items s := by
  intro faithful
  let req : EchoRequest := ⟨⟨"a", by decide⟩, 0, ⟨[], by decide⟩⟩
  let undecodable : Status := ⟨13, "failed to decode Protobuf message"⟩
  have ran : (run (step 0) (start [.ok req, .error undecodable])
    [.next, .send, .receive, .next, .finish]).isSome := rfl
  have normal := (faithful 0 _ _ _ (Option.some_get ran).symm).normal rfl
  exact normal undecodable (by simp)

end StreamEcho

end GatewayGrpc.Backend
