import GatewayGrpc.Library.Simulation
import GatewayGrpc.Transport.Termination

/-!
# Sockets that fill up

A notification socket holds only so many bytes, and `write_u8` waits with the lock in its hand until
there is room for its byte. Neither listener ever writes, so both go on taking bytes and no party
waits for another for ever, however few bytes the sockets hold.
-/

namespace GatewayGrpc.Transport.Uds
open Library Proto SharedMemory

def frontWithin (toBackend toGateway : Nat) (s : Exchange) (w : Uds) (a : Action) :
    Option (Uds × Option Exchange.Event) :=
  match a with
  | .notify _ => if w.requestBytes < toBackend then front s w a else none
  | .notifyBack _ => if w.responseBytes < toGateway then front s w a else none
  | _ => front s w a

abbrev stepWithin (codecs : IdCodecs) (toBackend toGateway : Nat) :
    State → Action → Option State :=
  Layered.step (frontWithin toBackend toGateway) (Exchange.step codecs .uds)

def QuiescentWithin (codecs : IdCodecs) (toBackend toGateway : Nat) (s : State) : Prop :=
  ∀ a : Action, a.Internal → stepWithin codecs toBackend toGateway s a = none

variable {codecs : IdCodecs} {toBackend toGateway : Nat} {s u : State} {a : Action}

theorem frontWithin_eq_some {b : Exchange} {w : Uds} {r : Uds × Option Exchange.Event} :
    frontWithin toBackend toGateway b w a = some r ↔ front b w a = some r ∧
      (∀ i, a = .notify i → w.requestBytes < toBackend) ∧
      ∀ j, a = .notifyBack j → w.responseBytes < toGateway := by
  cases a <;> simp [frontWithin, and_comm]

theorem step_of_within (action : stepWithin codecs toBackend toGateway s a = some u) :
    step codecs s a = some u := by
  obtain ⟨e, first, second⟩ := (Layered.step_eq_some _ _).mp action
  exact (Layered.step_eq_some _ _).mpr ⟨e, (frontWithin_eq_some.mp first).1, second⟩

theorem within_of_step (action : step codecs s a = some u)
    (request : ∀ i, a = .notify i → s.front.requestBytes < toBackend)
    (response : ∀ j, a = .notifyBack j → s.front.responseBytes < toGateway) :
    stepWithin codecs toBackend toGateway s a = some u := by
  obtain ⟨e, first, second⟩ := (Layered.step_eq_some _ _).mp action
  exact (Layered.step_eq_some _ _).mpr
    ⟨e, frontWithin_eq_some.mpr ⟨first, request, response⟩, second⟩

structure Held (toBackend toGateway : Nat) (s : State) : Prop where
  request : s.front.requestBytes ≤ toBackend
  response : s.front.responseBytes ≤ toGateway

theorem Held.step (held : Held toBackend toGateway s)
    (action : stepWithin codecs toBackend toGateway s a = some u) :
    Held toBackend toGateway u := by
  obtain ⟨w, b⟩ := s
  obtain ⟨v, c⟩ := u
  obtain ⟨request, response⟩ := held
  obtain ⟨e, first, second⟩ := (Layered.step_eq_some _ _).mp action
  obtain ⟨first, requestRoom, responseRoom⟩ := frontWithin_eq_some.mp first
  dsimp only at *
  cases front_effect first with
  | @notified i => exact ⟨requestRoom i rfl, response⟩
  | @notifiedBack j => exact ⟨request, responseRoom j rfl⟩
  | backendWoke => exact ⟨Nat.le_trans (Nat.sub_le _ _) request, response⟩
  | listenerWoke => exact ⟨request, Nat.le_trans (Nat.sub_le _ _) response⟩
  | _ => exact ⟨request, response⟩

namespace QuiescentWithin

theorem requestBytes (quiet : QuiescentWithin codecs toBackend toGateway s)
    (running : s.front.backend ≠ .exited) : s.front.requestBytes = 0 := by
  cases state : s.front.backend with
  | exited => exact absurd state running
  | waiting =>
      refine Nat.eq_zero_of_not_pos fun byte => ?_
      apply Layered.not_silent (quiet .backendWake trivial)
      simp [frontWithin, front, state, byte]
  | awake =>
      rcases read : s.back.requestRing.read ShmTransport.uds.requestBuf with ⟨_ | m, ring⟩
      · refine (Layered.not_silent (quiet .take trivial) ?_).elim
        simp [frontWithin, front, state, read]
      · refine (Layered.event_stuck (quiet .take trivial) (e := .serve) ?_
          (Exchange.serve_isSome read)).elim
        simp [frontWithin, front, state, read]

theorem responseBytes (quiet : QuiescentWithin codecs toBackend toGateway s)
    (running : s.front.listener ≠ .exited) (sound : s.back.Sound codecs) :
    s.front.responseBytes = 0 := by
  have free : s.back.inHand = none := Exchange.settled_inHand sound
    (Layered.event_stuck (quiet .resolve trivial) (e := .resolve) rfl)
  cases state : s.front.listener with
  | exited => exact absurd state running
  | waiting =>
      refine Nat.eq_zero_of_not_pos fun byte => ?_
      apply Layered.not_silent (quiet .listenerWake trivial)
      simp [frontWithin, front, state, byte]
  | awake =>
      rcases read : s.back.responseRing.read ShmTransport.uds.responseBuf with ⟨_ | m, ring⟩
      · refine (Layered.not_silent (quiet .drain trivial) ?_).elim
        simp [frontWithin, front, state, free, read]
      · refine (Layered.event_stuck (quiet .drain trivial) (e := .fetch) ?_
          (Exchange.fetch_isSome free read)).elim
        simp [frontWithin, front, state, free, read]

theorem quiescent (quiet : QuiescentWithin codecs toBackend toGateway s) (calm : Calm codecs s)
    (backend : 0 < toBackend) (gateway : 0 < toGateway) : Quiescent codecs s := by
  have requests := quiet.requestBytes calm.backend
  have responses := quiet.responseBytes calm.listener calm.good.sound
  intro a internal
  apply Option.eq_none_iff_forall_ne_some.mpr
  intro u action
  have taken : stepWithin codecs toBackend toGateway s a = some u := within_of_step action
    (fun _ _ => requests ▸ backend) (fun _ _ => responses ▸ gateway)
  cases (quiet a internal).symm.trans taken

end QuiescentWithin

/-- Sockets of any positive size, even of one byte, never bring calls and listeners to a standstill
that larger ones would not. -/
theorem full_sockets_never_deadlock (codecs : IdCodecs) (toBackend toGateway : Nat)
    (requestCapacity responseCapacity : Nat) (actions : List Action) (s : State)
    (backend : 0 < toBackend) (gateway : 0 < toGateway)
    (ran : run (stepWithin codecs toBackend toGateway) (start requestCapacity responseCapacity)
      actions = some s)
    (smooth : ∀ a ∈ actions, a.Smooth)
    (fits : ∀ a ∈ actions, a.Asks (Exchange.FitsReaders codecs .uds)) :
    Held toBackend toGateway s ∧ actions.length ≤ 27 * s.back.calls.length + 10 ∧
    (∃ rest u, (∀ a ∈ rest, a.Internal) ∧
      run (stepWithin codecs toBackend toGateway) s rest = some u ∧
      QuiescentWithin codecs toBackend toGateway u) ∧
    (QuiescentWithin codecs toBackend toGateway s →
      (s.back.AllReturned ↔ Along (stepWithin codecs toBackend toGateway)
        (Layered.OnEvent (frontWithin toBackend toGateway) (Exchange.AnswerFindsRoom codecs))
        (start requestCapacity responseCapacity) actions)) := by
  have free : run (step codecs) (start requestCapacity responseCapacity) actions = some s :=
    run_mono (fun _ _ _ action => step_of_within action) ran
  have calm := calm_of_run free smooth fits
  refine ⟨?_, length_le free, ?_, fun quiet => ?_⟩
  · exact run_preserves (fun _ _ _ held action => held.step action)
      ⟨Nat.zero_le _, Nat.zero_le _⟩ ran
  · obtain ⟨rest, u, internal, ranOn, _, quiet⟩ := exists_exhausted left
      (fun _ _ _ calm internal action =>
        calm.step internal.asks internal.smooth (step_of_within action))
      (fun _ _ _ calm internal action => left_lt calm.good.sound internal (step_of_within action))
      calm
    exact ⟨rest, u, internal, ranOn, quiet⟩
  · have settled := (quiet.quiescent calm backend gateway).settled calm
    exact (calm.good.sound.allReturned_iff settled calm.undisturbed).trans
      (Exchange.noneRefused_run ran)

theorem full_sockets_never_deadlock_one_byte :
    ∃ s rest u, run (stepWithin bincodeCodecs 1 1) (start 4096 4096) (answeredRun.take 5) =
        some s ∧
      run (stepWithin bincodeCodecs 1 1) s rest = some u ∧
      QuiescentWithin bincodeCodecs 1 1 u := by
  have ran : (run (stepWithin bincodeCodecs 1 1) (start 4096 4096)
      (answeredRun.take 5)).isSome := rfl
  have fits : Exchange.FitsReaders bincodeCodecs .uds (sampleId, ping) :=
    Exchange.fitsReaders_bincode (by decide)
  obtain ⟨_, _, ⟨rest, u, _, ranOn, quiet⟩, _⟩ := full_sockets_never_deadlock bincodeCodecs 1 1
    4096 4096 (answeredRun.take 5) _ (by decide) (by decide) (Option.some_get ran).symm
    (by simp [answeredRun, Action.Smooth, Action.Internal])
    (by simpa [answeredRun, Action.Asks] using fits)
  exact ⟨_, rest, u, (Option.some_get ran).symm, ranOn, quiet⟩

end GatewayGrpc.Transport.Uds
