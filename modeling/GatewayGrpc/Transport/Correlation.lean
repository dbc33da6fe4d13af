import GatewayGrpc.Transport.Uds
import GatewayGrpc.Transport.Eventfd

/-!
# Every caller gets its own answer
-/

namespace GatewayGrpc.Transport
open Library Proto SharedMemory

/-- A call that returns an answer returns its own, no sender is used twice, and of a request that
the backend read, read only once, the answer goes to at most one sender. -/
structure Exchange.Correlated (s : Exchange) : Prop where
  own : ∀ call ∈ s.calls, ∀ response, call.phase = .returned (.ok response) →
    response.Echoes call.request
  once : (s.sends.map Prod.snd).Nodup
  readOnce : (s.tasks.map Task.id).Nodup
  resolvesOnce : ∀ task ∈ s.tasks, s.sends.countP (fun send => send.1 = task.id) ≤ 1

theorem Exchange.Sound.correlated {codecs : IdCodecs} {s : Exchange} (sound : s.Sound codecs) :
    s.Correlated where
  own := fun _ member _ returned => sound.returned_echoes member returned
  once := sound.replies.once
  readOnce := sound.intake.tasksNodup
  resolvesOnce := fun task _ => by
    have atMost := List.nodup_iff_count_le_one.mp sound.sends_ids task.id
    rw [List.count, List.countP_map] at atMost
    refine (List.countP_congr fun send _ => ?_).trans_le atMost
    simp only [decide_eq_true_eq, Function.comp_apply, beq_iff_eq]

/-- In every run of either id-based transport, with any number of calls, in any interleaving and
with any of them dropped, every caller gets its own answer. -/
theorem answers_correlated (codecs : IdCodecs) (requestCapacity responseCapacity : Nat) :
    (∀ actions s, run (Uds.step codecs) (Uds.start requestCapacity responseCapacity) actions =
      some s → s.back.Correlated) ∧
    (∀ actions s, run (Eventfd.step codecs) (Eventfd.start requestCapacity responseCapacity)
      actions = some s → s.back.Correlated) :=
  ⟨fun _ _ ran => (Exchange.Sound.of_run ran).correlated,
    fun _ _ ran => (Exchange.Sound.of_run ran).correlated⟩

def pong : EchoRequest := ⟨⟨"pong", by decide⟩, 8, ⟨[3], by decide⟩⟩

def udsRun : List Uds.Action :=
  [.call sampleId ping, .call otherId pong, .register 0, .register 1, .write 0, .write 1,
    .lockNotify 1, .notify 1, .flush 1, .lockNotify 0, .notify 0, .flush 0, .backendWake, .take,
    .backendWake, .take, .respond 1 5 6, .lockWrite 1, .notifyBack 1, .flushBack 1, .listenerWake,
    .drain, .resolve, .drain, .receive 1, .respond 0 7 8, .lockWrite 0, .notifyBack 0,
    .flushBack 0, .listenerWake, .drain, .resolve, .drain, .receive 0]

def eventfdRun : List Eventfd.Action :=
  [.call sampleId ping, .call otherId pong, .register 0, .register 1, .write 0, .write 1, .signal 1,
    .signal 0, .backendWake, .take, .take, .respond 1 5 6, .respond 0 7 8, .signalBack 0,
    .signalBack 1, .listenerWake, .drain, .resolve, .receive 1, .drain, .resolve, .receive 0]

theorem answers_correlated_reordered :
    (∃ s, run (Uds.step bincodeCodecs) (Uds.start 4096 4096) udsRun = some s ∧
      s.back.Correlated) ∧
    ∃ s, run (Eventfd.step bincodeCodecs) (Eventfd.start 4096 4096) eventfdRun = some s ∧
      s.back.Correlated := by
  have uds : (run (Uds.step bincodeCodecs) (Uds.start 4096 4096) udsRun).isSome := by
    rfl
  have eventfd : (run (Eventfd.step bincodeCodecs) (Eventfd.start 4096 4096) eventfdRun).isSome := by
    rfl
  exact ⟨⟨_, (Option.some_get uds).symm,
      (answers_correlated bincodeCodecs 4096 4096).1 _ _ (Option.some_get uds).symm⟩,
    ⟨_, (Option.some_get eventfd).symm,
      (answers_correlated bincodeCodecs 4096 4096).2 _ _ (Option.some_get eventfd).symm⟩⟩

end GatewayGrpc.Transport
