import GatewayGrpc.Gateway.Answers

/-!
# The metrics of the gateway add up

The counters run ahead of the histograms by what is still open, what was dropped and what failed
before it was timed.
-/

namespace GatewayGrpc.Gateway
open Library Proto Transport

def Handler.status (h : Handler) : Option Nat :=
  match h.stage with
  | .answered response => some response.status
  | _ => none

def Handler.outcome (h : Handler) : Option Nat :=
  match h.stage with
  | .responding response | .answered response => some response.status
  | _ => none

namespace Handlers
variable {Front Act : Type} {fromSlice : FromSlice} {link : Link Front Act} {codecs : IdCodecs}

/-- `handle_request` observes the duration of a request that got to the call and back. -/
def Timed (h : Handler) : Bool := h.status = some 200 ∨ h.status = some 503

def Succeeded (h : Handler) : Bool := h.outcome = some 200

structure Counted (calls : Nat) (g : Handlers) : Prop where
  httpTotal : g.httpRequestsTotal = g.handlers.length
  grpcTotal : g.grpcRequestsTotal = g.handlers.countP fun h => h.call.isSome
  grpcCalls : g.grpcRequestsTotal = calls
  httpDuration : g.httpRequestDuration = g.handlers.countP Timed
  grpcDuration : g.grpcRequestDuration = g.handlers.countP Succeeded

theorem counted_initial : Counted 0 initial := ⟨rfl, rfl, rfl, rfl, rfl⟩

variable {g : Handlers} {i calls : Nat} {h k : Handler}

theorem Counted.set (counted : Counted calls g) (here : g.handlers[i]? = some h)
    {later grpc http answers : Nat} (moved : later = grpc)
    (made : grpc + h.call.isSome.toNat = g.grpcRequestsTotal + k.call.isSome.toNat)
    (timed : http + (Timed h).toNat = g.httpRequestDuration + (Timed k).toNat)
    (succeeded : answers + (Succeeded h).toNat = g.grpcRequestDuration + (Succeeded k).toNat) :
    Counted later ⟨g.handlers.set i k, g.httpRequestsTotal, grpc, http, answers⟩ := by
  have callsSet := countP_set_of (y := k) (fun h => h.call.isSome) here
  have timedSet := countP_set_of (y := k) Timed here
  have succeededSet := countP_set_of (y := k) Succeeded here
  obtain ⟨httpTotal, grpcTotal, grpcCalls, httpDuration, grpcDuration⟩ := counted
  constructor
  · rw [List.length_set]
    exact httpTotal
  · dsimp only
    omega
  · exact moved.symm
  · dsimp only
    omega
  · dsimp only
    omega

theorem untimed (early : h.stage = .collecting ∨ h.stage = .calling) :
    Timed h = false ∧ Succeeded h = false := by
  rcases early with stage | stage <;>
    simp [Timed, Succeeded, Handler.status, Handler.outcome, stage]

theorem Counted.leave (counted : Counted calls g) (here : g.handlers[i]? = some h)
    (early : h.stage = .collecting ∨ h.stage = .calling) (untimedToo : Timed k = false)
    (failed : Succeeded k = false) (call : k.call = h.call) : Counted calls (g.setHandler i k) := by
  obtain ⟨timed, succeeded⟩ := untimed early
  refine counted.set here counted.grpcCalls.symm ?_ ?_ ?_
  · rw [call]
  · rw [timed, untimedToo]
  · rw [succeeded, failed]

theorem Counted.accept (counted : Counted calls g) (call : k.call = none)
    (collecting : k.stage = .collecting) :
    Counted calls
      { g with handlers := g.handlers ++ [k], httpRequestsTotal := g.httpRequestsTotal + 1 } := by
  obtain ⟨timed, succeeded⟩ := untimed (.inl collecting)
  obtain ⟨httpTotal, grpcTotal, grpcCalls, httpDuration, grpcDuration⟩ := counted
  constructor
  · simp [httpTotal]
  · simp [grpcTotal, List.countP_append, call]
  · exact grpcCalls
  · simp [httpDuration, List.countP_append, timed]
  · simp [grpcDuration, List.countP_append, succeeded]

/-- A handler without a call is answered with a 400, one behind its call with a 200 or a 503. -/
theorem Linked.outcome {calls : List Transport.Call} {handlers : List Handler}
    (linked : Linked fromSlice calls handlers) (member : h ∈ handlers) {response : HttpResponse}
    (stage : h.stage = .responding response ∨ h.stage = .answered response) :
    h.call = none ∧ h.stage = .answered response ∧ response.status = 400 ∨
      h.call.isSome ∧ (response.status = 200 ∨ response.status = 503) := by
  cases made : h.call with
  | none =>
      left
      rcases stage with here | here <;>
        rcases (linked.alone h member made).2 with other | other | other <;>
        cases here.symm.trans other
      exact ⟨rfl, here, rfl⟩
  | some c =>
      obtain ⟨call, _, _, served⟩ := linked.serves h member c made
      have same : ∃ cause result, response = respond cause result := by
        rcases stage with here | here <;> rw [here] at served <;>
          obtain ⟨result, cause, _, same⟩ := served <;> exact ⟨cause, result, same⟩
      obtain ⟨cause, result, rfl⟩ := same
      refine .inr ⟨rfl, ?_⟩
      cases result with
      | ok echo => exact .inl rfl
      | error error => exact .inr rfl

theorem Counted.step {s u : State Front} {a : Action Act} (good : Good fromSlice codecs s)
    (counted : Counted s.back.back.calls.length s.front)
    (action : step fromSlice link codecs s a = some u) :
    Counted u.back.back.calls.length u.front := by
  have linked := good.linked
  obtain ⟨g, b⟩ := s
  obtain ⟨k, c⟩ := u
  obtain ⟨e, effect, second⟩ := step_effect action
  dsimp only at *
  have total := counted.grpcCalls
  cases effect with
  | accepted path =>
      cases second
      exact counted.accept rfl rfl
  | bodyFailed here collecting =>
      cases second
      exact counted.leave here (.inl collecting) rfl rfl rfl
  | forwarded body ts id here collecting =>
      have none := linked.call_none here collecting
      obtain ⟨timed, succeeded⟩ := untimed (.inl collecting)
      refine counted.set here ?_ ?_ (by rw [timed]; rfl) (by rw [succeeded]; rfl)
      · rw [ask_calls second, List.length_append, List.length_singleton, total]
      · simp [none]
  | transported other => exact (transport_kept other second).1 ▸ counted
  | answered cause here calling | failed cause here calling =>
      cases second
      obtain ⟨timed, succeeded⟩ := untimed (.inr calling)
      exact counted.set here total.symm rfl (by rw [timed]; rfl) (by rw [succeeded]; rfl)
  | @finished i h response here responding =>
      cases second
      have timed : Timed h = false := by simp [Timed, Handler.status, responding]
      have nowTimed : Timed { h with stage := .answered response } = true := by
        rcases linked.outcome (List.mem_of_getElem? here) (.inl responding) with
          ⟨_, stage, _⟩ | ⟨_, status⟩
        · cases responding.symm.trans stage
        · simpa [Timed, Handler.status] using status
      refine counted.set here total.symm rfl (by rw [timed, nowTimed]; rfl) ?_
      simp [Handlers.setHandler, Succeeded, Handler.outcome, responding]
  | droppedEarly here collecting =>
      cases second
      exact counted.leave here (.inl collecting) rfl rfl rfl
  | dropped here calling =>
      rw [Exchange.dropped_step (abandon_step second)]
      exact counted.leave here (.inr calling) rfl rfl rfl

theorem counted_of_run {requestCapacity responseCapacity : Nat} {actions : List (Action Act)}
    {s : State Front}
    (ran : run (Handlers.step fromSlice link codecs) (start link requestCapacity responseCapacity)
      actions = some s) :
    Good fromSlice codecs s ∧ Counted s.back.back.calls.length s.front := by
  have steps : ∀ (s : State Front) a u,
      Good fromSlice codecs s ∧ Counted s.back.back.calls.length s.front →
      Handlers.step fromSlice link codecs s a = some u →
      Good fromSlice codecs u ∧ Counted u.back.back.calls.length u.front :=
    fun _ _ _ both action => ⟨both.1.step action, both.2.step both.1 action⟩
  exact run_preserves steps ⟨good_start _ _, counted_initial⟩ ran

/-! ## Where the others are -/

def Pending (h : Handler) : Bool :=
  match h.stage with
  | .collecting | .calling | .responding _ => true
  | _ => false

def Calling (h : Handler) : Bool := h.stage = .calling

def Responding (h : Handler) : Bool :=
  match h.stage with
  | .responding _ => true
  | _ => false

def Dropped (h : Handler) : Bool := h.stage = .dropped

def DroppedInCall (h : Handler) : Bool := h.stage = .dropped ∧ h.call.isSome

def Answered (status : Nat) (h : Handler) : Bool := h.status = some status

def Failed (h : Handler) : Bool := h.outcome = some 503

theorem Linked.call_collecting {calls : List Transport.Call} {handlers : List Handler}
    (linked : Linked fromSlice calls handlers) (member : h ∈ handlers)
    (collecting : h.stage = .collecting) : h.call = none := by
  obtain ⟨i, here⟩ := List.mem_iff_getElem?.mp member
  exact linked.call_none here collecting

theorem Linked.call_calling {calls : List Transport.Call} {handlers : List Handler}
    (linked : Linked fromSlice calls handlers) (member : h ∈ handlers)
    (calling : h.stage = .calling) : h.call.isSome := by
  cases made : h.call with
  | some c => rfl
  | none =>
      obtain ⟨_, stage⟩ := linked.alone h member made
      rw [calling] at stage
      rcases stage with stage | stage | stage <;> cases stage

theorem Linked.partition {calls : List Transport.Call} {handlers : List Handler}
    (linked : Linked fromSlice calls handlers) :
    handlers.length = handlers.countP Timed + handlers.countP Pending +
        handlers.countP Dropped + handlers.countP (Answered 400) ∧
      handlers.countP (fun h => h.call.isSome) = handlers.countP Succeeded +
        handlers.countP Calling + handlers.countP DroppedInCall + handlers.countP Failed ∧
      handlers.countP Timed + handlers.countP Responding =
        handlers.countP Succeeded + handlers.countP Failed := by
  have all := countP_partition (l := handlers) (fun _ => true)
    [Timed, Pending, Dropped, Answered 400] fun h member => by
      cases stage : h.stage with
      | answered response =>
          rcases linked.outcome member (.inr stage) with ⟨_, _, status⟩ | ⟨_, status | status⟩ <;>
            simp [Timed, Pending, Dropped, Answered, Handler.status, stage, status]
      | collecting | calling | responding | dropped =>
          simp [Timed, Pending, Dropped, Answered, Handler.status, stage]
  have made := countP_partition (l := handlers) (fun h => h.call.isSome)
    [Succeeded, Calling, DroppedInCall, Failed] fun h member => by
      cases stage : h.stage with
      | responding response =>
          rcases linked.outcome member (.inl stage) with ⟨_, other, _⟩ | ⟨call, status | status⟩
          · cases stage.symm.trans other
          all_goals
            simp [Succeeded, Calling, DroppedInCall, Failed, Handler.outcome, stage, status, call]
      | answered response =>
          rcases linked.outcome member (.inr stage) with
              ⟨call, _, status⟩ | ⟨call, status | status⟩ <;>
            simp [Succeeded, Calling, DroppedInCall, Failed, Handler.outcome, stage, status, call]
      | collecting =>
          simp [Succeeded, Calling, DroppedInCall, Failed, Handler.outcome, stage,
            linked.call_collecting member stage]
      | calling =>
          simp [Succeeded, Calling, DroppedInCall, Failed, Handler.outcome, stage,
            linked.call_calling member stage]
      | dropped => simp [Succeeded, Calling, DroppedInCall, Failed, Handler.outcome, stage]
  -- behind the call, by how far they are and by how they end
  have behind := countP_partition (l := handlers) (fun h => Succeeded h || Failed h)
    [Timed, Responding] fun h member => by
      cases stage : h.stage with
      | responding response =>
          rcases linked.outcome member (.inl stage) with ⟨_, other, _⟩ | ⟨_, status | status⟩
          · cases stage.symm.trans other
          all_goals
            simp [Timed, Responding, Succeeded, Failed, Handler.status, Handler.outcome, stage,
              status]
      | answered response =>
          rcases linked.outcome member (.inr stage) with ⟨_, _, status⟩ | ⟨_, status | status⟩ <;>
            simp [Timed, Responding, Succeeded, Failed, Handler.status, Handler.outcome, stage,
              status]
      | collecting | calling | dropped =>
          simp [Timed, Responding, Succeeded, Failed, Handler.status, Handler.outcome, stage]
  have ended := countP_partition (l := handlers) (fun h => Succeeded h || Failed h)
    [Succeeded, Failed] fun h _ => by
      by_cases ok : h.outcome = some 200 <;> simp [Succeeded, Failed, ok]
  simp only [List.countP_true, List.map_cons, List.map_nil, List.sum_cons, List.sum_nil,
    Nat.add_zero, ← Nat.add_assoc] at all made behind ended
  exact ⟨all, made, behind.symm.trans ended⟩

/-- In every run the metrics account for every request: those that are timed, those still open,
those dropped by their clients, and those answered before they were timed. -/
theorem metrics_account {requestCapacity responseCapacity : Nat} {actions : List (Action Act)}
    {s : State Front}
    (ran : run (step fromSlice link codecs) (start link requestCapacity responseCapacity) actions =
      some s) :
    s.front.httpRequestsTotal = s.front.httpRequestDuration + s.front.handlers.countP Pending +
        s.front.handlers.countP Dropped + s.front.handlers.countP (Answered 400) ∧
      s.front.grpcRequestsTotal = s.front.grpcRequestDuration + s.front.handlers.countP Calling +
        s.front.handlers.countP DroppedInCall + s.front.handlers.countP Failed ∧
      s.front.httpRequestDuration + s.front.handlers.countP Responding =
        s.front.grpcRequestDuration + s.front.handlers.countP Failed ∧
      s.front.grpcRequestsTotal = s.back.back.calls.length := by
  obtain ⟨good, counted⟩ := counted_of_run ran
  obtain ⟨all, made, timed⟩ := good.linked.partition
  rw [counted.httpTotal, counted.grpcTotal, counted.httpDuration, counted.grpcDuration]
  exact ⟨all, made, timed, counted.grpcTotal ▸ counted.grpcCalls⟩

theorem metrics_account_reordered :
    ∃ s, run (step parsed shmEventfd bincodeCodecs) (start shmEventfd 64 4096) eventfdActions =
        some s ∧
      s.front.httpRequestsTotal = s.front.httpRequestDuration + s.front.handlers.countP Pending +
        s.front.handlers.countP Dropped + s.front.handlers.countP (Answered 400) := by
  have eventfd : (run (step parsed shmEventfd bincodeCodecs) (start shmEventfd 64 4096)
      eventfdActions).isSome := by decide +kernel
  obtain ⟨s, ran⟩ := Option.isSome_iff_exists.mp eventfd
  exact ⟨s, ran, (metrics_account ran).1⟩

end Handlers

end GatewayGrpc.Gateway
