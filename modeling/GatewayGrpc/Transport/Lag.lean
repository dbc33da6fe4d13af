import GatewayGrpc.Library.Lists
import GatewayGrpc.Transport.Polling

/-!
# How far behind the polling transport runs

A call that gives up after its write leaves a message in the line for which nobody will come. The
calls after it take the answers to earlier ones, and only an answer that the backend cannot write
brings them closer.
-/

namespace GatewayGrpc.Transport.Polling
open Library Proto SharedMemory

def polls (s : Polling) : Nat := s.calls.countP fun call => call.phase = .polling

def abandons (s : Polling) : Action → Bool
  | .timeout _ => true
  | .drop i => s.phase? i = some .polling
  | _ => false

variable (codecs : Codecs EchoRequest EchoResponse)

def loses (s : Polling) : Action → Bool
  | .answer ts pt => s.backend.any fun request =>
      ¬ s.responseRing.Room (codecs.response.encode (request.echo ts pt))
  | _ => false

/-- Calls one after another: nobody writes while another call polls. -/
def Solitary (s : Polling) : Action → Prop
  | .write _ => s.polls = 0
  | _ => True

instance (s : Polling) (a : Action) : Decidable (s.Solitary a) :=
  match a with
  | .write _ => inferInstanceAs (Decidable (_ = _))
  | .call _ | .timeout _ | .drop _ | .poll _ | .serve | .answer _ _ => .isTrue trivial

variable {codecs} {s t : Polling} {a : Action}

/-! ## What a step does to the line -/

variable (codecs) in
inductive Shift (s : Polling) (a : Action) (t : Polling) : Prop
  | called (request : EchoRequest) (calls : t.calls = s.calls ++ [⟨request, .sending⟩])
      (line : t.line = s.line) (counted : (s.abandons a, s.loses codecs a) = (false, false))
  | wrote {i : Nat} (write : a = .write i) (here : s.phase? i = some .sending)
      (calls : t.calls = (s.setPhase i .polling).calls) (line : t.line = s.line ++ [i])
      (counted : (s.abandons a, s.loses codecs a) = (false, false))
  | ended {i : Nat} {before after : Phase} (here : s.phase? i = some before)
      (settled : after ≠ .sending ∧ after ≠ .polling) (calls : t.calls = (s.setPhase i after).calls)
      (line : t.line = s.line)
      (counted : (s.abandons a, s.loses codecs a) = (decide (before = .polling), false))
  | took {i first : Nat} {others : List Nat} {result : Except CallError EchoResponse}
      (here : s.phase? i = some .polling) (head : s.line = first :: others)
      (calls : t.calls = (s.setPhase i (.returned result)).calls) (line : t.line = others)
      (counted : (s.abandons a, s.loses codecs a) = (false, false))
  | kept (calls : t.calls = s.calls) (line : t.line = s.line)
      (counted : (s.abandons a, s.loses codecs a) = (false, false))
  | lost (calls : t.calls = s.calls) (shorter : t.line.length + 1 = s.line.length)
      (line : t.line.Sublist s.line) (counted : (s.abandons a, s.loses codecs a) = (false, true))

theorem step_shift (lined : Lined codecs s) (action : step codecs s a = some t) :
    Shift codecs s a t := by
  obtain ⟨answers, working, waiting, inLine⟩ := lined
  cases a with
  | call request =>
      cases action
      exact .called request rfl rfl rfl
  | write i =>
      obtain ⟨request, asks, action⟩ := Option.bind_eq_some_iff.mp action
      obtain ⟨here, action⟩ := guard_bind_eq_some.mp action
      split at action <;> cases action
      · exact .wrote rfl here rfl rfl rfl
      · exact .ended here (by simp) rfl rfl rfl
  | timeout i =>
      obtain ⟨here, action⟩ := guard_bind_eq_some.mp action
      cases action
      exact .ended here (by simp) rfl rfl rfl
  | drop i =>
      obtain ⟨here, action⟩ := guard_bind_eq_some.mp action
      cases action
      rcases here with here | here
      · exact .ended here (by simp) rfl rfl (by simp [abandons, loses, here])
      · exact .ended here (by simp) rfl rfl (by simp [abandons, loses, here])
  | poll i =>
      obtain ⟨here, action⟩ := guard_bind_eq_some.mp action
      split at action <;> cases action
      · exact .kept rfl rfl rfl
      · rename_i m ring read
        obtain ⟨_, held, _⟩ := Fifo.read_eq_ok read
        obtain ⟨first, others, rfl, _⟩ := inLine.head held
        have line : s.line = first :: (others ++ (working ++ waiting)) := inLine.line
        exact .took here line rfl (by simp [line]) rfl
  | serve =>
      obtain ⟨free, action⟩ := guard_bind_eq_some.mp action
      split at action
      · cases action
        exact .kept rfl rfl rfl
      · rename_i m ring read
        obtain ⟨_, held, _⟩ := Fifo.read_eq_ok read
        have waits := inLine.waits
        rw [held] at waits
        obtain ⟨i, others, ⟨own, asks, rfl⟩, _⟩ := List.forall₂_cons_right_iff.mp waits
        rw [codecs.request.decode_encode] at action
        cases action
        exact .kept rfl rfl rfl
  | answer ts pt =>
      simp only [step, Option.bind_eq_bind, Option.bind_eq_some_iff] at action
      obtain ⟨request, busy, action⟩ := action
      obtain ⟨i, rfl, asks⟩ := inLine.working_eq_singleton busy
      split at action <;> cases action
      · rename_i written
        have room := (Fifo.write_eq_ok written).1
        exact .kept rfl rfl (by simp [abandons, loses, busy, room])
      · rename_i refused
        have full := (Fifo.write_eq_error refused).1
        refine .lost rfl ?_ (List.eraseIdx_sublist _ _) (by simp [abandons, loses, busy, full])
        show (s.line.eraseIdx s.responseRing.messages.length).length + 1 = s.line.length
        rw [inLine.eraseIdx rfl, inLine.line]
        simp only [List.length_append, List.length_singleton]
        omega

/-! ## The balance -/

theorem polls_setPhase {i : Nat} {before : Phase} (here : s.phase? i = some before)
    (phase : Phase) : (s.setPhase i phase).polls + (decide (before = .polling)).toNat =
      s.polls + (decide (phase = .polling)).toNat := by
  obtain ⟨call, there, rfl⟩ := Option.map_eq_some_iff.mp here
  have replaced : (s.setPhase i phase).calls = s.calls.set i { call with phase := phase } := by
    simp only [setPhase]
    rw [List.modify_eq_set_getElem?, there]
    rfl
  rw [polls, replaced]
  exact countP_set_of (fun call => decide (call.phase = .polling)) there

theorem polls_eq_zero_iff : s.polls = 0 ↔ ∀ i, s.phase? i ≠ some .polling := by
  simp only [polls, List.countP_eq_zero, List.mem_iff_getElem?, phase?, decide_eq_true_eq]
  constructor
  · intro none i polling
    obtain ⟨call, here, polling⟩ := Option.map_eq_some_iff.mp polling
    exact none call ⟨i, here⟩ polling
  · rintro none call ⟨i, here⟩ polling
    exact none i (by rw [here, Option.map_some, polling])

theorem polls_congr (calls : t.calls = s.calls) : t.polls = s.polls := by
  rw [polls, calls, polls]

theorem Shift.balanced (shift : Shift codecs s a t) :
    t.line.length + (s.loses codecs a).toNat + s.polls =
      s.line.length + (s.abandons a).toNat + t.polls := by
  cases shift with
  | called request calls line counted =>
      obtain ⟨abandons, loses⟩ := Prod.mk.inj counted
      have polls : t.polls = s.polls := by simp [polls, calls]
      simp [abandons, loses, line, polls]
  | wrote _ here calls line counted =>
      obtain ⟨abandons, loses⟩ := Prod.mk.inj counted
      have moved := polls_setPhase here .polling
      simp only [abandons, loses, line, polls_congr calls, List.length_append,
        List.length_singleton, Bool.toNat_false]
      simp only [reduceCtorEq, decide_false, decide_true, Bool.toNat_false, Bool.toNat_true] at moved
      omega
  | @ended i before after here settled calls line counted =>
      obtain ⟨abandons, loses⟩ := Prod.mk.inj counted
      have moved := polls_setPhase here after
      simp only [abandons, loses, line, polls_congr calls, Bool.toNat_false]
      simp only [settled.2, decide_false, Bool.toNat_false] at moved
      omega
  | @took _ _ _ result here head calls line counted =>
      obtain ⟨abandons, loses⟩ := Prod.mk.inj counted
      have moved := polls_setPhase here (.returned result)
      simp only [abandons, loses, head, line, polls_congr calls, List.length_cons,
        Bool.toNat_false]
      simp only [reduceCtorEq, decide_false, decide_true, Bool.toNat_false, Bool.toNat_true] at moved
      omega
  | kept calls line counted =>
      obtain ⟨abandons, loses⟩ := Prod.mk.inj counted
      simp [abandons, loses, line, polls_congr calls]
  | lost calls shorter _ counted =>
      obtain ⟨abandons, loses⟩ := Prod.mk.inj counted
      simp only [abandons, loses, polls_congr calls, Bool.toNat_false, Bool.toNat_true]
      omega

theorem Lined.takes {i : Nat} {response : EchoResponse} (lined : Lined codecs s)
    (action : step codecs s (.poll i) = some t)
    (done : t.phase? i = some (.returned (.ok response))) :
    ∃ first request, s.line.head? = some first ∧ s.request? first = some request ∧
      response.Echoes request := by
  obtain ⟨here, action⟩ := guard_bind_eq_some.mp action
  split at action
  · cases action
    rw [here] at done
    cases done
  · rename_i m ring read
    obtain ⟨answers, working, waiting, inLine⟩ := lined
    obtain ⟨_, held, _⟩ := Fifo.read_eq_ok read
    obtain ⟨first, others, _, head, ⟨request, ts, pt, asks, rfl⟩, _⟩ := inLine.head held
    rw [codecs.response.decode_encode] at action
    cases action
    have result : (s.setPhase i (.returned (.ok (request.echo ts pt)))).phase? i =
        some (.returned (.ok response)) := done
    rw [phase?_setPhase, if_pos rfl, here] at result
    obtain rfl : request.echo ts pt = response := by simpa using result
    exact ⟨first, request, head, asks, rfl, rfl⟩

/-! ## One call at a time -/

theorem phase?_congr {i : Nat} (calls : t.calls = s.calls) : t.phase? i = s.phase? i := by
  rw [phase?, calls, phase?]

structure Last (s : Polling) : Prop where
  written : ∀ i ∈ s.line, ∃ phase, s.phase? i = some phase ∧ phase ≠ .sending
  alone : ∀ i j, s.phase? i = some .polling → s.phase? j = some .polling → i = j
  behind : ∀ i j, s.phase? i = some .polling → ¬ [i, j].Sublist s.line

theorem last_initial (requestCapacity responseCapacity : Nat) :
    (initial requestCapacity responseCapacity).Last where
  written := by simp [initial]
  alone := by simp [initial, phase?]
  behind := by simp [initial, phase?]

namespace Last

theorem eq_append (last : s.Last) {i : Nat} (polling : s.phase? i = some .polling)
    (member : i ∈ s.line) : ∃ older, s.line = older ++ [i] ∧ i ∉ older := by
  obtain ⟨older, newer, line⟩ := List.append_of_mem member
  have behind := last.behind i
  rw [line] at behind
  cases newer with
  | cons j newer =>
      refine absurd ?_ (behind j polling)
      exact ((List.nil_sublist newer).cons_cons j |>.cons_cons i).trans
        (List.sublist_append_right _ _)
  | nil =>
      refine ⟨older, line, fun before => behind i polling ?_⟩
      exact (List.singleton_sublist.mpr before).append (List.Sublist.refl [i])

theorem polls_eq_one (last : s.Last) {i : Nat} (polling : s.phase? i = some .polling) :
    s.polls = 1 := by
  have stopped := polls_setPhase polling .dropped
  have nobody : (s.setPhase i .dropped).polls = 0 := by
    rw [polls_eq_zero_iff]
    intro j there
    have same := last.alone i j polling (polling_of_setPhase (by simp) there)
    rw [← same, phase?_setPhase, if_pos rfl, polling] at there
    cases there
  rw [nobody] at stopped
  simpa using stopped.symm

theorem shrink (last : s.Last) (line : t.line.Sublist s.line)
    (written : ∀ i, (∃ phase, s.phase? i = some phase ∧ phase ≠ .sending) →
      ∃ phase, t.phase? i = some phase ∧ phase ≠ .sending)
    (polling : ∀ i, t.phase? i = some .polling → s.phase? i = some .polling) : t.Last where
  written := fun i member => written i (last.written i (line.subset member))
  alone := fun i j here there => last.alone i j (polling i here) (polling j there)
  behind := fun i j here pair => last.behind i j (polling i here) (pair.trans line)

theorem setPhase {i : Nat} {after : Phase} (last : s.Last)
    (settled : after ≠ .sending ∧ after ≠ .polling) (calls : t.calls = (s.setPhase i after).calls)
    (line : t.line.Sublist s.line) : t.Last := by
  apply last.shrink line
  · rintro j ⟨phase, there, written⟩
    rw [phase?_congr calls, phase?_setPhase]
    split
    · exact ⟨after, by rw [there, Option.map_some], settled.1⟩
    · exact ⟨phase, there, written⟩
  · intro j polling
    rw [phase?_congr calls] at polling
    exact polling_of_setPhase settled.2 polling

theorem write {i : Nat} (last : s.Last) (here : s.phase? i = some .sending) (nobody : s.polls = 0)
    (calls : t.calls = (s.setPhase i .polling).calls) (line : t.line = s.line ++ [i]) :
    t.Last := by
  have fresh : i ∉ s.line := by
    intro member
    obtain ⟨phase, there, written⟩ := last.written i member
    exact written (Option.some.inj (there.symm.trans here))
  have only (j : Nat) (polling : t.phase? j = some .polling) : j = i := by
    by_contra other
    rw [phase?_congr calls, phase?_setPhase, if_neg (Ne.symm other)] at polling
    exact polls_eq_zero_iff.mp nobody j polling
  constructor
  · intro j member
    rw [phase?_congr calls, phase?_setPhase]
    rw [line] at member
    split
    · rename_i same
      exact ⟨.polling, by rw [← same, here, Option.map_some], by simp⟩
    · rename_i other
      refine last.written j ?_
      simpa [Ne.symm other] using member
  · intro j k first second
    rw [only j first, only k second]
  · intro j k polling pair
    rw [only j polling, line] at pair
    -- two of a list that ends in `i` cannot begin with `i` when it is nowhere before
    obtain ⟨front, back, split, before, behind⟩ := List.sublist_append_iff.mp pair
    cases front with
    | nil =>
        have long := behind.length_le
        rw [List.nil_append] at split
        rw [← split] at long
        simp at long
    | cons head front =>
        rw [List.cons_append, List.cons.injEq] at split
        exact fresh (split.1 ▸ before.subset List.mem_cons_self)

theorem step (last : s.Last) (solitary : s.Solitary a) (shift : Shift codecs s a t) : t.Last := by
  cases shift with
  | called request calls line _ =>
      apply last.shrink (line ▸ .refl _)
      · rintro i ⟨phase, here, written⟩
        obtain ⟨call, there, rfl⟩ := Option.map_eq_some_iff.mp here
        refine ⟨call.phase, ?_, written⟩
        rw [phase?, calls, List.getElem?_append_left (lt_of_getElem?_eq there), there,
          Option.map_some]
      · intro i polling
        rw [phase?, calls] at polling
        exact polling_of_call polling
  | wrote write here calls line _ =>
      rw [write] at solitary
      exact last.write here solitary calls line
  | ended _ settled calls line _ => exact last.setPhase settled calls (line ▸ .refl _)
  | took _ head calls line _ =>
      refine last.setPhase ⟨by simp, by simp⟩ calls ?_
      rw [head, line]
      exact List.sublist_cons_self _ _
  | kept calls line _ =>
      refine last.shrink (line ▸ .refl _) (fun i => ?_) fun i => ?_
      · rw [phase?_congr calls]
        exact id
      · rw [phase?_congr calls]
        exact id
  | lost calls _ line _ =>
      refine last.shrink line (fun i => ?_) fun i => ?_
      · rw [phase?_congr calls]
        exact id
      · rw [phase?_congr calls]
        exact id

end Last

section Runs
variable (codecs : Codecs EchoRequest EchoResponse) (requestCapacity responseCapacity : Nat)
  (actions : List Action)

def abandoned : Nat :=
  tally (step codecs) abandons (initial requestCapacity responseCapacity) actions

def lost : Nat :=
  tally (step codecs) (loses codecs) (initial requestCapacity responseCapacity) actions

/-- Every call that gives up after its write leaves a message behind, and only a lost answer makes
up for it. Where calls are made one at a time, the call that polls is that many places behind: it
takes the answer to an earlier call for as long as more have given up than answers were lost. -/
theorem answers_lag (s : Polling)
    (ran : run (step codecs) (initial requestCapacity responseCapacity) actions = some s) :
    s.line.length + lost codecs requestCapacity responseCapacity actions =
      s.polls + abandoned codecs requestCapacity responseCapacity actions ∧
    (Along (step codecs) Solitary (initial requestCapacity responseCapacity) actions →
      ∀ i, s.phase? i = some .polling → i ∈ s.line →
        (∃ older, s.line = older ++ [i] ∧
          older.length + lost codecs requestCapacity responseCapacity actions =
            abandoned codecs requestCapacity responseCapacity actions) ∧
        ∀ t response, step codecs s (.poll i) = some t →
          t.phase? i = some (.returned (.ok response)) →
          ∃ first request, s.line.head? = some first ∧ s.request? first = some request ∧
            response.Echoes request ∧
            (first = i ↔ abandoned codecs requestCapacity responseCapacity actions =
              lost codecs requestCapacity responseCapacity actions)) := by
  have start : Lined codecs (initial requestCapacity responseCapacity) :=
    ⟨[], [], [], inLine_initial _ _⟩
  have balanced : s.line.length + lost codecs requestCapacity responseCapacity actions =
      s.polls + abandoned codecs requestCapacity responseCapacity actions := by
    have moved : s.line.length + lost codecs requestCapacity responseCapacity actions + 0 =
        0 + abandoned codecs requestCapacity responseCapacity actions + s.polls :=
      run_tallies (fun _ _ _ lined action => lined.effect (step_effect action))
        (fun _ _ _ lined action => (step_shift lined action).balanced) start ran
    omega
  refine ⟨balanced, fun solitary i polling member => ?_⟩
  have kept (s a t) (inv : Lined codecs s ∧ s.Last) (solitary : s.Solitary a)
      (action : step codecs s a = some t) : Lined codecs t ∧ t.Last :=
    ⟨inv.1.effect (step_effect action), inv.2.step solitary (step_shift inv.1 action)⟩
  obtain ⟨lined, last⟩ := run_invariant kept ⟨start, last_initial _ _⟩ solitary ran
  obtain ⟨older, line, fresh⟩ := last.eq_append polling member
  have behind : older.length + lost codecs requestCapacity responseCapacity actions =
      abandoned codecs requestCapacity responseCapacity actions := by
    rw [line, last.polls_eq_one polling, List.length_append, List.length_singleton] at balanced
    omega
  refine ⟨⟨older, line, behind⟩, fun t response action done => ?_⟩
  obtain ⟨first, request, head, asks, echoes⟩ := lined.takes action done
  refine ⟨first, request, head, asks, echoes, ?_⟩
  rw [line] at head
  cases older with
  | nil =>
      obtain rfl : i = first := by simpa using head
      rw [List.length_nil, Nat.zero_add] at behind
      exact iff_of_true rfl behind.symm
  | cons oldest older =>
      obtain rfl : oldest = first := by simpa using head
      rw [List.length_cons] at behind
      refine iff_of_false ?_ (by omega)
      rintro rfl
      exact fresh List.mem_cons_self

def staleRun : List Action :=
  [.call (ask "old" (by decide)), .write 0, .timeout 0, .call (ask "new" (by decide)), .write 1,
    .serve, .answer 5 6]

theorem answers_lag_stale : ∃ s t response first request,
    run (step jsonCodecs) (initial 4096 4096) staleRun = some s ∧
      step jsonCodecs s (.poll 1) = some t ∧ t.phase? 1 = some (.returned (.ok response)) ∧
      s.request? first = some request ∧ response.Echoes request ∧ first ≠ 1 := by
  have ran : (run (step jsonCodecs) (initial 4096 4096) staleRun).isSome := rfl
  have takes : (step jsonCodecs (Option.get _ ran) (.poll 1)).isSome := rfl
  have lag := (answers_lag jsonCodecs 4096 4096 staleRun _ (Option.some_get ran).symm).2
    (by decide +kernel) 1 rfl (show 1 ∈ [0, 1] by decide)
  obtain ⟨first, request, _, asks, echoes, own⟩ :=
    lag.2 _ ((ask "old" (by decide)).echo 5 6) (Option.some_get takes).symm rfl
  refine ⟨_, _, _, first, request, (Option.some_get ran).symm, (Option.some_get takes).symm, rfl,
    asks, echoes, fun same => ?_⟩
  exact absurd (own.mp same) (by decide +kernel)

end Runs

end GatewayGrpc.Transport.Polling
