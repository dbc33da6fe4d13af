import GatewayGrpc.Metrics.Recording
import Mathlib.Algebra.Order.BigOperators.Group.List

/-!
# The mean that is read during traffic

`mean` loads the total and, later, the sum, while other threads are anywhere in their three
increments: it may divide the latencies of more observations than it has counted.
-/

namespace GatewayGrpc.Metrics
open Library LatencyHistogram

def LatencyHistogram.mean (h : LatencyHistogram) : ℚ :=
  if h.total = 0 then 0 else h.sum.toNat / h.total.toNat / 10 ^ 9

inductive Averager
  | idle
  | loaded (total : UInt64)
  | returned (value : ℚ)
  deriving DecidableEq, Repr

structure Averaging where
  recording : Recording
  averager : Averager

namespace Averaging

inductive Action
  | record (a : Recording.Action)
  | loadTotal
  | loadSum

def start (bounds : List ℚ) (increasing : bounds.Pairwise (· < ·)) : Averaging where
  recording := Recording.start bounds increasing
  averager := .idle

def step (rank : UInt64 → ℚ → UInt64) (s : Averaging) : Action → Option Averaging
  | .record a => do some { s with recording := ← s.recording.step rank a }
  | .loadTotal =>
      match s.averager with
      | .idle =>
          if s.recording.histogram.total = 0 then some { s with averager := .returned 0 }
          else some { s with averager := .loaded s.recording.histogram.total }
      | _ => none
  | .loadSum =>
      match s.averager with
      | .loaded total =>
          some { s with
            averager := .returned (s.recording.histogram.sum.toNat / total.toNat / 10 ^ 9) }
      | _ => none

theorem run_mean (rank : UInt64 → ℚ → UInt64) (s : Averaging) (idle : s.averager = .idle) :
    ∃ loads, run (step rank) s loads =
      some { s with averager := .returned s.recording.histogram.mean } := by
  by_cases zero : s.recording.histogram.total = 0
  · exact ⟨[.loadTotal], by simp [step, idle, zero, mean]⟩
  · exact ⟨[.loadTotal, .loadSum], by simp [step, idle, zero, mean]⟩

end Averaging

/-! ## Nanoseconds -/

def nanoseconds (latency : ℚ) : Nat := (toU64 (latency * 10 ^ 9)).toNat

theorem nanoseconds_le {x : ℚ} (nonneg : 0 ≤ x) : (nanoseconds x : ℚ) ≤ x * 10 ^ 9 := by
  rw [nanoseconds, toNat_toU64]
  refine le_trans ?_ (Nat.floor_le (by positivity))
  exact_mod_cast min_le_left _ _

theorem lt_nanoseconds_add_one {x : ℚ} (small : nanoseconds x < 2 ^ 64 - 1) :
    x * 10 ^ 9 < nanoseconds x + 1 := by
  rw [nanoseconds, toNat_toU64] at small ⊢
  have exact : min ⌊x * 10 ^ 9⌋₊ (2 ^ 64 - 1) = ⌊x * 10 ^ 9⌋₊ := by omega
  rw [exact]
  exact Nat.lt_floor_add_one _

theorem sum_nanoseconds_le {xs : List ℚ} (nonneg : ∀ x ∈ xs, 0 ≤ x) :
    ((xs.map nanoseconds).sum : ℚ) ≤ xs.sum * 10 ^ 9 := by
  induction xs with
  | nil => simp
  | cons x xs ih =>
      have head := nanoseconds_le (nonneg x List.mem_cons_self)
      have tail := ih fun y member => nonneg y (List.mem_cons_of_mem x member)
      simp only [List.map_cons, List.sum_cons, Nat.cast_add]
      linarith

theorem sum_le_nanoseconds {xs : List ℚ} (small : ∀ x ∈ xs, nanoseconds x < 2 ^ 64 - 1) :
    xs.sum * 10 ^ 9 ≤ (xs.map nanoseconds).sum + xs.length := by
  induction xs with
  | nil => simp
  | cons x xs ih =>
      have head := lt_nanoseconds_add_one (small x List.mem_cons_self)
      have tail := ih fun y member => small y (List.mem_cons_of_mem x member)
      simp only [List.map_cons, List.sum_cons, Nat.cast_add, List.length_cons, Nat.cast_one]
      linarith

theorem mean_nanoseconds {xs : List ℚ} (nonempty : 0 < xs.length) (nonneg : ∀ x ∈ xs, 0 ≤ x)
    (small : (xs.map nanoseconds).sum < 2 ^ 64 - 1) {v : ℚ}
    (value : v * xs.length * 10 ^ 9 = (xs.map nanoseconds).sum) :
    v ≤ xs.sum / xs.length ∧ xs.sum / xs.length ≤ v + 1 / 10 ^ 9 := by
  have positive : (0 : ℚ) < xs.length := by exact_mod_cast nonempty
  have each (x) (member : x ∈ xs) : nanoseconds x < 2 ^ 64 - 1 :=
    (List.single_le_sum (fun _ _ => Nat.zero_le _) _ (List.mem_map_of_mem member)).trans_lt small
  have below := sum_nanoseconds_le nonneg
  have above := sum_le_nanoseconds each
  rw [← value] at below above
  constructor
  · rw [le_div_iff₀ positive]
    linarith
  · rw [div_le_iff₀ positive]
    linarith

/-! ## What the sum holds -/

def Observer.isSummed (o : Observer) : Bool := o.phase = .summed || o.phase = .recorded

def Observer.isRecorded (o : Observer) : Bool := o.phase = .recorded

namespace Recording
variable {rank : UInt64 → ℚ → UInt64} {bounds : List ℚ} {s t : Recording} {a : Action}

def nanosecondsOf (s : Recording) (p : Observer → Bool) : Nat :=
  (s.observers.map fun o => if p o then nanoseconds o.latency else 0).sum

theorem nanosecondsOf_mono {p q : Observer → Bool} (more : ∀ o, p o → q o) :
    s.nanosecondsOf p ≤ s.nanosecondsOf q := by
  apply List.sum_le_sum
  intro o _
  cases holds : p o with
  | false => simp
  | true => simp [more o holds]

theorem nanosecondsOf_all : s.nanosecondsOf (fun _ => true) = (s.latencies.map nanoseconds).sum := by
  simp [nanosecondsOf, latencies, Function.comp_def]

theorem nanosecondsOf_isRecorded (quiescent : s.Quiescent) :
    s.nanosecondsOf Observer.isRecorded = (s.latencies.map nanoseconds).sum := by
  rw [← nanosecondsOf_all]
  refine congrArg List.sum (List.map_congr_left fun o member => ?_)
  simp [Observer.isRecorded, quiescent o member]

theorem nanosecondsOf_setObserver {j : Nat} {old : Observer} (p : Observer → Bool)
    (here : s.observers[j]? = some old) (new : Observer) (h : LatencyHistogram) :
    (s.setObserver j new h).nanosecondsOf p + (if p old then nanoseconds old.latency else 0) =
      s.nanosecondsOf p + if p new then nanoseconds new.latency else 0 :=
  sum_map_set_of (fun o => if p o then nanoseconds o.latency else 0) here

theorem sum_moved (action : step rank s a = some t) :
    ∃ more, t.nanosecondsOf Observer.isSummed = s.nanosecondsOf Observer.isSummed + more ∧
      t.histogram.sum = s.histogram.sum + UInt64.ofNat more := by
  cases step_effect action with
  | called x => exact ⟨0, by simp [nanosecondsOf, Observer.isSummed], by simp⟩
  | @counted j x here =>
      have same := nanosecondsOf_setObserver Observer.isSummed here ⟨x, .counted⟩
        s.histogram.addTotal
      exact ⟨0, same, (UInt64.add_zero _).symm⟩
  | @summed j x here =>
      have more := nanosecondsOf_setObserver Observer.isSummed here ⟨x, .summed⟩
        (s.histogram.addSum x)
      exact ⟨nanoseconds x, more, congrArg (s.histogram.sum + ·) UInt64.ofNat_toNat.symm⟩
  | @recorded j x here =>
      have same := nanosecondsOf_setObserver Observer.isSummed here ⟨x, .recorded⟩
        (s.histogram.addBucket x)
      exact ⟨0, Nat.add_right_cancel same, (UInt64.add_zero _).symm⟩
  | _ => exact ⟨0, rfl, (UInt64.add_zero _).symm⟩

def Summed (s : Recording) : Prop :=
  s.histogram.sum = UInt64.ofNat (s.nanosecondsOf Observer.isSummed)

structure Since (base s : Recording) : Prop where
  summed : s.Summed
  more : base.nanosecondsOf Observer.isSummed ≤ s.nanosecondsOf Observer.isSummed

theorem Since.step {base : Recording} (since : Since base s) (action : step rank s a = some t) :
    Since base t := by
  obtain ⟨more, added, sum⟩ := sum_moved action
  refine ⟨?_, since.more.trans (by omega)⟩
  rw [Summed, sum, since.summed, ← UInt64.ofNat_add, added]

end Recording

namespace Averaging
variable {rank : UInt64 → ℚ → UInt64} {s t : Averaging} {a : Action} {actions : List Action}

theorem recording_step (action : step rank s a = some t) :
    t.recording = s.recording ∨ ∃ b, s.recording.step rank b = some t.recording := by
  cases a with
  | record b =>
      obtain ⟨u, first, action⟩ := Option.bind_eq_some_iff.mp action
      cases action
      exact .inr ⟨b, first⟩
  | loadTotal =>
      simp only [step] at action
      split at action
      · split at action <;> cases action <;> exact .inl rfl
      · cases action
  | loadSum =>
      simp only [step] at action
      split at action <;> cases action
      exact .inl rfl

theorem recording_preserves {Inv : Recording → Prop}
    (kept : ∀ u b v, Inv u → u.step rank b = some v → Inv v) (start : Inv s.recording)
    (ran : run (step rank) s actions = some t) : Inv t.recording := by
  have preserved (u : Averaging) (b : Action) (v : Averaging) (inv : Inv u.recording)
      (action : step rank u b = some v) : Inv v.recording := by
    rcases recording_step action with same | ⟨c, action⟩
    · exact same ▸ inv
    · exact kept _ c _ inv action
  exact run_preserves preserved start ran

theorem loadTotal_eq_some (action : step rank s .loadTotal = some t) :
    t.recording = s.recording ∧ (t.averager = .returned 0 ∨
      s.recording.histogram.total ≠ 0 ∧ t.averager = .loaded s.recording.histogram.total) := by
  simp only [step] at action
  split at action
  · split at action <;> cases action
    · exact ⟨rfl, .inl rfl⟩
    · exact ⟨rfl, .inr ⟨‹_›, rfl⟩⟩
  · cases action

theorem loadSum_eq_some (action : step rank s .loadSum = some t) :
    ∃ total, s.averager = .loaded total ∧
      t.averager = .returned (s.recording.histogram.sum.toNat / total.toNat / 10 ^ 9) := by
  simp only [step] at action
  split at action <;> cases action
  exact ⟨_, ‹_›, rfl⟩

theorem averager_of_run (called : s.averager ≠ .idle) (ran : run (step rank) s actions = some t) :
    t.averager = s.averager ∨ ∃ v, t.averager = .returned v := by
  have kept (u : Averaging) (b : Action) (v : Averaging)
      (loaded : u.averager = s.averager ∨ ∃ w, u.averager = .returned w)
      (action : step rank u b = some v) :
      v.averager = s.averager ∨ ∃ w, v.averager = .returned w := by
    cases b with
    | record b =>
        obtain ⟨_, _, action⟩ := Option.bind_eq_some_iff.mp action
        cases action
        exact loaded
    | loadTotal =>
        simp only [step] at action
        split at action
        · rename_i idle
          rcases loaded with loaded | ⟨_, gone⟩
          · exact absurd (loaded.symm.trans idle) called
          · cases idle.symm.trans gone
        · cases action
    | loadSum =>
        obtain ⟨_, _, returned⟩ := loadSum_eq_some action
        exact .inr ⟨_, returned⟩
  exact run_preserves kept (.inl rfl) ran

theorem total_eq {called : Averaging} {total : UInt64}
    (loaded : step rank s .loadTotal = some called)
    (meanwhile : run (step rank) called actions = some t) (here : t.averager = .loaded total) :
    s.recording.histogram.total ≠ 0 ∧ total = s.recording.histogram.total := by
  obtain ⟨_, zero | ⟨positive, loaded⟩⟩ := loadTotal_eq_some loaded
  · rcases averager_of_run (by simp [zero]) meanwhile with still | ⟨_, gone⟩
    · cases (here.symm.trans still).trans zero
    · cases here.symm.trans gone
  · refine ⟨positive, ?_⟩
    rcases averager_of_run (by simp [loaded]) meanwhile with still | ⟨_, gone⟩
    · exact Averager.loaded.inj ((here.symm.trans still).trans loaded)
    · cases here.symm.trans gone

theorem since_of_run (summed : s.recording.Summed) (ran : run (step rank) s actions = some t) :
    Recording.Since s.recording t.recording := by
  have kept (u b v) (since : Recording.Since s.recording u)
      (action : Recording.step rank u b = some v) : Recording.Since s.recording v :=
    since.step action
  exact recording_preserves kept ⟨summed, le_refl _⟩ ran

/-- What `mean` returns lies between the latencies of the observations that were over when it was
called and those of all that have begun when it returns. Where nothing else ran it is the mean, up
to a nanosecond. -/
theorem mean_between (rank : UInt64 → ℚ → UInt64) (bounds : List ℚ)
    (increasing : bounds.Pairwise (· < ·)) (before during : List Action) (s called t u : Averaging)
    (ran : run (step rank) (start bounds increasing) before = some s)
    (loaded : step rank s .loadTotal = some called)
    (meanwhile : run (step rank) called during = some t)
    (returned : step rank t .loadSum = some u) (few : s.recording.observers.length < 2 ^ 64)
    (small : (t.recording.latencies.map nanoseconds).sum < 2 ^ 64 - 1) :
    ∃ v n, u.averager = .returned v ∧ 0 < n ∧
      s.recording.observers.countP Observer.isRecorded ≤ n ∧ n ≤ s.recording.observers.length ∧
      s.recording.nanosecondsOf Observer.isRecorded ≤ v * n * 10 ^ 9 ∧
      v * n * 10 ^ 9 ≤ (t.recording.latencies.map nanoseconds).sum ∧
      (s.recording.Quiescent → t.recording.latencies = s.recording.latencies →
        (∀ x ∈ s.recording.latencies, 0 ≤ x) →
        v ≤ s.recording.latencies.sum / s.recording.latencies.length ∧
          s.recording.latencies.sum / s.recording.latencies.length ≤ v + 1 / 10 ^ 9) := by
  obtain ⟨total, here, value⟩ := loadSum_eq_some returned
  obtain ⟨positive, rfl⟩ := total_eq loaded meanwhile here
  have consistent : Recording.Consistent bounds s.recording := by
    have kept (u b v) (inv : Recording.Consistent bounds u)
        (action : Recording.step rank u b = some v) : Recording.Consistent bounds v :=
      inv.step action
    exact recording_preserves kept (Recording.consistent_start increasing) ran
  have summed := (since_of_run (s := start bounds increasing) rfl ran).summed
  obtain ⟨same, _⟩ := loadTotal_eq_some loaded
  have since := since_of_run (s := called) (same ▸ summed) meanwhile
  rw [same] at since
  -- the total and the sum have not wrapped
  have count : s.recording.histogram.total.toNat =
      s.recording.observers.countP Observer.isCounted := by
    rw [consistent.total, UInt64.toNat_ofNat']
    exact Nat.mod_eq_of_lt (List.countP_le_length.trans_lt few)
  have all := Recording.nanosecondsOf_mono (s := t.recording) (p := Observer.isSummed)
    (q := fun _ => true) (fun _ _ => rfl)
  rw [Recording.nanosecondsOf_all] at all
  have sum : t.recording.histogram.sum.toNat = t.recording.nanosecondsOf Observer.isSummed := by
    rw [since.summed, UInt64.toNat_ofNat']
    exact Nat.mod_eq_of_lt (by omega)
  have fewer := Recording.nanosecondsOf_mono (s := s.recording) (p := Observer.isRecorded)
    (q := Observer.isSummed) (by simp +contextual [Observer.isRecorded, Observer.isSummed])
  have recorded := fewer.trans since.more
  rw [count, sum] at value
  have counted : 0 < s.recording.observers.countP Observer.isCounted := by
    rw [← count]
    exact Nat.pos_of_ne_zero fun zero => positive (UInt64.toNat_inj.mp zero)
  have exactly : (t.recording.nanosecondsOf Observer.isSummed /
      s.recording.observers.countP Observer.isCounted / 10 ^ 9 : ℚ) *
        s.recording.observers.countP Observer.isCounted * 10 ^ 9 =
      t.recording.nanosecondsOf Observer.isSummed := by
    field_simp
  refine ⟨_, _, value, counted, ?_, List.countP_le_length, ?_, ?_, fun quiescent same nonneg => ?_⟩
  · apply List.countP_mono_left
    simp +contextual [Observer.isRecorded, Observer.isCounted]
  · rw [exactly]
    exact_mod_cast recorded
  · rw [exactly]
    exact_mod_cast all
  · have length := Recording.countP_isCounted quiescent
    have every := Recording.nanosecondsOf_isRecorded quiescent
    rw [same] at all small
    have latencies : s.recording.latencies.length = s.recording.observers.length :=
      List.length_map _
    apply mean_nanoseconds (by omega) nonneg small
    rw [length] at exactly ⊢
    rw [latencies, exactly]
    exact_mod_cast Nat.le_antisymm all (every ▸ recorded)

def measured : List Action :=
  [.record (.call (1 / 10 ^ 3)), .record (.incrementTotal 0), .record (.addSum 0),
    .record (.incrementBucket 0)]

def overlapping : List Action :=
  [.record (.call (2 / 10 ^ 3)), .record (.incrementTotal 1), .record (.addSum 1)]

theorem mean_between_overlapping :
    ∃ s called t u v, run (step target) (start newBounds newBounds_increasing) measured = some s ∧
      step target s .loadTotal = some called ∧ run (step target) called overlapping = some t ∧
      step target t .loadSum = some u ∧ u.averager = .returned v ∧ 1 / 10 ^ 3 ≤ v ∧ v ≤ 3 / 10 ^ 3 := by
  have ran : (run (step target) (start newBounds newBounds_increasing) measured).isSome := rfl
  have loaded : (step target (Option.get _ ran) .loadTotal).isSome := rfl
  have meanwhile : (run (step target) (Option.get _ loaded) overlapping).isSome := rfl
  have returned : (step target (Option.get _ meanwhile) .loadSum).isSome := rfl
  have first : (Option.get _ ran).recording.nanosecondsOf Observer.isRecorded = 10 ^ 6 := by
    decide +kernel +revert
  have both : ((Option.get _ meanwhile).recording.latencies.map nanoseconds).sum = 3 * 10 ^ 6 := by
    decide +kernel +revert
  obtain ⟨v, n, value, positive, _, le, below, above, _⟩ :=
    mean_between target newBounds newBounds_increasing measured overlapping _ _ _ _
      (Option.some_get ran).symm (Option.some_get loaded).symm (Option.some_get meanwhile).symm
      (Option.some_get returned).symm (by decide +kernel +revert) (by decide +kernel +revert)
  refine ⟨_, _, _, _, v, (Option.some_get ran).symm, (Option.some_get loaded).symm,
    (Option.some_get meanwhile).symm, (Option.some_get returned).symm, value, ?_⟩
  have one : n = 1 := Nat.le_antisymm le positive
  rw [first, one] at below
  rw [both, one] at above
  push_cast at below above
  constructor <;> linarith

end Averaging

end GatewayGrpc.Metrics
