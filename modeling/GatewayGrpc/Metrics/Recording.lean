import GatewayGrpc.Library.Lists
import GatewayGrpc.Library.Run
import GatewayGrpc.Metrics.Percentile

/-!
# Recording latencies from many threads

`observe` makes three atomic increments, of the total, the sum and one bucket, and `percentile` one
atomic load of the total and one of each bucket. A run interleaves any number of observers with one
reader. What `percentile` computes from the total, `(total as f64 * p / 100.0) as u64`, is a
parameter `rank`.
-/

namespace GatewayGrpc.Metrics
open Library LatencyHistogram

inductive Phase
  | called
  | counted
  | summed
  | recorded
  deriving DecidableEq, Repr

structure Observer where
  latency : ℚ
  phase : Phase
  deriving DecidableEq, Repr

def Observer.isCounted (o : Observer) : Bool := o.phase ≠ .called

def Observer.recorded? (o : Observer) : Option ℚ :=
  if o.phase = .recorded then some o.latency else none

inductive Reader
  | idle
  | scanning (target cumulative : UInt64) (next : Nat)
  | returned (target : UInt64) (value : ℚ)
  deriving DecidableEq, Repr

structure Recording where
  histogram : LatencyHistogram
  observers : List Observer
  reader : Reader

inductive Recording.Action
  | call (latency : ℚ)
  | incrementTotal (j : Nat)
  | addSum (j : Nat)
  | incrementBucket (j : Nat)
  | loadTotal (p : ℚ)
  | loadBucket

namespace Recording

def start (bounds : List ℚ) (increasing : bounds.Pairwise (· < ·)) : Recording where
  histogram := withBounds bounds increasing
  observers := []
  reader := .idle

def setObserver (s : Recording) (j : Nat) (o : Observer) (h : LatencyHistogram) : Recording :=
  { s with histogram := h, observers := s.observers.set j o }

section Step
variable (rank : UInt64 → ℚ → UInt64)

def step (s : Recording) : Action → Option Recording
  | .call x => some { s with observers := s.observers ++ [⟨x, .called⟩] }
  | .incrementTotal j =>
      match s.observers[j]? with
      | some ⟨x, .called⟩ => some (s.setObserver j ⟨x, .counted⟩ s.histogram.addTotal)
      | _ => none
  | .addSum j =>
      match s.observers[j]? with
      | some ⟨x, .counted⟩ => some (s.setObserver j ⟨x, .summed⟩ (s.histogram.addSum x))
      | _ => none
  | .incrementBucket j =>
      match s.observers[j]? with
      | some ⟨x, .summed⟩ => some (s.setObserver j ⟨x, .recorded⟩ (s.histogram.addBucket x))
      | _ => none
  | .loadTotal p =>
      match s.reader with
      | .idle =>
          if s.histogram.total = 0 then some { s with reader := .returned 0 0 }
          else some { s with reader := .scanning (rank s.histogram.total p) 0 0 }
      | _ => none
  | .loadBucket =>
      match s.reader with
      | .scanning t c i =>
          match s.histogram.buckets[i]?, s.histogram.bucketBounds[i]? with
          | some count, some bound =>
              if t ≤ c + count then some { s with reader := .returned t bound }
              else some { s with reader := .scanning t (c + count) (i + 1) }
          | _, _ => some { s with reader := .returned t s.histogram.lastBound }
      | _ => none

def recorded (s : Recording) : List ℚ := s.observers.filterMap Observer.recorded?

def latencies (s : Recording) : List ℚ := s.observers.map Observer.latency

def Quiescent (s : Recording) : Prop := ∀ o ∈ s.observers, o.phase = .recorded

instance : DecidablePred Quiescent := fun s =>
  inferInstanceAs (Decidable (∀ o ∈ s.observers, o.phase = .recorded))

structure Conserved (s : Recording) : Prop where
  total : s.histogram.total.toNat = s.observers.length
  bucket : ∀ i bucket, s.histogram.buckets[i]? = some bucket →
    bucket.toNat = s.latencies.countP (inBucket s.histogram.bucketBounds i)
  sum : (s.histogram.buckets.map UInt64.toNat).sum = s.histogram.total.toNat

/-! ## What a step does -/

inductive Effect (s : Recording) : Action → Recording → Prop
  | called (x : ℚ) : Effect s (.call x) { s with observers := s.observers ++ [⟨x, .called⟩] }
  | counted {j : Nat} {x : ℚ} (here : s.observers[j]? = some ⟨x, .called⟩) :
      Effect s (.incrementTotal j) (s.setObserver j ⟨x, .counted⟩ s.histogram.addTotal)
  | summed {j : Nat} {x : ℚ} (here : s.observers[j]? = some ⟨x, .counted⟩) :
      Effect s (.addSum j) (s.setObserver j ⟨x, .summed⟩ (s.histogram.addSum x))
  | recorded {j : Nat} {x : ℚ} (here : s.observers[j]? = some ⟨x, .summed⟩) :
      Effect s (.incrementBucket j) (s.setObserver j ⟨x, .recorded⟩ (s.histogram.addBucket x))
  | foundNothing {p : ℚ} (idle : s.reader = .idle) (zero : s.histogram.total = 0) :
      Effect s (.loadTotal p) { s with reader := .returned 0 0 }
  | began {p : ℚ} (idle : s.reader = .idle) (some : s.histogram.total ≠ 0) :
      Effect s (.loadTotal p) { s with reader := .scanning (rank s.histogram.total p) 0 0 }
  | reached {t c count : UInt64} {i : Nat} {bound : ℚ} (scanning : s.reader = .scanning t c i)
      (here : s.histogram.buckets[i]? = some count)
      (boundary : s.histogram.bucketBounds[i]? = some bound) (reached : t ≤ c + count) :
      Effect s .loadBucket { s with reader := .returned t bound }
  | passed {t c count : UInt64} {i : Nat} (scanning : s.reader = .scanning t c i)
      (here : s.histogram.buckets[i]? = some count) (short : ¬ t ≤ c + count) :
      Effect s .loadBucket { s with reader := .scanning t (c + count) (i + 1) }
  | fell {t c : UInt64} {i : Nat} (scanning : s.reader = .scanning t c i)
      (beyond : s.histogram.bucketBounds.length ≤ i) :
      Effect s .loadBucket { s with reader := .returned t s.histogram.lastBound }

variable {rank}

theorem step_effect {s t : Recording} {a : Action} (action : step rank s a = some t) :
    Effect rank s a t := by
  cases a with
  | call x =>
      cases action
      exact .called x
  | incrementTotal j =>
      simp only [step] at action
      split at action <;> cases action
      rename_i x here
      exact .counted here
  | addSum j =>
      simp only [step] at action
      split at action <;> cases action
      rename_i x here
      exact .summed here
  | incrementBucket j =>
      simp only [step] at action
      split at action <;> cases action
      rename_i x here
      exact .recorded here
  | loadTotal p =>
      simp only [step] at action
      split at action
      · rename_i idle
        split_ifs at action with zero <;> cases action
        · exact .foundNothing idle zero
        · exact .began idle zero
      · cases action
  | loadBucket =>
      simp only [step] at action
      split at action
      · rename_i target c i scanning
        split at action
        · rename_i count bound here boundary
          split_ifs at action with reached <;> cases action
          · exact .reached scanning here boundary reached
          · exact .passed scanning here reached
        · rename_i missing
          cases action
          refine .fell scanning (Nat.le_of_not_lt fun inside => ?_)
          have aligned := s.histogram.aligned
          exact missing _ _ (List.getElem?_eq_getElem (by omega)) (List.getElem?_eq_getElem inside)
      · cases action

end Step

/-! ## What the counters hold -/

structure Consistent (bounds : List ℚ) (s : Recording) : Prop where
  bounds : s.histogram.bucketBounds = bounds
  total : s.histogram.total = UInt64.ofNat (s.observers.countP Observer.isCounted)
  buckets : s.histogram.buckets = (bucketCounts s.histogram.bucketBounds s.recorded).map UInt64.ofNat

variable {rank : UInt64 → ℚ → UInt64} {bounds : List ℚ} {s t : Recording} {a : Action}

theorem consistent_start (increasing : bounds.Pairwise (· < ·)) :
    Consistent bounds (start bounds increasing) where
  bounds := rfl
  total := rfl
  buckets := (records_withBounds bounds increasing).buckets

theorem Consistent.setObserver (consistent : Consistent bounds s) {j : Nat} {old new : Observer}
    {h : LatencyHistogram} (here : s.observers[j]? = some old)
    (kept : new.recorded? = old.recorded?) (bucketBounds : h.bucketBounds = s.histogram.bucketBounds)
    (buckets : h.buckets = s.histogram.buckets)
    (total : h.total + UInt64.ofNat old.isCounted.toNat =
      s.histogram.total + UInt64.ofNat new.isCounted.toNat) :
    Consistent bounds (s.setObserver j new h) where
  bounds := bucketBounds.trans consistent.bounds
  total := by
    have count := congrArg UInt64.ofNat (countP_set_of (y := new) Observer.isCounted here)
    rw [UInt64.ofNat_add, UInt64.ofNat_add, ← consistent.total, ← total] at count
    exact (UInt64.add_left_inj _).mp count.symm
  buckets := by
    have same : (s.setObserver j new h).recorded = s.recorded := filterMap_set_of here kept
    rw [same]
    change h.buckets = (bucketCounts h.bucketBounds s.recorded).map UInt64.ofNat
    rw [buckets, bucketBounds, consistent.buckets]

theorem recorded_record {j : Nat} {x : ℚ} (here : s.observers[j]? = some ⟨x, .summed⟩) :
    (s.setObserver j ⟨x, .recorded⟩ (s.histogram.addBucket x)).recorded.Perm (x :: s.recorded) :=
  perm_filterMap_set here rfl rfl

theorem Consistent.record (consistent : Consistent bounds s) {j : Nat} {x : ℚ}
    (here : s.observers[j]? = some ⟨x, .summed⟩) :
    Consistent bounds (s.setObserver j ⟨x, .recorded⟩ (s.histogram.addBucket x)) where
  bounds := consistent.bounds
  total := by
    have count := countP_set_of (y := ⟨x, .recorded⟩) Observer.isCounted here
    refine consistent.total.trans (congrArg UInt64.ofNat ?_)
    exact (Nat.add_right_cancel count).symm
  buckets := by
    rw [bucketCounts_perm (recorded_record here)]
    change incrementFirst x s.histogram.bucketBounds s.histogram.buckets = _
    rw [consistent.buckets, incrementFirst_bucketCounts]
    rfl

theorem Consistent.step (consistent : Consistent bounds s) (action : step rank s a = some t) :
    Consistent bounds t := by
  cases step_effect action with
  | called x =>
      refine ⟨consistent.bounds, ?_, ?_⟩
      · simpa [List.countP_append, Observer.isCounted] using consistent.total
      · simpa [recorded, Observer.recorded?] using consistent.buckets
  | counted here =>
      exact consistent.setObserver here rfl rfl rfl (by simp [Observer.isCounted, addTotal])
  | summed here => exact consistent.setObserver here rfl rfl rfl rfl
  | recorded here => exact consistent.record here
  | _ => exact ⟨consistent.bounds, consistent.total, consistent.buckets⟩

theorem consistent_of_run {increasing : bounds.Pairwise (· < ·)} {actions : List Action}
    (ran : run (step rank) (start bounds increasing) actions = some s) : Consistent bounds s :=
  run_preserves (fun _ _ _ consistent action => consistent.step action)
    (consistent_start increasing) ran

/-! ## One thread at a time -/

theorem run_observe (s : Recording) (x : ℚ) :
    run (step rank) s [.call x, .incrementTotal s.observers.length, .addSum s.observers.length,
        .incrementBucket s.observers.length] =
      some { s with
        histogram := s.histogram.observe x
        observers := s.observers ++ [⟨x, .recorded⟩] } := by
  simp [step, setObserver, LatencyHistogram.observe]

theorem run_loads (s : Recording) (t c : UInt64) (i : Nat) :
    ∃ n, run (step rank) { s with reader := .scanning t c i } (List.replicate n .loadBucket) =
      some { s with
        reader := .returned t <|
          (scan t c ((s.histogram.buckets.zip s.histogram.bucketBounds).drop i)).getD
            s.histogram.lastBound } := by
  have aligned := s.histogram.aligned
  induction left : s.histogram.bucketBounds.length - i generalizing c i with
  | zero =>
      have beyond : s.histogram.bucketBounds.length ≤ i := by omega
      have none_left : (s.histogram.buckets.zip s.histogram.bucketBounds).drop i = [] := by
        apply List.drop_of_length_le
        rw [List.length_zip]
        omega
      refine ⟨1, ?_⟩
      simp [step, List.getElem?_eq_none beyond, none_left, scan]
  | succ n ih =>
      have inside : i < s.histogram.bucketBounds.length := by omega
      have here : i < s.histogram.buckets.length := by omega
      have next : (s.histogram.buckets.zip s.histogram.bucketBounds).drop i =
          (s.histogram.buckets[i], s.histogram.bucketBounds[i]) ::
            (s.histogram.buckets.zip s.histogram.bucketBounds).drop (i + 1) := by
        rw [List.drop_eq_getElem_cons (by rw [List.length_zip]; omega), List.getElem_zip]
      rw [next, scan]
      split_ifs with reached
      · refine ⟨1, ?_⟩
        simp [step, List.getElem?_eq_getElem inside, List.getElem?_eq_getElem here, reached]
      · obtain ⟨k, rest⟩ := ih (c + s.histogram.buckets[i]) (i + 1) (by omega)
        refine ⟨k + 1, ?_⟩
        rw [List.replicate_succ, run_cons, ← rest]
        simp [step, List.getElem?_eq_getElem inside, List.getElem?_eq_getElem here, reached]

theorem run_percentile (s : Recording) (idle : s.reader = .idle) (p : ℚ) :
    ∃ n t, run (step target) s (.loadTotal p :: List.replicate n .loadBucket) =
      some { s with reader := .returned t (s.histogram.percentile p) } := by
  by_cases zero : s.histogram.total = 0
  · refine ⟨0, 0, ?_⟩
    simp [step, idle, zero, percentile]
  · obtain ⟨n, loads⟩ := run_loads s (target s.histogram.total p) 0 0
    refine ⟨n, target s.histogram.total p, ?_⟩
    rw [run_cons, percentile, if_neg zero]
    simpa [step, idle, zero] using loads

/-! ## Conservation -/

theorem recorded_eq (quiescent : s.Quiescent) : s.recorded = s.latencies := by
  unfold recorded latencies
  rw [← List.filterMap_eq_map]
  apply List.filterMap_congr
  intro o member
  simp [Observer.recorded?, quiescent o member]

theorem countP_isCounted (quiescent : s.Quiescent) :
    s.observers.countP Observer.isCounted = s.observers.length := by
  apply List.countP_eq_length.mpr
  intro o member
  simp [Observer.isCounted, quiescent o member]

theorem map_toNat_bucketCounts {xs : List ℚ} (few : xs.length < 2 ^ 64) :
    ((bucketCounts bounds xs).map UInt64.ofNat).map UInt64.toNat = bucketCounts bounds xs := by
  rw [List.map_map]
  refine (List.map_congr_left ?_).trans (List.map_id _)
  intro n member
  have small := (le_of_mem_bucketCounts member).trans_lt few
  exact (UInt64.toNat_ofNat' ..).trans (Nat.mod_eq_of_lt small)

theorem any_iff_le_last (increasing : bounds.Pairwise (· < ·)) (x : ℚ) :
    bounds.any (x ≤ ·) ↔ ∃ last ∈ bounds.getLast?, x ≤ last := by
  constructor
  · intro some
    obtain ⟨b, member, le⟩ := List.any_eq_true.mp some
    have last := le_lastBound (withBounds bounds increasing) member
    have nonempty := List.ne_nil_of_mem member
    have here := List.getLast?_eq_some_getLast nonempty
    refine ⟨_, here, (of_decide_eq_true le).trans ?_⟩
    simpa [lastBound, withBounds, here] using last
  · rintro ⟨last, here, le⟩
    exact List.any_eq_true.mpr ⟨last, List.mem_of_getLast? here, decide_eq_true le⟩

/-- Between observations the counters add up if and only if they have not wrapped and no latency was
above the last bound. -/
theorem conserved_iff (rank : UInt64 → ℚ → UInt64) (bounds : List ℚ)
    (increasing : bounds.Pairwise (· < ·)) (actions : List Action) (s : Recording)
    (ran : run (step rank) (start bounds increasing) actions = some s) (quiescent : s.Quiescent) :
    s.Conserved ↔ s.observers.length < 2 ^ 64 ∧
      ∀ x ∈ s.latencies, ∃ last ∈ bounds.getLast?, x ≤ last := by
  obtain ⟨same, total, buckets⟩ := consistent_of_run ran
  rw [recorded_eq quiescent, same] at buckets
  rw [countP_isCounted quiescent] at total
  have length : s.latencies.length = s.observers.length := List.length_map _
  have exactly (few : s.observers.length < 2 ^ 64) :
      s.histogram.total.toNat = s.observers.length ∧
        s.histogram.buckets.map UInt64.toNat = bucketCounts bounds s.latencies := by
    constructor
    · rw [total, UInt64.toNat_ofNat', Nat.mod_eq_of_lt few]
    · rw [buckets, map_toNat_bucketCounts (length ▸ few)]
  have covered : s.latencies.countP (fun x => bounds.any (x ≤ ·)) = s.latencies.length ↔
      ∀ x ∈ s.latencies, ∃ last ∈ bounds.getLast?, x ≤ last := by
    rw [List.countP_eq_length]
    simp only [any_iff_le_last increasing]
  constructor
  · intro conserved
    have few : s.observers.length < 2 ^ 64 := conserved.total ▸ s.histogram.total.toNat_lt
    refine ⟨few, covered.mp ?_⟩
    rw [← sum_bucketCounts, ← (exactly few).2, conserved.sum, conserved.total, length]
  · rintro ⟨few, all⟩
    obtain ⟨exactTotal, exactBuckets⟩ := exactly few
    refine ⟨exactTotal, ?_, ?_⟩
    · intro i bucket here
      have count := congrArg (·[i]?) exactBuckets
      simp only [List.getElem?_map, here, Option.map_some] at count
      rw [getElem?_bucketCounts increasing] at count
      obtain ⟨_, _, value⟩ := Option.map_eq_some_iff.mp count.symm
      rw [same, value]
    · rw [exactBuckets, sum_bucketCounts, covered.mpr all, exactTotal, length]

def interleaved : List Action :=
  [.call (1 / 10 ^ 3), .call (2 / 10 ^ 3), .incrementTotal 1, .addSum 1, .incrementTotal 0,
    .incrementBucket 1, .addSum 0, .incrementBucket 0]

theorem conserved_interleaved :
    ∃ s, run (step target) (start newBounds newBounds_increasing) interleaved = some s ∧
      s.Conserved := by
  have ran : (run (step target) (start newBounds newBounds_increasing) interleaved).isSome := rfl
  refine ⟨_, (Option.some_get ran).symm, ?_⟩
  refine (conserved_iff target newBounds newBounds_increasing interleaved _
    (Option.some_get ran).symm (by decide +kernel +revert)).mpr ⟨by decide +kernel +revert, ?_⟩
  intro x member
  refine ⟨_, newBounds_complete, ?_⟩
  revert x
  decide +kernel +revert

theorem long_latency_lost :
    ¬ ∀ actions s, run (step target) (start newBounds newBounds_increasing) actions = some s →
      (∀ x ∈ s.latencies, 0 ≤ x) → s.Quiescent → s.Conserved := by
  intro conserved
  have ran : (run (step target) (start newBounds newBounds_increasing)
    [.call 20, .incrementTotal 0, .addSum 0, .incrementBucket 0]).isSome := rfl
  have sum := (conserved _ _ (Option.some_get ran).symm (by decide +kernel +revert)
    (by decide +kernel +revert)).sum
  revert sum
  decide +kernel +revert

end Recording

end GatewayGrpc.Metrics
