import GatewayGrpc.Metrics.Recording
import Mathlib.Data.List.MinMax

/-!
# A percentile during traffic

The total is raised before the bucket is, so the scan of `percentile` may look for more latencies
than it finds, and then reports the last bound. What it can find are the buckets that are
incremented before it loads them.
-/

namespace GatewayGrpc.Metrics
open Library LatencyHistogram

def Reader.progress : Reader → Option (UInt64 × Nat)
  | .idle => some (0, 0)
  | .scanning _ cumulative next => some (cumulative, next)
  | .returned _ _ => none

def Reader.target? : Reader → Option UInt64
  | .idle => none
  | .scanning target _ _ | .returned target _ => some target

def Reader.value? : Reader → Option ℚ
  | .returned _ value => some value
  | _ => none

namespace Recording

/-- The increment of a bucket that the scan has yet to load. -/
def visible (s : Recording) : Action → Bool
  | .incrementBucket j =>
      match s.observers[j]?, s.reader.progress with
      | some o, some (_, i) => ahead s.histogram.bucketBounds i o.latency
      | _, _ => false
  | _ => false

def unread (s : Recording) (i : Nat) : Nat := ((s.histogram.buckets.drop i).map UInt64.toNat).sum

/-- `v` is no greater than any bound that covers all latencies begun, and 0 or a bound if there are
none. -/
def Modest (s : Recording) (v : ℚ) : Prop :=
  (s.latencies = [] → v = 0 ∨ v ∈ s.histogram.bucketBounds) ∧
    (s.latencies ≠ [] → ∀ b ∈ s.histogram.bucketBounds, (∀ x ∈ s.latencies, x ≤ b) → v ≤ b)

def Reaches (s : Recording) (v : ℚ) : Prop :=
  ∃ x ∈ s.latencies, ∀ b ∈ s.histogram.bucketBounds, x ≤ b → v ≤ b

structure Balanced (s : Recording) (n : Nat) : Prop where
  loaded : ∀ c i, s.reader.progress = some (c, i) →
    c.toNat + s.unread i = n ∧ n ≤ s.recorded.length
  below : ∀ t c i, s.reader = .scanning t c i → s.latencies ≠ [] ∧ (i ≠ 0 → c < t)
  result : ∀ t v, s.reader = .returned t v →
    (t = 0 ∧ v = 0) ∨ (t.toNat ≤ n ∧ s.Reaches v) ∨
      (n < t.toNat ∧ v = s.histogram.lastBound ∧ s.latencies ≠ [])

variable {rank : UInt64 → ℚ → UInt64} {bounds : List ℚ} {s t : Recording} {a : Action} {n : Nat}

theorem sum_incrementFirst {x : ℚ} {bounds : List ℚ} {buckets : List UInt64}
    (aligned : buckets.length = bounds.length)
    (small : ∀ bucket ∈ buckets, bucket.toNat + 1 < 2 ^ 64) (i : Nat) :
    (((incrementFirst x bounds buckets).drop i).map UInt64.toNat).sum =
      ((buckets.drop i).map UInt64.toNat).sum + (ahead bounds i x).toNat := by
  induction bounds generalizing buckets i with
  | nil =>
      obtain rfl := List.length_eq_zero_iff.mp aligned
      simp [incrementFirst, ahead]
  | cons bound bounds ih =>
      cases buckets with
      | nil => cases aligned
      | cons bucket buckets =>
          have tail := ih (Nat.succ.inj aligned) fun other member => small other (by simp [member])
          rw [incrementFirst]
          by_cases here : x ≤ bound
          · have grown : (bucket + 1).toNat = bucket.toNat + 1 := by
              rw [UInt64.toNat_add]
              exact Nat.mod_eq_of_lt (small bucket (by simp))
            rw [if_pos here]
            cases i with
            | zero =>
                simp only [List.drop_zero, List.map_cons, List.sum_cons, grown, ahead_zero,
                  List.any_cons, decide_eq_true here, Bool.true_or, Bool.toNat_true]
                omega
            | succ i =>
                rw [ahead_cons_succ, decide_eq_false (not_lt.mpr here)]
                rfl
          · rw [if_neg here]
            cases i with
            | zero =>
                have := tail 0
                simp only [List.drop_zero, List.map_cons, List.sum_cons, ahead_zero,
                  List.any_cons, decide_eq_false here, Bool.false_or] at this ⊢
                omega
            | succ i =>
                rw [ahead_cons_succ, decide_eq_true (not_le.mp here), Bool.true_and]
                exact tail i

theorem unread_succ {i : Nat} {count : UInt64} (here : s.histogram.buckets[i]? = some count) :
    s.unread i = count.toNat + s.unread (i + 1) := by
  obtain ⟨inside, rfl⟩ := List.getElem?_eq_some_iff.mp here
  rw [unread, List.drop_eq_getElem_cons inside, List.map_cons, List.sum_cons, unread]

theorem Reaches.mono {v : ℚ} (reaches : s.Reaches v)
    (bounds : t.histogram.bucketBounds = s.histogram.bucketBounds)
    (latencies : ∀ x ∈ s.latencies, x ∈ t.latencies) : t.Reaches v := by
  obtain ⟨x, member, least⟩ := reaches
  exact ⟨x, latencies x member, bounds ▸ least⟩

theorem ne_nil_of_subset {xs ys : List ℚ} (nonempty : xs ≠ []) (more : ∀ x ∈ xs, x ∈ ys) :
    ys ≠ [] := by
  obtain ⟨x, rest, rfl⟩ := List.exists_cons_of_ne_nil nonempty
  exact List.ne_nil_of_mem (more x (by simp))

theorem Balanced.frame (balanced : Balanced s n) (reader : t.reader = s.reader)
    (buckets : t.histogram.buckets = s.histogram.buckets)
    (bounds : t.histogram.bucketBounds = s.histogram.bucketBounds)
    (recorded : t.recorded = s.recorded) (latencies : ∀ x ∈ s.latencies, x ∈ t.latencies) :
    Balanced t n where
  loaded := by
    unfold unread
    rw [reader, buckets, recorded]
    exact balanced.loaded
  below := by
    intro target c i scanning
    obtain ⟨nonempty, less⟩ := balanced.below target c i (reader ▸ scanning)
    exact ⟨ne_nil_of_subset nonempty latencies, less⟩
  result := by
    intro target v returned
    rcases balanced.result target v (reader ▸ returned) with none | found | ⟨short, last, nonempty⟩
    · exact .inl none
    · exact .inr (.inl ⟨found.1, found.2.mono bounds latencies⟩)
    · refine .inr (.inr ⟨short, ?_, ne_nil_of_subset nonempty latencies⟩)
      rw [last, lastBound, lastBound, bounds]

theorem Balanced.setObserver (balanced : Balanced s n) {j : Nat} {old new : Observer}
    {h : LatencyHistogram} (here : s.observers[j]? = some old) (latency : new.latency = old.latency)
    (kept : new.recorded? = old.recorded?) (bucketBounds : h.bucketBounds = s.histogram.bucketBounds)
    (buckets : h.buckets = s.histogram.buckets) : Balanced (s.setObserver j new h) n := by
  have latencies : (s.setObserver j new h).latencies = s.latencies := map_set_of here latency
  have recorded : (s.setObserver j new h).recorded = s.recorded := filterMap_set_of here kept
  refine balanced.frame rfl buckets bucketBounds recorded ?_
  intro x member
  rwa [latencies]

theorem mem_latencies_of_recorded {x : ℚ} (member : x ∈ s.recorded) : x ∈ s.latencies := by
  obtain ⟨o, here, value⟩ := List.mem_filterMap.mp member
  unfold Observer.recorded? at value
  split_ifs at value
  cases value
  exact List.mem_map_of_mem here

theorem Consistent.exists_of_bucket (consistent : Consistent bounds s) {i : Nat} {count : UInt64}
    (here : s.histogram.buckets[i]? = some count) (some : count ≠ 0) :
    ∃ x ∈ s.latencies, inBucket s.histogram.bucketBounds i x := by
  rw [consistent.buckets, List.getElem?_map, getElem?_bucketCounts s.histogram.increasing,
    Option.map_map] at here
  obtain ⟨b, _, rfl⟩ := Option.map_eq_some_iff.mp here
  have positive : 0 < s.recorded.countP (inBucket s.histogram.bucketBounds i) := by
    apply Nat.pos_of_ne_zero
    intro zero
    exact some (congrArg UInt64.ofNat zero)
  obtain ⟨x, member, inside⟩ := List.countP_pos_iff.mp positive
  exact ⟨x, mem_latencies_of_recorded member, inside⟩

section Record
variable {j : Nat} {x : ℚ} (here : s.observers[j]? = some ⟨x, .summed⟩)
include here

theorem length_recorded_record :
    (s.setObserver j ⟨x, .recorded⟩ (s.histogram.addBucket x)).recorded.length =
      s.recorded.length + 1 :=
  (recorded_record here).length_eq

theorem latencies_record :
    (s.setObserver j ⟨x, .recorded⟩ (s.histogram.addBucket x)).latencies = s.latencies :=
  map_set_of here rfl

theorem Consistent.bucket_lt (consistent : Consistent bounds s)
    (few : s.observers.length < 2 ^ 64) {bucket : UInt64} (member : bucket ∈ s.histogram.buckets) :
    bucket.toNat + 1 < 2 ^ 64 := by
  rw [consistent.buckets] at member
  obtain ⟨c, counted, rfl⟩ := List.mem_map.mp member
  have bound := le_of_mem_bucketCounts counted
  have total : s.recorded.length + 1 ≤ s.observers.length := by
    rw [← length_recorded_record here]
    exact (List.length_filterMap_le ..).trans_eq List.length_set
  rw [UInt64.toNat_ofNat', Nat.mod_eq_of_lt (by omega)]
  omega

theorem Consistent.unread_record (consistent : Consistent bounds s)
    (few : s.observers.length < 2 ^ 64) (i : Nat) :
    (s.setObserver j ⟨x, .recorded⟩ (s.histogram.addBucket x)).unread i =
      s.unread i + (ahead s.histogram.bucketBounds i x).toNat :=
  sum_incrementFirst s.histogram.aligned
    (fun _ member => consistent.bucket_lt here few member) i

theorem Balanced.record (balanced : Balanced s n) (consistent : Consistent bounds s)
    (few : s.observers.length < 2 ^ 64) :
    Balanced (s.setObserver j ⟨x, .recorded⟩ (s.histogram.addBucket x))
      (n + (s.visible (.incrementBucket j)).toNat) where
  loaded := by
    intro c i progress
    change s.reader.progress = some (c, i) at progress
    obtain ⟨sum, bound⟩ := balanced.loaded c i progress
    rw [consistent.unread_record here few, length_recorded_record here]
    simp only [visible, here, progress]
    have := (ahead s.histogram.bucketBounds i x).toNat_le
    omega
  below := by
    rw [latencies_record here]
    exact balanced.below
  result := by
    intro target v returned
    change s.reader = .returned target v at returned
    have unseen : s.visible (.incrementBucket j) = false := by
      simp [visible, here, returned, Reader.progress]
    rw [unseen, Bool.toNat_false, Nat.add_zero]
    unfold Reaches
    rw [latencies_record here]
    exact balanced.result target v returned

end Record

theorem Consistent.latencies_ne_nil (consistent : Consistent bounds s)
    (some : s.histogram.total ≠ 0) : s.latencies ≠ [] := by
  intro none
  apply some
  rw [consistent.total, List.map_eq_nil_iff.mp none]
  rfl

theorem balanced_nothing (s : Recording) (n : Nat) :
    Balanced { s with reader := .returned 0 0 } n where
  loaded := fun _ _ progress => by cases progress
  below := fun _ _ _ other => by cases other
  result := by
    intro _ _ returned
    cases returned
    exact .inl ⟨rfl, rfl⟩

theorem Balanced.loadTotal (balanced : Balanced s n) (consistent : Consistent bounds s)
    (idle : s.reader = .idle) (some : s.histogram.total ≠ 0) (target : UInt64) :
    Balanced { s with reader := .scanning target 0 0 } n where
  loaded := by
    intro c i progress
    cases progress
    exact balanced.loaded 0 0 (by rw [idle]; rfl)
  below := by
    intro _ c i scanning
    cases scanning
    exact ⟨consistent.latencies_ne_nil some, fun zero => absurd rfl zero⟩
  result := fun _ _ returned => by cases returned

section Scan
variable {target c count : UInt64} {i : Nat} {bound : ℚ} (balanced : Balanced s n)
  (few : s.observers.length < 2 ^ 64) (scanning : s.reader = .scanning target c i)
  (here : s.histogram.buckets[i]? = some count)
include balanced few scanning here

theorem Balanced.next_sum : (c + count).toNat = c.toNat + count.toNat ∧
    c.toNat + count.toNat + s.unread (i + 1) = n ∧ n ≤ s.recorded.length := by
  obtain ⟨sum, bound⟩ := balanced.loaded c i (by rw [scanning]; rfl)
  have length : s.recorded.length ≤ s.observers.length := List.length_filterMap_le ..
  rw [unread_succ here] at sum
  refine ⟨?_, by omega, bound⟩
  rw [UInt64.toNat_add, Nat.mod_eq_of_lt (by omega)]

theorem Balanced.reached (consistent : Consistent bounds s)
    (boundary : s.histogram.bucketBounds[i]? = some bound) (reached : target ≤ c + count) :
    Balanced { s with reader := .returned target bound } n where
  loaded := fun _ _ progress => by cases progress
  below := fun _ _ _ other => by cases other
  result := by
    intro _ v returned
    cases returned
    obtain ⟨exactly, sum, _⟩ := balanced.next_sum few scanning here
    obtain ⟨nonempty, less⟩ := balanced.below target c i scanning
    rw [UInt64.le_iff_toNat_le, exactly] at reached
    refine .inr (.inl ⟨by omega, ?_⟩)
    by_cases empty : count = 0
    · -- the first bucket: the target is zero, and no bound is smaller
      have first : i = 0 := by
        by_contra later
        have := UInt64.lt_iff_toNat_lt.mp (less later)
        rw [empty] at reached
        exact absurd reached (by simpa using this)
      subst first
      obtain ⟨x, rest, split⟩ := List.exists_cons_of_ne_nil nonempty
      have member : x ∈ s.latencies := by simp [split]
      exact ⟨x, member, fun b held _ => le_of_getElem?_zero s.histogram.increasing boundary held⟩
    · obtain ⟨x, member, inside⟩ := consistent.exists_of_bucket here empty
      exact ⟨x, member, fun b held le => le_of_inBucket s.histogram.increasing inside boundary held le⟩

theorem Balanced.passed (short : ¬ target ≤ c + count) :
    Balanced { s with reader := .scanning target (c + count) (i + 1) } n where
  loaded := by
    intro _ _ progress
    cases progress
    obtain ⟨exactly, sum, bound⟩ := balanced.next_sum few scanning here
    exact ⟨by rw [exactly]; exact sum, bound⟩
  below := by
    intro _ _ _ next
    cases next
    exact ⟨(balanced.below target c i scanning).1, fun _ => UInt64.not_le.mp short⟩
  result := fun _ _ returned => by cases returned

end Scan

theorem Balanced.fell {target c : UInt64} {i : Nat} (balanced : Balanced s n)
    (nonempty : s.histogram.bucketBounds ≠ []) (scanning : s.reader = .scanning target c i)
    (beyond : s.histogram.bucketBounds.length ≤ i) :
    Balanced { s with reader := .returned target s.histogram.lastBound } n where
  loaded := fun _ _ progress => by cases progress
  below := fun _ _ _ other => by cases other
  result := by
    intro _ v returned
    cases returned
    obtain ⟨sum, _⟩ := balanced.loaded c i (by rw [scanning]; rfl)
    obtain ⟨begun, less⟩ := balanced.below target c i scanning
    have positive := List.length_pos_iff.mpr nonempty
    have none_left : s.unread i = 0 := by
      rw [unread, List.drop_of_length_le (s.histogram.aligned.trans_le beyond)]
      rfl
    have short := UInt64.lt_iff_toNat_lt.mp (less (by omega))
    exact .inr (.inr ⟨by omega, rfl, begun⟩)

theorem Balanced.step (balanced : Balanced s n) (consistent : Consistent bounds s)
    (nonempty : s.histogram.bucketBounds ≠ []) (few : s.observers.length < 2 ^ 64)
    (action : step rank s a = some t) : Balanced t (n + (s.visible a).toNat) := by
  cases step_effect action with
  | called x =>
      refine balanced.frame rfl rfl rfl ?_ ?_
      · simp [recorded, Observer.recorded?]
      · intro y member
        simp only [latencies, List.map_append]
        exact List.mem_append_left _ member
  | counted here | summed here => exact balanced.setObserver here rfl rfl rfl rfl
  | recorded here => exact balanced.record here consistent few
  | foundNothing => exact balanced_nothing s n
  | began idle some => exact balanced.loadTotal consistent idle some _
  | reached scanning here boundary reached =>
      exact balanced.reached few scanning here consistent boundary reached
  | passed scanning here short => exact balanced.passed few scanning here short
  | fell scanning beyond => exact balanced.fell nonempty scanning beyond

/-! ## Runs -/

theorem observers_length_le (action : step rank s a = some t) :
    s.observers.length ≤ t.observers.length := by
  cases step_effect action with
  | called x => simp
  | counted | summed | recorded => exact List.length_set.ge
  | _ => exact le_rfl

theorem balanced_of_run {increasing : bounds.Pairwise (· < ·)} {actions : List Action}
    (nonempty : bounds ≠ [])
    (ran : run (step rank) (start bounds increasing) actions = some s)
    (few : s.observers.length < 2 ^ 64) :
    Balanced s (tally (step rank) visible (start bounds increasing) actions) := by
  have initial : Balanced (start bounds increasing) 0 := by
    refine ⟨?_, fun _ _ _ other => (by cases other), fun _ _ returned => (by cases returned)⟩
    intro c i progress
    cases progress
    have zero : ((start bounds increasing).histogram.buckets.map UInt64.toNat).sum = 0 := by
      simp [start, withBounds]
    exact ⟨by rw [unread, List.drop_zero, zero]; rfl, Nat.zero_le _⟩
  have moved : ∀ s a t n, Consistent bounds s → True → step rank s a = some t →
      (s.observers.length < 2 ^ 64 → Balanced s n) → t.observers.length < 2 ^ 64 →
        Balanced t (n + (visible s a).toNat) := by
    intro s a t n consistent _ action balanced fewer
    have before := (observers_length_le action).trans_lt fewer
    exact (balanced before).step consistent (consistent.bounds ▸ nonempty) before action
  have balance := run_tally (P := fun _ _ => True)
    (fun _ _ _ consistent _ action => consistent.step action) moved (consistent_start increasing)
    (along_of_forall (fun _ _ _ => trivial) _) (fun _ => initial) ran few
  rwa [Nat.zero_add] at balance

theorem lastBound_le_iff (h : LatencyHistogram) {xs : List ℚ} (nonempty : xs ≠ [])
    (covered : ∀ x ∈ xs, ∃ last ∈ h.bucketBounds.getLast?, x ≤ last) :
    (∀ b ∈ h.bucketBounds, (∀ x ∈ xs, x ≤ b) → h.lastBound ≤ b) ↔
      ∃ x ∈ xs, cover h.bucketBounds x = h.bucketBounds.getLast? := by
  constructor
  · intro least
    obtain ⟨x, top⟩ := WithBot.ne_bot_iff_exists.mp (List.maximum_ne_bot_of_ne_nil nonempty)
    have member := List.maximum_mem top.symm
    obtain ⟨b, found⟩ := cover_isSome covered member
    obtain ⟨last, here, _⟩ := covered x member
    obtain ⟨⟨inside, le⟩, _⟩ := (isLeast_cover_iff h.increasing).mpr found
    have all : ∀ y ∈ xs, y ≤ b := fun y other =>
      (List.le_maximum_of_mem other top.symm).trans le
    have same : b = h.lastBound := le_antisymm (h.le_lastBound inside) (least b inside all)
    refine ⟨x, member, ?_⟩
    rw [found, same, lastBound, here, Option.getD_some]
  · rintro ⟨x, member, same⟩ b inside all
    obtain ⟨last, here, _⟩ := covered x member
    rw [here, ← isLeast_cover_iff h.increasing] at same
    rw [lastBound, here, Option.getD_some]
    exact same.2 ⟨inside, all x member⟩

theorem modest_iff (positive : ∀ b ∈ s.histogram.bucketBounds, 0 < b) {target : UInt64} {v : ℚ}
    (balanced : Balanced s n) (returned : s.reader = .returned target v)
    (covered : ∀ x ∈ s.latencies, ∃ last ∈ s.histogram.bucketBounds.getLast?, x ≤ last) :
    s.Modest v ↔ target.toNat ≤ n ∨
      ∃ x ∈ s.latencies, cover s.histogram.bucketBounds x = s.histogram.bucketBounds.getLast? := by
  rcases balanced.result target v returned with ⟨rfl, rfl⟩ | ⟨found, x, member, least⟩ |
    ⟨short, rfl, begun⟩
  · refine iff_of_true ⟨fun _ => .inl rfl, ?_⟩ (.inl (Nat.zero_le _))
    intro _ b inside _
    exact (positive b inside).le
  · refine iff_of_true ⟨fun none => absurd none (List.ne_nil_of_mem member), ?_⟩ (.inl found)
    intro _ b inside all
    exact least b inside (all x member)
  · rw [← lastBound_le_iff s.histogram begun covered]
    constructor
    · intro modest
      exact .inr (modest.2 begun)
    · rintro (found | least)
      · omega
      · exact ⟨fun none => absurd none begun, fun _ => least⟩

theorem target?_step {target : UInt64} (begun : s.reader.target? = some target)
    (action : step rank s a = some t) : t.reader.target? = some target := by
  cases step_effect action with
  | foundNothing idle | began idle =>
      rw [idle] at begun
      cases begun
  | reached scanning | passed scanning | fell scanning =>
      rw [scanning] at begun
      exact begun
  | _ => exact begun

theorem target?_of_run {p : ℚ} {after : List Action} {called : Recording}
    (ran : run (step rank) called (.loadTotal p :: after) = some s) :
    s.reader.target? =
      some (if called.histogram.total = 0 then 0 else rank called.histogram.total p) := by
  obtain ⟨first, action, rest⟩ := (run_cons_eq_some _).mp ran
  refine run_preserves (fun _ _ _ => target?_step) ?_ rest
  cases step_effect action with
  | foundNothing _ zero => rw [if_pos zero, Reader.target?]
  | began _ some => rw [if_neg some, Reader.target?]

/-- A percentile read during traffic invents no slow request if and only if the scan could find as
many latencies as it looked for, or a latency in the last bucket has begun. -/
theorem percentile_modest_iff (rank : UInt64 → ℚ → UInt64) (bounds : List ℚ)
    (increasing : bounds.Pairwise (· < ·)) (positive : ∀ b ∈ bounds, 0 < b) (nonempty : bounds ≠ [])
    (before after : List Action) (p : ℚ) (called s : Recording)
    (ran : run (step rank) (start bounds increasing) before = some called)
    (rest : run (step rank) called (.loadTotal p :: after) = some s) (v : ℚ)
    (returned : s.reader.value? = some v) (few : s.observers.length < 2 ^ 64)
    (covered : ∀ x ∈ s.latencies, ∃ last ∈ bounds.getLast?, x ≤ last) :
    s.Modest v ↔ called.histogram.total = 0 ∨
      (rank called.histogram.total p).toNat ≤
        tally (step rank) visible (start bounds increasing) (before ++ .loadTotal p :: after) ∨
      ∃ x ∈ s.latencies, cover bounds x = bounds.getLast? := by
  have whole : run (step rank) (start bounds increasing) (before ++ .loadTotal p :: after) =
      some s := by
    rw [run_append, ran, Option.bind_some, rest]
  have same := (consistent_of_run whole).bounds
  have balanced := balanced_of_run nonempty whole few
  have aim := target?_of_run rest
  generalize tally (step rank) visible (start bounds increasing) _ = n at balanced ⊢
  subst same
  obtain ⟨target, here⟩ : ∃ target, s.reader = .returned target v := by
    cases reader : s.reader <;> rw [reader] at returned <;> cases returned
    exact ⟨_, rfl⟩
  rw [here, Reader.target?, Option.some.injEq] at aim
  rw [modest_iff positive balanced here covered, aim, ← or_assoc]
  refine or_congr_left ?_
  split_ifs with zero <;> simp [zero]

theorem newBounds_pos : ∀ b ∈ newBounds, 0 < b := by
  intro b member
  exact lt_of_lt_of_le (by norm_num) (le_of_mem_successors (by norm_num) member)

def counted : List Action := [.call (1 / 10 ^ 6), .incrementTotal 0, .addSum 0]

def overtaken : List Action := [.incrementBucket 0, .loadBucket]

theorem percentile_modest_overtaken :
    ∃ called s, run (step target) (start newBounds newBounds_increasing) counted = some called ∧
      run (step target) called (.loadTotal 100 :: overtaken) = some s ∧ s.Modest (1 / 10 ^ 6) := by
  have ran : (run (step target) (start newBounds newBounds_increasing) counted).isSome := by
    decide +kernel
  have rest : (run (step target) (Option.get _ ran) (.loadTotal 100 :: overtaken)).isSome := by
    decide +kernel +revert
  refine ⟨_, _, (Option.some_get ran).symm, (Option.some_get rest).symm, ?_⟩
  refine (percentile_modest_iff target newBounds newBounds_increasing newBounds_pos
    (by decide +kernel) counted overtaken 100 _ _ (Option.some_get ran).symm
    (Option.some_get rest).symm (1 / 10 ^ 6) (by decide +kernel +revert)
    (by decide +kernel +revert) ?_).mpr (.inr (.inl (by decide +kernel +revert)))
  intro x member
  refine ⟨_, newBounds_complete, ?_⟩
  revert x
  decide +kernel +revert

/-- The scan comes between the increments of the total and of the bucket, finds nothing and reports
the last bound for a request of a microsecond. -/
def early : List Action := counted ++ .loadTotal 100 :: List.replicate 26 .loadBucket

theorem slow_request_invented :
    ¬ ∀ actions s v, run (step target) (start newBounds newBounds_increasing) actions = some s →
      s.reader.value? = some v → (∀ x ∈ s.latencies, ∃ last ∈ newBounds.getLast?, x ≤ last) →
      s.Modest v := by
  intro modest
  have ran : (run (step target) (start newBounds newBounds_increasing) early).isSome := by
    decide +kernel
  have returned : (Option.get _ ran).reader.value? = some (16777216 / 10 ^ 6) := by
    decide +kernel +revert
  have only : (Option.get _ ran).latencies = [1 / 10 ^ 6] := by decide +kernel +revert
  have covered : ∀ x ∈ (Option.get _ ran).latencies, ∃ last ∈ newBounds.getLast?, x ≤ last := by
    intro x member
    rw [only, List.mem_singleton] at member
    exact ⟨_, newBounds_complete, by rw [member]; norm_num⟩
  have least := (modest early _ _ (Option.some_get ran).symm returned covered).2
  rw [only] at least
  have low := least (by simp) (1 / 10 ^ 6) (by decide +kernel +revert) (by simp)
  norm_num at low

end Recording

end GatewayGrpc.Metrics
