import GatewayGrpc.Metrics.Histogram

/-!
# What a percentile reports

Over recorded latencies the scan stops at the bucket of an order statistic. `percentile` cuts the
rank `p * n / 100` off, where the nearest rank is rounded up.
-/

namespace GatewayGrpc.Metrics
open Library LatencyHistogram

theorem incrementFirst_bucketCounts (latency : ℚ) (bounds xs : List ℚ) :
    incrementFirst latency bounds ((bucketCounts bounds xs).map UInt64.ofNat) =
      (bucketCounts bounds (latency :: xs)).map UInt64.ofNat := by
  induction bounds generalizing xs with
  | nil => rfl
  | cons bound bounds ih =>
      rw [bucketCounts_cons, bucketCounts, List.map_cons, incrementFirst]
      split_ifs
      · rw [List.map_cons, UInt64.ofNat_add]
        rfl
      · rw [ih, List.map_cons]

theorem scan_eq (t : UInt64) (c : Nat) (counts : List Nat) (bounds : List ℚ) :
    scan t (UInt64.ofNat c) ((counts.map UInt64.ofNat).zip bounds) =
      (((cumulative c counts).zip bounds).find? fun pair => t ≤ UInt64.ofNat pair.1).map
        Prod.snd := by
  induction counts generalizing c bounds with
  | nil => rfl
  | cons n counts ih =>
      cases bounds with
      | nil => rfl
      | cons bound bounds =>
          rw [List.map_cons, List.zip_cons_cons, scan, ← UInt64.ofNat_add, ih, cumulative,
            List.zip_cons_cons]
          split_ifs with reached
          · rw [List.find?_cons_of_pos (by simpa using reached), Option.map_some]
          · rw [List.find?_cons_of_neg (by simpa using reached)]

theorem scan_bucketCounts {bounds : List ℚ} (increasing : bounds.Pairwise (· < ·)) (t : UInt64)
    (xs : List ℚ) :
    scan t 0 (((bucketCounts bounds xs).map UInt64.ofNat).zip bounds) =
      bounds.find? fun b => t ≤ UInt64.ofNat (xs.countP (· ≤ b)) := by
  have sums : (cumulative 0 (bucketCounts bounds xs)).zip bounds =
      bounds.map fun b => (xs.countP (· ≤ b), b) := by
    rw [cumulative_bucketCounts increasing]
    simpa using List.zip_map' (f := fun b => 0 + xs.countP (· ≤ b)) (g := id) (l := bounds)
  have found := scan_eq t 0 (bucketCounts bounds xs) bounds
  rw [sums, List.find?_map, Option.map_map] at found
  exact found.trans (by simp [Function.comp_def])

structure Records (h : LatencyHistogram) (xs : List ℚ) : Prop where
  buckets : h.buckets = (bucketCounts h.bucketBounds xs).map UInt64.ofNat
  total : h.total = UInt64.ofNat xs.length

theorem records_withBounds (bounds : List ℚ) (increasing : bounds.Pairwise (· < ·)) :
    Records (withBounds bounds increasing) [] where
  buckets := by
    simp [withBounds, bucketCounts_nil, List.map_const']
  total := rfl

theorem Records.observe {h : LatencyHistogram} {xs : List ℚ} (records : Records h xs)
    (latency : ℚ) : Records (h.observe latency) (latency :: xs) where
  buckets := by
    rw [← incrementFirst_bucketCounts]
    exact congrArg (incrementFirst latency h.bucketBounds) records.buckets
  total := by
    rw [List.length_cons, UInt64.ofNat_add, ← records.total]
    rfl

theorem Records.perm {h : LatencyHistogram} {xs ys : List ℚ} (records : Records h xs)
    (same : xs.Perm ys) : Records h ys where
  buckets := by rw [records.buckets, bucketCounts_perm same]
  total := by rw [records.total, same.length_eq]

def LatencyHistogram.observeAll (h : LatencyHistogram) (xs : List ℚ) : LatencyHistogram :=
  xs.foldl LatencyHistogram.observe h

theorem Records.observeAll {h : LatencyHistogram} {before : List ℚ} (records : Records h before)
    (xs : List ℚ) : Records (h.observeAll xs) (before ++ xs) := by
  induction xs generalizing h before with
  | nil => exact records.perm (by simp)
  | cons x xs ih => exact (ih (records.observe x)).perm List.perm_middle.symm

theorem bucketBounds_observeAll (h : LatencyHistogram) (xs : List ℚ) :
    (h.observeAll xs).bucketBounds = h.bucketBounds := by
  induction xs generalizing h with
  | nil => rfl
  | cons x xs ih => exact ih (h.observe x)

/-! ## Ranks -/

def floorRank (n : Nat) (p : ℚ) : Nat := ⌊n * p / 100⌋₊

def ceilRank (n : Nat) (p : ℚ) : Nat := ⌈n * p / 100⌉₊

/-- The bound of the bucket of the `k`-th smallest latency; for rank 0 the first. -/
def rankBound (bounds xs : List ℚ) (k : Nat) : Option ℚ :=
  if k = 0 then bounds.head? else (kthSmallest xs k).bind (cover bounds)

/-- The percentile is the smallest bound that is not below the observation of the nearest rank. -/
def Truthful (h : LatencyHistogram) (xs : List ℚ) (p : ℚ) : Prop :=
  ∃ x, kthSmallest xs (ceilRank xs.length p) = some x ∧
    IsLeast { b | b ∈ h.bucketBounds ∧ x ≤ b } (h.percentile p)

section Ranks
variable {n : Nat} {p : ℚ}

theorem rank_le (small : p ≤ 100) : (n * p / 100 : ℚ) ≤ n := by
  have : (0 : ℚ) ≤ n := Nat.cast_nonneg n
  rw [div_le_iff₀ (by norm_num)]
  exact mul_le_mul_of_nonneg_left small this

theorem floorRank_le (small : p ≤ 100) : floorRank n p ≤ n :=
  Nat.floor_le_of_le (rank_le small)

theorem ceilRank_le (small : p ≤ 100) : ceilRank n p ≤ n :=
  Nat.ceil_le.mpr (rank_le small)

theorem ceilRank_pos (some : 0 < n) (positive : 0 < p) : 1 ≤ ceilRank n p := by
  have : (0 : ℚ) < n := Nat.cast_pos.mpr some
  exact Nat.ceil_pos.mpr (by positivity)

theorem toNat_target (few : n < 2 ^ 64) (small : p ≤ 100) :
    (target (UInt64.ofNat n) p).toNat = floorRank n p := by
  have bound := floorRank_le (n := n) small
  rw [target, toNat_toU64, UInt64.toNat_ofNat', Nat.mod_eq_of_lt few, ← floorRank,
    Nat.min_eq_left (by omega)]

end Ranks

section Recorded
variable {bounds xs : List ℚ}

theorem cover_isSome (covered : ∀ x ∈ xs, ∃ last ∈ bounds.getLast?, x ≤ last) {x : ℚ}
    (member : x ∈ xs) : ∃ b, cover bounds x = some b := by
  obtain ⟨last, here, le⟩ := covered x member
  apply Option.isSome_iff_exists.mp
  rw [cover, List.find?_isSome]
  exact ⟨last, List.mem_of_getLast? here, by simpa using le⟩

theorem find?_countP (k : Nat) (bound : k ≤ xs.length) :
    (bounds.find? fun b => decide (k ≤ xs.countP (· ≤ b))) = rankBound bounds xs k := by
  unfold rankBound
  split_ifs with zero
  · subst zero
    cases bounds <;> rfl
  · obtain ⟨x, kth⟩ := kthSmallest_isSome (Nat.pos_of_ne_zero zero) bound
    rw [kth, Option.bind_some, cover]
    congr 1
    funext b
    exact decide_eq_decide.mpr (le_countP_iff (Nat.pos_of_ne_zero zero) kth b)

theorem rankBound_isSome (covered : ∀ x ∈ xs, ∃ last ∈ bounds.getLast?, x ≤ last) {k : Nat}
    (nonempty : xs ≠ []) (bound : k ≤ xs.length) : ∃ b, rankBound bounds xs k = some b := by
  unfold rankBound
  split_ifs with zero
  · obtain ⟨x, rest, rfl⟩ := List.exists_cons_of_ne_nil nonempty
    obtain ⟨last, here, _⟩ := covered x (by simp)
    cases bounds with
    | nil => cases here
    | cons b bounds => exact ⟨b, rfl⟩
  · obtain ⟨x, kth⟩ := kthSmallest_isSome (Nat.pos_of_ne_zero zero) bound
    rw [kth, Option.bind_some]
    exact cover_isSome covered (mem_of_kthSmallest kth)

theorem Records.percentile_eq {h : LatencyHistogram} (records : Records h xs) (nonempty : xs ≠ [])
    (few : xs.length < 2 ^ 64) {p : ℚ} (small : p ≤ 100) :
    h.percentile p = (rankBound h.bucketBounds xs (floorRank xs.length p)).getD h.lastBound := by
  have positive := List.length_pos_iff.mpr nonempty
  have total : h.total ≠ 0 := by
    intro zero
    have := congrArg UInt64.toNat (records.total.symm.trans zero)
    rw [UInt64.toNat_ofNat', Nat.mod_eq_of_lt few] at this
    exact positive.ne' this
  rw [percentile, if_neg total, records.buckets, scan_bucketCounts h.increasing,
    ← find?_countP _ (floorRank_le small)]
  congr 2
  funext b
  have count : xs.countP (· ≤ b) < 2 ^ 64 := List.countP_le_length.trans_lt few
  rw [decide_eq_decide, UInt64.le_iff_toNat_le, records.total, toNat_target few small,
    UInt64.toNat_ofNat', Nat.mod_eq_of_lt count]

end Recorded

/-- A percentile is that of the nearest rank if and only if the rank that is rounded down lies in
the same bucket. -/
theorem percentile_truthful_iff (bounds : List ℚ) (increasing : bounds.Pairwise (· < ·))
    (xs : List ℚ) (p : ℚ) (nonempty : xs ≠ []) (few : xs.length < 2 ^ 64)
    (covered : ∀ x ∈ xs, ∃ last ∈ bounds.getLast?, x ≤ last) (positive : 0 < p)
    (small : p ≤ 100) :
    Truthful ((withBounds bounds increasing).observeAll xs) xs p ↔
      rankBound bounds xs (floorRank xs.length p) = rankBound bounds xs (ceilRank xs.length p) := by
  have records := (records_withBounds bounds increasing).observeAll xs
  have same : ((withBounds bounds increasing).observeAll xs).bucketBounds = bounds :=
    bucketBounds_observeAll _ xs
  have rank := ceilRank_pos (List.length_pos_iff.mpr nonempty) positive
  obtain ⟨x, kth⟩ := kthSmallest_isSome rank (ceilRank_le small)
  have nearest : rankBound bounds xs (ceilRank xs.length p) = cover bounds x := by
    rw [rankBound, if_neg (by omega), kth, Option.bind_some]
  obtain ⟨b, reported⟩ := rankBound_isSome covered nonempty (floorRank_le (n := xs.length) small)
  have value : ((withBounds bounds increasing).observeAll xs).percentile p = b := by
    rw [records.percentile_eq nonempty few small, same, List.nil_append, reported,
      Option.getD_some]
  rw [Truthful, same, value, reported, nearest]
  simp only [kth, Option.some.injEq, exists_eq_left', isLeast_cover_iff increasing]
  exact eq_comm

theorem percentile_truthful_pair :
    Truthful (new.observeAll [1 / 10 ^ 3, 1 / 10 ^ 3]) [1 / 10 ^ 3, 1 / 10 ^ 3] 50 := by
  refine (percentile_truthful_iff newBounds newBounds_increasing [1 / 10 ^ 3, 1 / 10 ^ 3] 50
    (by simp) (by simp) ?_ (by norm_num) (by norm_num)).mpr (by decide +kernel)
  intro x member
  refine ⟨_, newBounds_complete, ?_⟩
  simp only [List.mem_cons, List.not_mem_nil, or_false, or_self] at member
  subst member
  norm_num

theorem median_of_one_reported_low :
    ¬ ∀ xs p, xs ≠ [] → (∀ x ∈ xs, 0 ≤ x ∧ ∃ last ∈ newBounds.getLast?, x ≤ last) → 0 < p →
      p ≤ 100 → Truthful (new.observeAll xs) xs p := by
  intro truthful
  have latency : ∀ x ∈ [(3 / 10 ^ 6 : ℚ)], 0 ≤ x ∧ ∃ last ∈ newBounds.getLast?, x ≤ last := by
    intro x member
    rw [List.mem_singleton.mp member]
    exact ⟨by norm_num, _, newBounds_complete, by norm_num⟩
  obtain ⟨x, kth, least⟩ := truthful [3 / 10 ^ 6] 50 (by simp) latency (by norm_num) (by norm_num)
  have only : kthSmallest [(3 / 10 ^ 6 : ℚ)] (ceilRank 1 50) = some (3 / 10 ^ 6) := by
    decide +kernel
  have value : (new.observeAll [3 / 10 ^ 6]).percentile 50 = 1 / 10 ^ 6 := by decide +kernel
  cases only.symm.trans kth
  have below := least.1.2
  rw [value] at below
  norm_num at below

end GatewayGrpc.Metrics
