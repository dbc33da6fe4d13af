import GatewayGrpc.Library.Buckets
import Mathlib.Algebra.Order.Floor.Semiring
import Mathlib.Data.Rat.Floor
import Mathlib.Tactic.NormNum
import Mathlib.Tactic.Linarith

/-!
# The latency histogram of `gateway/src/metrics.rs`

Latencies and bounds are exact rationals, the counters are the 64-bit ones of the source and wrap as
they do.
-/

namespace GatewayGrpc.Metrics
open Library

/-- The cast `as u64` of a number, which saturates. -/
def toU64 (q : ℚ) : UInt64 := UInt64.ofNat (min ⌊q⌋₊ (2 ^ 64 - 1))

structure LatencyHistogram where
  buckets : List UInt64
  bucketBounds : List ℚ
  total : UInt64
  sum : UInt64
  increasing : bucketBounds.Pairwise (· < ·)
  aligned : buckets.length = bucketBounds.length

def successors (limit : ℚ) : Nat → ℚ → List ℚ
  | 0, x => [x]
  | n + 1, x => x :: if x < limit then successors limit n (x * 2) else []

def incrementFirst (latency : ℚ) : List ℚ → List UInt64 → List UInt64
  | bound :: bounds, bucket :: buckets =>
      if latency ≤ bound then (bucket + 1) :: buckets
      else bucket :: incrementFirst latency bounds buckets
  | _, buckets => buckets

def scan (target : UInt64) : UInt64 → List (UInt64 × ℚ) → Option ℚ
  | _, [] => none
  | cumulative, (count, bound) :: rest =>
      if target ≤ cumulative + count then some bound else scan target (cumulative + count) rest

theorem le_of_mem_successors {limit x b : ℚ} {n : Nat} (positive : 0 < x)
    (member : b ∈ successors limit n x) : x ≤ b := by
  induction n generalizing x with
  | zero => exact (List.mem_singleton.mp member).ge
  | succ n ih =>
      rw [successors] at member
      split_ifs at member
      · rcases List.mem_cons.mp member with rfl | later
        · exact le_rfl
        · have := ih (by linarith) later
          linarith
      · exact (List.mem_singleton.mp member).ge

theorem successors_increasing (limit : ℚ) (n : Nat) {x : ℚ} (positive : 0 < x) :
    (successors limit n x).Pairwise (· < ·) := by
  induction n generalizing x with
  | zero => exact List.pairwise_singleton ..
  | succ n ih =>
      rw [successors]
      split_ifs
      · refine List.pairwise_cons.mpr ⟨?_, ih (by linarith)⟩
        intro b member
        have := le_of_mem_successors (by linarith) member
        linarith
      · exact List.pairwise_singleton ..

@[simp] theorem length_incrementFirst (latency : ℚ) (bounds : List ℚ) (buckets : List UInt64) :
    (incrementFirst latency bounds buckets).length = buckets.length := by
  induction bounds generalizing buckets with
  | nil => rfl
  | cons bound bounds ih =>
      cases buckets with
      | nil => rfl
      | cons bucket buckets =>
          rw [incrementFirst]
          split_ifs
          · rfl
          · rw [List.length_cons, ih, List.length_cons]

namespace LatencyHistogram

def withBounds (bounds : List ℚ) (increasing : bounds.Pairwise (· < ·)) : LatencyHistogram where
  buckets := bounds.map fun _ => 0
  bucketBounds := bounds
  total := 0
  sum := 0
  increasing := increasing
  aligned := List.length_map _

def newBounds : List ℚ := successors 10 24 (1 / 10 ^ 6)

theorem newBounds_increasing : newBounds.Pairwise (· < ·) :=
  successors_increasing 10 24 (by norm_num)

def new : LatencyHistogram := withBounds newBounds newBounds_increasing

def addTotal (h : LatencyHistogram) : LatencyHistogram := { h with total := h.total + 1 }

def addSum (h : LatencyHistogram) (latency : ℚ) : LatencyHistogram :=
  { h with sum := h.sum + toU64 (latency * 10 ^ 9) }

def addBucket (h : LatencyHistogram) (latency : ℚ) : LatencyHistogram :=
  { h with
    buckets := incrementFirst latency h.bucketBounds h.buckets
    aligned := by rw [length_incrementFirst, h.aligned] }

def observe (h : LatencyHistogram) (latency : ℚ) : LatencyHistogram :=
  (h.addTotal.addSum latency).addBucket latency

def target (total : UInt64) (p : ℚ) : UInt64 := toU64 (total.toNat * p / 100)

def lastBound (h : LatencyHistogram) : ℚ := h.bucketBounds.getLast?.getD 0

def percentile (h : LatencyHistogram) (p : ℚ) : ℚ :=
  if h.total = 0 then 0
  else (scan (target h.total p) 0 (h.buckets.zip h.bucketBounds)).getD h.lastBound

def p50 (h : LatencyHistogram) : ℚ := h.percentile 50

def p90 (h : LatencyHistogram) : ℚ := h.percentile 90

def p95 (h : LatencyHistogram) : ℚ := h.percentile 95

def p99 (h : LatencyHistogram) : ℚ := h.percentile 99

def p999 (h : LatencyHistogram) : ℚ := h.percentile (999 / 10)

end LatencyHistogram

/-! ## Monotonicity -/

theorem toNat_toU64 (q : ℚ) : (toU64 q).toNat = min ⌊q⌋₊ (2 ^ 64 - 1) := by
  rw [toU64, UInt64.toNat_ofNat', Nat.mod_eq_of_lt (by omega)]

theorem toU64_mono {a b : ℚ} (le : a ≤ b) : toU64 a ≤ toU64 b := by
  rw [UInt64.le_iff_toNat_le, toNat_toU64, toNat_toU64]
  exact min_le_min_right _ (Nat.floor_mono le)

theorem mem_of_scan {target cumulative : UInt64} {pairs : List (UInt64 × ℚ)} {b : ℚ}
    (found : scan target cumulative pairs = some b) : b ∈ pairs.map Prod.snd := by
  induction pairs generalizing cumulative with
  | nil => cases found
  | cons pair pairs ih =>
      rw [scan] at found
      split_ifs at found
      · cases found
        exact List.mem_cons_self ..
      · exact List.mem_cons_of_mem _ (ih found)

theorem scan_le {target other cumulative : UInt64} {pairs : List (UInt64 × ℚ)} {b : ℚ}
    (le : target ≤ other) (increasing : (pairs.map Prod.snd).Pairwise (· < ·))
    (found : scan other cumulative pairs = some b) :
    ∃ a, scan target cumulative pairs = some a ∧ a ≤ b := by
  induction pairs generalizing cumulative with
  | nil => cases found
  | cons pair pairs ih =>
      obtain ⟨first, rest⟩ := List.pairwise_cons.mp increasing
      rw [scan] at found ⊢
      by_cases reached : target ≤ cumulative + pair.1
      · rw [if_pos reached]
        refine ⟨pair.2, rfl, ?_⟩
        split_ifs at found
        · cases found
          exact le_rfl
        · exact (first b (mem_of_scan found)).le
      · rw [if_neg reached]
        rw [if_neg fun later => reached (UInt64.le_trans le later)] at found
        exact ih rest found

namespace LatencyHistogram
variable (h : LatencyHistogram)

theorem map_snd_zip : (h.buckets.zip h.bucketBounds).map Prod.snd = h.bucketBounds :=
  List.map_snd_zip h.aligned.ge

theorem le_lastBound {b : ℚ} (member : b ∈ h.bucketBounds) : b ≤ h.lastBound := by
  obtain ⟨before, last, split⟩ : ∃ before last, h.bucketBounds = before ++ [last] :=
    ⟨_, _, (List.dropLast_append_getLast (List.ne_nil_of_mem member)).symm⟩
  have increasing := h.increasing
  rw [lastBound, split, List.getLast?_append_of_ne_nil _ (by simp), List.getLast?_singleton,
    Option.getD_some]
  rw [split] at member increasing
  rcases List.mem_append.mp member with earlier | here
  · exact ((List.pairwise_append.mp increasing).2.2 b earlier last (List.mem_singleton_self _)).le
  · exact (List.mem_singleton.mp here).le

theorem percentile_mono : Monotone h.percentile := by
  intro p q le
  unfold percentile
  split_ifs
  · exact le_rfl
  have order : target h.total p ≤ target h.total q := by
    apply toU64_mono
    have : (0 : ℚ) ≤ h.total.toNat := Nat.cast_nonneg _
    gcongr
  have increasing := h.increasing
  rw [← h.map_snd_zip] at increasing
  cases found : scan (target h.total q) 0 (h.buckets.zip h.bucketBounds) with
  | some b =>
      obtain ⟨a, earlier, small⟩ := scan_le order increasing found
      rw [earlier]
      exact small
  | none =>
      rw [Option.getD_none]
      cases other : scan (target h.total p) 0 (h.buckets.zip h.bucketBounds) with
      | none => exact le_rfl
      | some a =>
          have member := mem_of_scan other
          rw [h.map_snd_zip] at member
          exact h.le_lastBound member

/-- Whatever the counters hold, a higher percentile is no smaller. -/
theorem percentiles_ordered :
    Monotone h.percentile ∧ h.p50 ≤ h.p90 ∧ h.p90 ≤ h.p95 ∧ h.p95 ≤ h.p99 ∧ h.p99 ≤ h.p999 := by
  refine ⟨h.percentile_mono, ?_, ?_, ?_, ?_⟩
  all_goals
    apply h.percentile_mono
    norm_num

end LatencyHistogram

theorem newBounds_complete :
    LatencyHistogram.newBounds.getLast? = some (16777216 / 10 ^ 6) := by
  simp only [LatencyHistogram.newBounds, successors]
  norm_num

end GatewayGrpc.Metrics
