import Mathlib.Algebra.GroupWithZero.Nat
import Mathlib.Data.List.Sort
import Mathlib.Order.Bounds.Basic
import Mathlib.Tactic.Common

/-!
# Observations in buckets

A list of increasing bounds sorts observations into buckets: each goes to the first bound that is
not below it. The counts of the buckets, added up, are the numbers of observations up to each bound,
and these decide where the `k`-th smallest observation lies.
-/

namespace GatewayGrpc.Library
variable {α : Type*} [LinearOrder α]

/-! ## Order statistics -/

/-- Ranks are counted from one. -/
def kthSmallest (xs : List α) (k : Nat) : Option α := (xs.insertionSort (· ≤ ·))[k - 1]?

theorem kthSmallest_isSome {xs : List α} {k : Nat} (positive : 1 ≤ k) (bound : k ≤ xs.length) :
    ∃ x, kthSmallest xs k = some x := by
  have inside : k - 1 < (xs.insertionSort (· ≤ ·)).length := by
    rw [List.length_insertionSort]
    omega
  exact ⟨_, List.getElem?_eq_getElem inside⟩

theorem mem_of_kthSmallest {xs : List α} {k : Nat} {x : α} (kth : kthSmallest xs k = some x) :
    x ∈ xs :=
  (List.perm_insertionSort (· ≤ ·) xs).mem_iff.mp (List.mem_of_getElem? kth)

theorem lt_countP_iff_of_sorted {xs : List α} (sorted : xs.Pairwise (· ≤ ·)) {i : Nat} {x : α}
    (here : xs[i]? = some x) (b : α) : i < xs.countP (· ≤ b) ↔ x ≤ b := by
  induction xs generalizing i with
  | nil => cases here
  | cons a xs ih =>
      obtain ⟨first, rest⟩ := List.pairwise_cons.mp sorted
      by_cases small : a ≤ b
      · rw [List.countP_cons_of_pos (by simpa using small)]
        cases i with
        | zero =>
            cases here
            simp [small]
        | succ i =>
            rw [Nat.succ_lt_succ_iff]
            exact ih rest here
      · have none_below : (a :: xs).countP (· ≤ b) = 0 := by
          apply List.countP_eq_zero.mpr
          intro y member below
          apply small
          rcases List.mem_cons.mp member with rfl | later
          · exact of_decide_eq_true below
          · exact (first y later).trans (of_decide_eq_true below)
        have above : ¬ x ≤ b := by
          intro below
          apply small
          rcases List.mem_cons.mp (List.mem_of_getElem? here) with rfl | later
          · exact below
          · exact (first x later).trans below
        rw [none_below]
        exact iff_of_false (Nat.not_lt_zero i) above

theorem le_countP_iff {xs : List α} {k : Nat} {x : α} (positive : 1 ≤ k)
    (kth : kthSmallest xs k = some x) (b : α) : k ≤ xs.countP (· ≤ b) ↔ x ≤ b := by
  have sorted := List.pairwise_insertionSort (· ≤ ·) xs
  have same := (List.perm_insertionSort (· ≤ ·) xs).countP_eq (fun y => decide (y ≤ b))
  rw [← lt_countP_iff_of_sorted sorted kth b, same]
  omega

/-! ## Bounds -/

def cover (bounds : List α) (x : α) : Option α := bounds.find? (x ≤ ·)

theorem isLeast_of_find? {bounds : List α} (increasing : bounds.Pairwise (· < ·))
    {p : α → Bool} {b : α} (found : bounds.find? p = some b) :
    IsLeast { a | a ∈ bounds ∧ p a } b := by
  obtain ⟨holds, before, after, rfl, first⟩ := List.find?_eq_some_iff_append.mp found
  refine ⟨⟨by simp, holds⟩, ?_⟩
  intro a ⟨member, other⟩
  rcases List.mem_append.mp member with earlier | later
  · have := first a earlier
    simp [other] at this
  · rcases List.mem_cons.mp later with rfl | later
    · exact le_rfl
    · exact ((List.pairwise_cons.mp (List.pairwise_append.mp increasing).2.1).1 a later).le

theorem isLeast_cover_iff {bounds : List α} (increasing : bounds.Pairwise (· < ·)) {x b : α} :
    IsLeast { a | a ∈ bounds ∧ x ≤ a } b ↔ cover bounds x = some b := by
  constructor
  · intro least
    cases found : cover bounds x with
    | none =>
        have := List.find?_eq_none.mp found b least.1.1
        simp [least.1.2] at this
    | some a =>
        have other := isLeast_of_find? increasing found
        simp only [decide_eq_true_eq] at other
        rw [other.unique least]
  · intro found
    simpa using isLeast_of_find? increasing found

/-! ## Counts -/

def bucketCounts : List α → List α → List Nat
  | [], _ => []
  | b :: bounds, xs => xs.countP (· ≤ b) :: bucketCounts bounds (xs.filter (b < ·))

def inBucket (bounds : List α) (i : Nat) (x : α) : Bool :=
  (match i with
    | 0 => true
    | j + 1 => bounds[j]?.all (· < x)) && bounds[i]?.any (x ≤ ·)

theorem bucketCounts_nil (bounds : List α) :
    bucketCounts bounds [] = List.replicate bounds.length 0 := by
  induction bounds with
  | nil => rfl
  | cons b bounds ih => rw [bucketCounts, List.filter_nil, ih]; rfl

theorem bucketCounts_perm {bounds xs ys : List α} (same : xs.Perm ys) :
    bucketCounts bounds xs = bucketCounts bounds ys := by
  induction bounds generalizing xs ys with
  | nil => rfl
  | cons b bounds ih =>
      rw [bucketCounts, bucketCounts, same.countP_eq, ih (same.filter (b < ·))]

theorem le_of_mem_bucketCounts {bounds xs : List α} {n : Nat}
    (member : n ∈ bucketCounts bounds xs) : n ≤ xs.length := by
  induction bounds generalizing xs with
  | nil => cases member
  | cons b bounds ih =>
      rcases List.mem_cons.mp member with rfl | later
      · exact List.countP_le_length
      · exact (ih later).trans (List.length_filter_le ..)

theorem bucketCounts_cons (b : α) (bounds : List α) (x : α) (xs : List α) :
    bucketCounts (b :: bounds) (x :: xs) =
      if x ≤ b then (xs.countP (· ≤ b) + 1) :: bucketCounts bounds (xs.filter (b < ·))
      else xs.countP (· ≤ b) :: bucketCounts bounds (x :: xs.filter (b < ·)) := by
  rw [bucketCounts]
  split_ifs with small
  · rw [List.countP_cons_of_pos (by simpa using small),
      List.filter_cons_of_neg (by simpa using small)]
  · rw [List.countP_cons_of_neg (by simpa using small),
      List.filter_cons_of_pos (by simpa using small)]

theorem inBucket_cons_succ {b : α} {bounds : List α} (first : ∀ a ∈ bounds, b < a) {i : Nat}
    (inside : i < bounds.length) (x : α) :
    inBucket (b :: bounds) (i + 1) x = (inBucket bounds i x && decide (b < x)) := by
  cases i with
  | zero => simp [inBucket, Bool.and_comm]
  | succ j =>
      have before : j < bounds.length := Nat.lt_of_succ_lt inside
      have low : b < bounds[j] := first _ (List.getElem_mem before)
      simp only [inBucket, List.getElem?_cons_succ, List.getElem?_eq_getElem before,
        Option.all_some]
      by_cases above : bounds[j] < x
      · rw [decide_eq_true (low.trans above), Bool.and_true]
      · rw [decide_eq_false above, Bool.false_and, Bool.false_and]

theorem getElem?_bucketCounts {bounds : List α} (increasing : bounds.Pairwise (· < ·))
    (xs : List α) (i : Nat) :
    (bucketCounts bounds xs)[i]? = bounds[i]?.map fun _ => xs.countP (inBucket bounds i) := by
  induction bounds generalizing xs i with
  | nil => rfl
  | cons b bounds ih =>
      obtain ⟨first, rest⟩ := List.pairwise_cons.mp increasing
      cases i with
      | zero =>
          have same : inBucket (b :: bounds) 0 = fun x => decide (x ≤ b) := by
            funext x
            simp [inBucket]
          rw [same]
          rfl
      | succ i =>
          rw [bucketCounts, List.getElem?_cons_succ, ih rest, List.getElem?_cons_succ]
          cases here : bounds[i]? with
          | none => rfl
          | some c =>
              have inside : i < bounds.length := (List.getElem?_eq_some_iff.mp here).1
              rw [Option.map_some, Option.map_some, List.countP_filter]
              congr 2
              funext x
              exact (inBucket_cons_succ first inside x).symm

theorem le_of_getElem?_zero {bounds : List α} (increasing : bounds.Pairwise (· < ·)) {b c : α}
    (head : bounds[0]? = some b) (member : c ∈ bounds) : b ≤ c := by
  cases bounds with
  | nil => cases head
  | cons a bounds =>
      cases head
      rcases List.mem_cons.mp member with rfl | later
      · exact le_rfl
      · exact ((List.pairwise_cons.mp increasing).1 c later).le

theorem le_of_inBucket {bounds : List α} (increasing : bounds.Pairwise (· < ·)) {i : Nat} {x b c : α}
    (inside : inBucket bounds i x) (here : bounds[i]? = some b) (member : c ∈ bounds)
    (le : x ≤ c) : b ≤ c := by
  obtain ⟨k, bound, rfl⟩ := List.getElem_of_mem member
  obtain ⟨_, rfl⟩ := List.getElem?_eq_some_iff.mp here
  have order := List.pairwise_iff_getElem.mp increasing
  rcases lt_trichotomy i k with before | rfl | after
  · exact (order i k _ _ before).le
  · exact le_rfl
  · obtain ⟨j, rfl⟩ : ∃ j, i = j + 1 := ⟨i - 1, by omega⟩
    have shorter : j < bounds.length := by omega
    have previous : bounds[j] < x := by
      simp only [inBucket, List.getElem?_eq_getElem shorter, Option.all_some, Bool.and_eq_true,
        decide_eq_true_eq] at inside
      exact inside.1
    rcases Nat.lt_or_eq_of_le (show k ≤ j by omega) with less | rfl
    · exact absurd ((order k j _ _ less).trans previous) le.not_gt
    · exact absurd previous le.not_gt

def ahead (bounds : List α) (i : Nat) (x : α) : Bool :=
  (bounds.take i).all (· < x) && (bounds.drop i).any (x ≤ ·)

theorem ahead_zero (bounds : List α) (x : α) : ahead bounds 0 x = bounds.any (x ≤ ·) := rfl

theorem ahead_cons_succ (b : α) (bounds : List α) (i : Nat) (x : α) :
    ahead (b :: bounds) (i + 1) x = (decide (b < x) && ahead bounds i x) :=
  Bool.and_assoc ..

theorem countP_le_add {b c : α} (order : b ≤ c) (xs : List α) :
    xs.countP (· ≤ b) + (xs.filter (b < ·)).countP (· ≤ c) = xs.countP (· ≤ c) := by
  induction xs with
  | nil => rfl
  | cons x xs ih =>
      by_cases small : x ≤ b
      · rw [List.countP_cons_of_pos (by simpa using small),
          List.filter_cons_of_neg (by simpa using small),
          List.countP_cons_of_pos (by simpa using small.trans order)]
        omega
      · rw [List.countP_cons_of_neg (by simpa using small),
          List.filter_cons_of_pos (by simpa using small), List.countP_cons, List.countP_cons]
        omega

theorem sum_bucketCounts (bounds xs : List α) :
    (bucketCounts bounds xs).sum = xs.countP fun x => bounds.any (x ≤ ·) := by
  induction bounds generalizing xs with
  | nil =>
      rw [bucketCounts, List.sum_nil]
      exact (congrFun List.countP_false xs).symm
  | cons b bounds ih =>
      rw [bucketCounts, List.sum_cons, ih]
      induction xs with
      | nil => rfl
      | cons x xs rest =>
          by_cases small : x ≤ b
          · have covered : (b :: bounds).any (x ≤ ·) = true := by
              rw [List.any_cons, decide_eq_true small, Bool.true_or]
            rw [List.countP_cons_of_pos (by simpa using small),
              List.filter_cons_of_neg (by simpa using small),
              List.countP_cons_of_pos (p := fun x => (b :: bounds).any (x ≤ ·)) covered]
            omega
          · have same : (b :: bounds).any (x ≤ ·) = bounds.any (x ≤ ·) := by
              rw [List.any_cons, decide_eq_false small, Bool.false_or]
            rw [List.countP_cons_of_neg (by simpa using small),
              List.filter_cons_of_pos (by simpa using small), List.countP_cons, List.countP_cons,
              same]
            omega

/-! ## Adding up -/

def cumulative : Nat → List Nat → List Nat
  | _, [] => []
  | c, n :: counts => (c + n) :: cumulative (c + n) counts

theorem cumulative_bucketCounts {bounds : List α} (increasing : bounds.Pairwise (· < ·))
    (c : Nat) (xs : List α) :
    cumulative c (bucketCounts bounds xs) = bounds.map fun b => c + xs.countP (· ≤ b) := by
  induction bounds generalizing c xs with
  | nil => rfl
  | cons b bounds ih =>
      obtain ⟨first, rest⟩ := List.pairwise_cons.mp increasing
      rw [bucketCounts, cumulative, ih rest, List.map_cons]
      congr 1
      apply List.map_congr_left
      intro a member
      rw [Nat.add_assoc, countP_le_add (first a member).le]

end GatewayGrpc.Library
