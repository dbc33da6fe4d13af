import Mathlib.Data.Int.CardIntervalMod

/-!
# Fair turns

A counter modulo `m`, reduced modulo `n`, picks one of `n` places in each turn. The picks are fair
until the counter wraps, and stay fair behind that exactly where `n` divides `m`.
-/

namespace GatewayGrpc.Library

def turns (m n k : Nat) : List Nat := (List.range k).map fun j => j % m % n

/-- Every place has its share of the picks, rounded down or up, and any `n` picks in a row are of
different places. -/
structure Fair (n : Nat) (picks : List Nat) : Prop where
  counts : ∀ i < n, picks.count i = picks.length / n ∨ picks.count i = (picks.length + n - 1) / n
  windows : ∀ start, start + n ≤ picks.length → ∀ i < n, ((picks.drop start).take n).count i = 1

@[simp] theorem length_turns (m n k : Nat) : (turns m n k).length = k := by
  simp [turns]

theorem count_map_range (f : Nat → Nat) (i k : Nat) :
    ((List.range k).map f).count i = Nat.count (fun j => f j = i) k := by
  rw [List.count_eq_countP, List.countP_map, Nat.count]
  congr

theorem take_drop_map_range (f : Nat → Nat) {start n k : Nat} (inside : start + n ≤ k) :
    (((List.range k).map f).drop start).take n = (List.range n).map fun j => f (start + j) := by
  apply List.ext_getElem
  · simp
    omega
  · intro j _ _
    simp

/-! ## Without a wrap -/

theorem count_mod {n i : Nat} (inside : i < n) (k : Nat) :
    Nat.count (fun j => j % n = i) k = k / n + if i < k % n then 1 else 0 := by
  have card := Nat.count_modEq_card k (show 0 < n by omega) i
  simpa only [Nat.ModEq, Nat.mod_eq_of_lt inside] using card

theorem count_mod_window {n i : Nat} (inside : i < n) (start : Nat) :
    Nat.count (fun j => (start + j) % n = i) n = 1 := by
  have split := Nat.count_add (fun j => j % n = i) start n
  rw [count_mod inside, count_mod inside, Nat.add_mod_right,
    Nat.add_div_right start (by omega)] at split
  omega

theorem add_sub_one_div {n k : Nat} (positive : 0 < n) (rest : 0 < k % n) :
    (k + n - 1) / n = k / n + 1 := by
  have parts := Nat.div_add_mod k n
  have below := Nat.mod_lt k positive
  calc (k + n - 1) / n
      = (n * (k / n + 1) + (k % n - 1)) / n := by
        rw [Nat.mul_succ]
        congr 1
        omega
    _ = k / n + 1 + (k % n - 1) / n := Nat.mul_add_div positive _ _
    _ = k / n + 1 := by rw [Nat.div_eq_of_lt (show k % n - 1 < n by omega), Nat.add_zero]

theorem fair_rotation (n k : Nat) : Fair n ((List.range k).map (· % n)) where
  counts := by
    intro i inside
    rw [count_map_range, count_mod inside, List.length_map, List.length_range]
    by_cases more : i < k % n
    · right
      rw [if_pos more, add_sub_one_div (by omega) (by omega)]
    · left
      rw [if_neg more, Nat.add_zero]
  windows := by
    intro start fits i inside
    rw [List.length_map, List.length_range] at fits
    rw [take_drop_map_range (· % n) fits, count_map_range, count_mod_window inside]

theorem turns_eq_rotation {m n k : Nat} (exact : n ∣ m ∨ k ≤ m) :
    turns m n k = (List.range k).map (· % n) := by
  apply List.map_congr_left
  intro j member
  have small := List.mem_range.mp member
  cases exact with
  | inl divides => exact Nat.mod_mod_of_dvd j divides
  | inr early => rw [Nat.mod_eq_of_lt (show j < m by omega)]

/-! ## Across a wrap -/

theorem two_le_count {f : Nat → Nat} {a b k i : Nat} (order : a < b) (inside : b < k)
    (first : f a = i) (second : f b = i) : 2 ≤ ((List.range k).map f).count i := by
  rw [count_map_range]
  have before := Nat.count_strict_mono (p := fun j => f j = i) first order
  have after := Nat.count_strict_mono (p := fun j => f j = i) second inside
  omega

theorem not_fair_of_wrap {m n k : Nat} (fits : n ≤ m) (positive : 0 < n) (divides : ¬ n ∣ m)
    (wraps : m < k) : ¬ Fair n (turns m n k) := by
  intro fair
  have rest : 0 < m % n := Nat.emod_pos_of_not_dvd divides
  have below := Nat.mod_lt m positive
  have inside : m + 1 - n + n ≤ k := by omega
  have once := fair.windows (m + 1 - n) (by rwa [length_turns]) 0 positive
  rw [turns, take_drop_map_range _ inside] at once
  have twice : 2 ≤ ((List.range n).map
      (fun j => (m + 1 - n + j) % m % n)).count 0 := by
    apply two_le_count (a := n - 1 - m % n) (b := n - 1) (by omega) (by omega)
    · rw [show m + 1 - n + (n - 1 - m % n) = m - m % n by omega,
        Nat.mod_eq_of_lt (show m - m % n < m by omega)]
      exact Nat.mod_eq_zero_of_dvd (Nat.dvd_sub_mod m)
    · rw [show m + 1 - n + (n - 1) = m by omega, Nat.mod_self, Nat.zero_mod]
  omega

theorem not_fair_of_short {m n k : Nat} (short : m < n) (positive : 0 < m) (wraps : m < k) :
    ¬ Fair n (turns m n k) := by
  intro fair
  have never : (turns m n k).count m = 0 := by
    rw [List.count_eq_zero]
    intro member
    obtain ⟨j, _, pick⟩ := List.mem_map.mp member
    have low : j % m < m := Nat.mod_lt j positive
    rw [Nat.mod_eq_of_lt (by omega)] at pick
    omega
  have twice : 2 ≤ (turns m n k).count 0 := by
    apply two_le_count positive wraps
    · rw [Nat.zero_mod, Nat.zero_mod]
    · rw [Nat.mod_self, Nat.zero_mod]
  have up : (k + n - 1) / n ≤ k / n + 1 := by
    rw [← Nat.add_div_right k (by omega)]
    exact Nat.div_le_div_right (by omega)
  have reached : 0 < (k + n - 1) / n := Nat.div_pos (by omega) (by omega)
  have last := fair.counts m short
  have first := fair.counts 0 (by omega)
  rw [length_turns] at last first
  omega

theorem fair_turns_iff {m n k : Nat} (positive : 0 < n) (space : 0 < m) :
    Fair n (turns m n k) ↔ n ∣ m ∨ k ≤ m := by
  constructor
  · intro fair
    by_contra wraps
    rw [not_or, Nat.not_le] at wraps
    rcases Nat.lt_or_ge m n with short | fits
    · exact not_fair_of_short short space wraps.2 fair
    · exact not_fair_of_wrap fits positive wraps.1 wraps.2 fair
  · intro exact
    rw [turns_eq_rotation exact]
    exact fair_rotation n k

end GatewayGrpc.Library
