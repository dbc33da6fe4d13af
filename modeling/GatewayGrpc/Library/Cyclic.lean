import Mathlib.Data.Nat.ModEq
import Mathlib.Tactic.Common

/-!
# Memory read around a cycle

`block m off n` reads `n` cells of a memory in a line, `window m c p n` reads them around a cycle
of `c` cells, and `overlay` lays a block down. A window is one block, or two where it crosses the
end of the cycle. Positions are counted from the start of time: position `p` is the cell `p % c`.
-/

namespace GatewayGrpc.Library

variable {α : Type*}

def block (m : Nat → α) (off n : Nat) : List α := (List.range n).map fun i => m (off + i)

def window (m : Nat → α) (c p n : Nat) : List α := (List.range n).map fun i => m ((p + i) % c)

def overlay (m : Nat → α) (off : Nat) (cells : List α) : Nat → α :=
  fun i => if h : off ≤ i ∧ i - off < cells.length then cells[i - off] else m i

@[simp] theorem length_block (m : Nat → α) (off n : Nat) : (block m off n).length = n := by
  simp [block]

@[simp] theorem length_window (m : Nat → α) (c p n : Nat) : (window m c p n).length = n := by
  simp [window]

theorem window_add (m : Nat → α) (c p a b : Nat) :
    window m c p (a + b) = window m c p a ++ window m c (p + a) b := by
  simp [window, List.range_add, Function.comp_def, Nat.add_assoc]

theorem window_mod (m : Nat → α) (c p n : Nat) : window m c (p % c) n = window m c p n := by
  simp [window]

theorem block_congr {m m' : Nat → α} {off n : Nat}
    (same : ∀ i, off ≤ i → i < off + n → m' i = m i) : block m' off n = block m off n := by
  apply List.map_congr_left
  intro i member
  have := List.mem_range.mp member
  exact same _ (by omega) (by omega)

theorem window_congr {m m' : Nat → α} {c p n : Nat}
    (same : ∀ i, i < n → m' ((p + i) % c) = m ((p + i) % c)) :
    window m' c p n = window m c p n := by
  apply List.map_congr_left
  intro i member
  exact same i (List.mem_range.mp member)

theorem window_eq_block (m : Nat → α) {c p n : Nat} (inside : p + n ≤ c) :
    window m c p n = block m p n := by
  apply List.map_congr_left
  intro i member
  have := List.mem_range.mp member
  rw [Nat.mod_eq_of_lt (by omega)]

theorem window_end (m : Nat → α) (c n : Nat) : window m c c n = window m c 0 n := by
  simp [window]

theorem window_eq_blocks (m : Nat → α) {c p n : Nat} (start : p ≤ c) (crosses : c ≤ p + n)
    (once : p + n ≤ 2 * c) :
    window m c p n = block m p (c - p) ++ block m 0 (n - (c - p)) := by
  obtain ⟨k, rfl⟩ : ∃ k, n = (c - p) + k := ⟨n - (c - p), by omega⟩
  rw [window_add, window_eq_block m (by omega), Nat.add_sub_cancel_left,
    show p + (c - p) = c by omega, window_end, window_eq_block m (by omega)]

theorem overlay_apply_of_outside (m : Nat → α) {off i : Nat} {cells : List α}
    (outside : i < off ∨ off + cells.length ≤ i) : overlay m off cells i = m i := by
  simp only [overlay]
  split
  · omega
  · rfl

theorem block_overlay_same (m : Nat → α) (off : Nat) (cells : List α) :
    block (overlay m off cells) off cells.length = cells := by
  apply List.ext_getElem (by simp)
  intro i hi hi'
  simp [block, overlay, hi']

theorem block_overlay_disjoint (m : Nat → α) {off start n : Nat} {cells : List α}
    (apart : start + n ≤ off ∨ off + cells.length ≤ start) :
    block (overlay m off cells) start n = block m start n :=
  block_congr fun i _ _ => overlay_apply_of_outside m (by omega)

/-! ## Positions -/

theorem add_mod_cases {c : Nat} (p : Nat) {n : Nat} (small : n < c) :
    (p % c + n < c ∧ (p + n) % c = p % c + n) ∨ (c ≤ p % c + n ∧ (p + n) % c = p % c + n - c) := by
  have hp : p % c < c := Nat.mod_lt _ (by omega)
  rw [← Nat.mod_add_mod]
  rcases Nat.lt_or_ge (p % c + n) c with h | h
  · exact Or.inl ⟨h, Nat.mod_eq_of_lt h⟩
  · exact Or.inr ⟨h, by rw [Nat.mod_eq_sub_mod h, Nat.mod_eq_of_lt (by omega)]⟩

theorem eq_of_mod_eq {c p q : Nat} (order : p ≤ q) (near : q < p + c) (same : p % c = q % c) :
    p = q := by
  obtain ⟨d, rfl⟩ : ∃ d, q = p + d := ⟨q - p, by omega⟩
  rcases add_mod_cases p (show d < c by omega) with ⟨_, h⟩ | ⟨_, h⟩ <;> omega

theorem cells_disjoint {c p a b i j : Nat} (turn : a + b ≤ c) (hi : i < a) (hj : j < b) :
    (p + i) % c ≠ (p + a + j) % c := by
  intro same
  have := eq_of_mod_eq (by omega) (by omega) same
  omega

end GatewayGrpc.Library
