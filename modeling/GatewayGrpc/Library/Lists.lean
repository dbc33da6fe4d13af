import Mathlib.Algebra.BigOperators.Group.List.Basic
import Mathlib.Algebra.Order.Ring.Nat
import Mathlib.Data.List.Basic
import Mathlib.Tactic.Common

/-!
# Replacing one element of a list

Facts about `List.set` at a position whose element is known.
-/

namespace GatewayGrpc.Library
variable {α β : Type*} {l : List α} {i : Nat} {x y : α}

theorem lt_of_getElem?_eq (here : l[i]? = some x) : i < l.length :=
  (List.getElem?_eq_some_iff.mp here).1

theorem getElem?_set_of (here : l[i]? = some x) (j : Nat) :
    (l.set i y)[j]? = if i = j then some y else l[j]? := by
  rw [List.getElem?_set]
  simp [lt_of_getElem?_eq here]

theorem getElem?_set_self_of (here : l[i]? = some x) : (l.set i y)[i]? = some y := by
  rw [getElem?_set_of here, if_pos rfl]

theorem set_self_of (here : l[i]? = some x) : l.set i x = l := by
  obtain ⟨inside, rfl⟩ := List.getElem?_eq_some_iff.mp here
  exact List.set_getElem_self inside

theorem getElem?_set_cases {j : Nat} {z : α} (here : l[i]? = some x)
    (there : (l.set i y)[j]? = some z) : (i = j ∧ z = y) ∨ (i ≠ j ∧ l[j]? = some z) := by
  rw [getElem?_set_of here] at there
  split at there
  · exact .inl ⟨‹_›, (Option.some.inj there).symm⟩
  · exact .inr ⟨‹_›, there⟩

theorem getElem?_append_cases {j : Nat} {z : α} (there : (l ++ [y])[j]? = some z) :
    l[j]? = some z ∨ j = l.length ∧ z = y := by
  rcases Nat.lt_or_ge j l.length with before | behind
  · rw [List.getElem?_append_left before] at there
    exact .inl there
  · rw [List.getElem?_append_right behind] at there
    obtain ⟨first, rfl⟩ := List.getElem?_eq_some_iff.mp there
    refine .inr ⟨?_, by simp⟩
    simp only [List.length_singleton] at first
    omega

theorem map_set_of {f : α → β} (here : l[i]? = some x) (same : f y = f x) :
    (l.set i y).map f = l.map f := by
  obtain ⟨inside, rfl⟩ := List.getElem?_eq_some_iff.mp here
  rw [List.map_set, same, ← List.getElem_map f (h := by simpa using inside), List.set_getElem_self]

theorem countP_set_of (p : α → Bool) (here : l[i]? = some x) :
    (l.set i y).countP p + (p x).toNat = l.countP p + (p y).toNat := by
  induction l generalizing i with
  | nil => simp at here
  | cons a l ih =>
      cases i with
      | zero =>
          obtain rfl : a = x := by simpa using here
          simp only [List.set_cons_zero, List.countP_cons]
          cases p a <;> cases p y <;> simp
      | succ i =>
          have := ih (i := i) (by simpa using here)
          simp only [List.set_cons_succ, List.countP_cons]
          omega

theorem sum_map_set_of (f : α → Nat) (here : l[i]? = some x) :
    ((l.set i y).map f).sum + f x = (l.map f).sum + f y := by
  induction l generalizing i with
  | nil => simp at here
  | cons a l ih =>
      cases i with
      | zero =>
          obtain rfl : a = x := by simpa using here
          simp only [List.set_cons_zero, List.map_cons, List.sum_cons]
          omega
      | succ i =>
          have := ih (i := i) (by simpa using here)
          simp only [List.set_cons_succ, List.map_cons, List.sum_cons]
          omega

theorem countP_partition (p : α → Bool) (ps : List (α → Bool))
    (one : ∀ x ∈ l, (p x).toNat = (ps.map fun q => (q x).toNat).sum) :
    l.countP p = (ps.map fun q => l.countP q).sum := by
  induction l with
  | nil => simp
  | cons a l ih =>
      have head := one a List.mem_cons_self
      have tail := ih fun x member => one x (List.mem_cons_of_mem a member)
      have split (q : α → Bool) : (a :: l).countP q = l.countP q + (q a).toNat := by
        rw [List.countP_cons]
        cases q a <;> rfl
      simp only [split, tail, head, List.sum_map_add]

theorem filterMap_set_of {f : α → Option β} (here : l[i]? = some x) (same : f y = f x) :
    (l.set i y).filterMap f = l.filterMap f := by
  induction l generalizing i with
  | nil => rfl
  | cons a l ih =>
      cases i with
      | zero =>
          obtain rfl : a = x := by simpa using here
          simp only [List.set_cons_zero, List.filterMap_cons, same]
      | succ i =>
          have := ih (i := i) (by simpa using here)
          simp only [List.set_cons_succ, List.filterMap_cons, this]

theorem perm_filterMap_set {f : α → Option β} {b : β} (here : l[i]? = some x) (before : f x = none)
    (now : f y = some b) : ((l.set i y).filterMap f).Perm (b :: l.filterMap f) := by
  induction l generalizing i with
  | nil => cases here
  | cons a l ih =>
      cases i with
      | zero =>
          obtain rfl : a = x := by simpa using here
          rw [List.set_cons_zero, List.filterMap_cons_some now, List.filterMap_cons_none before]
      | succ i =>
          have tail := ih (i := i) (by simpa using here)
          rw [List.set_cons_succ]
          cases first : f a with
          | none =>
              rw [List.filterMap_cons_none first, List.filterMap_cons_none first]
              exact tail
          | some c =>
              rw [List.filterMap_cons_some first, List.filterMap_cons_some first]
              exact (tail.cons c).trans (.swap b c _)

end GatewayGrpc.Library
