import GatewayGrpc.Library.Lists
import Mathlib.Data.Fintype.Defs
import Mathlib.Order.Lattice
import Mathlib.Tactic.Common

/-!
# Release and acquire

Threads that store to one atomic location each, with release, and load one another's locations,
with acquire. A store carries what its thread knows by then: how many stores of each thread happen
before. A load may take any store that is not behind what the loading thread knows, and learns what
that store carries. A plain access to a shared cell is stamped with the next store of its thread,
the first that publishes it; an access that does not know the stamp of a conflicting one is a data
race.
-/

namespace GatewayGrpc.Library

structure AtomicStore (Thread Value : Type*) where
  value : Value
  view : Thread → Nat

/-- The first of the `stores` of a location is its initial value. -/
structure Atomics (Thread Value Cell : Type*) where
  stores : Thread → List (AtomicStore Thread Value)
  known : Thread → Thread → Nat
  wrote : Cell → Thread → Nat
  read : Cell → Thread → Nat
  raced : Bool

namespace Atomics
variable {Thread Value Cell : Type*}

def initial (value : Thread → Value) : Atomics Thread Value Cell where
  stores t := [⟨value t, fun _ => 0⟩]
  known _ _ := 0
  wrote _ _ := 0
  read _ _ := 0
  raced := false

structure Coherent (m : Atomics Thread Value Cell) : Prop where
  /-- A thread knows its own stores. -/
  own : ∀ t, (m.stores t).length = m.known t t + 1
  bounded : ∀ t u, m.known t u ≤ m.known u u
  carried : ∀ u i (store : AtomicStore Thread Value), (m.stores u)[i]? = some store →
    store.view u = i ∧ store.view ≤ m.known u
  wrote : ∀ x t, m.wrote x t ≤ m.known t t + 1
  read : ∀ x t, m.read x t ≤ m.known t t + 1

theorem coherent_initial (value : Thread → Value) :
    (initial value : Atomics Thread Value Cell).Coherent where
  own _ := rfl
  bounded _ _ := le_rfl
  carried u i store here := by
    simp only [initial, List.getElem?_singleton] at here
    split at here
    case isTrue first =>
        cases here
        exact ⟨first.symm, le_rfl⟩
    case isFalse => cases here
  wrote _ _ := Nat.zero_le _
  read _ _ := Nat.zero_le _

theorem Coherent.lt_length_iff {m : Atomics Thread Value Cell} {u : Thread} {i : Nat}
    (coherent : m.Coherent) : i < (m.stores u).length ↔ i ≤ m.known u u := by
  rw [coherent.own, Nat.lt_succ_iff]

variable [DecidableEq Thread]

def learn (m : Atomics Thread Value Cell) (t : Thread) (view : Thread → Nat) :
    Atomics Thread Value Cell :=
  { m with known := Function.update m.known t (m.known t ⊔ view) }

/-- `t` loads store `i` of the location of `u`. -/
def acquire (m : Atomics Thread Value Cell) (t u : Thread) (i : Nat) :
    Option (Value × Atomics Thread Value Cell) :=
  if m.known t u ≤ i then
    (m.stores u)[i]?.map fun store => (store.value, m.learn t store.view)
  else none

def release (m : Atomics Thread Value Cell) (t : Thread) (value : Value) :
    Atomics Thread Value Cell :=
  let view := Function.update (m.known t) t (m.known t t + 1)
  { m with
    stores := Function.update m.stores t (m.stores t ++ [⟨value, view⟩])
    known := Function.update m.known t view }

theorem le_learn (m : Atomics Thread Value Cell) (t : Thread) (view : Thread → Nat) :
    m.known ≤ (m.learn t view).known :=
  le_update_self_iff.mpr le_sup_left

theorem le_release (m : Atomics Thread Value Cell) (t : Thread) (value : Value) :
    m.known ≤ (m.release t value).known :=
  le_update_self_iff.mpr (le_update_self_iff.mpr (Nat.le_succ _))

/-- What the others have on record for the cells happens before what `t` does next. -/
def After (m : Atomics Thread Value Cell) (stamps : Cell → Thread → Nat) (t : Thread)
    (cells : List Cell) : Prop :=
  ∀ x ∈ cells, ∀ u, u ≠ t → stamps x u ≤ m.known t u

section Plain
variable [DecidableEq Cell]

def stamp (m : Atomics Thread Value Cell) (stamps : Cell → Thread → Nat) (t : Thread)
    (cells : List Cell) : Cell → Thread → Nat :=
  fun x u => if u = t ∧ x ∈ cells then m.known t t + 1 else stamps x u

variable [Fintype Thread]

instance (m : Atomics Thread Value Cell) (stamps : Cell → Thread → Nat) (t : Thread)
    (cells : List Cell) : Decidable (m.After stamps t cells) :=
  inferInstanceAs (Decidable (∀ x ∈ cells, ∀ u, u ≠ t → stamps x u ≤ m.known t u))

def writeCells (m : Atomics Thread Value Cell) (t : Thread) (cells : List Cell) :
    Atomics Thread Value Cell :=
  { m with
    wrote := m.stamp m.wrote t cells
    raced := m.raced || !decide (m.After m.wrote t cells ∧ m.After m.read t cells) }

def readCells (m : Atomics Thread Value Cell) (t : Thread) (cells : List Cell) :
    Atomics Thread Value Cell :=
  { m with
    read := m.stamp m.read t cells
    raced := m.raced || !decide (m.After m.wrote t cells) }

end Plain

section Plain
variable [DecidableEq Cell] {m : Atomics Thread Value Cell} {t u : Thread} {cells : List Cell}

theorem stamp_le {stamps : Cell → Thread → Nat}
    (bound : ∀ x t, stamps x t ≤ m.known t t + 1) (x : Cell) (u : Thread) :
    m.stamp stamps t cells x u ≤ m.known u u + 1 := by
  unfold stamp
  split
  case isTrue here => rw [here.1]
  case isFalse => exact bound x u

theorem stamp_of_ne {stamps : Cell → Thread → Nat} (x : Cell) (other : u ≠ t) :
    m.stamp stamps t cells x u = stamps x u := if_neg fun here => other here.1

theorem stamp_of_notMem {stamps : Cell → Thread → Nat} {x : Cell} (u : Thread)
    (apart : x ∉ cells) : m.stamp stamps t cells x u = stamps x u :=
  if_neg fun here => apart here.2

theorem lt_stamp_cases {stamps : Cell → Thread → Nat} {x : Cell} {k : Nat}
    (less : k < m.stamp stamps t cells x t) : k < stamps x t ∨ x ∈ cells ∧ k ≤ m.known t t := by
  unfold stamp at less
  split at less
  case isTrue here => exact .inr ⟨here.2, Nat.lt_succ_iff.mp less⟩
  case isFalse => exact .inl less

variable [Fintype Thread]

theorem writeCells_raced (wrote : m.After m.wrote t cells) (read : m.After m.read t cells) :
    (m.writeCells t cells).raced = m.raced := by
  simp [writeCells, wrote, read]

theorem readCells_raced (wrote : m.After m.wrote t cells) :
    (m.readCells t cells).raced = m.raced := by
  simp [readCells, wrote]

theorem Coherent.writeCells (coherent : m.Coherent) (t : Thread) (cells : List Cell) :
    (m.writeCells t cells).Coherent :=
  { coherent with wrote := stamp_le coherent.wrote }

theorem Coherent.readCells (coherent : m.Coherent) (t : Thread) (cells : List Cell) :
    (m.readCells t cells).Coherent :=
  { coherent with read := stamp_le coherent.read }

end Plain

namespace Coherent
variable {m next : Atomics Thread Value Cell} {t u : Thread} {i : Nat} {value : Value}

/-- What a thread can load, and what it knows then. -/
theorem acquire_eq_some (coherent : m.Coherent) (loaded : m.acquire t u i = some (value, next)) :
    ∃ store, (m.stores u)[i]? = some store ∧ store.value = value ∧ next = m.learn t store.view ∧
      m.known t u ≤ i ∧ i ≤ m.known u u := by
  unfold acquire at loaded
  split at loaded
  case isTrue fresh =>
      obtain ⟨store, here, same⟩ := Option.map_eq_some_iff.mp loaded
      cases same
      have inside := (List.getElem?_eq_some_iff.mp here).1
      exact ⟨store, here, rfl, rfl, fresh, coherent.lt_length_iff.mp inside⟩
  case isFalse => cases loaded

theorem learn (coherent : m.Coherent) {store : AtomicStore Thread Value}
    (here : (m.stores u)[i]? = some store) : (m.learn t store.view).Coherent := by
  have carried : store.view ≤ m.known u := (coherent.carried u i store here).2
  have known (v : Thread) : (m.known t ⊔ store.view) v ≤ m.known v v :=
    sup_le (coherent.bounded t v) ((carried v).trans (coherent.bounded u v))
  have same (w : Thread) : (m.learn t store.view).known w w = m.known w w := by
    by_cases own : w = t
    · subst own
      exact le_antisymm (by simpa [Atomics.learn] using known w) (le_learn m w store.view w w)
    · simp only [Atomics.learn, Function.update_of_ne own]
  refine ⟨?_, ?_, ?_, ?_, ?_⟩
  · intro w
    rw [same]
    exact coherent.own w
  · intro w v
    rw [same]
    by_cases own : w = t
    · subst own
      simpa only [Atomics.learn, Function.update_self] using known v
    · simp only [Atomics.learn, Function.update_of_ne own]
      exact coherent.bounded w v
  · intro w k other there
    obtain ⟨index, view⟩ := coherent.carried w k other there
    exact ⟨index, view.trans (le_learn m t store.view w)⟩
  · intro x w
    rw [same]
    exact coherent.wrote x w
  · intro x w
    rw [same]
    exact coherent.read x w

theorem release_stores (coherent : m.Coherent) {k : Nat} {store : AtomicStore Thread Value}
    (here : ((m.release t value).stores u)[k]? = some store) :
    (m.stores u)[k]? = some store ∨
      u = t ∧ k = m.known t t + 1 ∧ store = ⟨value, (m.release t value).known t⟩ := by
  by_cases own : u = t
  · subst own
    simp only [Atomics.release, Function.update_self] at here ⊢
    rcases getElem?_append_cases here with before | ⟨last, same⟩
    · exact .inl before
    · exact .inr ⟨trivial, last.trans (coherent.own u), same⟩
  · simp only [Atomics.release, Function.update_of_ne own] at here
    exact .inl here

theorem release (coherent : m.Coherent) (t : Thread) (value : Value) :
    (m.release t value).Coherent := by
  have grown := le_release m t value
  refine ⟨?_, ?_, ?_, ?_, ?_⟩
  · intro w
    by_cases own : w = t
    · subst own
      simp [Atomics.release, coherent.own]
    · simp only [Atomics.release, Function.update_of_ne own]
      exact coherent.own w
  · intro w v
    by_cases own : w = t
    · subst own
      by_cases self : v = w
      · rw [self]
      · simp only [Atomics.release, Function.update_self, Function.update_of_ne self]
        exact coherent.bounded w v
    · have old : (m.release t value).known w = m.known w := Function.update_of_ne own ..
      rw [old]
      exact (coherent.bounded w v).trans (grown v v)
  · intro w k store here
    rcases coherent.release_stores here with before | ⟨rfl, rfl, rfl⟩
    · obtain ⟨index, view⟩ := coherent.carried w k store before
      exact ⟨index, view.trans (grown w)⟩
    · exact ⟨by simp [Atomics.release], le_rfl⟩
  · intro x w
    exact (coherent.wrote x w).trans (Nat.succ_le_succ (grown w w))
  · intro x w
    exact (coherent.read x w).trans (Nat.succ_le_succ (grown w w))

theorem acquire (coherent : m.Coherent) (loaded : m.acquire t u i = some (value, next)) :
    next.Coherent := by
  obtain ⟨store, here, _, rfl, _⟩ := coherent.acquire_eq_some loaded
  exact coherent.learn here

/-- After it has loaded store `i`, a thread knows the stores up to `i`. -/
theorem acquire_known (coherent : m.Coherent) (loaded : m.acquire t u i = some (value, next)) :
    next.known t u = i := by
  obtain ⟨store, here, _, rfl, fresh, _⟩ := coherent.acquire_eq_some loaded
  simp [Atomics.learn, (coherent.carried u i store here).1, fresh]

theorem acquire_own (coherent : m.Coherent) (loaded : m.acquire t u i = some (value, next))
    (w : Thread) : next.known w w = m.known w w := by
  have stores : next.stores = m.stores := by
    obtain ⟨store, _, _, rfl, _⟩ := coherent.acquire_eq_some loaded
    rfl
  have before := coherent.own w
  have after := (coherent.acquire loaded).own w
  rw [stores] at after
  omega

/-- A thread always loads its own last store, and learns nothing. -/
theorem acquire_self (coherent : m.Coherent) (loaded : m.acquire t t i = some (value, next)) :
    next = m ∧ i = m.known t t := by
  obtain ⟨store, here, _, rfl, fresh, last⟩ := coherent.acquire_eq_some loaded
  have carried : store.view ≤ m.known t := (coherent.carried t i store here).2
  have known : m.known t ⊔ store.view = m.known t := sup_of_le_left carried
  refine ⟨?_, by omega⟩
  simp only [Atomics.learn, known, Function.update_eq_self]

theorem acquire_known_of_ne (coherent : m.Coherent)
    (loaded : m.acquire t u i = some (value, next)) {w : Thread} (other : w ≠ t) :
    next.known w = m.known w := by
  obtain ⟨store, _, _, rfl, _⟩ := coherent.acquire_eq_some loaded
  exact Function.update_of_ne other ..

/-- The newest store of a location can always be loaded. -/
theorem acquire_newest (coherent : m.Coherent) (t u : Thread) :
    (m.acquire t u (m.known u u)).isSome := by
  have inside : m.known u u < (m.stores u).length := coherent.lt_length_iff.mpr le_rfl
  simp [Atomics.acquire, coherent.bounded t u, inside]

end Coherent

end Atomics

end GatewayGrpc.Library
