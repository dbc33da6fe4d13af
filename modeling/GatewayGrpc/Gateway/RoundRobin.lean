import GatewayGrpc.Library.Lists
import GatewayGrpc.Library.Rotation
import GatewayGrpc.Library.Run

/-!
# `ConnectionPool` and `LoadBalancer` of `gateway/src/transport.rs`

Each hands out the elements of a vector in turn: one `fetch_add` on an `AtomicUsize`, which wraps,
draws a ticket, and the ticket modulo the length is the place. A machine word has `w` bits.
-/

namespace GatewayGrpc.Gateway
open Library

structure Element (α : Type) where
  place : Nat
  value : α
  deriving DecidableEq, Repr

/-- `&elements[ticket % elements.len()]`, or the panic of the remainder on an empty vector. -/
def elementAt {w : Nat} {α : Type} (elements : List α) (ticket : BitVec w) : Option (Element α) :=
  let idx := ticket.toNat % elements.length
  elements[idx]?.map (Element.mk idx)

theorem elementAt_eq_some {w : Nat} {α : Type} {elements : List α} {ticket : BitVec w}
    {e : Element α} (found : elementAt elements ticket = some e) :
    e.place = ticket.toNat % elements.length ∧ elements[e.place]? = some e.value := by
  obtain ⟨value, here, rfl⟩ := Option.map_eq_some_iff.mp found
  exact ⟨rfl, here⟩

theorem exists_elementAt {w : Nat} {α : Type} {elements : List α} (nonempty : elements ≠ [])
    (ticket : BitVec w) : ∃ e, elementAt elements ticket = some e := by
  have inside : ticket.toNat % elements.length < elements.length :=
    Nat.mod_lt _ (List.length_pos_iff.mpr nonempty)
  exact ⟨_, congrArg (Option.map _) (List.getElem?_eq_getElem inside)⟩

structure ConnectionPool (w : Nat) (T : Type) where
  connections : List T
  current : BitVec w
  deriving DecidableEq, Repr

structure LoadBalancer (w : Nat) where
  backends : List String
  current : BitVec w
  deriving DecidableEq, Repr

namespace ConnectionPool
variable {w : Nat} {T : Type}

def new (connections : List T) : ConnectionPool w T where
  connections := connections
  current := 0

def fetchAdd (pool : ConnectionPool w T) : BitVec w × ConnectionPool w T :=
  (pool.current, { pool with current := pool.current + 1 })

def get (pool : ConnectionPool w T) : Option (Element T) × ConnectionPool w T :=
  let (ticket, pool) := pool.fetchAdd
  (elementAt pool.connections ticket, pool)

end ConnectionPool

namespace LoadBalancer
variable {w : Nat}

def new (backends : List String) : LoadBalancer w where
  backends := backends
  current := 0

def fetchAdd (balancer : LoadBalancer w) : BitVec w × LoadBalancer w :=
  (balancer.current, { balancer with current := balancer.current + 1 })

def nextBackend (balancer : LoadBalancer w) : Option (Element String) × LoadBalancer w :=
  let (ticket, balancer) := balancer.fetchAdd
  (elementAt balancer.backends ticket, balancer)

end LoadBalancer

/-- What the two share: `next` is one `fetchAdd` and then a look into a vector that stays. -/
structure RoundRobin (w : Nat) (σ α : Type) where
  elements : σ → List α
  current : σ → BitVec w
  fetchAdd : σ → BitVec w × σ
  next : σ → Option (Element α) × σ
  draws : ∀ s, (fetchAdd s).1 = current s
  advances : ∀ s, current (fetchAdd s).2 = current s + 1
  keeps : ∀ s, elements (fetchAdd s).2 = elements s
  next_eq : ∀ s, next s = (elementAt (elements s) (fetchAdd s).1, (fetchAdd s).2)

def ConnectionPool.roundRobin (w : Nat) (T : Type) : RoundRobin w (ConnectionPool w T) T where
  elements := connections
  current := current
  fetchAdd := fetchAdd
  next := get
  draws := fun _ => rfl
  advances := fun _ => rfl
  keeps := fun _ => rfl
  next_eq := fun _ => rfl

def LoadBalancer.roundRobin (w : Nat) : RoundRobin w (LoadBalancer w) String where
  elements := backends
  current := current
  fetchAdd := fetchAdd
  next := nextBackend
  draws := fun _ => rfl
  advances := fun _ => rfl
  keeps := fun _ => rfl
  next_eq := fun _ => rfl

/-! ## Any number of callers -/

structure Call (w : Nat) (α : Type) where
  ticket : BitVec w
  returned : Option (Element α)
  deriving DecidableEq, Repr

/-- `calls` are in the order of their `fetch_add`. -/
structure Callers (w : Nat) (σ α : Type) where
  shared : σ
  calls : List (Call w α)

inductive Callers.Action
  | fetchAdd
  | finish (j : Nat)
  deriving DecidableEq, Repr

namespace Callers
variable {w : Nat} {σ α : Type}

def start (shared : σ) : Callers w σ α := ⟨shared, []⟩

def step (R : RoundRobin w σ α) (s : Callers w σ α) : Action → Option (Callers w σ α)
  | .fetchAdd =>
      let (ticket, shared) := R.fetchAdd s.shared
      some ⟨shared, s.calls ++ [⟨ticket, none⟩]⟩
  | .finish j =>
      match s.calls[j]? with
      | some ⟨ticket, none⟩ =>
          (elementAt (R.elements s.shared) ticket).map fun e =>
            { s with calls := s.calls.set j ⟨ticket, some e⟩ }
      | _ => none

def Quiescent (s : Callers w σ α) : Prop := ∀ c ∈ s.calls, c.returned.isSome

instance : DecidablePred (Quiescent (w := w) (σ := σ) (α := α)) := fun s =>
  inferInstanceAs (Decidable (∀ c ∈ s.calls, c.returned.isSome))

def places (s : Callers w σ α) : List Nat :=
  s.calls.filterMap fun c => c.returned.map Element.place

/-! ## What a run hands out -/

structure Consistent (R : RoundRobin w σ α) (elements : List α) (s : Callers w σ α) : Prop where
  vector : R.elements s.shared = elements
  current : R.current s.shared = BitVec.ofNat w s.calls.length
  tickets : s.calls.map Call.ticket = (List.range s.calls.length).map (BitVec.ofNat w)
  returned : ∀ c ∈ s.calls, ∀ e ∈ c.returned, elementAt elements c.ticket = some e

variable {R : RoundRobin w σ α} {elements : List α} {s t : Callers w σ α} {a : Action}

theorem consistent_start {shared : σ} (fresh : R.current shared = 0) :
    Consistent R (R.elements shared) (start shared) where
  vector := rfl
  current := fresh
  tickets := rfl
  returned := by simp [start]

theorem Consistent.fetchAdd (consistent : Consistent R elements s) :
    Consistent R elements
      ⟨(R.fetchAdd s.shared).2, s.calls ++ [⟨(R.fetchAdd s.shared).1, none⟩]⟩ where
  vector := (R.keeps _).trans consistent.vector
  current := by
    rw [R.advances, consistent.current, List.length_append, BitVec.ofNat_add]
    rfl
  tickets := by
    rw [List.map_append, List.length_append, List.length_singleton, List.range_succ,
      List.map_append, consistent.tickets, List.map_singleton, List.map_singleton, R.draws,
      consistent.current]
  returned := by
    intro c member e here
    rcases List.mem_append.mp member with before | last
    · exact consistent.returned c before e here
    · rw [List.mem_singleton.mp last] at here
      cases here

theorem Consistent.finish (consistent : Consistent R elements s) {j : Nat} {ticket : BitVec w}
    (here : s.calls[j]? = some ⟨ticket, none⟩) {e : Element α}
    (found : elementAt elements ticket = some e) :
    Consistent R elements { s with calls := s.calls.set j ⟨ticket, some e⟩ } where
  vector := consistent.vector
  current := by
    rw [List.length_set]
    exact consistent.current
  tickets := by
    rw [List.length_set, map_set_of (f := Call.ticket) (y := ⟨ticket, some e⟩) here rfl]
    exact consistent.tickets
  returned := by
    intro c member f there
    rcases List.mem_or_eq_of_mem_set member with before | rfl
    · exact consistent.returned c before f there
    · cases there
      exact found

theorem Consistent.step (consistent : Consistent R elements s) (action : s.step R a = some t) :
    Consistent R elements t := by
  cases a with
  | fetchAdd =>
      cases action
      exact consistent.fetchAdd
  | finish j =>
      simp only [Callers.step] at action
      split at action
      · rename_i ticket here
        obtain ⟨e, found, rfl⟩ := Option.map_eq_some_iff.mp action
        rw [consistent.vector] at found
        exact consistent.finish here found
      · cases action

theorem consistent_of_run {shared : σ} {actions : List Action} (fresh : R.current shared = 0)
    (ran : run (step R) (start shared) actions = some s) : Consistent R (R.elements shared) s :=
  run_preserves (fun _ _ _ consistent action => consistent.step action) (consistent_start fresh) ran

theorem Consistent.places_eq (consistent : Consistent R elements s) (quiescent : s.Quiescent) :
    s.places = turns (2 ^ w) elements.length s.calls.length := by
  have mapped : s.places = s.calls.map fun c => c.ticket.toNat % elements.length := by
    rw [places, ← List.filterMap_eq_map]
    apply List.filterMap_congr
    intro c member
    obtain ⟨e, here⟩ := Option.isSome_iff_exists.mp (quiescent c member)
    have found := consistent.returned c member e here
    rw [here, Option.map_some, (elementAt_eq_some found).1, Function.comp_apply]
  calc s.places
      = (s.calls.map Call.ticket).map fun ticket => ticket.toNat % elements.length := by
        rw [mapped, List.map_map]
        rfl
    _ = turns (2 ^ w) elements.length s.calls.length := by
        rw [consistent.tickets, List.map_map, turns]
        apply List.map_congr_left
        intro j _
        rw [Function.comp_apply, BitVec.toNat_ofNat]

theorem fair_iff_of_run {shared : σ} {actions : List Action} (fresh : R.current shared = 0)
    (nonempty : R.elements shared ≠ []) (ran : run (step R) (start shared) actions = some s)
    (quiescent : s.Quiescent) :
    Fair (R.elements shared).length s.places ↔
      (R.elements shared).length ∣ 2 ^ w ∨ s.calls.length ≤ 2 ^ w := by
  rw [(consistent_of_run fresh ran).places_eq quiescent]
  exact fair_turns_iff (List.length_pos_iff.mpr nonempty) (Nat.two_pow_pos w)

theorem element_of_run {shared : σ} {actions : List Action} (fresh : R.current shared = 0)
    (ran : run (step R) (start shared) actions = some s) {c : Call w α} (member : c ∈ s.calls)
    {e : Element α} (here : e ∈ c.returned) : (R.elements shared)[e.place]? = some e.value :=
  (elementAt_eq_some ((consistent_of_run fresh ran).returned c member e here)).2

/-! ## One call after the other -/

theorem run_next (s : Callers w σ α) {e : Element α} {shared : σ}
    (call : R.next s.shared = (some e, shared)) :
    run (step R) s [.fetchAdd, .finish s.calls.length] =
      some ⟨shared, s.calls ++ [⟨R.current s.shared, some e⟩]⟩ := by
  rw [R.next_eq, R.draws] at call
  obtain ⟨found, rfl⟩ := Prod.mk.inj call
  simp [step, R.draws, R.keeps, found]

theorem exists_run {shared : σ} (fresh : R.current shared = 0) (nonempty : R.elements shared ≠ [])
    (k : Nat) : ∃ actions s, run (step R) (start shared) actions = some s ∧ s.Quiescent ∧
      s.calls.length = k := by
  induction k with
  | zero => exact ⟨[], start shared, rfl, by simp [Quiescent, start], rfl⟩
  | succ k ih =>
      obtain ⟨actions, s, ran, quiescent, count⟩ := ih
      have consistent := consistent_of_run fresh ran
      obtain ⟨e, found⟩ := exists_elementAt nonempty (R.fetchAdd s.shared).1
      rw [← consistent.vector] at found
      have call : R.next s.shared = (some e, (R.fetchAdd s.shared).2) := by
        rw [R.next_eq, found]
      have further : run (step R) (start shared) (actions ++ [.fetchAdd, .finish s.calls.length]) =
          some ⟨(R.fetchAdd s.shared).2, s.calls ++ [⟨R.current s.shared, some e⟩]⟩ := by
        rw [run_append, ran, Option.bind_some, run_next s call]
      refine ⟨_, _, further, ?_, ?_⟩
      · intro c member
        rcases List.mem_append.mp member with before | last
        · exact quiescent c before
        · rw [List.mem_singleton.mp last]
          rfl
      · rw [List.length_append, count, List.length_singleton]

end Callers

/-! ## Fairness -/

/-- The selection is fair over a run exactly if the counter does not wrap in it, or wraps at the end
of a round. -/
theorem selection_fair_iff (w : Nat) (T : Type) :
    (∀ (connections : List T) (actions : List Callers.Action)
        (s : Callers w (ConnectionPool w T) T), connections ≠ [] →
      run (Callers.step (ConnectionPool.roundRobin w T)) (Callers.start (.new connections)) actions =
        some s → s.Quiescent →
      (Fair connections.length s.places ↔
        connections.length ∣ 2 ^ w ∨ s.calls.length ≤ 2 ^ w)) ∧
    (∀ (backends : List String) (actions : List Callers.Action)
        (s : Callers w (LoadBalancer w) String), backends ≠ [] →
      run (Callers.step (LoadBalancer.roundRobin w)) (Callers.start (.new backends)) actions =
        some s → s.Quiescent →
      (Fair backends.length s.places ↔ backends.length ∣ 2 ^ w ∨ s.calls.length ≤ 2 ^ w)) := by
  constructor
  · intro connections actions s nonempty ran quiescent
    have fresh : (ConnectionPool.roundRobin w T).current (.new connections) = 0 := rfl
    exact Callers.fair_iff_of_run fresh nonempty ran quiescent
  · intro backends actions s nonempty ran quiescent
    have fresh : (LoadBalancer.roundRobin w).current (.new backends) = 0 := rfl
    exact Callers.fair_iff_of_run fresh nonempty ran quiescent

theorem selection_fair_iff_two_bits : Fair 3 [0, 1, 2, 0] ∧ ¬ Fair 3 [0, 1, 2, 0, 0] := by
  constructor
  · exact ((selection_fair_iff 2 Nat).1 [7, 8, 9]
      [.fetchAdd, .fetchAdd, .finish 1, .fetchAdd, .finish 0, .finish 2, .fetchAdd, .finish 3]
      ⟨⟨[7, 8, 9], 0⟩, [⟨0, some ⟨0, 7⟩⟩, ⟨1, some ⟨1, 8⟩⟩, ⟨2, some ⟨2, 9⟩⟩, ⟨3, some ⟨0, 7⟩⟩]⟩
      (by decide) rfl (by decide)).mpr (Or.inr (by decide))
  · intro fair
    have exact := ((selection_fair_iff 2 Nat).2 ["a", "b", "c"]
      [.fetchAdd, .finish 0, .fetchAdd, .finish 1, .fetchAdd, .finish 2, .fetchAdd, .finish 3,
        .fetchAdd, .finish 4]
      ⟨⟨["a", "b", "c"], 1⟩, [⟨0, some ⟨0, "a"⟩⟩, ⟨1, some ⟨1, "b"⟩⟩, ⟨2, some ⟨2, "c"⟩⟩,
        ⟨3, some ⟨0, "a"⟩⟩, ⟨0, some ⟨0, "a"⟩⟩]⟩
      (by decide) rfl (by decide)).mp fair
    revert exact
    decide

/-- Three connections on a machine of 32 bits: around the wrap the first is used twice in a row. -/
theorem connectionPool_unfair :
    ¬ ∀ (actions : List Callers.Action) (s : Callers 32 (ConnectionPool 32 Nat) Nat),
      run (Callers.step (ConnectionPool.roundRobin 32 Nat)) (Callers.start (.new [7, 8, 9]))
        actions = some s → s.Quiescent → s.calls.length = 2 ^ 32 + 1 → Fair 3 s.places := by
  intro fair
  have fresh : (ConnectionPool.roundRobin 32 Nat).current (.new [7, 8, 9]) = 0 := rfl
  have nonempty : (ConnectionPool.roundRobin 32 Nat).elements (.new [7, 8, 9]) ≠ [] := by decide
  obtain ⟨actions, s, ran, quiescent, count⟩ := Callers.exists_run fresh nonempty (2 ^ 32 + 1)
  have exact := (Callers.fair_iff_of_run fresh nonempty ran quiescent).mp
    (fair actions s ran quiescent count)
  rw [count] at exact
  revert exact
  decide

end GatewayGrpc.Gateway
