import Mathlib.Order.Basic
import Mathlib.Tactic.Common

/-!
# Computations that may fail half-way

A `Fallible` computation works on a shared state. It may stop with an error, and its process may
die in it; what it has done to the state by then stays done. `Clean` says of a view of the state
that an error leaves it as it was. A computation that takes something in its first step, and gives
nothing back in a later one, is clean only if it does not stop.
-/

namespace GatewayGrpc.Library

/-- `none` where the process dies. -/
abbrev Fallible (σ ε : Type) := ExceptT ε (StateT σ Option)

namespace Fallible
variable {σ ε ε' α β : Type}

def of (f : σ → Option (Except ε α × σ)) : Fallible σ ε α := ExceptT.mk f

def outcome (m : Fallible σ ε α) (s : σ) : Option (Except ε α × σ) := m.run.run s

def ignore (m : Fallible σ ε α) : Fallible σ ε' Unit :=
  of fun s => (outcome m s).map fun (_, t) => (.ok (), t)

def dropping (drop : σ → σ) (m : Fallible σ ε α) : Fallible σ ε α :=
  of fun s => (outcome m s).map fun
    | (.ok a, t) => (.ok a, t)
    | (.error e, t) => (.error e, drop t)

def Stops (m : Fallible σ ε α) (s : σ) : Prop := ∃ e t, outcome m s = some (.error e, t)

def Succeeds (m : Fallible σ ε α) (s : σ) : Prop := ∃ a t, outcome m s = some (.ok a, t)

variable {m : Fallible σ ε α} {f : α → Fallible σ ε β} {s t : σ} {a : α} {e : ε}

/-! ## Outcomes -/

theorem outcome_of (f : σ → Option (Except ε α × σ)) (s : σ) : outcome (of f) s = f s := rfl

theorem outcome_bind_of_ok (ran : outcome m s = some (.ok a, t)) :
    outcome (m >>= f) s = outcome (f a) t := by
  change (outcome m s).bind _ = _
  rw [ran]
  rfl

theorem outcome_bind_of_error (ran : outcome m s = some (.error e, t)) :
    outcome (m >>= f) s = some (.error e, t) := by
  change (outcome m s).bind _ = _
  rw [ran]
  rfl

theorem outcome_bind_of_none (dies : outcome m s = none) : outcome (m >>= f) s = none := by
  change (outcome m s).bind _ = _
  rw [dies]
  rfl

theorem outcome_bind_cases {r : Except ε β} (ran : outcome (m >>= f) s = some (r, t)) :
    (∃ a u, outcome m s = some (.ok a, u) ∧ outcome (f a) u = some (r, t)) ∨
      ∃ e, outcome m s = some (.error e, t) ∧ r = .error e := by
  cases first : outcome m s with
  | none => cases (outcome_bind_of_none first).symm.trans ran
  | some result =>
      obtain ⟨⟨e⟩ | ⟨a⟩, u⟩ := result
      · cases (outcome_bind_of_error first).symm.trans ran
        exact .inr ⟨e, rfl, rfl⟩
      · exact .inl ⟨a, u, rfl, (outcome_bind_of_ok first).symm.trans ran⟩

theorem outcome_adapt (g : ε → ε') (m : Fallible σ ε α) (s : σ) :
    outcome (ExceptT.adapt g m) s = (outcome m s).map fun (r, t) => (r.mapError g, t) :=
  (Option.map_eq_bind ..).symm

theorem stops_bind_of_ok (ran : outcome m s = some (.ok a, t)) :
    Stops (m >>= f) s ↔ Stops (f a) t := by
  rw [Stops, outcome_bind_of_ok ran, Stops]

theorem Stops.bind (stops : Stops m s) : Stops (m >>= f) s := by
  obtain ⟨e, t, ran⟩ := stops
  exact ⟨e, t, outcome_bind_of_error ran⟩

theorem outcome_adapt_of_ok {g : ε → ε'} (ran : outcome m s = some (.ok a, t)) :
    outcome (ExceptT.adapt g m) s = some (.ok a, t) := by
  rw [outcome_adapt, ran]
  rfl

theorem not_stops_pure (a : α) (s : σ) : ¬ Stops (pure a : Fallible σ ε α) s := by
  rintro ⟨e, t, ran⟩
  cases ran

theorem stops_bind_of_never (never : ∀ a t, ¬ Stops (f a) t) : Stops (m >>= f) s ↔ Stops m s := by
  constructor
  · rintro ⟨e, t, ran⟩
    rcases outcome_bind_cases ran with ⟨a, u, _, second⟩ | ⟨e', first, _⟩
    · exact absurd ⟨e, t, second⟩ (never a u)
    · exact ⟨e', t, first⟩
  · exact Stops.bind

theorem stops_adapt {g : ε → ε'} : Stops (ExceptT.adapt g m) s ↔ Stops m s := by
  constructor
  · rintro ⟨e, t, ran⟩
    rw [outcome_adapt] at ran
    obtain ⟨⟨e | a, u⟩, first, same⟩ := Option.map_eq_some_iff.mp ran
    · exact ⟨e, u, first⟩
    · cases same
  · rintro ⟨e, t, ran⟩
    exact ⟨g e, t, by rw [outcome_adapt, ran]; rfl⟩

theorem stops_dropping {drop : σ → σ} : Stops (dropping drop m) s ↔ Stops m s := by
  constructor
  · rintro ⟨e, t, ran⟩
    obtain ⟨⟨e | a, u⟩, first, same⟩ := Option.map_eq_some_iff.mp ran
    · exact ⟨e, u, first⟩
    · cases same
  · rintro ⟨e, t, ran⟩
    exact ⟨e, drop t, Option.map_eq_some_iff.mpr ⟨_, ran, rfl⟩⟩

/-! ## What an error leaves behind -/

variable {V : Type}

def Clean (view : σ → V) (m : Fallible σ ε α) (s : σ) : Prop :=
  ∀ e t, outcome m s = some (.error e, t) → view t = view s

theorem clean_of_not_stops {view : σ → V} (goes : ¬ Stops m s) : Clean view m s :=
  fun e t ran => absurd ⟨e, t, ran⟩ goes

theorem clean_of_error {view : σ → V} (ran : outcome m s = some (.error e, s)) :
    Clean view m s := by
  intro e' t other
  cases ran.symm.trans other
  rfl

variable [Preorder V] {view : σ → V}

def Grows (view : σ → V) (m : Fallible σ ε α) : Prop :=
  ∀ s r t, outcome m s = some (r, t) → view s ≤ view t

def Leaves (view : σ → V) (v : V) (m : Fallible σ ε α) (s : σ) : Prop :=
  ∀ r t, outcome m s = some (r, t) → v ≤ view t

theorem grows_pure (a : α) : Grows view (pure a : Fallible σ ε α) := by
  intro s r t ran
  cases ran
  exact le_rfl

theorem Grows.bind (grows : Grows view m) (rest : ∀ a, Grows view (f a)) :
    Grows view (m >>= f) := by
  intro s r t ran
  rcases outcome_bind_cases ran with ⟨a, u, first, second⟩ | ⟨e, first, rfl⟩
  · exact (grows s _ u first).trans (rest a u r t second)
  · exact grows s _ t first

theorem Grows.of_map {m' : Fallible σ ε' β} {h : Except ε α × σ → Except ε' β × σ}
    (grows : Grows view m) (mapped : ∀ s, outcome m' s = (outcome m s).map h)
    (keeps : ∀ r t, view t ≤ view (h (r, t)).2) : Grows view m' := by
  intro s r t ran
  rw [mapped] at ran
  obtain ⟨⟨r', u⟩, first, same⟩ := Option.map_eq_some_iff.mp ran
  have last := keeps r' u
  rw [same] at last
  exact (grows s r' u first).trans last

theorem Grows.adapt (grows : Grows view m) (g : ε → ε') : Grows view (ExceptT.adapt g m) :=
  grows.of_map (outcome_adapt g m) fun _ _ => le_rfl

theorem Grows.ignore (grows : Grows view m) : Grows view (ignore m : Fallible σ ε' Unit) :=
  grows.of_map (fun _ => rfl) fun _ _ => le_rfl

theorem Grows.dropping (grows : Grows view m) {drop : σ → σ} (keeps : ∀ t, view t ≤ view (drop t)) :
    Grows view (dropping drop m) := by
  apply grows.of_map (fun _ => rfl)
  intro r t
  cases r with
  | error e => exact keeps t
  | ok a => exact le_rfl

variable {v : V}

theorem Leaves.adapt (leaves : Leaves view v m s) (g : ε → ε') :
    Leaves view v (ExceptT.adapt g m) s := by
  intro r t ran
  rw [outcome_adapt] at ran
  obtain ⟨⟨r', u⟩, first, same⟩ := Option.map_eq_some_iff.mp ran
  cases same
  exact leaves r' t first

theorem Leaves.bind (leaves : Leaves view v m s) (rest : ∀ a, Grows view (f a)) :
    Leaves view v (m >>= f) s := by
  intro r t ran
  rcases outcome_bind_cases ran with ⟨a, u, first, second⟩ | ⟨e, first, rfl⟩
  · exact (leaves _ u first).trans (rest a u r t second)
  · exact leaves _ t first

theorem clean_iff_of_leaves (taken : view s < v) (leaves : Leaves view v m s) :
    Clean view m s ↔ ¬ Stops m s := by
  constructor
  · rintro clean ⟨e, t, ran⟩
    exact (taken.trans_le (leaves _ t ran)).ne (clean e t ran).symm
  · exact clean_of_not_stops

end Fallible

end GatewayGrpc.Library
