import GatewayGrpc.Library.Run

/-!
# Runs of two machines

What holds of the steps of two machines and carries over to their runs. Machines that take the same
steps in related states end both, in related states, or are both stuck.
-/

namespace GatewayGrpc.Library

theorem run_mono {State Action : Type*} {step other : State → Action → Option State}
    (included : ∀ s a t, step s a = some t → other s a = some t) {s t : State}
    {actions : List Action} (ran : run step s actions = some t) :
    run other s actions = some t := by
  induction actions generalizing s with
  | nil => exact ran
  | cons a actions ih =>
      obtain ⟨m, action, rest⟩ := (run_cons_eq_some step).mp ran
      exact (run_cons_eq_some other).mpr ⟨m, included s a m action, ih rest⟩

theorem run_congr {State Action : Type*} {step other : State → Action → Option State}
    {Inv : State → Prop} (preserved : ∀ s a t, Inv s → step s a = some t → Inv t)
    (same : ∀ s a, Inv s → other s a = step s a) {s : State} (start : Inv s)
    (actions : List Action) : run other s actions = run step s actions := by
  induction actions generalizing s with
  | nil => rfl
  | cons a actions ih =>
      rw [run_cons, run_cons, same s a start]
      cases action : step s a with
      | none => rfl
      | some m => exact ih (preserved s a m start action)

theorem rel_bind {α β γ δ : Type*} {R : α → β → Prop} {S : γ → δ → Prop} {x : Option α}
    {y : Option β} {f : α → Option γ} {g : β → Option δ} (related : Option.Rel R x y)
    (next : ∀ a b, x = some a → R a b → Option.Rel S (f a) (g b)) :
    Option.Rel S (x.bind f) (y.bind g) := by
  cases related with
  | none => exact .none
  | some here => exact next _ _ rfl here

theorem rel_self {α : Type*} (x : Option α) : Option.Rel Eq x x := by
  cases x with
  | none => exact .none
  | some a => exact .some rfl

theorem rel_guard (p : Prop) [Decidable p] :
    Option.Rel (fun _ _ => p) (guard p : Option Unit) (guard p) := by
  by_cases holds : p
  · simp only [holds, guard_true]
    exact .some trivial
  · simp only [holds, guard_false]
    exact .none

section Related
variable {First Second Action : Type*} {first : First → Action → Option First}
  {second : Second → Action → Option Second} {R : First → Second → Prop}
  {P : First → Action → Prop}

theorem run_related
    (steps : ∀ s x a, R s x → P s a → Option.Rel R (first s a) (second x a)) {s : First}
    {x : Second} {actions : List Action} (related : R s x) (along : Along first P s actions) :
    Option.Rel R (run first s actions) (run second x actions) := by
  induction actions generalizing s x with
  | nil => exact .some related
  | cons a actions ih =>
      rw [run_cons, run_cons]
      apply rel_bind (steps s x a related along.1)
      intro t y action next
      exact ih next (along.2 t action)

end Related

section RelatedLayers
variable {Front Back Other Action Event : Type*} {R : Back → Other → Prop}
  {front : Back → Front → Action → Option (Front × Option Event)}
  {frontOther : Other → Front → Action → Option (Front × Option Event)}
  {back : Back → Event → Option Back} {other : Other → Event → Option Other}

def Layered.Related (R : Back → Other → Prop) (s : Layered Front Back) (x : Layered Front Other) :
    Prop :=
  s.front = x.front ∧ R s.back x.back

theorem Layered.step_related {s : Layered Front Back} {x : Layered Front Other} {a : Action}
    (related : Layered.Related R s x)
    (fronts : front s.back s.front a = frontOther x.back s.front a)
    (events : ∀ f e, front s.back s.front a = some (f, some e) →
      Option.Rel R (back s.back e) (other x.back e)) :
    Option.Rel (Layered.Related R) (Layered.step front back s a)
      (Layered.step frontOther other x a) := by
  obtain ⟨f, b⟩ := s
  obtain ⟨g, c⟩ := x
  obtain ⟨rfl, backs⟩ : f = g ∧ R b c := related
  dsimp only at fronts events
  simp only [Layered.step, ← fronts]
  cases action : front b f a with
  | none => exact .none
  | some pair =>
      obtain ⟨g, e⟩ := pair
      have moved : Option.Rel R (advance back b e) (advance other c e) := by
        cases e with
        | none => exact .some backs
        | some e => exact events g e action
      simp only [Option.bind_some, Option.map_eq_bind]
      exact rel_bind moved fun _ _ _ next => .some ⟨rfl, next⟩

end RelatedLayers

end GatewayGrpc.Library
