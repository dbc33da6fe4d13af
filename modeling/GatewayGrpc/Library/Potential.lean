import GatewayGrpc.Library.Run

/-!
# Runs that end

A step that is paid for lowers what is left to do, unless something new is granted with it.
-/

namespace GatewayGrpc.Library

variable {State Action : Type*} {step : State → Action → Option State}

theorem run_paid (left granted : State → Nat) {P : State → Action → Prop} {p : Action → Bool}
    (pays : ∀ s a t, P s a → step s a = some t →
      left t + (p a).toNat + granted s ≤ left s + granted t)
    {s t : State} {actions : List Action} (along : Along step P s actions)
    (ran : run step s actions = some t) :
    left t + actions.countP p + granted s ≤ left s + granted t := by
  induction actions generalizing s with
  | nil =>
      cases ran
      simp
  | cons a actions ih =>
      obtain ⟨m, action, rest⟩ := (run_cons_eq_some step).mp ran
      have first := pays s a m along.1 action
      have tail := ih (along.2 m action) rest
      have one : (if p a then 1 else 0) = (p a).toNat := by cases p a <;> rfl
      rw [List.countP_cons, one]
      omega

/-- Actions that each lower what is left can be taken until none of them is enabled. -/
theorem exists_exhausted (left : State → Nat) {Inv : State → Prop} {P : Action → Prop}
    (preserved : ∀ s a t, Inv s → P a → step s a = some t → Inv t)
    (lowers : ∀ s a t, Inv s → P a → step s a = some t → left t < left s)
    {s : State} (start : Inv s) :
    ∃ actions t, (∀ a ∈ actions, P a) ∧ run step s actions = some t ∧ Inv t ∧
      ∀ a, P a → step t a = none := by
  by_cases enabled : ∃ a t, P a ∧ step s a = some t
  · obtain ⟨a, t, ok, action⟩ := enabled
    have := lowers s a t start ok action
    obtain ⟨actions, u, every, ran, kept, exhausted⟩ :=
      exists_exhausted left preserved lowers (preserved s a t start ok action)
    refine ⟨a :: actions, u, by simpa [ok] using every, ?_, kept, exhausted⟩
    rw [run_cons, action]
    exact ran
  · refine ⟨[], s, by simp, rfl, start, fun a ok => ?_⟩
    apply Option.eq_none_iff_forall_ne_some.mpr
    exact fun t action => enabled ⟨a, t, ok, action⟩
termination_by left s

end GatewayGrpc.Library
