import Mathlib.Data.List.Basic
import Mathlib.Data.Option.Basic
import Mathlib.Tactic.Common

/-!
# Runs of a partial step function

A system is a function `step` from a state and an action to the next state, or to `none` where the
action is not enabled. `run` takes a list of actions, `Along` says that a condition holds at every
step of a run, and `tally` counts the steps at which it does.
-/

namespace GatewayGrpc.Library

theorem guard_bind_eq_some {α : Type} {p : Prop} [Decidable p] {f : Unit → Option α} {b : α} :
    (guard p >>= f) = some b ↔ p ∧ f () = some b := by
  rw [Option.bind_eq_bind, Option.bind_eq_some_iff]
  constructor
  · rintro ⟨_, passed, result⟩
    exact ⟨(Option.guard_eq_some' _).mp passed, result⟩
  · rintro ⟨holds, result⟩
    exact ⟨(), (Option.guard_eq_some' _).mpr holds, result⟩

section Run
variable {State Action : Type*} (step : State → Action → Option State)

def run (s : State) (actions : List Action) : Option State := actions.foldlM step s

@[simp] theorem run_nil (s : State) : run step s [] = some s := rfl

@[simp] theorem run_cons (s : State) (a : Action) (actions : List Action) :
    run step s (a :: actions) = (step s a).bind fun t => run step t actions := by
  cases h : step s a <;> simp [run, List.foldlM_cons, h]

theorem run_append (s : State) (before after : List Action) :
    run step s (before ++ after) = (run step s before).bind fun t => run step t after := by
  simp only [run, List.foldlM_append]
  rfl

theorem run_cons_eq_some {s t : State} {a : Action} {actions : List Action} :
    run step s (a :: actions) = some t ↔ ∃ m, step s a = some m ∧ run step m actions = some t := by
  rw [run_cons, Option.bind_eq_some_iff]

/-- Every step of the run of `actions` from `s` satisfies `P`. -/
def Along (P : State → Action → Prop) : State → List Action → Prop
  | _, [] => True
  | s, a :: actions => P s a ∧ ∀ t, step s a = some t → Along P t actions

def decidableAlong (P : State → Action → Prop) [∀ s a, Decidable (P s a)] :
    ∀ (s : State) (actions : List Action), Decidable (Along step P s actions)
  | _, [] => .isTrue trivial
  | s, a :: actions =>
      match h : step s a with
      | none => decidable_of_iff (P s a) (by simp [Along, h])
      | some t =>
          have := decidableAlong P t actions
          decidable_of_iff (P s a ∧ Along step P t actions) (by simp [Along, h])

instance (P : State → Action → Prop) [∀ s a, Decidable (P s a)] (s : State)
    (actions : List Action) : Decidable (Along step P s actions) :=
  decidableAlong step P s actions

variable {step}

theorem along_of_forall {P : State → Action → Prop} {actions : List Action}
    (every : ∀ s, ∀ a ∈ actions, P s a) (s : State) : Along step P s actions := by
  induction actions generalizing s with
  | nil => trivial
  | cons a actions ih =>
      exact ⟨every s a (by simp), fun t _ => ih (fun s b member => every s b (by simp [member])) t⟩

theorem Along.imp {Inv : State → Prop} {P Q : State → Action → Prop}
    (preserved : ∀ s a t, Inv s → P s a → step s a = some t → Inv t)
    (weaker : ∀ s a t, Inv s → P s a → step s a = some t → Q s a)
    {s t : State} {actions : List Action} (start : Inv s) (along : Along step P s actions)
    (ran : run step s actions = some t) : Along step Q s actions := by
  induction actions generalizing s with
  | nil => trivial
  | cons a actions ih =>
      obtain ⟨m, action, rest⟩ := (run_cons_eq_some step).mp ran
      refine ⟨weaker s a m start along.1 action, fun u other => ?_⟩
      cases action.symm.trans other
      exact ih (preserved s a m start along.1 action) (along.2 m action) rest

theorem along_iff {I : State → Prop} {P Q : State → Action → Prop} {actions : List Action}
    (preserved : ∀ s a t, I s → P s a → step s a = some t → I t)
    (same : ∀ s, ∀ a ∈ actions, I s → (Q s a ↔ P s a)) {s : State} (start : I s) :
    Along step Q s actions ↔ Along step P s actions := by
  induction actions generalizing s with
  | nil => rfl
  | cons a actions ih =>
      rw [Along, Along, same s a (by simp) start]
      apply and_congr_right
      intro holds
      apply forall_congr'
      intro t
      apply imp_congr_right
      intro action
      exact ih (fun s b member => same s b (by simp [member])) (preserved s a t start holds action)

theorem run_invariant {Inv : State → Prop} {P : State → Action → Prop}
    (preserved : ∀ s a t, Inv s → P s a → step s a = some t → Inv t)
    {s t : State} {actions : List Action} (start : Inv s) (along : Along step P s actions)
    (ran : run step s actions = some t) : Inv t := by
  induction actions generalizing s with
  | nil =>
      cases ran
      exact start
  | cons a actions ih =>
      obtain ⟨m, action, rest⟩ := (run_cons_eq_some step).mp ran
      exact ih (preserved s a m start along.1 action) (along.2 m action) rest

theorem run_preserves {Inv : State → Prop}
    (preserved : ∀ s a t, Inv s → step s a = some t → Inv t)
    {s t : State} {actions : List Action} (start : Inv s)
    (ran : run step s actions = some t) : Inv t :=
  run_invariant (P := fun _ _ => True) (fun s a t inv _ => preserved s a t inv) start
    (along_of_forall (fun _ _ _ => trivial) s) ran

theorem run_invariant_of_forall {Inv : State → Prop} {P : Action → Prop}
    (preserved : ∀ s a t, Inv s → P a → step s a = some t → Inv t)
    {s t : State} {actions : List Action} (start : Inv s) (every : ∀ a ∈ actions, P a)
    (ran : run step s actions = some t) : Inv t :=
  run_invariant (P := fun _ a => P a) preserved start
    (along_of_forall (fun _ a member => every a member) s) ran

/-- Where a step keeps `Q` exactly if it satisfies `P`, a run keeps `Q` exactly if all its steps
satisfy `P`. -/
theorem run_iff_along {Inv Q : State → Prop} {P : State → Action → Prop}
    (preserved : ∀ s a t, Inv s → step s a = some t → Inv t)
    (exact : ∀ s a t, Inv s → step s a = some t → (Q t ↔ Q s ∧ P s a))
    {s t : State} {actions : List Action} (start : Inv s)
    (ran : run step s actions = some t) : Q t ↔ Q s ∧ Along step P s actions := by
  induction actions generalizing s with
  | nil =>
      cases ran
      simp [Along]
  | cons a actions ih =>
      obtain ⟨m, action, rest⟩ := (run_cons_eq_some step).mp ran
      have first := exact s a m start action
      have tail := ih (preserved s a m start action) rest
      simp only [Along, action, Option.some.injEq, forall_eq']
      rw [tail, first, and_assoc]

variable (step) in
/-- `Q` holds in every state that the run of `actions` from `s` goes through. -/
def Throughout (Q : State → Prop) (s : State) (actions : List Action) : Prop :=
  ∀ before t, before <+: actions → run step s before = some t → Q t

theorem throughout_cons {Q : State → Prop} {s m : State} {a : Action} {actions : List Action}
    (action : step s a = some m) :
    Throughout step Q s (a :: actions) ↔ Q s ∧ Throughout step Q m actions := by
  constructor
  · intro every
    refine ⟨every [] s List.nil_prefix rfl, fun before t inside ran => ?_⟩
    exact every (a :: before) t (List.cons_prefix_cons.mpr ⟨rfl, inside⟩)
      ((run_cons_eq_some step).mpr ⟨m, action, ran⟩)
  · rintro ⟨first, every⟩ (_ | ⟨b, before⟩) t inside ran
    · cases ran
      exact first
    · obtain ⟨rfl, tail⟩ := List.cons_prefix_cons.mp inside
      obtain ⟨other, there, rest⟩ := (run_cons_eq_some step).mp ran
      cases action.symm.trans there
      exact every before t tail rest

theorem throughout_iff_along {Inv Q : State → Prop} {P : State → Action → Prop}
    (preserved : ∀ s a t, Inv s → step s a = some t → Inv t)
    (exact : ∀ s a t, Inv s → Q s → step s a = some t → (Q t ↔ P s a))
    {s t : State} {actions : List Action} (start : Inv s) (first : Q s)
    (ran : run step s actions = some t) :
    Throughout step Q s actions ↔ Along step P s actions := by
  induction actions generalizing s with
  | nil =>
      refine iff_of_true (fun before t inside ran => ?_) trivial
      obtain rfl := List.prefix_nil.mp inside
      cases ran
      exact first
  | cons a actions ih =>
      obtain ⟨m, action, rest⟩ := (run_cons_eq_some step).mp ran
      have kept := exact s a m start first action
      have tail := fun next => ih (preserved s a m start action) next rest
      rw [throughout_cons action, and_iff_right first]
      simp only [Along, action, Option.some.injEq, forall_eq']
      constructor
      · intro every
        have next := every [] m List.nil_prefix rfl
        exact ⟨kept.mp next, (tail next).mp every⟩
      · rintro ⟨holds, along⟩
        exact (tail (kept.mpr holds)).mpr along

theorem run_length_le {measure : State → Nat}
    (lowers : ∀ s a t, step s a = some t → measure t < measure s)
    {s t : State} {actions : List Action} (ran : run step s actions = some t) :
    actions.length + measure t ≤ measure s := by
  induction actions generalizing s with
  | nil =>
      cases ran
      simp
  | cons a actions ih =>
      obtain ⟨m, action, rest⟩ := (run_cons_eq_some step).mp ran
      have first := lowers s a m action
      have tail := ih rest
      rw [List.length_cons]
      omega

variable (step) in
def tally (p : State → Action → Bool) : State → List Action → Nat
  | _, [] => 0
  | s, a :: actions =>
      (p s a).toNat + match step s a with
        | none => 0
        | some t => tally p t actions

theorem tally_eq_zero_iff {p : State → Action → Bool} {s t : State} {actions : List Action}
    (ran : run step s actions = some t) :
    tally step p s actions = 0 ↔ Along step (fun s a => p s a = false) s actions := by
  induction actions generalizing s with
  | nil => simp [tally, Along]
  | cons a actions ih =>
      obtain ⟨m, action, rest⟩ := (run_cons_eq_some step).mp ran
      simp only [tally, Along, action, Option.some.injEq, forall_eq', ← ih rest]
      cases p s a <;> simp

theorem run_tally {Inv : State → Prop} {P : State → Action → Prop} {p : State → Action → Bool}
    {balance : State → Nat → Prop}
    (preserved : ∀ s a t, Inv s → P s a → step s a = some t → Inv t)
    (moved : ∀ s a t n, Inv s → P s a → step s a = some t → balance s n →
      balance t (n + (p s a).toNat))
    {s t : State} {actions : List Action} {n : Nat} (start : Inv s)
    (along : Along step P s actions) (initial : balance s n)
    (ran : run step s actions = some t) : balance t (n + tally step p s actions) := by
  induction actions generalizing s n with
  | nil =>
      cases ran
      exact initial
  | cons a actions ih =>
      obtain ⟨m, action, rest⟩ := (run_cons_eq_some step).mp ran
      have next := ih (preserved s a m start along.1 action) (along.2 m action)
        (moved s a m n start along.1 action initial) rest
      simpa only [tally, action, Nat.add_assoc] using next

theorem run_tallies {Inv : State → Prop} {p q : State → Action → Bool} {up down : State → Nat}
    (preserved : ∀ s a t, Inv s → step s a = some t → Inv t)
    (moved : ∀ s a t, Inv s → step s a = some t →
      up t + (q s a).toNat + down s = up s + (p s a).toNat + down t)
    {s t : State} {actions : List Action} (start : Inv s) (ran : run step s actions = some t) :
    up t + tally step q s actions + down s = up s + tally step p s actions + down t := by
  induction actions generalizing s with
  | nil =>
      cases ran
      simp [tally]
  | cons a actions ih =>
      obtain ⟨m, action, rest⟩ := (run_cons_eq_some step).mp ran
      have first := moved s a m start action
      have tail := ih (preserved s a m start action) rest
      simp only [tally, action]
      omega

variable (step) in
def outputs {β : Type*} (out : State → Action → List β) : State → List Action → List β
  | _, [] => []
  | s, a :: actions =>
      out s a ++ match step s a with
        | none => []
        | some t => outputs out t actions

theorem run_outputs {β : Type*} {Inv : State → Prop} {out : State → Action → List β}
    {h : State → List β}
    (preserved : ∀ s a t, Inv s → step s a = some t → Inv t)
    (appended : ∀ s a t, Inv s → step s a = some t → h t = h s ++ out s a)
    {s t : State} {actions : List Action} (start : Inv s)
    (ran : run step s actions = some t) : h t = h s ++ outputs step out s actions := by
  induction actions generalizing s with
  | nil =>
      cases ran
      exact (List.append_nil _).symm
  | cons a actions ih =>
      obtain ⟨m, action, rest⟩ := (run_cons_eq_some step).mp ran
      rw [ih (preserved s a m start action) rest, appended s a m start action, List.append_assoc]
      simp only [outputs, action]

end Run

/-! ## Machines in two layers -/

/-- A state in two parts: what an action does to the first may depend on the second, and may be an
event for the second. -/
structure Layered (Front Back : Type*) where
  front : Front
  back : Back

namespace Layered
variable {Front Back Action Event : Type*}
  (front : Back → Front → Action → Option (Front × Option Event))
  (back : Back → Event → Option Back)

def advance (b : Back) : Option Event → Option Back
  | none => some b
  | some e => back b e

def step (s : Layered Front Back) (a : Action) : Option (Layered Front Back) :=
  (front s.back s.front a).bind fun (f, e) => (advance back s.back e).map (Layered.mk f)

theorem step_eq_some {s t : Layered Front Back} {a : Action} :
    step front back s a = some t ↔
      ∃ e, front s.back s.front a = some (t.front, e) ∧ advance back s.back e = some t.back := by
  obtain ⟨f, b⟩ := t
  simp only [step, Option.bind_eq_some_iff, Option.map_eq_some_iff, Prod.exists, Layered.mk.injEq]
  constructor
  · rintro ⟨_, e, first, _, second, rfl, rfl⟩
    exact ⟨e, first, second⟩
  · rintro ⟨e, first, second⟩
    exact ⟨f, e, first, b, second, rfl, rfl⟩

variable {front back}

theorem not_silent {s : Layered Front Back} {a : Action} (stuck : step front back s a = none) :
    (front s.back s.front a).map Prod.snd ≠ some none := by
  intro silent
  obtain ⟨⟨f, e⟩, first, rfl⟩ := Option.map_eq_some_iff.mp silent
  simp [step, first, advance] at stuck

theorem event_stuck {s : Layered Front Back} {a : Action} (stuck : step front back s a = none)
    {e : Event} (event : (front s.back s.front a).map Prod.snd = some (some e)) :
    ¬ (back s.back e).isSome := by
  obtain ⟨⟨f, _⟩, first, rfl⟩ := Option.map_eq_some_iff.mp event
  simpa [step, first, advance] using stuck

theorem preserved {Inv : Back → Prop} (events : ∀ b e c, Inv b → back b e = some c → Inv c)
    {s t : Layered Front Back} {a : Action} (inv : Inv s.back)
    (action : step front back s a = some t) : Inv t.back := by
  obtain ⟨e, _, second⟩ := (step_eq_some front back).mp action
  cases e with
  | none => exact Option.some.inj second ▸ inv
  | some e => exact events s.back e t.back inv second

variable (front) in
def OnEvent (P : Back → Event → Prop) (s : Layered Front Back) (a : Action) : Prop :=
  ∀ r ∈ front s.back s.front a, ∀ e ∈ r.2, P s.back e

instance (P : Back → Event → Prop) [∀ b e, Decidable (P b e)] (s : Layered Front Back) (a : Action) :
    Decidable (OnEvent front P s a) :=
  inferInstanceAs (Decidable (∀ r ∈ front s.back s.front a, ∀ e ∈ r.2, P s.back e))

theorem exact {Q : Back → Prop} {P : Back → Event → Prop} {s t : Layered Front Back} {a : Action}
    (events : ∀ e c, back s.back e = some c → (Q c ↔ Q s.back ∧ P s.back e))
    (action : step front back s a = some t) :
    Q t.back ↔ Q s.back ∧ OnEvent front P s a := by
  obtain ⟨e, first, second⟩ := (step_eq_some front back).mp action
  simp only [OnEvent, first, Option.mem_def, Option.some.injEq, forall_eq']
  cases e with
  | none => simp [Option.some.inj second]
  | some e => simpa using events e t.back second

variable (front) in
def onEvent {β : Type*} (out : Back → Event → List β) (s : Layered Front Back) (a : Action) :
    List β :=
  match front s.back s.front a with
  | some (_, some e) => out s.back e
  | _ => []

theorem appended {β : Type*} {history : Back → List β} {out : Back → Event → List β}
    {s t : Layered Front Back} {a : Action}
    (events : ∀ e c, back s.back e = some c → history c = history s.back ++ out s.back e)
    (action : step front back s a = some t) :
    history t.back = history s.back ++ onEvent front out s a := by
  obtain ⟨e, first, second⟩ := (step_eq_some front back).mp action
  cases e with
  | none =>
      rw [onEvent, first, Option.some.inj second]
      exact (List.append_nil _).symm
  | some e =>
      rw [onEvent, first]
      exact events e t.back second

theorem run_preserves {Inv : Back → Prop} (events : ∀ b e c, Inv b → back b e = some c → Inv c)
    {s t : Layered Front Back} {actions : List Action} (start : Inv s.back)
    (ran : run (step front back) s actions = some t) : Inv t.back := by
  have steps : ∀ s a t, Inv s.back → step front back s a = some t → Inv t.back :=
    fun _ _ _ inv action => preserved events inv action
  exact Library.run_preserves (s := s) (t := t) steps start ran

theorem run_iff_along {Inv Q : Back → Prop} {P : Back → Event → Prop}
    (preserves : ∀ b e c, Inv b → back b e = some c → Inv c)
    (events : ∀ b e c, Inv b → back b e = some c → (Q c ↔ Q b ∧ P b e))
    {s t : Layered Front Back} {actions : List Action} (start : Inv s.back)
    (ran : run (step front back) s actions = some t) :
    Q t.back ↔ Q s.back ∧ Along (step front back) (OnEvent front P) s actions := by
  have steps : ∀ s a t, Inv s.back → step front back s a = some t → Inv t.back :=
    fun _ _ _ inv action => preserved preserves inv action
  have exactly : ∀ s a t, Inv s.back → step front back s a = some t →
      (Q t.back ↔ Q s.back ∧ OnEvent front P s a) :=
    fun s _ _ inv action => exact (fun e c => events s.back e c inv) action
  exact Library.run_iff_along (Q := fun s => Q s.back) steps exactly start ran

theorem throughout_iff_along {Inv Q : Back → Prop} {P : Back → Event → Prop}
    (preserves : ∀ b e c, Inv b → back b e = some c → Inv c)
    (events : ∀ b e c, Inv b → Q b → back b e = some c → (Q c ↔ P b e))
    {s t : Layered Front Back} {actions : List Action} (start : Inv s.back) (first : Q s.back)
    (ran : run (step front back) s actions = some t) :
    Throughout (step front back) (fun s => Q s.back) s actions ↔
      Along (step front back) (OnEvent front P) s actions := by
  have steps : ∀ s a t, Inv s.back → step front back s a = some t → Inv t.back :=
    fun _ _ _ inv action => preserved preserves inv action
  refine Library.throughout_iff_along steps (fun s _ _ inv holds action => ?_) start first ran
  refine (exact (fun e c event => ?_) action).trans (and_iff_right holds)
  rw [events s.back e c inv holds event, and_iff_right holds]

theorem run_outputs {β : Type*} {Inv : Back → Prop} {h : Back → List β}
    {out : Back → Event → List β}
    (preserves : ∀ b e c, Inv b → back b e = some c → Inv c)
    (events : ∀ b e c, Inv b → back b e = some c → h c = h b ++ out b e)
    {s t : Layered Front Back} {actions : List Action} (start : Inv s.back)
    (ran : run (step front back) s actions = some t) :
    h t.back = h s.back ++ outputs (step front back) (onEvent front out) s actions := by
  have steps : ∀ s a t, Inv s.back → step front back s a = some t → Inv t.back :=
    fun _ _ _ inv action => preserved preserves inv action
  have appends : ∀ s a t, Inv s.back → step front back s a = some t →
      h t.back = h s.back ++ onEvent front out s a :=
    fun s _ _ inv action => appended (fun e c => events s.back e c inv) action
  exact Library.run_outputs (h := fun s => h s.back) steps appends start ran

end Layered

section Responses
variable {State Spec Op Reply : Type*}

def replies (respond : State → Op → Reply × State) : State → List Op → List Reply
  | _, [] => []
  | s, op :: ops => (respond s op).1 :: replies respond (respond s op).2 ops

def after (respond : State → Op → Reply × State) (s : State) (ops : List Op) : State :=
  ops.foldl (fun s op => (respond s op).2) s

/-- Machines related by `R` step by step, under a condition on the steps of the first, give the
same replies. -/
theorem replies_eq {concrete : State → Op → Reply × State} {spec : Spec → Op → Reply × Spec}
    {R : State → Spec → Prop} {P : State → Op → Prop}
    (simulates : ∀ s q op, R s q → P s op →
      (concrete s op).1 = (spec q op).1 ∧ R (concrete s op).2 (spec q op).2)
    {s : State} {q : Spec} {ops : List Op} (related : R s q)
    (along : Along (fun s op => some (concrete s op).2) P s ops) :
    replies concrete s ops = replies spec q ops ∧ R (after concrete s ops) (after spec q ops) := by
  induction ops generalizing s q with
  | nil => exact ⟨rfl, related⟩
  | cons op ops ih =>
      obtain ⟨same, next⟩ := simulates s q op related along.1
      obtain ⟨rest, final⟩ := ih next (along.2 _ rfl)
      exact ⟨by simp only [replies, same, rest], by simpa only [after, List.foldl_cons] using final⟩

end Responses

end GatewayGrpc.Library
