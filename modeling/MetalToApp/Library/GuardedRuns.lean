import Mathlib.Tactic.Common

/-- The states that a machine comes to, one action after the other, when every action is taken
where `ok` permits it. -/
inductive GuardedReach {σ α : Type*} (next : σ → α → Option σ) (ok : σ → α → Prop) (initial : σ) : σ → Prop
  | start : GuardedReach next ok initial initial
  | step {s s' a} : GuardedReach next ok initial s → ok s a → next s a = some s' → GuardedReach next ok initial s'

namespace GuardedReach
variable {σ α : Type*} {next : σ → α → Option σ} {ok : σ → α → Prop} {initial s s' : σ} {P : σ → Prop}

/-- What the first state has and every permitted action keeps, all of these states have. -/
theorem invariant (reach : GuardedReach next ok initial s) (start : P initial)
    (kept : ∀ {s s' a}, P s → ok s a → next s a = some s' → P s') : P s := by
  induction reach with
  | start => exact start
  | step _ permitted run ih => exact kept ih permitted run

/-- A run along a list of actions, as long as they are permitted. -/
def follow (next : σ → α → Option σ) (ok : σ → α → Prop) [∀ s a, Decidable (ok s a)] (s : σ) : List α → Option σ
  | [] => some s
  | a :: rest => if ok s a then (next s a).bind fun s' => follow next ok s' rest else none

theorem of_follow [∀ s a, Decidable (ok s a)] {actions : List α} (reach : GuardedReach next ok initial s)
    (run : follow next ok s actions = some s') : GuardedReach next ok initial s' := by
  induction actions generalizing s with
  | nil =>
    cases run
    exact reach
  | cons a rest ih =>
    rw [follow] at run
    split at run
    · next permitted =>
      obtain ⟨t, here, later⟩ := Option.bind_eq_some_iff.mp run
      exact ih (reach.step permitted here) later
    · cases run

end GuardedReach
