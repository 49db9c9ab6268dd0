import Mathlib.Data.Nat.Basic
/-!
# Infinite schedules

What happens sooner or later when a step function is run on an infinite sequence of
actions. A condition that stays until what it waits for happens, and an action that
makes it happen and is taken again and again, lead there; a measure that is lowered
again and again leads to a state in which nothing is left to do.
-/

namespace Lib

variable {S A : Type} {step : S → A → S} {s : S} {σ : Nat → A}

/-- The state after the first actions of a schedule. -/
def after (step : S → A → S) (s : S) (σ : Nat → A) : Nat → S
  | 0 => s
  | n + 1 => step (after step s σ n) (σ n)

/-- The condition holds again and again, in the state the action is taken from. -/
def Recurs (step : S → A → S) (s : S) (σ : Nat → A) (H : S → A → Prop) : Prop :=
  ∀ n, ∃ m, n ≤ m ∧ H (after step s σ m) (σ m)

/-- What holds until the goal is reached, and no longer once a recurring action is taken, leads to the goal. -/
theorem eventually_of_recurs {Q R : S → Prop} {H : S → A → Prop}
    (hQ : ∀ s a, Q s → R (step s a) ∨ Q (step s a) ∧ ¬H s a) (hH : Recurs step s σ H) {n : Nat}
    (h : Q (after step s σ n)) : ∃ m, R (after step s σ m) := by
  obtain ⟨m, hm, hact⟩ := hH n
  -- by the time of the action the goal was reached, or the condition still holds
  have hwait : ∀ k, (∃ m, R (after step s σ m)) ∨ Q (after step s σ (n + k)) := by
    intro k
    induction k with
    | zero => exact .inr h
    | succ k ih =>
      refine ih.elim .inl fun hk => ?_
      rcases hQ _ (σ (n + k)) hk with hgoal | ⟨hnext, -⟩
      · exact .inl ⟨n + k + 1, hgoal⟩
      · exact .inr hnext
  refine (hwait (m - n)).elim id fun hk => ?_
  rw [Nat.add_sub_cancel' hm] at hk
  rcases hQ _ (σ m) hk with hgoal | ⟨-, hnot⟩
  · exact ⟨m + 1, hgoal⟩
  · exact absurd hact hnot

/-- A measure that is lowered again and again until the goal is reached leads to it. -/
theorem eventually_of_measure {Q : S → Prop} (measure : S → Nat)
    (h : ∀ n, ¬Q (after step s σ n) → ∃ m, measure (after step s σ m) < measure (after step s σ n)) (n : Nat) :
    ∃ m, Q (after step s σ m) := by
  induction hk : measure (after step s σ n) using Nat.strong_induction_on generalizing n with
  | _ k ih =>
    by_cases hgoal : Q (after step s σ n)
    · exact ⟨n, hgoal⟩
    · obtain ⟨m, hless⟩ := h n hgoal
      exact ih _ (hk ▸ hless) m rfl

end Lib
