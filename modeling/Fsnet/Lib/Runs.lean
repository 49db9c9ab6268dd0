import Mathlib.Data.List.Basic
/-!
# Runs of a step function

A system is a step function on its states: an action that is not possible in a
state leaves it unchanged. A run is a list of actions, which is one
interleaving of everything that happens. Properties of all runs are proved by
one step; a property that needs the environment to keep to a condition is
proved of the runs all of whose steps meet it.
-/

namespace Lib

variable {S A : Type} {step : S → A → S}

/-- The state a run ends in. -/
def run (step : S → A → S) (s : S) (actions : List A) : S := actions.foldl step s

@[simp] theorem run_nil (s : S) : run step s [] = s := rfl

@[simp] theorem run_cons (s : S) (a : A) (actions : List A) :
    run step s (a :: actions) = run step (step s a) actions := rfl

theorem run_append (s : S) (actions more : List A) :
    run step s (actions ++ more) = run step (run step s actions) more :=
  List.foldl_append

/-- What every step keeps holds after every run. -/
theorem run_inv {I : S → Prop} (hstep : ∀ s a, I s → I (step s a)) {s : S} (h : I s) (actions : List A) :
    I (run step s actions) := by
  induction actions generalizing s with
  | nil => exact h
  | cons a _ ih => exact ih (hstep s a h)

/-- Every step of the run meets the condition, in the state it is taken from. -/
def Along (step : S → A → S) (C : S → A → Prop) : S → List A → Prop
  | _, [] => True
  | s, a :: actions => C s a ∧ Along step C (step s a) actions

instance Along.decidable {C : S → A → Prop} [∀ s a, Decidable (C s a)] :
    (s : S) → (actions : List A) → Decidable (Along step C s actions)
  | _, [] => .isTrue trivial
  | s, a :: actions =>
    @instDecidableAnd (C s a) (Along step C (step s a) actions) _ (Along.decidable (step s a) actions)

theorem Along.mono {C C' : S → A → Prop} (hC : ∀ s a, C s a → C' s a) {s : S} {actions : List A}
    (h : Along step C s actions) : Along step C' s actions := by
  induction actions generalizing s with
  | nil => trivial
  | cons a _ ih => exact ⟨hC s a h.1, ih h.2⟩

theorem along_of_forall {C : S → A → Prop} {actions : List A} (h : ∀ a ∈ actions, ∀ s, C s a) (s : S) :
    Along step C s actions := by
  induction actions generalizing s with
  | nil => trivial
  | cons _ _ ih =>
    rw [List.forall_mem_cons] at h
    exact ⟨h.1 s, ih h.2 _⟩

/-- What every step that meets the condition keeps holds after every run that meets it throughout. -/
theorem run_inv_along {C : S → A → Prop} {I : S → Prop} (hstep : ∀ s a, C s a → I s → I (step s a)) {s : S} (h : I s)
    {actions : List A} (hc : Along step C s actions) : I (run step s actions) := by
  induction actions generalizing s with
  | nil => exact h
  | cons a _ ih => exact ih (hstep s a hc.1 h) hc.2

end Lib
