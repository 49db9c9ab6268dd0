import Mathlib.Tactic.SplitIfs
/-!
# Checked computations

Code that tests a condition and throws, one check after another, is a `do`
block in `Except` of `refuseIf` steps. The lemmas take such a block apart from
the front: a check that passed leaves its condition false, and a bind that
returned did so at every step.
-/

namespace Lib

variable {ε α β : Type}

/-- Throw `e` when `c` holds. -/
def refuseIf (c : Prop) [Decidable c] (e : ε) : Except ε Unit := if c then .error e else .ok ()

@[simp] theorem refuseIf_eq_ok (c : Prop) [Decidable c] (e : ε) (u : Unit) : refuseIf c e = .ok u ↔ ¬c := by
  unfold refuseIf
  split_ifs with h <;> simp [h]

@[simp] theorem refuseIf_eq_error (c : Prop) [Decidable c] (e e' : ε) : refuseIf c e = .error e' ↔ c ∧ e = e' := by
  unfold refuseIf
  split_ifs with h <;> simp [h]

@[simp] theorem refuseIf_false (e : ε) : refuseIf False e = .ok () := rfl

@[simp] theorem refuseIf_true (e : ε) : refuseIf True e = .error e := rfl

theorem refuseIf_of_not {c : Prop} [Decidable c] (e : ε) (h : ¬c) : refuseIf c e = .ok () := if_neg h

theorem refuseIf_of {c : Prop} [Decidable c] (e : ε) (h : c) : refuseIf c e = .error e := if_pos h

@[simp] theorem ok_bind (a : α) (f : α → Except ε β) : ((Except.ok a : Except ε α) >>= f) = f a := rfl

@[simp] theorem error_bind (e : ε) (f : α → Except ε β) : ((Except.error e : Except ε α) >>= f) = .error e := rfl

@[simp] theorem pure_eq_ok (a : α) : (pure a : Except ε α) = .ok a := rfl

theorem pure_ok_iff {a b : α} : (pure a : Except ε α) = .ok b ↔ a = b := Except.ok.injEq a b ▸ .rfl

@[simp] theorem throw_eq_error (e : ε) : (throw e : Except ε α) = .error e := rfl

theorem bind_eq_ok {x : Except ε α} {f : α → Except ε β} {b : β} :
    (x >>= f) = .ok b ↔ ∃ a, x = .ok a ∧ f a = .ok b := by
  cases x <;> simp

theorem bind_eq_error {x : Except ε α} {f : α → Except ε β} {e : ε} :
    (x >>= f) = .error e ↔ x = .error e ∨ ∃ a, x = .ok a ∧ f a = .error e := by
  cases x <;> simp

/-- A check followed by the rest: the condition is false and the rest returned. -/
theorem refuseIf_bind_eq_ok {c : Prop} [Decidable c] {e : ε} {f : Unit → Except ε β} {b : β} :
    (refuseIf c e >>= f) = .ok b ↔ ¬c ∧ f () = .ok b := by
  unfold refuseIf
  split_ifs with h <;> simp [h]

/-! ## What is thrown -/

/-- Whatever the computation throws satisfies `P`. -/
def Throws (P : ε → Prop) (x : Except ε α) : Prop := ∀ e, x = .error e → P e

namespace Throws

variable {P : ε → Prop} {e : ε}

theorem ok (a : α) : Throws P (.ok a : Except ε α) := nofun

theorem error (h : P e) : Throws P (.error e : Except ε α) := by
  intro _ he
  cases he
  exact h

theorem refuseIf {c : Prop} [Decidable c] (h : c → P e) : Throws P (refuseIf c e) := by
  intro _ he
  obtain ⟨hc, rfl⟩ := (refuseIf_eq_error _ _ _).1 he
  exact h hc

theorem bind {x : Except ε α} {f : α → Except ε β} (hx : Throws P x) (hf : ∀ a, x = .ok a → Throws P (f a)) :
    Throws P (x >>= f) := by
  intro e he
  rcases bind_eq_error.1 he with h | ⟨a, ha, h⟩
  · exact hx e h
  · exact hf a ha e h

/-- A check, and what comes after it. -/
theorem check {c : Prop} [Decidable c] {f : Unit → Except ε β} (h : c → P e) (hf : Throws P (f ())) :
    Throws P (Lib.refuseIf c e >>= f) := bind (refuseIf h) fun _ _ => hf

theorem mono {Q : ε → Prop} {x : Except ε α} (hx : Throws P x) (h : ∀ e, P e → Q e) : Throws Q x :=
  fun e he => h e (hx e he)

end Throws

end Lib
