import Mathlib.Data.List.Nodup
import Mathlib.Logic.Function.Basic
/-!
# Versioned registers with compare-and-swap

A store keeps, for every key, a register: the cells ever written to it, newest
first. No version is used twice and none is zero; zero is the version of a
register that was never written. A write names the version it expects to
replace, and what the register held before stays in its history, so a fact
about an old cell survives every later write.
-/

namespace Lib

open List Function

structure Cell (V : Type) where
  version : UInt64
  value : V

/-- One key of a store, its cells newest first. -/
structure Register (V : Type) where
  cells : List (Cell V)
  nodup : (cells.map Cell.version).Nodup
  nonzero : ∀ c ∈ cells, c.version ≠ 0

namespace Register

variable {V : Type}

def empty : Register V := ⟨[], nodup_nil, fun _ h => nomatch h⟩

instance : Inhabited (Register V) := ⟨empty⟩

variable (r : Register V) (v : UInt64)

def get : Option (Cell V) := r.cells.head?

/-- The version a writer has to expect. -/
def version (r : Register V) : UInt64 := (r.get.map Cell.version).getD 0

/-- A version the register has never used. -/
def Fresh : Prop := v ≠ 0 ∧ v ∉ r.cells.map Cell.version

instance (r : Register V) (v : UInt64) : Decidable (r.Fresh v) := inferInstanceAs (Decidable (_ ∧ _))

def push (value : V) (h : r.Fresh v) : Register V where
  cells := ⟨v, value⟩ :: r.cells
  nodup := nodup_cons.2 ⟨h.2, r.nodup⟩
  nonzero := forall_mem_cons.2 ⟨h.1, r.nonzero⟩

/-- The register after a swap and whether it took place. `v` is the version the
store would give the new cell; there is no such behaviour when `v` was used before. -/
def compareExchange (expected : UInt64) (value : V) (v : UInt64) : Option (Register V × Bool) :=
  if h : r.Fresh v then some (if r.version = expected then (r.push v value h, true) else (r, false)) else none

@[simp] theorem get_empty : (empty : Register V).get = none := rfl

@[simp] theorem cells_empty : (empty : Register V).cells = [] := rfl

@[simp] theorem cells_push (value : V) (h : r.Fresh v) :
    (r.push v value h).cells = ⟨v, value⟩ :: r.cells := rfl

@[simp] theorem get_push (value : V) (h : r.Fresh v) :
    (r.push v value h).get = some ⟨v, value⟩ := rfl

variable {r : Register V} {c : Cell V}

theorem mem_of_get (h : r.get = some c) : c ∈ r.cells :=
  mem_of_mem_head? h

theorem version_of_get (h : r.get = some c) : r.version = c.version := by
  simp [version, h]

/-- A version names at most one cell. -/
theorem eq_of_version {d : Cell V} (hc : c ∈ r.cells) (hd : d ∈ r.cells) (h : c.version = d.version) : c = d :=
  inj_on_of_nodup_map r.nodup hc hd h

/-- A nonzero expected version is met only by the newest cell. -/
theorem get_of_version (hc : c ∈ r.cells) (h : r.version = c.version) : r.get = some c := by
  cases hg : r.get with
  | none =>
    have hz : r.version = 0 := by simp [version, hg]
    exact absurd (h ▸ hz) (r.nonzero c hc)
  | some => rw [eq_of_version (mem_of_get hg) hc (by rw [← version_of_get hg, h])]

theorem get_of_version_eq_zero (h : r.version = 0) : r.get = none := by
  cases hg : r.get with
  | none => rfl
  | some c => exact absurd ((version_of_get hg).symm.trans h) (r.nonzero c (mem_of_get hg))

/-- What a swap can do: it pushes the new cell over the expected one, or does nothing. -/
theorem compareExchange_cases {r' : Register V} {expected v : UInt64} {value : V} {swapped : Bool}
    (h : r.compareExchange expected value v = some (r', swapped)) :
    (swapped = true ∧ r.version = expected ∧ ∃ hf : r.Fresh v, r' = r.push v value hf) ∨
      (swapped = false ∧ r.version ≠ expected ∧ r' = r) := by
  unfold compareExchange at h
  split at h
  · rename_i hf
    split at h
    · rename_i he
      cases h
      exact .inl ⟨rfl, he, hf, rfl⟩
    · rename_i he
      cases h
      exact .inr ⟨rfl, he, rfl⟩
  · cases h

/-- The register grew: everything it held is still in its history, in the same order. -/
def Extends (r r' : Register V) : Prop := r.cells <:+ r'.cells

theorem Extends.mem {r' : Register V} (h : r.Extends r') (hc : c ∈ r.cells) : c ∈ r'.cells :=
  List.IsSuffix.subset h hc

theorem extends_push (r : Register V) (v : UInt64) (value : V) (h : r.Fresh v) : r.Extends (r.push v value h) :=
  suffix_cons _ _

end Register

/-- A store: one register per key. -/
abbrev Store (K V : Type) := K → Register V

namespace Store

variable {K V : Type} [DecidableEq K]

def empty : Store K V := fun _ => Register.empty

def compareExchange (s : Store K V) (k : K) (expected : UInt64) (value : V) (v : UInt64) :
    Option (Store K V × Bool) :=
  ((s k).compareExchange expected value v).map fun p => (update s k p.1, p.2)

/-- What a swap can do to a store: one key gets a new cell over the expected version, or nothing changes. -/
theorem compareExchange_cases {s s' : Store K V} {k : K} {expected v : UInt64} {value : V} {swapped : Bool}
    (h : s.compareExchange k expected value v = some (s', swapped)) :
    (swapped = true ∧ (s k).version = expected ∧
        ∃ hf : (s k).Fresh v, s' = update s k ((s k).push v value hf)) ∨
      (swapped = false ∧ (s k).version ≠ expected ∧ s' = s) := by
  simp only [compareExchange, Option.map_eq_some_iff, Prod.exists, Prod.mk.injEq] at h
  obtain ⟨r, b, hr, rfl, rfl⟩ := h
  rcases Register.compareExchange_cases hr with ⟨rfl, he, hf, rfl⟩ | ⟨rfl, he, rfl⟩
  · exact .inl ⟨rfl, he, hf, rfl⟩
  · exact .inr ⟨rfl, he, update_eq_self k s⟩

/-- How a storage call fails: it throws before it does anything, or after. -/
inductive Fault where
  | none
  | before
  | after
  deriving DecidableEq, Repr

/-- The outcome of a swap that may fail: the store, whether the new cell was
written, and whether the caller gets an exception instead of an answer. -/
def swap (s : Store K V) (k : K) (expected : UInt64) (value : V) (v : UInt64) :
    Fault → Option (Store K V × Bool × Bool)
  | .before => some (s, false, true)
  | .none => (s.compareExchange k expected value v).map fun p => (p.1, p.2, false)
  | .after => (s.compareExchange k expected value v).map fun p => (p.1, p.2, true)

theorem fault_of_threw {s s' : Store K V} {k : K} {expected v : UInt64} {value : V} {fault : Fault} {swapped : Bool}
    (h : s.swap k expected value v fault = some (s', swapped, true)) : fault ≠ .none := by
  rintro rfl
  simp [swap] at h

theorem swap_cases {s s' : Store K V} {k : K} {expected v : UInt64} {value : V} {fault : Fault} {swapped threw : Bool}
    (h : s.swap k expected value v fault = some (s', swapped, threw)) :
    (swapped = true ∧ (s k).version = expected ∧
        ∃ hf : (s k).Fresh v, s' = update s k ((s k).push v value hf)) ∨
      (swapped = false ∧ s' = s) := by
  have hcas : ∀ {p : Store K V × Bool}, s.compareExchange k expected value v = some p →
      (p.2 = true ∧ (s k).version = expected ∧
          ∃ hf : (s k).Fresh v, p.1 = update s k ((s k).push v value hf)) ∨
        (p.2 = false ∧ p.1 = s) := by
    rintro ⟨t, b⟩ hp
    rcases compareExchange_cases hp with h | ⟨hb, -, ht⟩
    · exact .inl h
    · exact .inr ⟨hb, ht⟩
  cases fault with
  | before =>
    simp only [swap, Option.some.injEq, Prod.mk.injEq] at h
    exact .inr ⟨h.2.1.symm, h.1.symm⟩
  | none | after =>
    simp only [swap, Option.map_eq_some_iff, Prod.mk.injEq] at h
    obtain ⟨p, hp, rfl, rfl, -⟩ := h
    exact hcas hp

end Store

end Lib
