import Mathlib.Data.List.Basic
import Mathlib.Data.List.NodupEquivFin
/-!
# Shared cells and their pointers

Variables that are reference-counted pointers: each is null or points at a
cell, and two of them may point at the same one. Copying a pointer shares its
cell. A write through a pointer is only invisible to the others if it is the
sole one of its cell, which is what its use count tells. Read through its own
pointer, every variable then behaves as if it held a value of its own.
-/

namespace Lib

open List

/-- Cells are never reused; a variable is a position in `slots`. -/
structure Shared (α : Type) where
  cells : List α := []
  slots : List (Option Nat) := []

namespace Shared

variable {α : Type}

variable (h : Shared α) (i : Nat)

def pointer : Option Nat := h.slots[i]?.join

/-- What the variable points at. -/
def read : Option α := (h.pointer i).bind fun a => h.cells[a]?

/-- The number of pointers to a cell. -/
def useCount (a : Nat) : Nat := h.slots.count (some a)

/-- A new variable, null. -/
def declare : Shared α := { h with slots := h.slots ++ [none] }

/-- Point variable `i` where `p` points. -/
def point (p : Option Nat) : Shared α := { h with slots := h.slots.set i p }

/-- Point variable `i` at a new cell. -/
def make (v : α) : Shared α :=
  { cells := h.cells ++ [v], slots := h.slots.set i (some h.cells.length) }

/-- Write through variable `i`. -/
def write (f : α → α) : Shared α :=
  match h.pointer i with
  | some a => { h with cells := h.cells.modify a f }
  | none => h

/-- Point variable `i` at a new cell with the contents of its own. -/
def copy : Shared α :=
  match h.read i with
  | some v => h.make i v
  | none => h

/-- `use_count() == 1`, which is false of a null pointer. -/
def unique : Bool :=
  match h.pointer i with
  | some a => h.useCount a = 1
  | none => false

/-- No pointer dangles. -/
def Valid : Prop := ∀ i a, h.pointer i = some a → a < h.cells.length

/-- Variable `i` is the only one that points at its cell. -/
def Sole : Prop := ∀ j a, h.pointer i = some a → h.pointer j = some a → j = i

variable {h : Shared α} {i j : Nat}

theorem pointer_eq_some {a : Nat} : h.pointer i = some a ↔ h.slots[i]? = some (some a) := by
  simp [pointer, Option.join_eq_some_iff]

/-- A cell with one use has one pointer. -/
theorem sole_of_useCount {a : Nat} (hp : h.pointer i = some a) (hu : h.useCount a = 1) : h.Sole i := by
  intro j b hi hj
  obtain rfl : b = a := Option.some.inj (hi.symm.trans hp)
  rw [pointer_eq_some, List.getElem?_eq_some_iff] at hi hj
  obtain ⟨hi, hib⟩ := hi
  obtain ⟨hj, hjb⟩ := hj
  -- two positions would make the pointer a duplicate, used twice
  have htwice : ∀ m n, (hm : m < h.slots.length) → (hn : n < h.slots.length) → m < n →
      h.slots[m] = some b → h.slots[n] = some b → False := by
    intro m n hm hn hlt hmb hnb
    have hdup : List.Duplicate (some b) h.slots :=
      duplicate_iff_exists_distinct_get.2 ⟨⟨m, hm⟩, ⟨n, hn⟩, hlt, hmb.symm, hnb.symm⟩
    have hcount := (duplicate_iff_sublist.1 hdup).count_le (some b)
    rw [useCount] at hu
    simp [hu] at hcount
  rcases Nat.lt_trichotomy j i with hlt | heq | hgt
  · exact (htwice j i hj hi hlt hjb hib).elim
  · exact heq
  · exact (htwice i j hi hj hgt hib hjb).elim

theorem sole_of_unique (hu : h.unique i = true) : h.Sole i := by
  unfold unique at hu
  split at hu
  next a hp => exact sole_of_useCount hp (by simpa using hu)
  next => cases hu

/-! ## Pointing elsewhere -/

theorem pointer_point (p : Option Nat) (hi : i < h.slots.length) (j : Nat) :
    (h.point i p).pointer j = if j = i then p else h.pointer j := by
  unfold pointer point
  simp only [getElem?_set]
  split_ifs with h1 h2 h3
  · rfl
  · exact absurd h1.symm h2
  · exact absurd h3.symm h1
  · rfl

theorem read_point_self (p : Option Nat) (hi : i < h.slots.length) :
    (h.point i p).read i = p.bind fun a => h.cells[a]? := by
  rw [read, pointer_point p hi, if_pos rfl]
  rfl

theorem read_point_ne (p : Option Nat) (hne : j ≠ i) : (h.point i p).read j = h.read j := by
  unfold read pointer point
  rw [getElem?_set_ne (Ne.symm hne)]

theorem Valid.point (hv : h.Valid) {p : Option Nat} (hp : ∀ a, p = some a → a < h.cells.length) :
    (h.point i p).Valid := by
  intro j a hj
  by_cases hi : i < h.slots.length
  · rw [pointer_point p hi] at hj
    split_ifs at hj
    · exact hp a hj
    · exact hv j a hj
  · rw [Shared.point, set_eq_of_length_le (by omega)] at hj
    exact hv j a hj

@[simp] theorem length_point (p : Option Nat) : (h.point i p).slots.length = h.slots.length := by simp [point]

/-! ## New variables -/

theorem pointer_declare (j : Nat) : h.declare.pointer j = h.pointer j := by
  unfold pointer declare
  by_cases hj : j < h.slots.length
  · rw [getElem?_append_left hj]
  · rw [getElem?_append_right (by omega), getElem?_eq_none (l := h.slots) (by omega)]
    cases hk : j - h.slots.length <;> rfl

theorem read_declare (j : Nat) : h.declare.read j = h.read j := by
  rw [read, pointer_declare]
  rfl

theorem Valid.declare (hv : h.Valid) : h.declare.Valid := fun j a hj => hv j a (by rwa [pointer_declare] at hj)

@[simp] theorem length_declare : h.declare.slots.length = h.slots.length + 1 := by simp [Shared.declare]

/-! ## New cells -/

theorem pointer_make (v : α) (hi : i < h.slots.length) (j : Nat) :
    (h.make i v).pointer j = if j = i then some h.cells.length else h.pointer j :=
  pointer_point (h := h) _ hi j

theorem read_make_self (v : α) (hi : i < h.slots.length) : (h.make i v).read i = some v := by
  rw [read, pointer_make v hi, if_pos rfl, Option.bind_some, make, getElem?_concat_length]

theorem read_make_ne (hv : h.Valid) (v : α) (hne : j ≠ i) : (h.make i v).read j = h.read j := by
  have hp : (h.make i v).pointer j = h.pointer j := by
    unfold pointer make
    rw [getElem?_set_ne (Ne.symm hne)]
  rw [read, hp, read]
  cases hj : h.pointer j with
  | none => rfl
  | some a => exact getElem?_append_left (hv j a hj)

theorem Valid.make (hv : h.Valid) (v : α) : (h.make i v).Valid := by
  have hgrow : Valid { h with cells := h.cells ++ [v] } := fun j a hj =>
    Nat.lt_of_lt_of_le (hv j a hj) (by simp)
  exact hgrow.point fun a ha => by cases ha; simp

@[simp] theorem length_make (v : α) : (h.make i v).slots.length = h.slots.length := by simp [make]

/-- A new cell has one pointer. -/
theorem sole_make (hv : h.Valid) (v : α) (hi : i < h.slots.length) : (h.make i v).Sole i := by
  intro j a hpi hpj
  rw [pointer_make v hi, if_pos rfl] at hpi
  rw [pointer_make v hi] at hpj
  split_ifs at hpj with hji
  · exact hji
  · cases hpi
    exact absurd (hv j _ hpj) (Nat.lt_irrefl _)

theorem copy_of_read {v : α} (hr : h.read i = some v) : h.copy i = h.make i v := by
  rw [copy, hr]

/-! ## Writes -/

@[simp] theorem pointer_write (f : α → α) (j : Nat) : (h.write i f).pointer j = h.pointer j := by
  unfold write
  split <;> rfl

@[simp] theorem length_write (f : α → α) : (h.write i f).slots.length = h.slots.length := by
  unfold write
  split <;> rfl

theorem read_write_self (f : α → α) : (h.write i f).read i = (h.read i).map f := by
  rw [read, pointer_write, read, write]
  cases hi : h.pointer i with
  | none => rfl
  | some => simp [getElem?_modify_eq]

/-- A write through the sole pointer of a cell is seen by no other variable. -/
theorem read_write_ne (hs : h.Sole i) (f : α → α) (hne : j ≠ i) : (h.write i f).read j = h.read j := by
  rw [read, pointer_write, read, write]
  cases hi : h.pointer i with
  | none => rfl
  | some a =>
    cases hj : h.pointer j with
    | none => rfl
    | some b =>
      have hab : a ≠ b := by
        rintro rfl
        exact hne (hs j a hi hj)
      exact getElem?_modify_ne f h.cells hab

theorem Sole.write (hs : h.Sole i) (f : α → α) : (h.write i f).Sole i := by
  intro j a hi hj
  rw [pointer_write] at hi hj
  exact hs j a hi hj

theorem Valid.write (hv : h.Valid) (f : α → α) : (h.write i f).Valid := by
  intro j a hj
  rw [pointer_write] at hj
  have := hv j a hj
  unfold Shared.write
  split
  · simpa using this
  · exact this

end Shared

end Lib
