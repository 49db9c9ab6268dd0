import Mathlib.Order.Lattice
import Mathlib.Data.List.Pairwise
import Mathlib.Data.List.Perm.Subperm
import Mathlib.Data.List.Sort
import Mathlib.Tactic.SplitIfs
/-!
# Maps ordered by key

`std::map` as a list of entries in strictly increasing key order. The list
operations come first, for recursive types that hold such a list directly;
`OrdMap` packs a list with its order, so that two maps with the same lookups
are equal. `arrange` gives the order a table that is not ordered is walked in.
-/

namespace Lib

variable {K V : Type} [LinearOrder K]

/-! ## Entry lists -/

namespace Entries

/-- Entries in strictly increasing key order. -/
def Sorted (l : List (K × V)) : Prop := l.Pairwise (fun a b => a.1 < b.1)

/-- The value stored under `k`. -/
def find (k : K) : List (K × V) → Option V
  | [] => none
  | (k', v) :: rest => if k = k' then some v else find k rest

/-- `insert_or_assign`: put `v` under `k`, keeping the order. -/
def insert (k : K) (v : V) : List (K × V) → List (K × V)
  | [] => [(k, v)]
  | (k', v') :: rest =>
    if k < k' then (k, v) :: (k', v') :: rest
    else if k = k' then (k, v) :: rest
    else (k', v') :: insert k v rest

/-- Remove the entry under `k`. -/
def erase (k : K) (l : List (K × V)) : List (K × V) := l.filter (fun e => e.1 ≠ k)

theorem sorted_nil : Sorted ([] : List (K × V)) := List.Pairwise.nil

@[simp] theorem find_nil (k : K) : find k ([] : List (K × V)) = none := rfl

theorem find_cons (k k' : K) (v : V) (l : List (K × V)) :
    find k ((k', v) :: l) = if k = k' then some v else find k l := rfl

variable {k : K} {v : V} {l : List (K × V)} {W : Type}

theorem find_mem (h : find k l = some v) : (k, v) ∈ l := by
  induction l with
  | nil => cases h
  | cons e l ih =>
    obtain ⟨_, _⟩ := e
    rw [find_cons] at h
    split_ifs at h with hk
    · cases h; simp [hk]
    · exact List.mem_cons_of_mem _ (ih h)

theorem find_none_of_lt (h : ∀ e ∈ l, k < e.1) : find k l = none := by
  cases hf : find k l with
  | none => rfl
  | some => exact absurd (h _ (find_mem hf)) (lt_irrefl k)

theorem find_of_mem (hs : Sorted l) (h : (k, v) ∈ l) : find k l = some v := by
  induction l with
  | nil => cases h
  | cons e l ih =>
    obtain ⟨_, _⟩ := e
    rw [Sorted, List.pairwise_cons] at hs
    rcases List.mem_cons.1 h with he | hm
    · cases he; simp [find_cons]
    · rw [find_cons, if_neg (ne_of_gt (hs.1 _ hm)), ih hs.2 hm]

/-- In an ordered list a lookup is membership. -/
theorem find_eq_some_iff (hs : Sorted l) : find k l = some v ↔ (k, v) ∈ l :=
  ⟨find_mem, find_of_mem hs⟩

theorem find_isSome_of_mem {e : K × V} (h : e ∈ l) : (find e.1 l).isSome = true := by
  induction l with
  | nil => cases h
  | cons e' l ih =>
    obtain ⟨_, _⟩ := e'
    rw [find_cons]
    split_ifs with hk
    · rfl
    · rcases List.mem_cons.1 h with rfl | hm
      · exact absurd rfl hk
      · exact ih hm

theorem find_append (k : K) (l m : List (K × V)) : find k (l ++ m) = (find k l).or (find k m) := by
  induction l with
  | nil => rfl
  | cons e l ih =>
    obtain ⟨_, v⟩ := e
    rw [List.cons_append, find_cons, find_cons, ih]
    split_ifs <;> rfl

theorem find_filter_key (p : K → Bool) (k : K) (l : List (K × V)) :
    find k (l.filter fun e => p e.1) = if p k then find k l else none := by
  induction l with
  | nil => simp
  | cons e l ih =>
    obtain ⟨k', v⟩ := e
    by_cases hp : p k'
    · by_cases hk : k = k'
      · subst hk; simp [hp, find_cons]
      · simp [hp, find_cons, hk, ih]
    · by_cases hk : k = k'
      · subst hk; simp [hp, ih]
      · simp [hp, find_cons, hk, ih]

theorem find_filter (hs : Sorted l) (p : K × V → Bool) (k : K) :
    find k (l.filter p) = (find k l).filter fun v => p (k, v) := by
  induction l with
  | nil => rfl
  | cons e l ih =>
    obtain ⟨k', v⟩ := e
    rw [Sorted, List.pairwise_cons] at hs
    by_cases hk : k = k'
    · subst hk
      have hrest : find k (l.filter p) = none :=
        find_none_of_lt fun e he => hs.1 e (List.mem_of_mem_filter he)
      by_cases hp : p (k, v) = true
      · simp [find_cons, hp, Option.filter]
      · simp [find_cons, hp, hrest, Option.filter]
    · by_cases hp : p (k', v) = true
      · simp [find_cons, hp, hk, ih hs.2]
      · simp [find_cons, hp, hk, ih hs.2]

/-! ### Insertion -/

theorem mem_insert_of {e : K × V} (h : e ∈ insert k v l) : e = (k, v) ∨ e ∈ l := by
  induction l with
  | nil => simpa [insert] using h
  | cons e' l ih =>
    obtain ⟨_, _⟩ := e'
    rw [insert] at h
    split_ifs at h with h1 h2
    · exact List.mem_cons.1 h
    · rcases List.mem_cons.1 h with h | h
      · exact .inl h
      · exact .inr (List.mem_cons_of_mem _ h)
    rcases List.mem_cons.1 h with h | h
    · exact .inr (by simp [h])
    · rcases ih h with h | h
      · exact .inl h
      · exact .inr (List.mem_cons_of_mem _ h)

theorem sorted_insert (k : K) (v : V) (h : Sorted l) : Sorted (insert k v l) := by
  induction l with
  | nil => simp [insert, Sorted]
  | cons e l ih =>
    obtain ⟨_, _⟩ := e
    have hs := h
    rw [Sorted, List.pairwise_cons] at h
    rw [insert, Sorted]
    split_ifs with h1 h2
    · refine List.pairwise_cons.2 ⟨fun a ha => ?_, hs⟩
      rcases List.mem_cons.1 ha with rfl | ha
      · exact h1
      · exact lt_trans h1 (h.1 a ha)
    · subst h2; exact List.pairwise_cons.2 ⟨h.1, h.2⟩
    refine List.pairwise_cons.2 ⟨fun a ha => ?_, ih h.2⟩
    rcases mem_insert_of ha with rfl | ha
    · exact lt_of_le_of_ne (not_lt.1 h1) (Ne.symm h2)
    · exact h.1 a ha

@[simp] theorem find_insert_self (k : K) (v : V) (l : List (K × V)) : find k (insert k v l) = some v := by
  induction l with
  | nil => simp [insert, find_cons]
  | cons e l ih =>
    obtain ⟨_, _⟩ := e
    rw [insert]
    split_ifs with h1 h2
    · simp [find_cons]
    · simp [find_cons]
    · simp [find_cons, h2, ih]

theorem find_insert_ne {k' : K} (v : V) (h : k' ≠ k) (l : List (K × V)) : find k' (insert k v l) = find k' l := by
  induction l with
  | nil => simp [insert, find_cons, h]
  | cons e l ih =>
    obtain ⟨_, _⟩ := e
    rw [insert]
    split_ifs with h1 h2
    · simp [find_cons, h]
    · subst h2; simp [find_cons, h]
    · simp [find_cons, ih]

/-- Inserting past the end appends. -/
theorem insert_last (k : K) (v : V) (l : List (K × V)) (h : ∀ e ∈ l, e.1 < k) : insert k v l = l ++ [(k, v)] := by
  induction l with
  | nil => rfl
  | cons e l ih =>
    obtain ⟨k', _⟩ := e
    have hk : k' < k := h _ List.mem_cons_self
    rw [insert, if_neg (lt_asymm hk), if_neg (ne_of_gt hk), ih (fun e he => h e (List.mem_cons_of_mem _ he))]
    rfl

/-- Assigning to a key already there keeps the size. -/
theorem length_insert_of_find (v : V) (hf : (find k l).isSome = true) (hs : Sorted l) :
    (insert k v l).length = l.length := by
  induction l with
  | nil => cases hf
  | cons e l ih =>
    obtain ⟨_, _⟩ := e
    rw [Sorted, List.pairwise_cons] at hs
    rw [find_cons] at hf
    rw [insert]
    split_ifs with h1 h2
    · rw [if_neg (ne_of_lt h1), find_none_of_lt (fun a ha => lt_trans h1 (hs.1 a ha))] at hf
      cases hf
    · rfl
    · rw [if_neg h2] at hf
      simp [ih hf hs.2]

/-- A new key adds its entry and moves the others. -/
theorem insert_perm (v : V) (hf : find k l = none) : (insert k v l).Perm ((k, v) :: l) := by
  induction l with
  | nil => exact .refl _
  | cons e l ih =>
    obtain ⟨k', _⟩ := e
    rw [find_cons] at hf
    by_cases he : k = k'
    · rw [if_pos he] at hf
      cases hf
    rw [if_neg he] at hf
    unfold insert
    split
    · exact .refl _
    · exact ((ih hf).cons _).trans (.swap _ _ _)

theorem length_insert_le (k : K) (v : V) (l : List (K × V)) : (insert k v l).length ≤ l.length + 1 := by
  induction l with
  | nil => simp [insert]
  | cons e l ih =>
    obtain ⟨_, _⟩ := e
    rw [insert]
    split_ifs
    · simp
    · simp
    · simpa using ih

/-! ### Removal -/

theorem sorted_erase (k : K) (h : Sorted l) : Sorted (erase k l) :=
  h.sublist List.filter_sublist

@[simp] theorem find_erase_self (k : K) (l : List (K × V)) : find k (erase k l) = none := by
  induction l with
  | nil => rfl
  | cons e l ih =>
    obtain ⟨k', _⟩ := e
    by_cases h : k' = k
    · simpa [erase, h] using ih
    · simpa [erase, h, find_cons, Ne.symm h] using ih

theorem find_erase_ne {k' : K} (h : k' ≠ k) (l : List (K × V)) : find k' (erase k l) = find k' l := by
  induction l with
  | nil => rfl
  | cons e l ih =>
    obtain ⟨k'', _⟩ := e
    by_cases hk : k'' = k
    · subst hk; simpa [erase, find_cons, h] using ih
    · by_cases hk' : k' = k''
      · subst hk'; simp [erase, h, find_cons]
      · simpa [erase, hk, find_cons, hk'] using ih

/-! ### Extensionality -/

/-- Ordered lists with the same lookups are equal. -/
theorem ext_find {l' : List (K × V)} (hs : Sorted l) (hs' : Sorted l') (h : ∀ k, find k l = find k l') : l = l' := by
  have hmem : ∀ e, e ∈ l ↔ e ∈ l' := fun e => by
    rw [← find_eq_some_iff hs, ← find_eq_some_iff hs', h]
  have nodup : ∀ {m : List (K × V)}, Sorted m → m.Nodup := fun hm => hm.imp (fun hlt he => by
    subst he; exact lt_irrefl _ hlt)
  have hp := (List.perm_ext_iff_of_nodup (nodup hs) (nodup hs')).2 hmem
  have anti : ∀ a b : K × V, a ∈ l → b ∈ l' → a.1 < b.1 → b.1 < a.1 → a = b :=
    fun a b _ _ hab hba => absurd hab (lt_asymm hba)
  exact hp.eq_of_pairwise anti hs hs'

theorem insert_of_find (hs : Sorted l) (hf : find k l = some v) : insert k v l = l := by
  refine ext_find (sorted_insert k v hs) hs fun k' => ?_
  by_cases h : k' = k
  · rw [h, find_insert_self, hf]
  · rw [find_insert_ne v h]

theorem insert_insert (v w : V) (hs : Sorted l) : insert k w (insert k v l) = insert k w l := by
  refine ext_find (sorted_insert k w (sorted_insert k v hs)) (sorted_insert k w hs) fun k' => ?_
  by_cases h : k' = k
  · rw [h, find_insert_self, find_insert_self]
  · rw [find_insert_ne w h, find_insert_ne v h, find_insert_ne w h]

/-- An ordered list all of whose keys are in another is not longer. -/
theorem perm_erase (hs : Sorted l) (hf : find k l = some v) : l.Perm ((k, v) :: erase k l) := by
  have heq : insert k v (erase k l) = l := by
    refine ext_find (sorted_insert k v (sorted_erase k hs)) hs fun k' => ?_
    by_cases hk : k' = k
    · rw [hk, find_insert_self, hf]
    · rw [find_insert_ne v hk, find_erase_ne hk]
  have hperm := insert_perm v (find_erase_self k l)
  rwa [heq] at hperm

theorem length_le_of_keys {m : List (K × W)} (hs : Sorted l)
    (h : ∀ k, (find k l).isSome = true → (find k m).isSome = true) : l.length ≤ m.length := by
  have hnodup : (l.map Prod.fst).Nodup := (List.pairwise_map.2 hs).imp fun hlt => ne_of_lt hlt
  have hsub : l.map Prod.fst ⊆ m.map Prod.fst := by
    intro k hk
    obtain ⟨e, he, rfl⟩ := List.mem_map.1 hk
    obtain ⟨w, hw⟩ := Option.isSome_iff_exists.1 (h _ (find_isSome_of_mem he))
    exact List.mem_map.2 ⟨_, find_mem hw, rfl⟩
  simpa using (List.Nodup.subperm hnodup hsub).length_le

/-- An ordered list whose lookups all hold in another is a sublist of it. -/
theorem sublist_of_find {m : List (K × V)} (hs : Sorted l) (hs' : Sorted m)
    (h : ∀ k v, find k l = some v → find k m = some v) : l.Sublist m := by
  induction m generalizing l with
  | nil =>
    cases l with
    | nil => exact .slnil
    | cons e => exact absurd (h e.1 e.2 (find_of_mem hs List.mem_cons_self)) (by simp)
  | cons e' m ih =>
    rw [Sorted, List.pairwise_cons] at hs'
    cases l with
    | nil => exact List.nil_sublist _
    | cons e l =>
      obtain ⟨k, v⟩ := e
      obtain ⟨k', _⟩ := e'
      have hall : ∀ a ∈ l, k < a.1 := (List.pairwise_cons.1 hs).1
      have hfind := h k v (find_of_mem hs List.mem_cons_self)
      rw [find_cons] at hfind
      split_ifs at hfind with hk
      · cases hk; cases hfind
        refine (ih (List.pairwise_cons.1 hs).2 hs'.2 fun k' w hf => ?_).cons_cons _
        have hne : k' ≠ k := ne_of_gt (hall _ (find_mem hf))
        have := h k' w (by rw [find_cons, if_neg hne, hf])
        rwa [find_cons, if_neg hne] at this
      have hlt : k' < k := hs'.1 _ (find_mem hfind)
      refine (ih hs hs'.2 fun k'' w hf => ?_).cons _
      have hne : k'' ≠ k' := by
        rcases List.mem_cons.1 (find_mem hf) with he | hm
        · cases he; exact hk
        · exact ne_of_gt (lt_trans hlt (hall _ hm))
      have := h k'' w hf
      rwa [find_cons, if_neg hne] at this

/-! ### Lists with the same keys -/

theorem isSome_find_iff : (find k l).isSome = true ↔ k ∈ l.map Prod.fst := by
  constructor
  · intro hk
    obtain ⟨v, hv⟩ := Option.isSome_iff_exists.1 hk
    exact List.mem_map.2 ⟨_, find_mem hv, rfl⟩
  · intro hk
    obtain ⟨e, he, rfl⟩ := List.mem_map.1 hk
    exact find_isSome_of_mem he

theorem isSome_find_of_keys {m : List (K × W)}
    (h : l.map Prod.fst = m.map Prod.fst) (k : K) : (find k l).isSome = (find k m).isSome := by
  rw [Bool.eq_iff_iff, isSome_find_iff, isSome_find_iff, h]

theorem sorted_iff_keys : Sorted l ↔ (l.map Prod.fst).Pairwise (· < ·) :=
  List.pairwise_map.symm

theorem sorted_of_keys {m : List (K × W)} (h : (l.map Prod.fst).Sublist (m.map Prod.fst)) (hm : Sorted m) : Sorted l :=
  sorted_iff_keys.2 ((sorted_iff_keys.1 hm).sublist h)

/-- Replacing a value leaves the keys. -/
theorem keys_insert (v : V) (hs : Sorted l) (h : (find k l).isSome = true) :
    (insert k v l).map Prod.fst = l.map Prod.fst := by
  induction l with
  | nil => simp at h
  | cons e l ih =>
    obtain ⟨_, _⟩ := e
    rw [Sorted, List.pairwise_cons] at hs
    rw [find_cons] at h
    unfold insert
    split_ifs with hlt heq
    · -- a smaller key is not in the list
      rw [if_neg (ne_of_lt hlt), find_none_of_lt fun e he => lt_trans hlt (hs.1 e he)] at h
      cases h
    · rw [List.map_cons, List.map_cons, heq]
    · rw [if_neg heq] at h
      rw [List.map_cons, List.map_cons, ih hs.2 h]

/-- Two ordered lists of one length, the keys of one among those of the other,
have the same keys. -/
theorem same_keys {m : List (K × W)} (hs : Sorted l)
    (hlen : l.length = m.length) (h : ∀ k, (find k l).isSome = true → (find k m).isSome = true) (k : K) :
    (find k l).isSome = (find k m).isSome := by
  have hnodup : (l.map Prod.fst).Nodup := (sorted_iff_keys.1 hs).imp fun hlt => ne_of_lt hlt
  have hsub : l.map Prod.fst ⊆ m.map Prod.fst := fun k hk => isSome_find_iff.1 (h k (isSome_find_iff.2 hk))
  have hperm := (List.Nodup.subperm hnodup hsub).perm_of_length_le (by simp [hlen])
  rw [Bool.eq_iff_iff, isSome_find_iff, isSome_find_iff, hperm.mem_iff]

end Entries

/-! ## Maps -/

/-- A finite map: its entries in strictly increasing key order. -/
structure OrdMap (K V : Type) [LinearOrder K] where
  entries : List (K × V)
  sorted : Entries.Sorted entries

namespace OrdMap

instance [DecidableEq V] : DecidableEq (OrdMap K V) := fun a b =>
  match decEq a.entries b.entries with
  | isTrue h => isTrue (by cases a; cases b; cases h; rfl)
  | isFalse h => isFalse (fun he => h (congrArg entries he))

/-- The empty map. -/
def empty : OrdMap K V := ⟨[], Entries.sorted_nil⟩

instance : Inhabited (OrdMap K V) := ⟨empty⟩

def find (m : OrdMap K V) (k : K) : Option V := Entries.find k m.entries

def insert (m : OrdMap K V) (k : K) (v : V) : OrdMap K V :=
  ⟨Entries.insert k v m.entries, Entries.sorted_insert k v m.sorted⟩

def erase (m : OrdMap K V) (k : K) : OrdMap K V := ⟨Entries.erase k m.entries, Entries.sorted_erase k m.sorted⟩

variable (m : OrdMap K V)

def size : Nat := m.entries.length

@[simp] theorem find_empty (k : K) : (empty : OrdMap K V).find k = none := rfl

@[simp] theorem find_insert_self (k : K) (v : V) : (m.insert k v).find k = some v :=
  Entries.find_insert_self k v m.entries

theorem find_insert_ne {k k' : K} (v : V) (h : k' ≠ k) : (m.insert k v).find k' = m.find k' :=
  Entries.find_insert_ne v h m.entries

theorem find_insert (k k' : K) (v : V) :
    (m.insert k v).find k' = if k' = k then some v else m.find k' := by
  split_ifs with h
  · rw [h, find_insert_self]
  · exact find_insert_ne m v h

@[simp] theorem find_erase_self (k : K) : (m.erase k).find k = none :=
  Entries.find_erase_self k m.entries

theorem find_erase_ne {k k' : K} (h : k' ≠ k) : (m.erase k).find k' = m.find k' :=
  Entries.find_erase_ne h m.entries

theorem find_erase (k k' : K) : (m.erase k).find k' = if k' = k then none else m.find k' := by
  split_ifs with h
  · rw [h, find_erase_self]
  · exact find_erase_ne m h

variable {m} {k k' : K} {v w : V}

theorem find_of_insert (h : (m.insert k v).find k' = some w) : k' = k ∧ w = v ∨ k' ≠ k ∧ m.find k' = some w := by
  rw [find_insert] at h
  split_ifs at h with hk
  · exact .inl ⟨hk, (Option.some.inj h).symm⟩
  · exact .inr ⟨hk, h⟩

theorem find_of_erase (h : (m.erase k).find k' = some v) : m.find k' = some v := by
  rw [find_erase] at h
  split_ifs at h
  exact h

variable (m) in
theorem mem_entries_iff (k : K) (v : V) : (k, v) ∈ m.entries ↔ m.find k = some v :=
  (Entries.find_eq_some_iff m.sorted).symm

@[ext] theorem ext {m m' : OrdMap K V} (h : ∀ k, m.find k = m'.find k) : m = m' := by
  obtain ⟨l, hl⟩ := m
  obtain ⟨l', hl'⟩ := m'
  have : l = l' := Entries.ext_find hl hl' h
  subst this; rfl

end OrdMap

/-! ## Tables that are not ordered -/

variable {α κ : Type} [BEq κ] {order : List κ} {key : α → κ} {l : List α}

/-- What a table holds, in the order its keys stand in `order`. -/
def arrange (order : List κ) (key : α → κ) (l : List α) : List α :=
  l.insertionSort fun a b => order.idxOf (key a) ≤ order.idxOf (key b)

theorem arrange_perm : (arrange order key l).Perm l := List.perm_insertionSort _ _

@[simp] theorem mem_arrange {a : α} : a ∈ arrange order key l ↔ a ∈ l := arrange_perm.mem_iff

end Lib
