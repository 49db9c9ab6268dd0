import Fsnet.Attributes.Encoding
/-!
# Values up to `==`

Replacing a value by one that is `==` to it changes neither what the encoder
accepts nor how much it writes, and lookups and map operations commute with
canonical forms.
-/

namespace Fsnet

open Lib List

namespace AttributeValue

@[simp] theorem canonEntries_length (entries : AttributeStruct) : (canonEntries entries).length = entries.length := by
  simp [canonEntries_eq]

@[simp] theorem canonItems_length (items : List AttributeValue) : (canonItems items).length = items.length := by
  simp [canonItems_eq]

theorem find_canonEntries (k : Bytes) (entries : AttributeStruct) :
    Entries.find k (canonEntries entries) = (Entries.find k entries).map canon := by
  induction entries with
  | nil => rfl
  | cons e _ ih =>
    obtain ⟨_, v⟩ := e
    rw [canonEntries, Entries.find_cons, Entries.find_cons, ih]
    split_ifs <;> rfl

variable {entries : AttributeStruct}

theorem sorted_canonEntries (h : Entries.Sorted entries) :
    Entries.Sorted (canonEntries entries) := by
  rw [canonEntries_eq, Entries.Sorted, pairwise_map]
  exact h

/-- Ordered maps are `==` when their lookups are. -/
theorem canonEntries_ext {a b : AttributeStruct} (ha : Entries.Sorted a) (hb : Entries.Sorted b)
    (h : ∀ k, (Entries.find k a).map canon = (Entries.find k b).map canon) : canonEntries a = canonEntries b :=
  Entries.ext_find (sorted_canonEntries ha) (sorted_canonEntries hb) fun k => by
    rw [find_canonEntries, find_canonEntries, h]

/-! ## Sizes -/

/-- The canonical form takes as much room. -/
def SameSize (v : AttributeValue) : Prop := v.canon.nodes = v.nodes ∧ v.canon.wire.length = v.wire.length

theorem sizeEntries_canon (h : ∀ e ∈ entries, SameSize e.2) :
    nodesEntries (canonEntries entries) = nodesEntries entries ∧
    (wireEntries (canonEntries entries)).length = (wireEntries entries).length := by
  induction entries with
  | nil => exact ⟨rfl, rfl⟩
  | cons e _ ih =>
    rw [forall_mem_cons] at h
    simp only [canonEntries, nodesEntries, wireEntries, length_append]
    rw [h.1.1, h.1.2, (ih h.2).1, (ih h.2).2]
    exact ⟨rfl, rfl⟩

theorem sizeItems_canon {items : List AttributeValue} (h : ∀ v ∈ items, SameSize v) :
    nodesItems (canonItems items) = nodesItems items ∧
      (wireItems (canonItems items)).length = (wireItems items).length := by
  induction items with
  | nil => exact ⟨rfl, rfl⟩
  | cons v _ ih =>
    rw [forall_mem_cons] at h
    simp only [canonItems, nodesItems, wireItems, length_append]
    rw [h.1.1, h.1.2, (ih h.2).1, (ih h.2).2]
    exact ⟨rfl, rfl⟩

theorem sameSize (v : AttributeValue) : SameSize v := by
  induction v with
  | integer | boolean | text => exact ⟨rfl, rfl⟩
  | number => simp [SameSize, canon, nodes, wire]
  | fields _ ih | map _ ih => simp [SameSize, canon, nodes, wire, sizeEntries_canon ih]
  | array _ ih => simp [SameSize, canon, nodes, wire, sizeItems_canon ih]

/-! ## What fits -/

theorem fits_canon {v : AttributeValue} {depth : Nat} : v.canon.Fits depth ↔ v.Fits depth := by
  induction v generalizing depth with
  | integer | boolean | text => rfl
  | number =>
    constructor
    · rintro (⟨⟩ | ⟨hd, h⟩)
      exact .number hd (by rwa [isFinite_canonNumber] at h)
    · rintro (⟨⟩ | ⟨hd, h⟩)
      exact .number hd (by rwa [isFinite_canonNumber])
  | fields _ ih =>
    rw [canon, fits_fields, fits_fields, canonEntries_length, canonEntries_eq, forall_mem_map]
    exact and_congr_right' (and_congr_right' (forall₂_congr fun e he => and_congr_right' (ih e he)))
  | array _ ih =>
    rw [canon, fits_array, fits_array, canonItems_length, canonItems_eq, forall_mem_map]
    exact and_congr_right' (and_congr_right' (forall₂_congr fun v hv => ih v hv))
  | map _ ih =>
    rw [canon, fits_map, fits_map, canonEntries_length, canonEntries_eq, forall_mem_map]
    exact and_congr_right' (and_congr_right' (forall₂_congr fun e he => and_congr_right' (ih e he)))

end AttributeValue

end Fsnet
