import Fsnet.Lib.OrdMap
import Fsnet.Lib.Except
/-!
# Counted sections

A section of a wire format is a count followed by that many items. A writer and
a reader of items are matched once, by `Frames`; then the loop that reads a
section gives back the list that was written, and the loop that reads a map
gives back the map, since its keys arrive in order and are all new.
-/

namespace Lib

open List

variable {ε α β K V : Type}

/-- Read `count` items. -/
def readItems (read : List β → Except ε (α × List β)) : Nat → List β → Except ε (List α × List β)
  | 0, input => pure ([], input)
  | count + 1, input => do
    let (item, input) ← read input
    let (items, input) ← readItems read count input
    pure (item :: items, input)

/-- Read `count` entries into a map; a key read twice is refused. -/
def readEntries [LinearOrder K] (read : List β → Except ε ((K × V) × List β)) (duplicate : ε) :
    Nat → OrdMap K V → List β → Except ε (OrdMap K V × List β)
  | 0, out, input => pure (out, input)
  | count + 1, out, input => do
    let (entry, input) ← read input
    refuseIf ((out.find entry.1).isSome = true) duplicate
    readEntries read duplicate count (out.insert entry.1 entry.2) input

/-- `write` puts item after item, and `read` gets the first of them back if it is one of `fits`. -/
structure Frames (fits : α → Prop) (write : List α → Except ε (List β)) (read : List β → Except ε (α × List β)) :
    Prop where
  nil : write [] = .ok []
  cons : ∀ {item items out}, write (item :: items) = .ok out → fits item → ∃ head tail, write items = .ok tail ∧
    out = head ++ tail ∧ ∀ rest, read (head ++ rest) = .ok (item, rest)

namespace Frames

theorem readItems_wire {fits : α → Prop} {write : List α → Except ε (List β)} {read : List β → Except ε (α × List β)}
    (h : Frames fits write read) {items : List α} {out : List β} (hw : write items = .ok out)
    (hf : ∀ item ∈ items, fits item) (rest : List β) :
    readItems read items.length (out ++ rest) = .ok (items, rest) := by
  induction items generalizing out with
  | nil =>
    rw [h.nil] at hw
    cases hw
    rfl
  | cons _ _ ih =>
    rw [forall_mem_cons] at hf
    obtain ⟨_, _, htail, rfl, hread⟩ := h.cons hw hf.1
    simp only [length_cons, readItems, append_assoc, hread, ok_bind, ih htail hf.2, pure_eq_ok]

variable [LinearOrder K] {fits : K × V → Prop} {write : List (K × V) → Except ε (List β)}
  {read : List β → Except ε ((K × V) × List β)}

/-- The loop from a map that holds the entries before those still on the wire. -/
theorem readEntries_append (h : Frames fits write read) (duplicate : ε) {items : List (K × V)} {out : List β}
    (hw : write items = .ok out) (hf : ∀ item ∈ items, fits item) (m result : OrdMap K V)
    (hm : result.entries = m.entries ++ items) (rest : List β) :
    readEntries read duplicate items.length m (out ++ rest) = .ok (result, rest) := by
  induction items generalizing m out with
  | nil =>
    rw [h.nil] at hw
    cases hw
    have : m = result := by
      cases m
      cases result
      simpa using hm.symm
    rw [this]
    rfl
  | cons item items ih =>
    rw [forall_mem_cons] at hf
    obtain ⟨_, _, htail, rfl, hread⟩ := h.cons hw hf.1
    have hsorted : Entries.Sorted (m.entries ++ item :: items) := hm ▸ result.sorted
    have hlt : ∀ e ∈ m.entries, e.1 < item.1 := by
      intro e he
      exact (pairwise_append.1 hsorted).2.2 e he item mem_cons_self
    have hnew : m.find item.1 = none := by
      cases hfind : m.find item.1 with
      | none => rfl
      | some => exact absurd (hlt _ (Entries.find_mem hfind)) (lt_irrefl _)
    have hnext : result.entries = (m.insert item.1 item.2).entries ++ items := by
      have hlast : (m.insert item.1 item.2).entries = m.entries ++ [item] := Entries.insert_last _ _ _ hlt
      rw [hm, hlast, append_assoc, singleton_append]
    simp only [length_cons, readEntries, append_assoc, hread, ok_bind]
    rw [refuseIf_of_not _ (by simp [hnew]), ok_bind, ih htail hf.2 _ hnext]

theorem readEntries_wire (h : Frames fits write read) (duplicate : ε) {m : OrdMap K V} {out : List β}
    (hw : write m.entries = .ok out) (hf : ∀ item ∈ m.entries, fits item) (rest : List β) :
    readEntries read duplicate m.size .empty (out ++ rest) = .ok (m, rest) :=
  h.readEntries_append duplicate hw hf .empty m (by simp [OrdMap.empty]) rest

end Frames

end Lib
