import Fsnet.Attributes.Canon
import Fsnet.Attributes.Replica
/-!
# Laying values over an image

The merge that `validate_overlay` walks is the image the replica then stores,
and a map whose entries all occur, up to `==`, in an accepted image is within
the encoder's limits as well.
-/

namespace Fsnet

open Lib AttributeValue Entries List

/-! ## The merged image -/

theorem mem_mergeFields {fuel : Nat} {old changed : AttributeStruct} {e : Bytes × AttributeValue}
    (h : e ∈ mergeFields fuel old changed) : e ∈ old ∨ e ∈ changed := by
  induction fuel generalizing old changed with
  | zero => cases h
  | succ fuel ih =>
    cases old with
    | nil =>
      cases changed with
      | nil => cases h
      | cons c changed =>
        rcases mem_cons.1 h with rfl | h
        · simp
        · rcases ih h with h | h <;> simp_all
    | cons b old =>
      cases changed with
      | nil =>
        rcases mem_cons.1 h with rfl | h
        · simp
        · rcases ih h with h | h <;> simp_all
      | cons c changed =>
        rw [mergeFields] at h
        split_ifs at h with hlt heq
        all_goals
          rcases mem_cons.1 h with rfl | h
          · simp
          · rcases ih h with h | h <;> simp_all
            try tauto

theorem sorted_mergeFields {fuel : Nat} {old changed : AttributeStruct} (ho : Sorted old)
    (hc : Sorted changed) : Sorted (mergeFields fuel old changed) := by
  induction fuel generalizing old changed with
  | zero => exact sorted_nil
  | succ _ ih =>
    cases old with
    | nil =>
      cases changed with
      | nil => exact sorted_nil
      | cons =>
        rw [Sorted, pairwise_cons] at hc
        refine pairwise_cons.2 ⟨fun e he => ?_, ih sorted_nil hc.2⟩
        rcases mem_mergeFields he with he | he
        · cases he
        · exact hc.1 e he
    | cons b =>
      cases changed with
      | nil =>
        rw [Sorted, pairwise_cons] at ho
        refine pairwise_cons.2 ⟨fun e he => ?_, ih ho.2 sorted_nil⟩
        rcases mem_mergeFields he with he | he
        · exact ho.1 e he
        · cases he
      | cons c =>
        have hob := pairwise_cons.1 ho
        have hcb := pairwise_cons.1 hc
        rw [mergeFields]
        split_ifs with hlt heq
        · refine pairwise_cons.2 ⟨fun e he => ?_, ih hob.2 hc⟩
          rcases mem_mergeFields he with he | he
          · exact hob.1 e he
          · rcases mem_cons.1 he with rfl | he
            · exact hlt
            · exact lt_trans hlt (hcb.1 e he)
        · refine pairwise_cons.2 ⟨fun e he => ?_, ih hob.2 hcb.2⟩
          rcases mem_mergeFields he with he | he
          · rw [← heq]; exact hob.1 e he
          · exact hcb.1 e he
        · have hgt : c.1 < b.1 := lt_of_le_of_ne (not_lt.1 hlt) (Ne.symm heq)
          refine pairwise_cons.2 ⟨fun e he => ?_, ih ho hcb.2⟩
          rcases mem_mergeFields he with he | he
          · rcases mem_cons.1 he with rfl | he
            · exact hgt
            · exact lt_trans hgt (hob.1 e he)
          · exact hcb.1 e he

theorem find_mergeFields {fuel : Nat} {old changed : AttributeStruct} (ho : Sorted old)
    (hc : Sorted changed) (hf : old.length + changed.length ≤ fuel) (k : Bytes) :
    find k (mergeFields fuel old changed) = (find k changed).or (find k old) := by
  induction fuel generalizing old changed with
  | zero =>
    obtain ⟨rfl, rfl⟩ : old = [] ∧ changed = [] := by
      constructor <;> apply eq_nil_of_length_eq_zero <;> omega
    rfl
  | succ fuel ih =>
    cases old with
    | nil =>
      cases changed with
      | nil => rfl
      | cons c changed =>
        simp only [length_cons, length_nil] at hf
        rw [mergeFields, find_cons, ih sorted_nil (pairwise_cons.1 hc).2 (by simp; omega),
          find_cons]
        split_ifs <;> rfl
    | cons b old =>
      cases changed with
      | nil =>
        simp only [length_cons, length_nil] at hf
        rw [mergeFields, find_cons, ih (pairwise_cons.1 ho).2 sorted_nil (by simp; omega),
          find_cons]
        split_ifs <;> rfl
      | cons c changed =>
        have hob := pairwise_cons.1 ho
        have hcb := pairwise_cons.1 hc
        simp only [length_cons] at hf
        rw [mergeFields]
        split_ifs with hlt heq
        · rw [find_cons, ih hob.2 hc (by simp; omega)]
          split_ifs with hk
          · -- the smaller key is in no delta
            subst hk
            rw [find_none_of_lt (l := c :: changed) fun e he => by
              rcases mem_cons.1 he with rfl | he
              · exact hlt
              · exact lt_trans hlt (hcb.1 e he), find_cons, if_pos rfl]
            rfl
          · rw [find_cons k b.1, if_neg hk]
        · rw [find_cons, ih hob.2 hcb.2 (by omega), find_cons, find_cons, heq]
          split_ifs <;> rfl
        · rw [find_cons, ih ho hcb.2 (by simp; omega), find_cons k c.1]
          split_ifs <;> rfl

namespace AttributeReplica

theorem sorted_overlay {held changed : AttributeStruct} (hh : Sorted held) :
    Sorted (overlay held changed) := by
  unfold overlay
  induction changed generalizing held with
  | nil => exact hh
  | cons _ _ ih => exact ih (sorted_insert _ _ hh)

theorem find_overlay {held changed : AttributeStruct} (hc : Sorted changed) (k : Bytes) :
    find k (overlay held changed) = (find k changed).or (find k held) := by
  unfold overlay
  induction changed generalizing held with
  | nil => rfl
  | cons e _ ih =>
    obtain ⟨_, v⟩ := e
    have hcb := pairwise_cons.1 hc
    rw [foldl_cons, ih hcb.2, find_cons]
    split_ifs with hk
    · subst hk
      rw [find_insert_self, find_none_of_lt hcb.1]
      rfl
    · rw [find_insert_ne _ hk]

end AttributeReplica

/-- The merge the source validates is the image it stores. -/
theorem mergeFields_eq_overlay {held changed : AttributeStruct} (hh : Sorted held)
    (hc : Sorted changed) :
    mergeFields (held.length + changed.length) held changed = AttributeReplica.overlay held changed :=
  ext_find (sorted_mergeFields hh hc) (AttributeReplica.sorted_overlay hh) fun k => by
    rw [find_mergeFields hh hc (le_refl _), AttributeReplica.find_overlay hc]

/-! ## Parts of an accepted image -/

/-- Every entry of `part` is in `whole`, up to `==`. -/
structure Within (part whole : AttributeStruct) : Prop where
  sorted : Sorted part
  lookups : ∀ k v, find k part = some v → ∃ w, find k whole = some w ∧ v.canon = w.canon

section within

variable {part whole : AttributeStruct}

theorem Within.sublist (h : Within part whole) (hs : Sorted whole) :
    (canonEntries part).Sublist (canonEntries whole) := by
  refine sublist_of_find (sorted_canonEntries h.sorted) (sorted_canonEntries hs) fun k v hf => ?_
  rw [find_canonEntries, Option.map_eq_some_iff] at hf
  obtain ⟨v', hv', rfl⟩ := hf
  obtain ⟨w, hw, hc⟩ := h.lookups k v' hv'
  rw [find_canonEntries, hw, hc]
  rfl

theorem entries_sublist {l m : AttributeStruct} (h : l.Sublist m) :
    nodesEntries l ≤ nodesEntries m ∧ (wireEntries l).length ≤ (wireEntries m).length := by
  induction h with
  | slnil => simp
  | cons | cons_cons => simp only [wireEntries, nodesEntries, length_append]; omega

section

variable (h : Within part whole)
include h

theorem Within.length_le (hs : Sorted whole) : part.length ≤ whole.length := by
  simpa using (h.sublist hs).length_le

theorem Within.nodes_le (hs : Sorted whole) : nodesEntries part ≤ nodesEntries whole := by
  have := (entries_sublist (h.sublist hs)).1
  rwa [(sizeEntries_canon fun e _ => sameSize e.2).1, (sizeEntries_canon fun e _ => sameSize e.2).1] at this

theorem Within.wire_le (hs : Sorted whole) : (wireEntries part).length ≤ (wireEntries whole).length := by
  have := (entries_sublist (h.sublist hs)).2
  rwa [(sizeEntries_canon fun e _ => sameSize e.2).2, (sizeEntries_canon fun e _ => sameSize e.2).2] at this

theorem Within.find_mem {e : Bytes × AttributeValue} (he : e ∈ part) :
    ∃ w, (e.1, w) ∈ whole ∧ e.2.canon = w.canon := by
  obtain ⟨w, hw, hc⟩ := h.lookups e.1 e.2 (find_of_mem h.sorted he)
  exact ⟨w, Entries.find_mem hw, hc⟩

theorem Within.imageFits (hs : Sorted whole) {base revision base' revision' : UInt64}
    {snapshot snapshot' : Bool} (hw : ImageFits whole base revision snapshot) (hb : base' ≤ revision')
    (h0 : snapshot' = true → base' = 0) : ImageFits part base' revision' snapshot' where
  count := le_trans (h.length_le hs) hw.count
  base_le := hb
  base_zero := h0
  names e he := by
    obtain ⟨w, hm, -⟩ := h.find_mem he
    exact hw.names (e.1, w) hm
  deep e he := by
    obtain ⟨w, hm, hc⟩ := h.find_mem he
    rw [← fits_canon, hc, fits_canon]
    exact hw.deep _ hm

end

end within

/-! ## The charge of an image -/

theorem itemsCharge_le {items : List AttributeValue} (h : ∀ v ∈ items, itemCharge v ≤ 512 * v.nodes + v.wire.length) :
    itemsCharge items ≤ 512 * nodesItems items + (wireItems items).length := by
  induction items with
  | nil => simp [itemsCharge]
  | cons v rest ih =>
    have h1 := h v mem_cons_self
    have h2 := ih fun v hv => h v (mem_cons_of_mem _ hv)
    simp only [itemsCharge, nodesItems, wireItems, length_append]
    omega

theorem imageBytes_le_of {entries : AttributeStruct}
    (h : ∀ e ∈ entries, entryPayload e.2 + 256 ≤ 512 * e.2.nodes + e.2.wire.length) :
    attributeImageBytes entries ≤ 256 + 512 * nodesEntries entries + (wireEntries entries).length := by
  induction entries with
  | nil => simp only [attributeImageBytes]; omega
  | cons e rest ih =>
    have h1 := h e mem_cons_self
    have h2 := ih fun e he => h e (mem_cons_of_mem _ he)
    simp only [attributeImageBytes, nodesEntries, wireEntries, length_append, bigEndian_length]
    omega

/-- The native charge of a value is bounded by its nodes and its bytes. -/
theorem entryPayload_le (v : AttributeValue) :
    entryPayload v + 256 ≤ 512 * v.nodes + v.wire.length ∧ itemCharge v ≤ 512 * v.nodes + v.wire.length := by
  induction v with
  | integer | number | boolean => simp only [entryPayload, itemCharge, nodes]; omega
  | text s => simp only [entryPayload, itemCharge, nodes, wire, length_append, bigEndian_length]; omega
  | fields _ ih | map _ ih =>
    have := imageBytes_le_of fun e he => (ih e he).1
    simp only [entryPayload, itemCharge, nodes, wire, length_append, bigEndian_length]; omega
  | array items ih =>
    have := itemsCharge_le fun v hv => (ih v hv).2
    simp only [entryPayload, itemCharge, nodes, wire, length_append, bigEndian_length]; omega

theorem attributeImageBytes_le (entries : AttributeStruct) :
    attributeImageBytes entries ≤ 256 + 512 * nodesEntries entries + (wireEntries entries).length :=
  imageBytes_le_of fun e _ => (entryPayload_le e.2).1

@[simp] theorem size_sizeOnly (out : SizeOnly) : Output.size out = out.bytes := rfl

@[simp] theorem append_bytes (out : SizeOnly) (bytes : Bytes) :
    (Output.append out bytes).bytes = out.bytes + bytes.length := rfl

@[simp] theorem put_bytes (out : SizeOnly) (n count : Nat) : (put out n count).bytes = out.bytes + count :=
  size_put out n count

/-- Fields that fit pass the overlay's checks, with the charge of the image. -/
theorem validateFields_ok {fields : AttributeStruct} (hn : ∀ e ∈ fields, validName e.1 = true)
    (hf : ∀ e ∈ fields, e.2.Fits 0) (out : SizeOnly) (nativeBytes count remaining : Nat)
    (hc : count + fields.length ≤ 256) (hr : nodesEntries fields ≤ remaining)
    (hs : out.bytes + (wireEntries fields).length ≤ limit) :
    ∃ n, validateFields out nativeBytes count remaining fields = .ok n ∧
      n + 256 = out.bytes + (wireEntries fields).length + nativeBytes + attributeImageBytes fields := by
  induction fields generalizing out nativeBytes count remaining with
  | nil => exact ⟨_, rfl, by simp [wireEntries, attributeImageBytes]⟩
  | cons e rest ih =>
    obtain ⟨name, value⟩ := e
    rw [forall_mem_cons] at hn hf
    simp only [nodesEntries, wireEntries, length_append, bigEndian_length, length_cons] at hr hs hc
    obtain ⟨n, hrun, hsum⟩ := ih hn.2 hf.2
      (Output.append (Output.append (put out name.length 1) name) value.wire)
      (nativeBytes + attributeEntryBytes name value) (count + 1) (remaining - value.nodes) (by omega) (by omega)
      (by simp only [append_bytes, put_bytes]; omega)
    refine ⟨n, ?_, ?_⟩
    · rw [validateFields, refuseIf_of_not _ (by omega), ok_bind, (checkName_eq_ok (u := ())).2 hn.1, ok_bind,
        (encodeValue_writes _ _).ok hf.1 _ _ (by simp only; omega)
          (by simp only [size_sizeOnly, append_bytes, put_bytes]; omega)]
      exact hrun
    · simp only [append_bytes, put_bytes, wireEntries, attributeImageBytes, attributeEntryBytes, length_append,
        bigEndian_length] at hsum ⊢
      omega

/-- Fields that pass the overlay's checks fit, and the charge is that of the image. -/
theorem validateFields_eq_ok {fields : AttributeStruct} {out : SizeOnly} {nativeBytes count remaining n : Nat}
    (hc : count ≤ 256) (hs : out.bytes ≤ limit)
    (h : validateFields out nativeBytes count remaining fields = .ok n) :
    (∀ e ∈ fields, validName e.1 = true ∧ e.2.Fits 0) ∧ count + fields.length ≤ 256 ∧
      nodesEntries fields ≤ remaining ∧ out.bytes + (wireEntries fields).length ≤ limit ∧
      n + 256 = out.bytes + (wireEntries fields).length + nativeBytes + attributeImageBytes fields := by
  induction fields generalizing out nativeBytes count remaining with
  | nil =>
    cases h
    refine ⟨by simp, hc, by simp [nodesEntries], by simpa [wireEntries] using hs, ?_⟩
    simp [wireEntries, attributeImageBytes]
  | cons e rest ih =>
    obtain ⟨name, value⟩ := e
    simp only [validateFields, bind_eq_ok, refuseIf_eq_ok, checkName_eq_ok] at h
    obtain ⟨_, hcount, _, hname, ⟨out1, remaining1⟩, hvalue, hrest⟩ := h
    obtain ⟨hfits, hemit⟩ := (encodeValue_writes _ _).inv hvalue
    have hsize := encodeValue_size hvalue
    obtain ⟨hall, hlen, hnodes, hwire, hsum⟩ := ih (by omega) hsize hrest
    obtain ⟨rfl, hle, rfl⟩ := hemit
    refine ⟨forall_mem_cons.2 ⟨⟨hname, hfits⟩, hall⟩, ?_, ?_, ?_, ?_⟩
    all_goals
      simp only [append_bytes, put_bytes, wireEntries, nodesEntries, attributeImageBytes, attributeEntryBytes,
        length_append, length_cons, bigEndian_length] at hwire hsum ⊢
      omega

end Fsnet
