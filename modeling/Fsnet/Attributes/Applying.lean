import Fsnet.Attributes.Convergence
/-!
# What an apply leaves behind

Every check of `AttributeReplica::apply` comes before the first write, so a
replica that held a snapshot the encoder accepts holds one afterwards: either
the same, or the one the update leads to, charged as the encoder and the native
image would charge it.
-/

namespace Fsnet

open Lib AttributeValue List

/-- The snapshot record of an image. -/
def imageOf (values : AttributeStruct) (revision : UInt64) : AttributeUpdate :=
  { base := 0, revision, snapshot := true, values }

@[simp] theorem imageOf_revision (values : AttributeStruct) (revision : UInt64) :
    (imageOf values revision).revision = revision := rfl

/-- Limits that do not depend on the revision: an image is encodable at every one. -/
theorem accepted_imageOf {values : AttributeStruct} (hv : ∀ e ∈ values, validName e.1 = true ∧ e.2.Fits 0)
    (hc : values.length ≤ 256) (hn : nodesEntries values ≤ 4096) (hs : 23 + (wireEntries values).length ≤ limit)
    (revision : UInt64) : Accepted (imageOf values revision) := by
  refine ⟨⟨⟨hc, UInt64.zero_le, fun _ => rfl, fun e he => (hv e he).1, fun e he => (hv e he).2⟩, ?_, ?_, ?_⟩, ?_, ?_⟩
  · intro hne
    exact absurd rfl hne
  · simp [imageOf]
  · simp [imageOf]
  · simpa [updateNodes, imageOf, patchesNodes] using hn
  · simp only [updateBody, imageOf, if_true, append_nil, length_append, header_length]
    omega

theorem imageWireSize_of_accepted {values : AttributeStruct} {revision : UInt64}
    (h : Accepted (imageOf values revision)) : imageWireSize values = .ok (23 + (wireEntries values).length) := by
  have hn := h.nodes
  have hs := h.size
  simp only [updateNodes, imageOf, patchesNodes, updateBody, if_true, append_nil, length_append,
    header_length] at hn hs
  have hfits : ImageFits values 0 0 true :=
    ⟨h.fits.image.count, UInt64.le_refl 0, fun _ => rfl, h.fits.image.names, h.fits.image.deep⟩
  rw [imageWireSize, (encodeImage_writes _ _ _ _).ok hfits _ _ (by omega)
    (by simp only [size_sizeOnly, length_append, header_length, ascii_fsa1_length]; omega)]
  simp only [ok_bind, pure_eq_ok, append_bytes, length_append, header_length, ascii_fsa1_length]
  congr 1
  omega

/-- A replica in order: it holds nothing, or one encodable snapshot of its
revision, charged in full and within `budget`. -/
inductive AttributeReplica.Sound (budget : Nat) : AttributeReplica → Prop
  | fresh : AttributeReplica.Sound budget {}
  | holding {values : AttributeStruct} {revision : UInt64} {bytes size : Nat} (sorted : Entries.Sorted values)
      (accepted : Accepted (imageOf values revision)) (measured : imageWireSize values = .ok size)
      (charged : bytes = size + attributeImageBytes values) (within : bytes ≤ budget) :
      AttributeReplica.Sound budget { image := some (imageOf values revision), revision, initialized := true, bytes }

namespace AttributeReplica

variable {replica next : AttributeReplica} {update : AttributeUpdate} {budget previous : Nat}

theorem Sound.sorted (h : replica.Sound previous) : Entries.Sorted replica.values := by
  cases h with
  | fresh => exact Entries.sorted_nil
  | holding sorted => exact sorted

theorem Sound.image_eq (h : replica.Sound previous) (hi : replica.initialized = true) :
    replica.image = some (imageOf replica.values replica.revision) := by
  cases h with
  | fresh => cases hi
  | holding => rfl

/-! ## The values an update leads to -/

theorem sorted_materialize {held m m' : AttributeStruct} {patches : List AttributePatch} (hs : Entries.Sorted m)
    (h : materialize held patches m = .ok m') : Entries.Sorted m' := by
  induction patches generalizing m with
  | nil =>
    cases h
    exact hs
  | cons _ _ ih =>
    simp only [materialize, bind_eq_ok] at h
    obtain ⟨_, -, _, -, hrest⟩ := h
    exact ih (Entries.sorted_insert _ _ hs) hrest

/-- The image a plain update leads to. -/
def target (replica : AttributeReplica) (update : AttributeUpdate) : AttributeStruct :=
  if update.snapshot then update.values else overlay replica.values update.values

/-- A charge is only computed for an image that is encodable, and it is the
encoded size and the native charge of that image. -/
theorem charge_eq_ok {n : Nat} (hr : Entries.Sorted replica.values) (hu : Entries.Sorted update.values)
    (hp : update.patches = []) (h : replica.charge update = .ok n) :
    Entries.Sorted (replica.target update) ∧ (∀ revision, Accepted (imageOf (replica.target update) revision)) ∧
      n = 23 + (wireEntries (replica.target update)).length + attributeImageBytes (replica.target update) := by
  unfold charge at h
  unfold target
  split_ifs at h ⊢ with hsnap
  · -- a snapshot is measured by the encoder itself
    simp only [bind_eq_ok, pure_ok_iff] at h
    obtain ⟨size, hsize, rfl⟩ := h
    obtain ⟨hacc, rfl⟩ := attributeWireSize_eq_ok.1 hsize
    have hn := hacc.nodes
    have hs := hacc.size
    simp only [updateNodes, hp, patchesNodes, updateBody, if_true, append_nil, length_append,
      header_length] at hn hs ⊢
    refine ⟨hu, ?_, by omega⟩
    intro revision
    exact accepted_imageOf (fun e he => ⟨hacc.fits.image.names e he, hacc.fits.image.deep e he⟩) hacc.fits.image.count
      (by omega) (by omega) revision
  · -- a delta is measured by the walk over both maps
    rw [validateOverlay, mergeFields_eq_overlay hr hu] at h
    obtain ⟨hall, hcount, hnodes, hwire, hsum⟩ := validateFields_eq_ok (by omega) (by simp [limit]) h
    refine ⟨sorted_overlay hr, ?_, ?_⟩
    · intro revision
      exact accepted_imageOf hall (by omega) hnodes hwire revision
    · simp only at hsum
      omega

/-- Conversely the charge of an encodable image is computed, and fits a `size_t`. -/
theorem charge_ok (hr : Entries.Sorted replica.values) (hu : Entries.Sorted update.values)
    (hsnap : update.snapshot = true → Accepted update ∧ update.patches = []) {revision : UInt64}
    (h : Accepted (imageOf (replica.target update) revision)) :
    ∃ n, replica.charge update = .ok n ∧ n ≤ maxSize := by
  have hnodes := h.nodes
  have hsize := h.size
  simp only [updateNodes, imageOf, patchesNodes, updateBody, if_true, append_nil, length_append,
    header_length] at hnodes hsize
  unfold target at h hnodes hsize
  unfold charge
  cases hs : update.snapshot with
  | true =>
    simp only [hs, if_true] at hnodes hsize ⊢
    obtain ⟨hacc, hp⟩ := hsnap hs
    rw [attributeWireSize_eq_ok.2 ⟨hacc, rfl⟩]
    refine ⟨_, rfl, charge_le (by omega) (by omega) ?_⟩
    simp only [updateBody, hp, if_true, append_nil, length_append, header_length]
    omega
  | false =>
    simp only [hs, Bool.false_eq_true, if_false] at h hnodes hsize ⊢
    have hnames : ∀ e ∈ overlay replica.values update.values, validName e.1 = true := h.fits.image.names
    have hcount : (overlay replica.values update.values).length ≤ 256 := h.fits.image.count
    obtain ⟨n, hn, hsum⟩ := validateFields_ok hnames h.fits.image.deep ⟨23⟩ 256 0 4096 (by omega) (by omega)
      (by simp only; omega)
    rw [validateOverlay, mergeFields_eq_overlay hr hu]
    exact ⟨n, hn, charge_le (by omega) (by omega) hsum⟩

/-! ## Stores -/

theorem store_eq_ok (h : replica.store update budget = .ok next) :
    ∃ count, replica.charge update = .ok count ∧ count ≤ budget ∧
      next = { image := some (imageOf (replica.target update) update.revision), revision := update.revision
               initialized := true, bytes := count } := by
  simp only [store, bind_eq_ok, refuseIf_eq_ok, pure_ok_iff] at h
  obtain ⟨count, hcount, _, hle, rfl⟩ := h
  exact ⟨count, hcount, by omega, rfl⟩

theorem store_ok {count : Nat} (hc : replica.charge update = .ok count) (hle : count ≤ budget) :
    replica.store update budget =
      .ok { image := some (imageOf (replica.target update) update.revision), revision := update.revision
            initialized := true, bytes := count } := by
  rw [store, hc, ok_bind, refuseIf_of_not _ (by omega)]
  rfl

theorem store_sound (hr : Entries.Sorted replica.values) (hu : Entries.Sorted update.values)
    (hp : update.patches = []) (h : replica.store update budget = .ok next) : next.Sound budget := by
  obtain ⟨_, hcharge, hle, rfl⟩ := store_eq_ok h
  obtain ⟨hsorted, hacc, hcount⟩ := charge_eq_ok hr hu hp hcharge
  exact .holding hsorted (hacc _) (imageWireSize_of_accepted (hacc update.revision)) hcount hle

/-- An update that is admitted is one the encoder accepts, and it does not go back. -/
theorem admits_eq_true (h : replica.admits update = .ok true) :
    Accepted update ∧ (update.snapshot = false → replica.initialized = true ∧ update.base = replica.revision) ∧
      (replica.initialized = true → replica.revision ≤ update.revision) := by
  simp only [admits, bind_eq_ok] at h
  obtain ⟨_, hsize, h⟩ := h
  split_ifs at h with hgap hstale
  · cases h
  · cases h
  refine ⟨(attributeWireSize_eq_ok.1 hsize).1, ?_, ?_⟩
  · intro hsnap
    cases hi : replica.initialized with
    | false => exact absurd ⟨hsnap, .inl hi⟩ hgap
    | true => exact ⟨rfl, by_contra fun hb => hgap ⟨hsnap, .inr hb⟩⟩
  · intro hi
    exact UInt64.not_lt.1 fun hlt => hstale ⟨hi, hlt⟩

/-- The plain update that is stored: the update itself, or what its patches make of it. -/
def plainUpdate (replica : AttributeReplica) (update : AttributeUpdate) : Except Failure AttributeUpdate :=
  if update.patches.isEmpty then pure update
  else do
    let values ← materialize replica.values update.patches update.values
    pure { base := update.base, revision := update.revision, snapshot := false, values }

theorem plainUpdate_eq_ok {plain : AttributeUpdate} (hu : Entries.Sorted update.values)
    (h : replica.plainUpdate update = .ok plain) :
    Entries.Sorted plain.values ∧ plain.patches = [] ∧ plain.revision = update.revision := by
  unfold plainUpdate at h
  split_ifs at h with hempty
  · cases h
    exact ⟨hu, List.isEmpty_iff.1 hempty, rfl⟩
  · simp only [bind_eq_ok, pure_ok_iff] at h
    obtain ⟨_, hvalues, rfl⟩ := h
    exact ⟨sorted_materialize hu hvalues, rfl, rfl⟩

/-- A call that returns true was admitted and has stored the plain update. -/
theorem applyWithin_true (h : replica.applyWithin update budget = .ok (true, next)) :
    ∃ plain, replica.admits update = .ok true ∧ replica.plainUpdate update = .ok plain ∧
      replica.store plain budget = .ok next := by
  simp only [applyWithin, bind_eq_ok] at h
  obtain ⟨admitted, hadm, h⟩ := h
  cases admitted with
  | false => cases h
  | true =>
    rw [if_neg (by simp)] at h
    unfold plainUpdate
    split_ifs at h ⊢ with hempty
    · simp only [bind_eq_ok, pure_ok_iff, Prod.mk.injEq, true_and] at h
      obtain ⟨_, hstore, rfl⟩ := h
      exact ⟨update, hadm, rfl, hstore⟩
    simp only [bind_eq_ok] at h
    obtain ⟨_, hvalues, again, -, h⟩ := h
    cases again with
    | false => cases h
    | true =>
      simp only [Bool.true_eq_false, if_false, bind_eq_ok, pure_ok_iff, Prod.mk.injEq,
        true_and] at h
      obtain ⟨_, hstore, rfl⟩ := h
      exact ⟨_, hadm, by rw [hvalues]; rfl, hstore⟩

/-- A call that returns true leaves a replica in order, at the update's
revision, which is not below the previous one. -/
theorem applyWithin_sound (hr : replica.Sound previous) (hu : Entries.Sorted update.values)
    (h : replica.applyWithin update budget = .ok (true, next)) :
    next.Sound budget ∧ next.revision = update.revision ∧ replica.revision ≤ update.revision := by
  obtain ⟨_, hadm, hplain, hstore⟩ := applyWithin_true h
  obtain ⟨hsorted, hpatches, hrevision⟩ := plainUpdate_eq_ok hu hplain
  refine ⟨store_sound hr.sorted hsorted hpatches hstore, ?_, ?_⟩
  · obtain ⟨_, -, -, rfl⟩ := store_eq_ok hstore
    exact hrevision
  · cases hr with
    | fresh => exact UInt64.zero_le
    | holding => exact (admits_eq_true hadm).2.2 rfl

/-- The replica after a snapshot of the values. -/
def holding (values : AttributeStruct) (revision : UInt64) (bytes : Nat) : AttributeReplica :=
  { image := some (imageOf values revision), revision, initialized := true, bytes }

/-- The first snapshot is stored as it is. -/
theorem apply_fresh {values : AttributeStruct} {revision : UInt64} (hs : Entries.Sorted values)
    (h : Accepted (imageOf values revision)) :
    ∃ bytes, ({} : AttributeReplica).apply (imageOf values revision) = .ok (true, holding values revision bytes) := by
  have hadm : ({} : AttributeReplica).admits (imageOf values revision) = .ok true := by
    unfold admits
    rw [attributeWireSize_eq_ok.2 ⟨h, rfl⟩]
    rfl
  have hempty : Entries.Sorted ({} : AttributeReplica).values := Entries.sorted_nil
  have hu : Entries.Sorted (imageOf values revision).values := hs
  obtain ⟨n, hcharge, hle⟩ := charge_ok hempty hu (fun _ => ⟨h, rfl⟩) h
  refine ⟨n, ?_⟩
  unfold apply applyWithin
  rw [hadm, ok_bind, store_ok hcharge hle]
  rfl

end AttributeReplica

end Fsnet
