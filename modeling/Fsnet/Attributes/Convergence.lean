import Fsnet.Attributes.Diff
import Fsnet.Attributes.Overlay
/-!
# A replica follows the deltas

Every record `attribute_delta` can pick is a bridge from one image to the next:
some properties whole, some as patches that turn the old value into the new
one, the rest unchanged. A replica that holds the old image and applies a
bridge then holds the new one.
-/

namespace Fsnet

open Lib AttributeValue Entries List

/-! ## Bridges -/

/-- How a delta covers the properties of `next`: `whole` ones are carried as
they are, the others are reached by their `edits`. -/
structure Bridges (previous next : AttributeUpdate) (whole : Bytes × AttributeValue → Bool)
    (edits : Bytes × AttributeValue → List AttributePatch) : Prop where
  good : ∀ e ∈ next.values, ∀ patch ∈ edits e, Good e.1 patch
  plain : ∀ e ∈ next.values, whole e = true → edits e = []
  turns : ∀ e ∈ next.values, whole e = false →
    ∃ old, find e.1 previous.values = some old ∧ Turns (edits e) old e.2

/-- The record of a bridge. -/
def bridge (previous next : AttributeUpdate) (whole : Bytes × AttributeValue → Bool)
    (edits : Bytes × AttributeValue → List AttributePatch) : AttributeUpdate :=
  { base := previous.revision, revision := next.revision, snapshot := false
    values := next.values.filter whole, patches := next.values.flatMap edits }

/-- A snapshot the encoder accepts, its maps in order as every `std::map` is. -/
structure SnapshotImage where
  update : AttributeUpdate
  snapshot : update.snapshot = true
  ordered : UpdateOrdered update
  accepted : ∃ bytes, encodeAttributes update = .ok bytes

namespace SnapshotImage

variable (image : SnapshotImage)

theorem isAccepted : Accepted image.update := by
  obtain ⟨_, h⟩ := image.accepted
  exact (encodeAttributes_eq_ok.1 h).1

theorem patches_nil : image.update.patches = [] := by
  by_contra hne
  have := image.isAccepted.fits.plain hne
  rw [image.snapshot] at this
  cases this

theorem sorted : Sorted image.update.values := image.ordered.sorted

theorem imageFits : ImageFits image.update.values image.update.base image.update.revision image.update.snapshot :=
  image.isAccepted.fits.image

theorem nodes_le : nodesEntries image.update.values ≤ 4096 := by
  have := image.isAccepted.nodes
  simpa [updateNodes, image.patches_nil, patchesNodes] using this

theorem size_le : 23 + (wireEntries image.update.values).length ≤ limit := by
  have := image.isAccepted.size
  simp only [updateBody, image.patches_nil, if_true, append_nil, length_append, header_length] at this
  omega

/-- A property of the image, with room for any patch of it. -/
theorem located {name : Bytes} {v : AttributeValue} (h : (name, v) ∈ image.update.values) : Located name [] v := by
  obtain ⟨hw, hn⟩ := wireEntries_mem h
  have h1 := image.size_le
  have h2 := image.nodes_le
  refine ⟨image.imageFits.names _ h, by simp, image.imageFits.deep _ h, image.ordered.deep _ h, by omega, ?_⟩
  simp only [pathWire, length_nil]
  omega

theorem within_filter (p : Bytes × AttributeValue → Bool) :
    Within (image.update.values.filter p) image.update.values where
  sorted := image.sorted.sublist filter_sublist
  lookups k v hf := by
    rw [find_filter image.sorted, Option.filter_eq_some_iff] at hf
    exact ⟨v, hf.1, rfl⟩

end SnapshotImage

section bridge

variable {previous next : SnapshotImage} {whole : Bytes × AttributeValue → Bool}
  {edits : Bytes × AttributeValue → List AttributePatch}

/-- A bridge breaks no rule of the encoder but, possibly, its size limits. -/
theorem Bridges.updateFits (h : Bridges previous.update next.update whole edits)
    (hrev : previous.update.revision ≤ next.update.revision)
    (hcount : (next.update.values.flatMap edits).length ≤ 256) :
    UpdateFits (bridge previous.update next.update whole edits) where
  image := (next.within_filter whole).imageFits next.sorted next.imageFits hrev (by simp [bridge])
  plain _ := rfl
  patch_count := hcount
  patches patch hm := by
    obtain ⟨e, he, hp⟩ := mem_flatMap.1 hm
    refine ⟨(h.good e he patch hp).cheap.fits, ?_⟩
    have hnot : whole e = false := by
      cases hw : whole e with
      | false => rfl
      | true => rw [h.plain e he hw] at hp; cases hp
    rw [(h.good e he patch hp).property_eq]
    change find e.1 (next.update.values.filter whole) = none
    rw [find_filter next.sorted, find_of_mem next.sorted he]
    simp [hnot]

theorem Bridges.updateOrdered (h : Bridges previous.update next.update whole edits) :
    UpdateOrdered (bridge previous.update next.update whole edits) where
  sorted := (next.within_filter whole).sorted
  deep e he := next.ordered.deep e (mem_of_mem_filter he)
  patches patch hm := by
    obtain ⟨e, he, hp⟩ := mem_flatMap.1 hm
    exact (h.good e he patch hp).ordered

/-- Properties of the next image alone make a record within the limits. -/
theorem within_accepted {part : AttributeStruct} (h : Within part next.update.values) {base : UInt64}
    (hrev : base ≤ next.update.revision) :
    Accepted { base, revision := next.update.revision, snapshot := false, values := part } where
  fits := ⟨h.imageFits next.sorted next.imageFits hrev (by simp), by simp, by simp, by simp⟩
  nodes := by
    have h1 := h.nodes_le next.sorted
    have h2 := next.nodes_le
    simp only [updateNodes, patchesNodes]
    omega
  size := by
    have h1 := h.wire_le next.sorted
    have h2 := next.size_le
    simp only [updateBody, if_true, append_nil, length_append, header_length]
    omega

end bridge

/-! ## Running the patches of a bridge -/

/-- The patches of one property. The first takes it from the edited ones, or from the held image. -/
theorem materialize_property {held m : AttributeStruct} {name : Bytes} {v v' : AttributeValue}
    {patches : List AttributePatch} (rest : List AttributePatch) (hne : patches ≠ [] ∨ find name m = some v)
    (hp : ∀ patch ∈ patches, patch.property = name) (hs : Sorted m)
    (hsource : patchSource held m name = .ok v) (hrun : runPatches v patches = .ok v') :
    materialize held (patches ++ rest) m = materialize held rest (Entries.insert name v' m) := by
  induction patches generalizing m v with
  | nil =>
    cases hrun
    rw [insert_of_find hs (hne.resolve_left fun h => h rfl)]
    rfl
  | cons _ _ ih =>
    rw [forall_mem_cons] at hp
    simp only [runPatches, bind_eq_ok] at hrun
    obtain ⟨c, h1, h2⟩ := hrun
    have hf := find_insert_self name c m
    rw [cons_append, materialize, hp.1, hsource, ok_bind, h1, ok_bind, ih (.inr hf) hp.2 (sorted_insert _ _ hs)
      (by rw [patchSource, hf]; rfl) h2, insert_insert _ _ hs]

/-- The edited properties while the patches of `rest` are still to run. -/
structure Stage (previous next : AttributeUpdate) (whole : Bytes × AttributeValue → Bool)
    (rest m : AttributeStruct) : Prop where
  sorted : Sorted m
  ordered : ∀ e ∈ m, e.2.Ordered
  lookups : ∀ k v, find k m = some v → ∃ w, find k next.values = some w ∧ v.canon = w.canon
  ahead : ∀ e ∈ rest, whole e = false → find e.1 m = none
  behind : ∀ e ∈ next.values, e ∉ rest → find e.1 m = none →
    ∃ old, find e.1 previous.values = some old ∧ old.canon = e.2.canon
  carried : ∀ e ∈ next.values, whole e = true → find e.1 m ≠ none

/-- Running the patches of a bridge gives, for every property, a value `==` to
the new one, or leaves it alone because it did not change. -/
theorem materialize_stage {previous next : SnapshotImage} {whole : Bytes × AttributeValue → Bool}
    {edits : Bytes × AttributeValue → List AttributePatch} (h : Bridges previous.update next.update whole edits)
    {held : AttributeStruct}
    (hheld : ∀ k old, find k previous.update.values = some old →
      ∃ t, find k held = some t ∧ t.Ordered ∧ t.canon = old.canon)
    (rest m : AttributeStruct) (hrest : rest.Sublist next.update.values)
    (hm : Stage previous.update next.update whole rest m) :
    ∃ m', materialize held (rest.flatMap edits) m = .ok m' ∧ Stage previous.update next.update whole [] m' := by
  induction rest generalizing m with
  | nil => exact ⟨m, rfl, hm⟩
  | cons e rest ih =>
    have he : e ∈ next.update.values := hrest.subset mem_cons_self
    have htail : rest.Sublist next.update.values := (sublist_cons_self e rest).trans hrest
    have hsorted : Sorted (e :: rest) := next.sorted.sublist hrest
    have hne : ∀ e' ∈ rest, e'.1 ≠ e.1 := fun e' he' => ne_of_gt ((pairwise_cons.1 hsorted).1 e' he')
    rw [flatMap_cons]
    cases hw : whole e with
    | true =>
      rw [h.plain e he hw, nil_append]
      refine ih m htail { hm with ahead := fun e' he' => hm.ahead e' (mem_cons_of_mem _ he'), behind := ?_ }
      intro e' he' hnot hnone
      by_cases heq : e' = e
      · subst heq; exact absurd hnone (hm.carried e' he' hw)
      · exact hm.behind e' he' (by simp [heq, hnot]) hnone
    | false =>
      obtain ⟨old, hold, hturns⟩ := h.turns e he hw
      obtain ⟨t, ht, hto, htc⟩ := hheld e.1 old hold
      obtain ⟨_, hrun, hto', htc'⟩ := hturns t hto htc
      have hfree := hm.ahead e mem_cons_self hw
      by_cases hnil : edits e = []
      · -- no patches: the value did not change
        rw [hnil] at hrun ⊢
        cases hrun
        refine ih m htail { hm with ahead := fun e' he' => hm.ahead e' (mem_cons_of_mem _ he'), behind := ?_ }
        intro e' he' hnot hnone
        by_cases heq : e' = e
        · subst heq; exact ⟨old, hold, htc.symm.trans htc'⟩
        · exact hm.behind e' he' (by simp [heq, hnot]) hnone
      · have hsource : patchSource held m e.1 = .ok t := by
          rw [patchSource, hfree]
          exact lookup_of_find ht
        rw [materialize_property _ (.inl hnil) (fun p hp => (h.good e he p hp).property_eq) hm.sorted hsource hrun]
        refine ih _ htail ⟨sorted_insert _ _ hm.sorted, ?_, ?_, ?_, ?_, ?_⟩
        · intro x hx
          rcases mem_insert_of hx with rfl | hx
          · exact hto'
          · exact hm.ordered x hx
        · intro k v hk
          by_cases hkey : k = e.1
          · subst hkey
            rw [find_insert_self] at hk
            cases hk
            exact ⟨e.2, find_of_mem next.sorted he, htc'⟩
          · rw [find_insert_ne _ hkey] at hk
            exact hm.lookups k v hk
        · intro e' he' hw'
          rw [find_insert_ne _ (hne e' he')]
          exact hm.ahead e' (mem_cons_of_mem _ he') hw'
        · intro e' he' hnot hnone
          by_cases hkey : e'.1 = e.1
          · rw [hkey, find_insert_self] at hnone; cases hnone
          rw [find_insert_ne _ hkey] at hnone
          refine hm.behind e' he' (fun hmem => ?_) hnone
          rcases mem_cons.1 hmem with rfl | hmem
          · exact hkey rfl
          · exact hnot hmem
        · intro e' he' hw'
          by_cases hkey : e'.1 = e.1
          · rw [hkey, find_insert_self]; simp
          · rw [find_insert_ne _ hkey]; exact hm.carried e' he' hw'

/-! ## Applying a record -/

/-- The replica holds an image: its revision, and properties that are `==`. -/
structure AttributeReplica.Holds (replica : AttributeReplica) (image : AttributeUpdate) : Prop where
  initialized : replica.initialized = true
  revision : replica.revision = image.revision
  same : sameEntries replica.values image.values = true
  sorted : Sorted replica.values
  ordered : ∀ e ∈ replica.values, e.2.Ordered

theorem sameEntries_image {values : AttributeStruct} (image : SnapshotImage) :
    sameEntries values image.update.values = true ↔ canonEntries values = canonEntries image.update.values :=
  sameEntries_iff fun _ _ _ he' => same_iff (image.imageFits.deep _ he').finite

namespace AttributeReplica

variable {replica : AttributeReplica} {previous next : SnapshotImage}

theorem Holds.canon_eq (h : replica.Holds previous.update) :
    canonEntries replica.values = canonEntries previous.update.values :=
  (sameEntries_image previous).1 h.same

theorem admits_of {update : AttributeUpdate} (hacc : Accepted update) (hi : replica.initialized = true)
    (hbase : update.snapshot = false → update.base = replica.revision) (hrev : replica.revision ≤ update.revision) :
    replica.admits update = .ok true := by
  unfold admits
  rw [attributeWireSize_eq_ok.2 ⟨hacc, rfl⟩]
  simp only [ok_bind]
  rw [if_neg, if_neg]
  · rfl
  · rintro ⟨-, hlt⟩
    exact UInt64.not_le.2 hlt hrev
  · rintro ⟨hs, hi' | hb⟩
    · rw [hi] at hi'; cases hi'
    · exact hb (hbase hs)

/-- The charge of an accepted image is far below the largest `size_t`. -/
theorem charge_le {values : AttributeStruct} {n : Nat} (hn : nodesEntries values ≤ 4096)
    (hs : 23 + (wireEntries values).length ≤ limit)
    (hc : n + 256 = 23 + (wireEntries values).length + 256 + attributeImageBytes values) : n ≤ maxSize := by
  have := attributeImageBytes_le values
  simp only [limit] at hs
  unfold maxSize
  omega

/-- A snapshot is stored as it is. -/
theorem apply_snapshot (hi : replica.initialized = true) (hrev : replica.revision ≤ next.update.revision) :
    ∃ r', replica.apply next.update = .ok (true, r') ∧ r'.Holds next.update := by
  have hn := next.nodes_le
  have hs := next.size_le
  have hbytes := attributeImageBytes_le next.update.values
  have hsize : attributeWireSize next.update = .ok (23 + (wireEntries next.update.values).length) := by
    rw [attributeWireSize_eq_ok]
    refine ⟨next.isAccepted, ?_⟩
    simp only [updateBody, next.patches_nil, if_true, append_nil, length_append, header_length]
    omega
  have hadm : replica.admits next.update = .ok true :=
    admits_of next.isAccepted hi (by rw [next.snapshot]; intro hf; cases hf) hrev
  unfold apply applyWithin
  rw [hadm, ok_bind, next.patches_nil]
  simp only [Bool.true_eq_false, if_false, isEmpty_nil, if_true]
  unfold store charge
  rw [next.snapshot, if_pos rfl, hsize]
  simp only [ok_bind, if_true]
  rw [pure_eq_ok, ok_bind, refuseIf_of_not _ (by unfold maxSize; simp only [limit] at hs; omega), ok_bind, pure_eq_ok,
    ok_bind]
  refine ⟨_, rfl, rfl, rfl, (sameEntries_image next).2 rfl, next.sorted, next.ordered.deep⟩

/-- Storing values that complete the held image to the next one. -/
theorem store_overlay {m : AttributeStruct} (hs : Sorted replica.values)
    (ho : ∀ e ∈ replica.values, e.2.Ordered) (hms : Sorted m) (hmo : ∀ e ∈ m, e.2.Ordered)
    (hoverlay : canonEntries (overlay replica.values m) = canonEntries next.update.values) (update : AttributeUpdate)
    (hsnap : update.snapshot = false) (hvalues : update.values = m) (hrev : update.revision = next.update.revision) :
    ∃ r', replica.store update maxSize = .ok r' ∧ r'.Holds next.update := by
  have hwithin : Within (overlay replica.values m) next.update.values := by
    refine ⟨sorted_overlay hs, fun k v hk => ?_⟩
    have hlook := find_canon_eq hoverlay k
    rw [hk, Option.map_some, eq_comm, Option.map_eq_some_iff] at hlook
    obtain ⟨w, hw, hc⟩ := hlook
    exact ⟨w, hw, hc.symm⟩
  have hfits := hwithin.imageFits next.sorted next.imageFits next.imageFits.base_le next.imageFits.base_zero
  have hnodes := le_trans (hwithin.nodes_le next.sorted) next.nodes_le
  have hsize : 23 + (wireEntries (overlay replica.values m)).length ≤ limit := by
    have h1 := hwithin.wire_le next.sorted
    have h2 := next.size_le
    omega
  obtain ⟨n, hn, hsum⟩ := validateFields_ok hfits.names hfits.deep ⟨23⟩ 256 0 4096 (by simpa using hfits.count) hnodes
    hsize
  have hcharge : replica.charge update = .ok n := by
    rw [charge, hsnap, if_neg (by simp), hvalues, validateOverlay, mergeFields_eq_overlay hs hms, hn]
  have hordered : ∀ e ∈ overlay replica.values m, e.2.Ordered := by
    intro e he
    have hf := find_of_mem (sorted_overlay hs) he
    rw [find_overlay hms, Option.or_eq_some_iff] at hf
    rcases hf with hf | ⟨-, hf⟩
    · exact hmo _ (find_mem hf)
    · exact ho _ (find_mem hf)
  unfold store
  rw [hcharge, ok_bind, refuseIf_of_not _ (not_lt.2 (charge_le hnodes hsize hsum)), ok_bind, hsnap, hvalues]
  exact ⟨_, rfl, rfl, hrev, (sameEntries_image next).2 hoverlay, sorted_overlay hs, hordered⟩

/-- A bridge within the encoder's limits leads from the held image to the next. -/
theorem apply_bridge {whole : Bytes × AttributeValue → Bool} {edits : Bytes × AttributeValue → List AttributePatch}
    (hr : replica.Holds previous.update) (hrev : previous.update.revision ≤ next.update.revision)
    (hkeys : ∀ k, (find k previous.update.values).isSome = true →
      (find k next.update.values).isSome = true)
    (h : Bridges previous.update next.update whole edits)
    (hacc : Accepted (bridge previous.update next.update whole edits)) :
    ∃ r', replica.apply (bridge previous.update next.update whole edits) = .ok (true, r') ∧ r'.Holds next.update := by
  have hcanon := hr.canon_eq
  have hheld : ∀ k old, find k previous.update.values = some old →
      ∃ t, find k replica.values = some t ∧ t.Ordered ∧ t.canon = old.canon := by
    intro k old hk
    have hlook := find_canon_eq hcanon k
    rw [hk, Option.map_some, Option.map_eq_some_iff] at hlook
    obtain ⟨t, ht, hc⟩ := hlook
    exact ⟨t, ht, hr.ordered _ (find_mem ht), hc⟩
  have hstart : Stage previous.update next.update whole next.update.values (next.update.values.filter whole) := by
    refine ⟨(next.within_filter whole).sorted, fun e he => next.ordered.deep e (mem_of_mem_filter he),
      (next.within_filter whole).lookups, fun e he hw => ?_, fun e he hn => absurd he hn, fun e he hw => ?_⟩
    · rw [find_filter next.sorted, find_of_mem next.sorted he]; simp [Option.filter, hw]
    · rw [find_filter next.sorted, find_of_mem next.sorted he]; simp [Option.filter, hw]
  obtain ⟨m, hrun, hm⟩ := materialize_stage h hheld _ _ (List.Sublist.refl _) hstart
  -- the stored image has the lookups of the next one
  have hwithin : Within m next.update.values := ⟨hm.sorted, hm.lookups⟩
  have hoverlay : canonEntries (overlay replica.values m) = canonEntries next.update.values := by
    refine canonEntries_ext (sorted_overlay hr.sorted) next.sorted fun k => ?_
    rw [find_overlay hm.sorted]
    cases hk : find k m with
    | some v =>
      obtain ⟨w, hw, hc⟩ := hm.lookups k v hk
      rw [hw]
      simp [hc]
    | none =>
      rw [Option.none_or, find_canon_eq hcanon]
      cases hn : find k next.update.values with
      | some w =>
        obtain ⟨_, hold, hc⟩ := hm.behind (k, w) (find_mem hn) (by simp) hk
        simp only at hold
        rw [hold]
        simp [hc]
      | none =>
        cases hp : find k previous.update.values with
        | none => rfl
        | some => simpa [hp, hn] using hkeys k
  have hadm : replica.admits (bridge previous.update next.update whole edits) = .ok true :=
    admits_of hacc hr.initialized (fun _ => hr.revision.symm) (hr.revision ▸ hrev)
  unfold apply applyWithin
  rw [hadm, ok_bind]
  simp only [Bool.true_eq_false, if_false]
  split_ifs with hempty
  · -- no patches: the record's own values are stored
    have hnil : next.update.values.flatMap edits = [] := List.isEmpty_iff.1 hempty
    rw [hnil] at hrun
    cases hrun
    obtain ⟨r', hstore, hholds⟩ := store_overlay hr.sorted hr.ordered hm.sorted hm.ordered hoverlay
      (bridge previous.update next.update whole edits) rfl rfl rfl
    exact ⟨r', by rw [hstore]; rfl, hholds⟩
  · simp only [bridge]
    rw [hrun, ok_bind, admits_of (within_accepted hwithin hrev) hr.initialized (fun _ => hr.revision.symm)
      (hr.revision ▸ hrev)]
    simp only [ok_bind, Bool.true_eq_false, if_false]
    obtain ⟨r', hstore, hholds⟩ := store_overlay hr.sorted hr.ordered hm.sorted hm.ordered hoverlay
      { base := previous.update.revision, revision := next.update.revision, snapshot := false, values := m } rfl rfl rfl
    exact ⟨r', by rw [hstore]; rfl, hholds⟩

end AttributeReplica

end Fsnet
