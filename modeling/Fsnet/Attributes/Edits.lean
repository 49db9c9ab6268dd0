import Fsnet.Attributes.Canon
import Fsnet.Attributes.Decoding
import Fsnet.Attributes.Replica
/-!
# The edits lead from one value to the other

`diff_fields` returns patches that, run one after another on any value `==` to
the old one, give a value `==` to the new one; and each of them is small enough
that pricing it never fails. Both hold for whichever representation the costs
select.
-/

namespace Fsnet

open Lib AttributeValue Entries List

/-! ## Running patches -/

/-- The patch seen from further up. -/
def AttributePatch.under (path : List PathPart) (patch : AttributePatch) : AttributePatch :=
  { patch with path := path ++ patch.path }

theorem map_under_under (p q : List PathPart) (patches : List AttributePatch) :
    (patches.map (AttributePatch.under q)).map (AttributePatch.under p) =
      patches.map (AttributePatch.under (p ++ q)) := by
  simp [AttributePatch.under, Function.comp_def]

/-- Patches of one property, run one after another on its value. -/
def runPatches (target : AttributeValue) : List AttributePatch → Except Failure AttributeValue
  | [] => pure target
  | patch :: rest => do
    let target ← applyPatch patch target
    runPatches target rest

theorem runPatches_append {t t' : AttributeValue} {p q : List AttributePatch} (h : runPatches t p = .ok t') :
    runPatches t (p ++ q) = runPatches t' q := by
  induction p generalizing t with
  | nil => cases h; rfl
  | cons _ _ ih =>
    simp only [runPatches, bind_eq_ok] at h
    obtain ⟨_, h1, h2⟩ := h
    rw [cons_append, runPatches, h1, ok_bind, ih h2]

variable {entries : AttributeStruct} {v : AttributeValue}

theorem lookup_of_find {k : Bytes} (h : find k entries = some v) : lookup k entries = .ok v := by
  simp [lookup, h]

/-- What structures and maps have in common: a path goes down to the value under its key. -/
def Keyed (wrap : AttributeStruct → AttributeValue) : Prop :=
  ∀ edit key path entries, patchTarget edit (.key key :: path) (wrap entries) = (do
    let child ← lookup key entries
    let child ← patchTarget edit path child
    pure (wrap (Entries.insert key child entries)))

/-- Patches below a key of a structure or a map edit the value under that key. -/
theorem runPatches_key {wrap : AttributeStruct → AttributeValue} {key : Bytes} {child child' : AttributeValue}
    {patches : List AttributePatch} (hw : Keyed wrap) (hs : Sorted entries) (hf : find key entries = some child)
    (h : runPatches child patches = .ok child') :
    runPatches (wrap entries) (patches.map (AttributePatch.under [.key key])) =
      .ok (wrap (Entries.insert key child' entries)) := by
  induction patches generalizing entries child with
  | nil =>
    cases h
    rw [insert_of_find hs hf]
    rfl
  | cons patch _ ih =>
    simp only [runPatches, bind_eq_ok] at h
    obtain ⟨c, h1, h2⟩ := h
    have hstep : applyPatch (patch.under [.key key]) (wrap entries) = .ok (wrap (Entries.insert key c entries)) := by
      have h1 : patchTarget (editTarget (patch.under [.key key])) patch.path child = .ok c := h1
      simp only [applyPatch, AttributePatch.under, singleton_append]
      rw [hw, lookup_of_find hf, ok_bind]
      exact congrArg (· >>= _) h1
    rw [map_cons, runPatches, hstep, ok_bind,
      ih (sorted_insert _ _ hs) (find_insert_self _ _ _) h2, insert_insert _ _ hs]

variable {items : List AttributeValue}

/-- Patches below an array item edit that item. -/
theorem runPatches_item {i : Nat} {child child' : AttributeValue}
    {patches : List AttributePatch} (hf : items[i]? = some child) (h : runPatches child patches = .ok child') :
    runPatches (.array items) (patches.map (AttributePatch.under [.index i])) = .ok (.array (items.set i child')) := by
  induction patches generalizing items child with
  | nil =>
    cases h
    obtain ⟨hi, rfl⟩ := List.getElem?_eq_some_iff.1 hf
    rw [set_getElem_self]
    rfl
  | cons patch _ ih =>
    simp only [runPatches, bind_eq_ok] at h
    obtain ⟨c, h1, h2⟩ := h
    have hi : i < items.length := (List.getElem?_eq_some_iff.1 hf).1
    have hstep : applyPatch (patch.under [.index i]) (.array items) = .ok (.array (items.set i c)) := by
      have h1 : patchTarget (editTarget (patch.under [.index i])) patch.path child = .ok c := h1
      simp only [applyPatch, AttributePatch.under, singleton_append, patchTarget, arrayOf, pure_eq_ok, ok_bind,
        itemAt, hf]
      exact congrArg (· >>= _) h1
    rw [map_cons, runPatches, hstep, ok_bind, ih (getElem?_set_self hi) h2, set_set]

/-- The patches turn any value `==` to `before` into one `==` to `after`. -/
def Turns (patches : List AttributePatch) (before after : AttributeValue) : Prop :=
  ∀ t : AttributeValue, t.Ordered → t.canon = before.canon →
    ∃ t', runPatches t patches = .ok t' ∧ t'.Ordered ∧ t'.canon = after.canon

theorem turns_nil {before after : AttributeValue} (h : before.canon = after.canon) : Turns [] before after :=
  fun t ho ht => ⟨t, rfl, ho, ht.trans h⟩

theorem turns_replacement (property : Bytes) (before after : AttributeValue) (ho : after.Ordered) :
    Turns [{ property, replace := true, value := some after }] before after :=
  fun _ _ _ => ⟨after, rfl, ho, rfl⟩

/-! ## What a patch may cost -/

/-- A patch the encoder accepts on its own, so that `patch_cost` does not fail. -/
structure Cheap (patch : AttributePatch) : Prop where
  fits : PatchFits patch
  nodes : editNodes patch ≤ 4096
  size : (patchWire true patch).length ≤ limit

theorem patchCost_ok {patch : AttributePatch} (h : Cheap patch) : ∃ n, patchCost patch = .ok n := by
  have hs : Output.size (SizeOnly.mk 0) + (patchWire true patch).length ≤ limit := by
    rw [show Output.size (SizeOnly.mk 0) = 0 from rfl]
    have := h.size
    omega
  unfold patchCost
  rw [encodePatch_ok h.fits true (SizeOnly.mk 0) 4096 h.nodes hs]
  exact ⟨_, rfl⟩

theorem totalCost_ok {edits : List AttributePatch} (h : ∀ e ∈ edits, Cheap e) : ∃ n, totalCost edits = .ok n := by
  induction edits with
  | nil => exact ⟨0, rfl⟩
  | cons e _ ih =>
    obtain ⟨m, hm⟩ := patchCost_ok (h e mem_cons_self)
    obtain ⟨n, hn⟩ := ih fun e he => h e (mem_cons_of_mem _ he)
    exact ⟨m + n, by rw [totalCost, hm, ok_bind, hn]; rfl⟩

/-- The choice never fails: it is the whole, or edits that are neither empty nor too many. -/
theorem cheaper_ok {whole : AttributePatch} {edits : List AttributePatch} (hw : Cheap whole)
    (h : ∀ e ∈ edits, Cheap e) :
    cheaper whole edits = .ok [whole] ∨ (cheaper whole edits = .ok edits ∧ edits ≠ [] ∧ edits.length ≤ 256) := by
  obtain ⟨cost, hc⟩ := totalCost_ok h
  obtain ⟨single, hs⟩ := patchCost_ok hw
  unfold cheaper
  rw [hc, ok_bind]
  split_ifs with hempty
  · exact .inl rfl
  rw [hs, ok_bind]
  split_ifs
  · exact .inl rfl
  · have hne : edits ≠ [] := fun he => hempty (.inl (by simp [he]))
    exact .inr ⟨rfl, hne, by omega⟩

/-- A value at a path below a property, with room for any patch that mentions it. -/
structure Located (property : Bytes) (path : List PathPart) (v : AttributeValue) : Prop where
  name : validName property = true
  path_valid : ∀ part ∈ path, part.Valid
  fits : v.Fits path.length
  ordered : v.Ordered
  nodes : v.nodes ≤ 4096
  room : property.length + (pathWire path).length + v.wire.length + 10 ≤ limit

theorem validKey_of_validName {name : Bytes} (h : validName name = true) : validKey name = true := by
  simp only [validName, Bool.and_eq_true] at h
  simp only [validKey, Bool.and_eq_true]
  exact ⟨h.1.1.1, h.2⟩

theorem wireEntries_mem {k : Bytes} (h : (k, v) ∈ entries) :
    1 + k.length + v.wire.length ≤ (wireEntries entries).length ∧ v.nodes ≤ nodesEntries entries := by
  induction entries with
  | nil => cases h
  | cons e rest ih =>
    simp only [wireEntries, nodesEntries, length_append, bigEndian_length]
    rcases mem_cons.1 h with rfl | h
    · simp only; omega
    · have := ih h; omega

theorem wireItems_mem (h : v ∈ items) :
    v.wire.length ≤ (wireItems items).length ∧ v.nodes ≤ nodesItems items := by
  induction items with
  | nil => cases h
  | cons w rest ih =>
    simp only [wireItems, nodesItems, length_append]
    rcases mem_cons.1 h with rfl | h
    · omega
    · have := ih h; omega

section located

variable {property : Bytes} {path : List PathPart}

variable {entries : AttributeStruct} {k : Bytes} {v : AttributeValue}

/-- A child is at the path one part longer. -/
theorem Located.child {w : AttributeValue} {part : PathPart} (h : Located property path w) (hp : part.Valid)
    (hf : v.Fits (path.length + 1)) (ho : v.Ordered) (hn : v.nodes ≤ w.nodes)
    (hw : part.wire.length + v.wire.length ≤ w.wire.length) : Located property (path ++ [part]) v := by
  have hnodes := h.nodes
  have hroom := h.room
  refine ⟨h.name, ?_, by simpa using hf, ho, by omega, ?_⟩
  · rw [forall_mem_append]
    exact ⟨h.path_valid, by simpa using hp⟩
  · simp only [pathWire_append, pathWire, length_append, length_nil]
    omega

theorem Located.field (h : Located property path (.fields entries))
    (hm : (k, v) ∈ entries) : Located property (path ++ [.key k]) v := by
  have hfits := h.fits
  have hord := h.ordered
  cases hfits with | fields _ _ _ names deep =>
  cases hord with | fields _ odeep =>
  obtain ⟨hw, hn⟩ := wireEntries_mem hm
  refine h.child (validKey_of_validName (names _ hm)) (deep _ hm) (odeep _ hm) ?_ ?_
  all_goals
    simp only [wire, PathPart.wire, AttributeValue.nodes, length_append, bigEndian_length]
    omega

theorem Located.entry (h : Located property path (.map entries))
    (hm : (k, v) ∈ entries) : Located property (path ++ [.key k]) v := by
  have hfits := h.fits
  have hord := h.ordered
  cases hfits with | map _ _ keys deep =>
  cases hord with | map _ odeep =>
  obtain ⟨hw, hn⟩ := wireEntries_mem hm
  refine h.child (keys _ hm) (deep _ hm) (odeep _ hm) ?_ ?_
  all_goals
    simp only [wire, PathPart.wire, AttributeValue.nodes, length_append, bigEndian_length]
    omega

theorem Located.item (h : Located property path (.array items)) {i : Nat}
    (hm : items[i]? = some v) : Located property (path ++ [.index i]) v := by
  have hfits := h.fits
  have hord := h.ordered
  cases hfits with | array _ hl deep =>
  cases hord with | array odeep =>
  have hv : v ∈ items := mem_of_getElem? hm
  have hi : i < items.length := (List.getElem?_eq_some_iff.1 hm).1
  obtain ⟨hw, hn⟩ := wireItems_mem hv
  refine h.child (show i < _ by omega) (deep _ hv) (odeep _ hv) ?_ ?_
  all_goals
    simp only [wire, PathPart.wire, AttributeValue.nodes, length_append, bigEndian_length]
    omega

/-- A patch of the property that is cheap and whose maps are in order. -/
structure Good (property : Bytes) (patch : AttributePatch) : Prop where
  cheap : Cheap patch
  ordered : PatchOrdered patch
  property_eq : patch.property = property

theorem Located.replacement (h : Located property path v) :
    Good property { property, path, replace := true, value := some v } where
  cheap :=
    { fits := ⟨h.name, h.fits.depth_le, h.path_valid, .replacement h.fits⟩
      nodes := h.nodes
      size := by
        have := h.room
        simp only [patchWire, editWire, if_true, Option.elim_some, length_append, bigEndian_length]
        omega }
  ordered := ⟨by simpa using h.ordered, by simp⟩
  property_eq := rfl

theorem Located.erase (h : Located property path (.map entries))
    (hm : (k, v) ∈ entries) : Good property { property, path, map := true, key := k } := by
  obtain ⟨hname, hvalid, hfits, hord, hnodes, hroom⟩ := h
  cases hfits with | map hd _ keys _ =>
  obtain ⟨hw, -⟩ := wireEntries_mem hm
  refine ⟨⟨⟨hname, hd, hvalid, .assign (keys _ hm) (by simp)⟩, by simp [editNodes], ?_⟩, ⟨by simp, by simp⟩, rfl⟩
  simp only [wire, length_append, bigEndian_length] at hroom
  simp only [patchWire, editWire, if_true, Bool.false_eq_true, if_false, Option.elim_none, length_append,
    bigEndian_length, length_nil]
  omega

theorem Located.assign (h : Located property path (.map entries))
    (hm : (k, v) ∈ entries) : Good property (assignPatch property path k v) := by
  obtain ⟨hname, hvalid, hfits, hord, hnodes, hroom⟩ := h
  cases hfits with | map hd _ keys deep =>
  cases hord with | map _ odeep =>
  obtain ⟨hw, hn⟩ := wireEntries_mem hm
  simp only [wire, AttributeValue.nodes, length_append, bigEndian_length] at hnodes hroom
  refine ⟨⟨⟨hname, hd, hvalid, .assign (keys _ hm) (by simpa using deep _ hm)⟩, ?_, ?_⟩,
    ⟨by simpa [assignPatch] using odeep _ hm, by simp [assignPatch]⟩, rfl⟩
  · simp only [assignPatch, editNodes, Bool.false_or, if_true, Option.elim_some]
    omega
  · simp only [assignPatch, patchWire, editWire, if_true, Bool.false_eq_true, if_false, Option.elim_some,
      length_append, bigEndian_length]
    omega

theorem wireItems_sublist {l m : List AttributeValue} (h : l.Sublist m) :
    (wireItems l).length ≤ (wireItems m).length ∧ nodesItems l ≤ nodesItems m := by
  induction h with
  | slnil => simp
  | cons | cons_cons => simp only [wireItems, nodesItems, length_append]; omega

theorem commonLead_le (before after : List AttributeValue) :
    commonLead before after ≤ before.length ∧ commonLead before after ≤ after.length := by
  induction before generalizing after with
  | nil => simp [commonLead]
  | cons v rest ih =>
    cases after with
    | nil => simp [commonLead]
    | cons w rest' =>
      have := ih rest'
      simp only [commonLead, length_cons]
      split_ifs <;> omega

theorem commonLead_canon (before : List AttributeValue) {after : List AttributeValue} (ha : ∀ v ∈ after, v.Finite) :
    (before.take (commonLead before after)).map canon = (after.take (commonLead before after)).map canon := by
  induction before generalizing after with
  | nil => simp [commonLead]
  | cons _ _ ih =>
    cases after with
    | nil => simp [commonLead]
    | cons =>
      rw [forall_mem_cons] at ha
      rw [commonLead]
      split_ifs with hs
      · simp only [take_succ_cons, map_cons]
        rw [(same_iff ha.1).1 hs, ih ha.2]
      · simp

theorem commonTail_le (before after : List AttributeValue) (lead : Nat) :
    commonTail before after lead ≤ before.length - lead ∧ commonTail before after lead ≤ after.length - lead := by
  have := commonLead_le (before.drop lead).reverse (after.drop lead).reverse
  simpa [commonTail] using this

theorem commonTail_canon (before : List AttributeValue) {after : List AttributeValue} (ha : ∀ v ∈ after, v.Finite)
    (lead : Nat) :
    (before.drop (before.length - commonTail before after lead)).map canon =
      (after.drop (after.length - commonTail before after lead)).map canon := by
  have ha' : ∀ v ∈ (after.drop lead).reverse, v.Finite :=
    fun v hv => ha v (mem_of_mem_drop (mem_reverse.1 hv))
  have h := commonLead_canon (before.drop lead).reverse ha'
  obtain ⟨h1, h2⟩ := commonTail_le before after lead
  rw [← commonTail] at h
  rw [take_reverse, take_reverse, map_reverse, map_reverse, reverse_inj, drop_drop,
    drop_drop, length_drop, length_drop] at h
  generalize commonTail before after lead = tail at h h1 h2 ⊢
  by_cases hl : lead ≤ before.length ∧ lead ≤ after.length
  · rwa [show lead + (before.length - lead - tail) = before.length - tail by omega,
      show lead + (after.length - lead - tail) = after.length - tail by omega] at h
  -- past the end of one side nothing is left to compare
  have ht : tail = 0 := by omega
  subst ht
  simp

/-- Vectors that agree, up to `==`, in their first and their last items. -/
structure Ends (old value : List AttributeValue) (lead tail : Nat) : Prop where
  old_le : lead + tail ≤ old.length
  value_le : lead + tail ≤ value.length
  lead : (old.take lead).map canon = (value.take lead).map canon
  tail : (old.drop (old.length - tail)).map canon = (value.drop (value.length - tail)).map canon

theorem Located.ends {value : List AttributeValue} (h : Located property path (.array value))
    (old : List AttributeValue) :
    Ends old value (commonLead old value) (commonTail old value (commonLead old value)) := by
  have hfits := h.fits
  cases hfits with | array _ _ deep =>
  have hfin : ∀ v ∈ value, v.Finite := fun v hv => (deep v hv).finite
  have hlead := commonLead_le old value
  have htail := commonTail_le old value (commonLead old value)
  exact ⟨by omega, by omega, commonLead_canon old hfin, commonTail_canon old hfin _⟩

theorem Located.splice {old value : List AttributeValue} (h : Located property path (.array old))
    (h' : Located property path (.array value)) : Good property (splicePatch property path old value) := by
  obtain ⟨hname, hvalid, hfits, -, -, -⟩ := h
  obtain ⟨-, -, hfits', hord', hnodes, hroom⟩ := h'
  cases hfits with | array hd hl _ =>
  cases hfits' with | array _ hl' deep =>
  cases hord' with | array odeep =>
  have hlead := commonLead_le old value
  have hsub : ((value.drop (commonLead old value)).take
      (value.length - commonLead old value - commonTail old value (commonLead old value))).Sublist value :=
    (take_sublist _ _).trans (drop_sublist _ _)
  obtain ⟨hw, hn⟩ := wireItems_sublist hsub
  simp only [wire, AttributeValue.nodes, length_append, bigEndian_length] at hnodes hroom
  refine ⟨⟨⟨hname, hd, hvalid, ?_⟩, ?_, ?_⟩, ⟨by simp [splicePatch], fun v hv => odeep v (hsub.subset hv)⟩, rfl⟩
  · refine .splice (by omega) (by omega) ?_ (fun v hv => deep v (hsub.subset hv))
    exact le_trans hsub.length_le hl'
  · simp only [splicePatch, editNodes, Bool.or_false, Bool.false_eq_true, if_false]
    omega
  · simp only [splicePatch, patchWire, editWire, if_true, Bool.false_eq_true, if_false, length_append,
      bigEndian_length]
    omega

theorem canon_eq_array {t : AttributeValue} (h : t.canon = (AttributeValue.array items).canon) :
    ∃ items', t = .array items' ∧ items'.map canon = items.map canon := by
  cases t <;> simp only [canon, reduceCtorEq, AttributeValue.array.injEq, canonItems_eq] at h
  exact ⟨_, rfl, h⟩

/-- The splice leads from one vector to the other. -/
theorem turns_splice {old value : List AttributeValue} (h : Located property path (.array old))
    (h' : Located property path (.array value)) :
    Turns [splicePatch property [] old value] (.array old) (.array value) := by
  intro t ho ht
  obtain ⟨items, rfl, hitems⟩ := canon_eq_array ht
  have hfits := h.fits
  have hfits' := h'.fits
  cases hfits with | array _ hl _ =>
  cases hfits' with | array _ hl' _ =>
  obtain ⟨hle, hle', hlead, htail⟩ := h'.ends old
  have hlen : items.length = old.length := by simpa using congrArg List.length hitems
  unfold splicePatch
  simp only
  generalize commonLead old value = lead at *
  generalize commonTail old value lead = tail at *
  have hinsert : ((value.drop lead).take (value.length - lead - tail)).length = value.length - lead - tail := by
    rw [length_take, length_drop]; omega
  have hdrop : lead + (old.length - lead - tail) = old.length - tail := by omega
  refine ⟨.array (items.take lead ++ (value.drop lead).take (value.length - lead - tail) ++
    items.drop (old.length - tail)), ?_, ?_, ?_⟩
  · simp only [runPatches, applyPatch, patchTarget, editTarget, Bool.false_eq_true, if_false, arrayOf, pure_eq_ok,
      ok_bind, hinsert, hdrop]
    rw [refuseIf_of_not _ (by omega)]
    rfl
  · cases ho with | array hdeep =>
    have hordv := h'.ordered
    cases hordv with | array hdeep' =>
    refine .array fun v hv => ?_
    simp only [mem_append] at hv
    rcases hv with (hv | hv) | hv
    · exact hdeep v (mem_of_mem_take hv)
    · exact hdeep' v (mem_of_mem_drop (mem_of_mem_take hv))
    · exact hdeep v (mem_of_mem_drop hv)
  · -- the ends agree up to `==` and the middle is taken from the new vector
    have hvalue : value = value.take lead ++ ((value.drop lead).take (value.length - lead - tail) ++
        value.drop (value.length - tail)) := by
      have h1 : value.drop (value.length - tail) = (value.drop lead).drop (value.length - lead - tail) := by
        rw [drop_drop]; congr 1; omega
      rw [h1, take_append_drop, take_append_drop]
    simp only [canon, canonItems_eq, AttributeValue.array.injEq]
    conv_rhs => rw [hvalue]
    simp only [map_append, map_take, map_drop, append_assoc] at hlead htail ⊢
    rw [hitems, hlead, htail]

end located

end Fsnet
