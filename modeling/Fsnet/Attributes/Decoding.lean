import Fsnet.Attributes.Encoding
/-!
# Reading back what the encoder wrote

On the bytes of an accepted update the decoder returns that update: part by
part, each reader gives back the part it was written from and leaves the bytes
that follow.
-/

namespace Fsnet

open Lib AttributeValue List

theorem readUint_append (short : Failure) {field : Bytes} {count : Nat} (h : field.length = count) (rest : Bytes) :
    readUint short (field ++ rest) count = .ok (ofBigEndian field, rest) := by
  unfold readUint
  rw [refuseIf_of_not _ (by simp [h]), ok_bind, take_left' h, drop_left' h]
  rfl

theorem readUint_wire (short : Failure) {count n : Nat} (h : n < 256 ^ count) (rest : Bytes) :
    readUint short (bigEndian count n ++ rest) count = .ok (n, rest) := by
  rw [readUint_append short (bigEndian_length count n), ofBigEndian_bigEndian, Nat.mod_eq_of_lt h]

theorem readUint_eq_ok {short : Failure} {input rest : Bytes} {count n : Nat}
    (h : readUint short input count = .ok (n, rest)) : input.length = count + rest.length ∧ n < 256 ^ count := by
  unfold readUint at h
  rw [refuseIf_bind_eq_ok, pure_ok_iff, Prod.mk.injEq] at h
  obtain ⟨hl, rfl, rfl⟩ := h
  have htake : (input.take count).length = count := length_take_of_le (by omega)
  refine ⟨by rw [length_drop]; omega, ?_⟩
  have hlt := ofBigEndian_lt (input.take count)
  rwa [htake] at hlt

theorem get_bigEndian (count n : Nat) (rest : Bytes) (h : n < 256 ^ count) :
    get (bigEndian count n ++ rest) count = .ok (n, rest) :=
  readUint_wire _ h rest

theorem get_uint64 (n : UInt64) (rest : Bytes) : get (bigEndian 8 n.toNat ++ rest) 8 = .ok (n.toNat, rest) :=
  get_bigEndian 8 n.toNat rest n.toNat_lt

theorem validName.length_le {name : Bytes} (h : validName name = true) : name.length ≤ 127 := by
  simp only [validName, Bool.and_eq_true, decide_eq_true_eq] at h
  exact h.1.1.1.2

variable {key : Bytes} {v : AttributeValue} {depth : Nat} {paths : Bool} {patch : AttributePatch}
  {update : AttributeUpdate}

theorem validKey.length_le (h : validKey key = true) : key.length ≤ 127 := by
  simp only [validKey, Bool.and_eq_true, decide_eq_true_eq] at h
  exact h.1.2

theorem validKey.ne_nil (h : validKey key = true) : key ≠ [] := by
  rintro rfl
  cases h

theorem readName_wire {name : Bytes} (h : validName name = true) (text : String) (rest : Bytes) :
    readName text (bigEndian 1 name.length ++ (name ++ rest)) = .ok (name, rest) := by
  have := validName.length_le h
  unfold readName
  rw [get_bigEndian _ _ _ (by omega)]
  simp only [ok_bind]
  rw [refuseIf_of_not _ (by simp), ok_bind, take_left' rfl, drop_left' rfl, (checkName_eq_ok (u := ())).2 h]
  rfl

theorem readKey_wire (h : validKey key = true) (bounds text : String) (rest : Bytes) :
    readKey bounds text (bigEndian 1 key.length ++ (key ++ rest)) = .ok (key, rest) := by
  have hl := validKey.length_le h
  have h0 : key.length ≠ 0 := by simpa using validKey.ne_nil h
  unfold readKey
  rw [get_bigEndian _ _ _ (by omega)]
  simp only [ok_bind]
  rw [refuseIf_of_not _ (by rw [length_append]; omega), ok_bind, take_left' rfl, drop_left' rfl,
    (checkKeyAs_eq_ok (u := ())).2 h]
  rfl

/-! ## Values -/

/-- A decoder of children that gives back `v` from its bytes. -/
def ReadsBack (decodeChild : Bytes → Nat → Except Failure (AttributeValue × Bytes × Nat)) (v : AttributeValue) : Prop :=
  ∀ (rest : Bytes) (remaining : Nat), v.nodes ≤ remaining →
    decodeChild (v.wire ++ rest) remaining = .ok (v, rest, remaining - v.nodes)

theorem decodeEntries_wire {readKey : Bytes → Except Failure (Bytes × Bytes)} {duplicate : String}
    {decodeChild : Bytes → Nat → Except Failure (AttributeValue × Bytes × Nat)} {entries : AttributeStruct}
    (hk : ∀ e ∈ entries, ∀ rest, readKey (bigEndian 1 e.1.length ++ (e.1 ++ rest)) = .ok (e.1, rest))
    (hv : ∀ e ∈ entries, ReadsBack decodeChild e.2) (out : AttributeStruct)
    (hs : Entries.Sorted (out ++ entries)) (rest : Bytes) (remaining : Nat) (hn : nodesEntries entries ≤ remaining) :
    decodeEntries readKey duplicate decodeChild entries.length out (wireEntries entries ++ rest) remaining =
      .ok (out ++ entries, rest, remaining - nodesEntries entries) := by
  induction entries generalizing out remaining with
  | nil => simp [decodeEntries, wireEntries, nodesEntries]
  | cons e entries ih =>
    obtain ⟨key, child⟩ := e
    simp only [nodesEntries] at hn
    -- keys arrive in order, so each one is new and goes to the end
    have hlt : ∀ e ∈ out, e.1 < key := by
      intro e he
      exact (pairwise_append.1 hs).2.2 e he (key, child) mem_cons_self
    have hnew : Entries.find key out = none := by
      cases hf : Entries.find key out with
      | none => rfl
      | some => exact absurd (hlt _ (Entries.find_mem hf)) (lt_irrefl key)
    simp only [length_cons, decodeEntries, wireEntries, append_assoc]
    rw [hk _ mem_cons_self]
    simp only [ok_bind]
    rw [hv _ mem_cons_self _ _ (by simp only; omega)]
    simp only [ok_bind]
    rw [refuseIf_of_not _ (by simp [hnew]), ok_bind, Entries.insert_last _ _ _ hlt,
      ih (fun e he => hk e (mem_cons_of_mem _ he)) (fun e he => hv e (mem_cons_of_mem _ he)) _
        (by simpa using hs) _ (by omega)]
    simp [nodesEntries, Nat.sub_sub]

theorem decodeItems_wire {decodeChild : Bytes → Nat → Except Failure (AttributeValue × Bytes × Nat)}
    {items : List AttributeValue} (hv : ∀ v ∈ items, ReadsBack decodeChild v) (out : List AttributeValue)
    (rest : Bytes) (remaining : Nat) (hn : nodesItems items ≤ remaining) :
    decodeItems decodeChild items.length out (wireItems items ++ rest) remaining =
      .ok (out ++ items, rest, remaining - nodesItems items) := by
  induction items generalizing out remaining with
  | nil => simp [decodeItems, wireItems, nodesItems]
  | cons child items ih =>
    simp only [nodesItems] at hn
    simp only [length_cons, decodeItems, wireItems, append_assoc]
    rw [hv _ mem_cons_self _ _ (by omega)]
    simp only [ok_bind]
    rw [ih (fun v h => hv v (mem_cons_of_mem _ h)) _ _ (by omega)]
    simp [nodesItems, Nat.sub_sub]

theorem index_lt (v : AttributeValue) : v.index < 256 ^ 1 := by
  cases v <;> simp [index]

/-- A value whose body is read back after its tag is read back. -/
theorem readsBack_of_body {body : Bytes} (hd : depth ≤ 8) (hw : v.wire = bigEndian 1 v.index ++ body)
    (hb : ∀ (rest : Bytes) (remaining : Nat), v.nodes ≤ remaining + 1 →
      decodeBody (decodeLevels (9 - (depth + 1))) v.index (body ++ rest) remaining =
        .ok (v, rest, remaining + 1 - v.nodes)) :
    ReadsBack (decodeLevels (9 - depth)) v := by
  intro rest remaining hn
  have hp := v.nodes_pos
  obtain ⟨m, rfl⟩ : ∃ m, remaining = m + 1 := ⟨remaining - 1, by omega⟩
  have hlevels : 9 - depth = (9 - (depth + 1)) + 1 := by omega
  rw [hw, append_assoc, hlevels, decodeLevels, refuseIf_of_not _ (by omega), ok_bind,
    get_bigEndian _ _ _ (index_lt v)]
  exact hb rest m hn

/-- The decoder gives back a value from its bytes. -/
theorem decodeLevels_wire (h : v.Fits depth) (ho : v.Ordered) : ReadsBack (decodeLevels (9 - depth)) v := by
  induction h with
  | integer hd =>
    refine readsBack_of_body hd rfl fun rest remaining hn => ?_
    rw [index, decodeBody, get_uint64]
    simp only [ok_bind, UInt64.ofNat_toNat]
    rfl
  | number hd h =>
    refine readsBack_of_body hd rfl fun rest remaining hn => ?_
    rw [index, decodeBody, get_uint64]
    simp [nodes, h]
  | boolean hd b =>
    refine readsBack_of_body hd rfl fun rest remaining hn => ?_
    rw [index, decodeBody, get_bigEndian _ _ _ (by cases b <;> decide)]
    cases b <;> rfl
  | text hd h =>
    refine readsBack_of_body hd rfl fun rest remaining hn => ?_
    rw [index, decodeBody, append_assoc, get_bigEndian _ _ _ (by omega)]
    simp only [ok_bind]
    rw [refuseIf_of_not _ (by rw [length_append]; omega), ok_bind, take_left' rfl, drop_left' rfl]
    rfl
  | fields hd h0 h names deep ih =>
    refine readsBack_of_body hd rfl fun rest remaining hn => ?_
    simp only [nodes] at hn
    cases ho with | fields hs hdeep =>
    rw [index, decodeBody, append_assoc, get_bigEndian _ _ _ (by omega)]
    simp only [ok_bind]
    rw [refuseIf_of_not _ (by omega), ok_bind,
      decodeEntries_wire (fun e he => readName_wire (names e he) _) (fun e he => ih e he (hdeep e he)) [] (by simpa)
        _ _ (by omega)]
    simp [nodes]
  | array hd h deep ih =>
    refine readsBack_of_body hd rfl fun rest remaining hn => ?_
    simp only [nodes] at hn
    cases ho with | array hdeep =>
    rw [index, decodeBody, append_assoc, get_bigEndian _ _ _ (by omega)]
    simp only [ok_bind]
    rw [refuseIf_of_not _ (by omega), ok_bind, decodeItems_wire (fun v hv => ih v hv (hdeep v hv)) [] _ _ (by omega)]
    simp [nodes]
  | map hd h keys deep ih =>
    refine readsBack_of_body hd rfl fun rest remaining hn => ?_
    simp only [nodes] at hn
    cases ho with | map hs hdeep =>
    rw [index, decodeBody, append_assoc, get_bigEndian _ _ _ (by omega)]
    simp only [ok_bind]
    rw [refuseIf_of_not _ (by omega), ok_bind,
      decodeEntries_wire (fun e he => readKey_wire (keys e he) _ _) (fun e he => ih e he (hdeep e he)) [] (by simpa)
        _ _ (by omega)]
    simp [nodes]

theorem decodeValue_wire (h : v.Fits depth) (ho : v.Ordered) :
    ReadsBack (fun input remaining => decodeValue input depth remaining) v :=
  decodeLevels_wire h ho

/-! ## Updates -/

/-- The maps inside a patch keep their keys in order. -/
structure PatchOrdered (patch : AttributePatch) : Prop where
  value : ∀ v ∈ patch.value, v.Ordered
  insert : ∀ v ∈ patch.insert, v.Ordered

/-- The maps of an update keep their keys in order: the invariant of `std::map`. -/
structure UpdateOrdered (update : AttributeUpdate) : Prop where
  sorted : Entries.Sorted update.values
  deep : ∀ e ∈ update.values, e.2.Ordered
  patches : ∀ patch ∈ update.patches, PatchOrdered patch

theorem decodePath_wire {path : List PathPart} (h : ∀ part ∈ path, part.Valid) (out : List PathPart) (rest : Bytes) :
    decodePath path.length out (pathWire path ++ rest) = .ok (out ++ path, rest) := by
  induction path generalizing out with
  | nil => simp [decodePath, pathWire]
  | cons part path ih =>
    have hrest : ∀ part ∈ path, part.Valid := fun p hp => h p (mem_cons_of_mem _ hp)
    have hpart := h part mem_cons_self
    cases part with
    | key k =>
      simp only [length_cons, decodePath, pathWire, PathPart.wire, append_assoc]
      rw [get_bigEndian _ _ _ (by omega)]
      simp only [ok_bind]
      rw [readKey_wire hpart]
      simp only [ok_bind]
      rw [ih hrest]
      simp
    | index i =>
      have hi : i < 256 := hpart
      simp only [length_cons, decodePath, pathWire, PathPart.wire, append_assoc]
      rw [get_bigEndian _ _ _ (by omega)]
      simp only [ok_bind]
      rw [get_bigEndian _ _ _ (by omega)]
      simp only [ok_bind]
      rw [refuseIf_of_not _ (by omega), ok_bind, ih hrest]
      simp

theorem decodePaths_wire {path : List PathPart} (h : ∀ part ∈ path, part.Valid)
    (hl : path.length ≤ 8) (hp : paths = false → path = []) (rest : Bytes) :
    decodePaths paths ((if paths then bigEndian 1 path.length ++ pathWire path else []) ++ rest) =
      .ok (path, rest) := by
  cases paths with
  | true =>
    simp only [decodePaths, if_true, append_assoc]
    rw [get_bigEndian _ _ _ (by omega)]
    simp only [ok_bind]
    rw [refuseIf_of_not _ (by omega), ok_bind, decodePath_wire h]
    simp
  | false => simp [decodePaths, hp rfl]

theorem decodeEdit_wire (h : EditFits patch) (ho : PatchOrdered patch) (rest : Bytes)
    (remaining : Nat) (hn : editNodes patch ≤ remaining) :
    decodeEdit patch.property patch.path (patchKind patch) (editWire patch ++ rest) remaining =
      .ok (patch, rest, remaining - editNodes patch) := by
  cases h with
  | replacement h =>
    have hv := decodeValue_wire h (ho.value _ rfl) rest remaining hn
    dsimp only at hv
    simp only [patchKind, if_true, decodeEdit, editWire, Option.elim_some]
    rw [hv]
    rfl
  | @assign property path key value hk h =>
    simp only [patchKind, if_true, decodeEdit, editWire, Bool.false_eq_true, if_false, append_assoc]
    rw [readKey_wire hk]
    simp only [ok_bind]
    rw [get_bigEndian _ _ _ (by cases value <;> simp)]
    simp only [ok_bind]
    cases value with
    | none => rfl
    | some v =>
      have hv := decodeValue_wire (h v rfl) (ho.value v rfl) rest remaining hn
      dsimp only at hv
      simp only [Option.isSome_some, Bool.toNat_true, if_true, Option.elim_some]
      rw [refuseIf_of_not _ (by omega), ok_bind, hv]
      rfl
  | @splice property path index remove insert hi hr hl h =>
    simp only [patchKind, decodeEdit, editWire, Bool.false_eq_true, if_false, append_assoc]
    rw [get_bigEndian _ _ _ (by omega)]
    simp only [ok_bind]
    rw [get_bigEndian _ _ _ (by omega)]
    simp only [ok_bind]
    rw [get_bigEndian _ _ _ (by omega)]
    simp only [ok_bind]
    rw [refuseIf_of_not _ (by omega), ok_bind,
      decodeItems_wire (fun v hv => decodeValue_wire (h v hv) (ho.insert v hv)) [] _ _ hn]
    rfl

theorem patchKind_le (patch : AttributePatch) (hp : paths = false → patch.replace = false) :
    ¬patchKind patch > if paths then 2 else 1 := by
  unfold patchKind
  cases paths with
  | true => cases patch.replace <;> cases patch.map <;> simp
  | false => rw [hp rfl]; cases patch.map <;> simp

theorem decodePatch_wire {values : AttributeStruct} (h : PatchFits patch)
    (hfree : Entries.find patch.property values = none) (ho : PatchOrdered patch)
    (hp : paths = false → patch.path = [] ∧ patch.replace = false) (rest : Bytes) (remaining : Nat)
    (hn : editNodes patch ≤ remaining) :
    decodePatch values paths (patchWire paths patch ++ rest) remaining =
      .ok (patch, rest, remaining - editNodes patch) := by
  have hkind : patchKind patch < 256 ^ 1 := by unfold patchKind; split_ifs <;> simp
  unfold decodePatch patchWire
  simp only [append_assoc]
  rw [readName_wire h.name]
  simp only [ok_bind]
  rw [refuseIf_of_not _ (by simp [hfree]), ok_bind,
    decodePaths_wire h.path_valid h.path_length (fun hf => (hp hf).1)]
  simp only [ok_bind]
  rw [get_bigEndian _ _ _ hkind]
  simp only [ok_bind]
  rw [refuseIf_of_not _ (patchKind_le patch fun hf => (hp hf).2), ok_bind, decodeEdit_wire h.edit ho _ _ hn]

theorem decodePatches_wire {values : AttributeStruct} {patches : List AttributePatch}
    (h : ∀ patch ∈ patches, PatchFits patch ∧ Entries.find patch.property values = none)
    (ho : ∀ patch ∈ patches, PatchOrdered patch)
    (hp : ∀ patch ∈ patches, paths = false → patch.path = [] ∧ patch.replace = false)
    (out : List AttributePatch) (rest : Bytes) (remaining : Nat) (hn : patchesNodes patches ≤ remaining) :
    decodePatches values paths patches.length out (patchesWire paths patches ++ rest) remaining =
      .ok (out ++ patches, rest, remaining - patchesNodes patches) := by
  induction patches generalizing out remaining with
  | nil => simp [decodePatches, patchesWire, patchesNodes]
  | cons patch patches ih =>
    obtain ⟨hf, hfree⟩ := h patch mem_cons_self
    simp only [patchesNodes] at hn
    simp only [length_cons, decodePatches, patchesWire, append_assoc]
    rw [decodePatch_wire hf hfree (ho patch mem_cons_self) (hp patch mem_cons_self) _ _ (by omega)]
    simp only [ok_bind]
    rw [ih (fun p hm => h p (mem_cons_of_mem _ hm)) (fun p hm => ho p (mem_cons_of_mem _ hm))
      (fun p hm => hp p (mem_cons_of_mem _ hm)) _ _ (by omega)]
    simp [patchesNodes, Nat.sub_sub]

/-- In a record without paths no patch has one, and none replaces a field. -/
theorem fieldPaths_eq_false (h : fieldPaths update = false)
    (hm : patch ∈ update.patches) : patch.path = [] ∧ patch.replace = false := by
  have := any_eq_false.1 h patch hm
  simp only [Bool.or_eq_true, not_or, Bool.not_eq_true, Bool.not_eq_false', List.isEmpty_iff] at this
  exact ⟨this.2, this.1⟩

theorem updateTag_length (update : AttributeUpdate) : (updateTag update).length = 4 := by
  unfold updateTag
  split_ifs <;> rfl

/-- The tag tells the decoder whether there are patches and paths. -/
theorem updateTag_flags (update : AttributeUpdate) (body : Bytes) :
    (ascii "FSA3").isPrefixOf (updateTag update ++ body) = (!update.patches.isEmpty && fieldPaths update) ∧
      (ascii "FSA2").isPrefixOf (updateTag update ++ body) = (!update.patches.isEmpty && !fieldPaths update) ∧
      (ascii "FSA1").isPrefixOf (updateTag update ++ body) = update.patches.isEmpty := by
  unfold updateTag
  cases update.patches with
  | nil => exact ⟨rfl, rfl, rfl⟩
  | cons => cases fieldPaths update <;> exact ⟨rfl, rfl, rfl⟩

theorem decodeEdits_wire (h : Accepted update) (ho : UpdateOrdered update)
    (remaining : Nat) (hn : patchesNodes update.patches ≤ remaining) :
    decodeEdits (!update.patches.isEmpty) (!update.patches.isEmpty && fieldPaths update) update.snapshot update.values
      (if update.patches = [] then []
        else bigEndian 2 update.patches.length ++ patchesWire (fieldPaths update) update.patches) remaining =
      .ok (update.patches, []) := by
  by_cases hp : update.patches = []
  · simp [hp, decodeEdits]
  have hempty : update.patches.isEmpty = false := by simpa using hp
  have hlen : update.patches.length ≠ 0 := by simpa using hp
  have hcount := h.fits.patch_count
  rw [hempty, if_neg hp]
  simp only [Bool.not_false, Bool.true_and, decodeEdits, if_true]
  rw [refuseIf_of_not _ (by simp [h.fits.plain hp]), ok_bind, get_bigEndian _ _ _ (by omega)]
  simp only [ok_bind]
  have hdec := decodePatches_wire h.fits.patches ho.patches
    (fun p hm (hf : fieldPaths update = false) => fieldPaths_eq_false hf hm) [] [] remaining hn
  rw [append_nil] at hdec
  rw [refuseIf_of_not _ (by omega), ok_bind, hdec]
  rfl

/-- Decoding the record of an accepted update gives the update. -/
theorem decodeAttributes_wire (h : Accepted update) (ho : UpdateOrdered update) :
    decodeAttributes (updateTag update ++ updateBody update) = .ok update := by
  have himage := h.fits.image
  have hcount := himage.count
  have hn := h.nodes
  unfold updateNodes at hn
  have hflags := updateTag_flags update (updateBody update)
  have hdrop : (updateTag update ++ updateBody update).drop 4 = updateBody update :=
    drop_left' (updateTag_length update)
  have hlimit : (updateTag update ++ updateBody update).length ≤ limit := by
    rw [length_append, updateTag_length]; exact h.size
  have hpatched : ((!update.patches.isEmpty && fieldPaths update) || (!update.patches.isEmpty && !fieldPaths update)) =
      !update.patches.isEmpty := by
    cases update.patches.isEmpty <;> cases fieldPaths update <;> rfl
  have hsnap : update.snapshot.toNat < 256 ^ 1 := by cases update.snapshot <;> decide
  have hflag : (update.snapshot.toNat == 1) = update.snapshot := by cases update.snapshot <;> rfl
  have hbase : ¬(update.values.length > 256 ∨ update.base.toNat > update.revision.toNat ∨
      (update.snapshot = true ∧ update.base.toNat ≠ 0)) := by
    rintro (hc | hb | ⟨hs, h0⟩)
    · omega
    · exact absurd (UInt64.le_iff_toNat_le.1 himage.base_le) (by omega)
    · rw [himage.base_zero hs] at h0; exact h0 rfl
  unfold decodeAttributes
  simp only [hflags.1, hflags.2.1, hflags.2.2, hpatched, hdrop]
  rw [refuseIf_of_not _ (by cases update.patches.isEmpty <;> simp only [reduceCtorEq, Bool.not_false, Bool.not_true,
    and_true, and_false, or_false, not_lt, gt_iff_lt] <;> exact hlimit), ok_bind]
  simp only [updateBody, header, append_assoc]
  rw [get_bigEndian _ _ _ hsnap]
  simp only [ok_bind]
  rw [refuseIf_of_not _ (by cases update.snapshot <;> simp), ok_bind, get_uint64]
  simp only [ok_bind]
  rw [get_uint64]
  simp only [ok_bind]
  rw [get_bigEndian _ _ _ (by omega)]
  simp only [ok_bind, hflag]
  rw [refuseIf_of_not _ hbase, ok_bind,
    decodeEntries_wire (fun e he => readName_wire (himage.names e he) _)
      (fun e he => decodeValue_wire (himage.deep e he) (ho.deep e he)) [] (by simpa using ho.sorted) _ _ (by omega)]
  simp only [ok_bind, nil_append]
  rw [decodeEdits_wire h ho _ (by omega)]
  simp

end Fsnet
