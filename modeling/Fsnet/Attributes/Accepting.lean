import Mathlib.Algebra.BigOperators.Group.List.Basic
import Fsnet.Attributes.Decoding
/-!
# What the decoder accepts

The converse of reading back: whatever byte string the decoder accepts, the
update it returns is one the encoder accepts. The decoder takes map entries in
any order and paths where none are needed, so the bytes may differ; but each
part takes as many bytes and as many nodes as its own encoding, and an encoding
without paths is shorter, so no limit is exceeded.
-/

namespace Fsnet

open Lib AttributeValue Entries List

/-- A reader went from `input` with `remaining` nodes to `rest` with `left`: it took `size` bytes and `nodes` nodes. -/
structure Took (input : Bytes) (remaining : Nat) (rest : Bytes) (left size nodes : Nat) : Prop where
  bytes : input.length = size + rest.length
  budget : remaining = nodes + left

variable {input rest key : Bytes} {count depth left remaining : Nat}
  {decodeChild : Bytes → Nat → Except Failure (AttributeValue × Bytes × Nat)} {path : List PathPart} {paths : Bool}
  {values : AttributeStruct}

theorem readName_eq_ok {text : String} {name : Bytes} (h : readName text input = .ok (name, rest)) :
    validName name = true ∧ input.length = 1 + name.length + rest.length := by
  unfold readName at h
  simp only [bind_eq_ok, refuseIf_eq_ok, pure_ok_iff, Prod.mk.injEq, Prod.exists] at h
  obtain ⟨n, tail, hget, _, hn, _, hc, rfl, rfl⟩ := h
  obtain ⟨hlen, -⟩ := readUint_eq_ok hget
  refine ⟨checkName_eq_ok.1 hc, ?_⟩
  rw [length_take, length_drop]
  omega

theorem readKey_eq_ok {bounds text : String} (h : readKey bounds text input = .ok (key, rest)) :
    validKey key = true ∧ input.length = 1 + key.length + rest.length := by
  unfold readKey at h
  simp only [bind_eq_ok, refuseIf_eq_ok, pure_ok_iff, Prod.mk.injEq, Prod.exists] at h
  obtain ⟨n, tail, hget, _, hn, _, hc, rfl, rfl⟩ := h
  obtain ⟨hlen, -⟩ := readUint_eq_ok hget
  refine ⟨checkKeyAs_eq_ok.1 hc, ?_⟩
  rw [length_take, length_drop]
  omega

/-! ## Values -/

/-- What a decoder of children returns: values that fit at `depth`, with as many bytes and nodes as were taken. -/
def Yields (decodeChild : Bytes → Nat → Except Failure (AttributeValue × Bytes × Nat)) (depth : Nat) : Prop :=
  ∀ input remaining v rest left, decodeChild input remaining = .ok (v, rest, left) →
    v.Fits depth ∧ v.Ordered ∧ Took input remaining rest left v.wire.length v.nodes

theorem wireEntries_length (entries : AttributeStruct) :
    (wireEntries entries).length = (entries.map fun e => 1 + e.1.length + e.2.wire.length).sum := by
  induction entries with
  | nil => rfl
  | cons e entries ih =>
    simp only [wireEntries, length_append, bigEndian_length, map_cons, sum_cons, ih]
    omega

theorem nodesEntries_eq (entries : AttributeStruct) : nodesEntries entries = (entries.map fun e => e.2.nodes).sum := by
  induction entries with
  | nil => rfl
  | cons _ _ ih => simp only [nodesEntries, map_cons, sum_cons, ih]

/-- A sum over the entries after a new one was put in its place. -/
theorem sum_insert {child : AttributeValue} {out : AttributeStruct} (f : Bytes × AttributeValue → Nat)
    (hf : find key out = none) :
    ((Entries.insert key child out).map f).sum = f (key, child) + (out.map f).sum :=
  ((insert_perm child hf).map f).sum_eq

/-- The entries a loop has read so far. -/
structure Gathered (good : Bytes → Prop) (depth : Nat) (entries : AttributeStruct) : Prop where
  sorted : Sorted entries
  keys : ∀ e ∈ entries, good e.1
  fits : ∀ e ∈ entries, e.2.Fits depth
  ordered : ∀ e ∈ entries, e.2.Ordered

theorem Gathered.insert {good : Bytes → Prop} {entries : AttributeStruct}
    {child : AttributeValue} (h : Gathered good depth entries) (hk : good key) (hf : child.Fits depth)
    (ho : child.Ordered) : Gathered good depth (Entries.insert key child entries) := by
  have hmem : ∀ e ∈ Entries.insert key child entries, e = (key, child) ∨ e ∈ entries := fun e he =>
    mem_insert_of he
  refine ⟨sorted_insert key child h.sorted, fun e he => ?_, fun e he => ?_, fun e he => ?_⟩
  all_goals rcases hmem e he with rfl | he
  · exact hk
  · exact h.keys e he
  · exact hf
  · exact h.fits e he
  · exact ho
  · exact h.ordered e he

theorem decodeEntries_yields (good : Bytes → Prop) {readKey : Bytes → Except Failure (Bytes × Bytes)}
    {duplicate : String}
    (hk : ∀ input key rest, readKey input = .ok (key, rest) → good key ∧ input.length = 1 + key.length + rest.length)
    (hc : Yields decodeChild depth) {out entries : AttributeStruct}
    (hout : Gathered good depth out)
    (h : decodeEntries readKey duplicate decodeChild count out input remaining = .ok (entries, rest, left)) :
    Gathered good depth entries ∧ entries.length = out.length + count ∧
      input.length + (wireEntries out).length = (wireEntries entries).length + rest.length ∧
      remaining + nodesEntries out = nodesEntries entries + left := by
  induction count generalizing out input remaining with
  | zero =>
    cases h
    exact ⟨hout, rfl, Nat.add_comm _ _, Nat.add_comm _ _⟩
  | succ count ih =>
    unfold decodeEntries at h
    simp only [bind_eq_ok, refuseIf_eq_ok, Prod.exists] at h
    obtain ⟨key, input₁, hkey, child, input₂, remaining₁, hchild, _, hnew, h⟩ := h
    obtain ⟨hgood, hlen⟩ := hk _ _ _ hkey
    obtain ⟨hfits, hord, htook⟩ := hc _ _ _ _ _ hchild
    have hfind : find key out = none := by simpa using hnew
    obtain ⟨hg, hn, hbytes, hnodes⟩ := ih (hout.insert hgood hfits hord) h
    have hsize : (Entries.insert key child out).length = out.length + 1 := (insert_perm child hfind).length_eq
    rw [wireEntries_length (Entries.insert key child out), sum_insert _ hfind, ← wireEntries_length] at hbytes
    rw [nodesEntries_eq (Entries.insert key child out), sum_insert _ hfind, ← nodesEntries_eq] at hnodes
    have h1 := htook.bytes
    have h2 := htook.budget
    refine ⟨hg, by omega, ?_, ?_⟩
    · dsimp only at hbytes
      omega
    · dsimp only at hnodes
      omega

theorem wireItems_length (items : List AttributeValue) :
    (wireItems items).length = (items.map (·.wire.length)).sum := by
  induction items with
  | nil => rfl
  | cons _ _ ih => simp only [wireItems, length_append, map_cons, sum_cons, ih]

theorem nodesItems_eq (items : List AttributeValue) : nodesItems items = (items.map nodes).sum := by
  induction items with
  | nil => rfl
  | cons _ _ ih => simp only [nodesItems, map_cons, sum_cons, ih]

/-- A loop that reads items one by one and appends them. -/
theorem loop_took {α : Type} {read : Bytes → Nat → Except Failure (α × Bytes × Nat)}
    {loop : Nat → List α → Bytes → Nat → Except Failure (List α × Bytes × Nat)}
    (hzero : ∀ out input left, loop 0 out input left = .ok (out, input, left))
    (hsucc : ∀ count out input left, loop (count + 1) out input left =
      read input left >>= fun x => loop count (out ++ [x.1]) x.2.1 x.2.2)
    {P : α → Prop} {size nodes : α → Nat} (hread : ∀ input left x rest left', read input left = .ok (x, rest, left') →
      P x ∧ Took input left rest left' (size x) (nodes x))
    {out all : List α} (h : loop count out input remaining = .ok (all, rest, left)) :
    ∃ items, all = out ++ items ∧ (∀ x ∈ items, P x) ∧ items.length = count ∧
      Took input remaining rest left (items.map size).sum (items.map nodes).sum := by
  induction count generalizing out input remaining with
  | zero =>
    rw [hzero] at h
    cases h
    exact ⟨[], (append_nil _).symm, by simp, rfl, (Nat.zero_add _).symm, (Nat.zero_add _).symm⟩
  | succ count ih =>
    rw [hsucc, bind_eq_ok] at h
    obtain ⟨⟨x, input₁, left₁⟩, hx, h⟩ := h
    dsimp only at h
    obtain ⟨hP, htook⟩ := hread _ _ _ _ _ hx
    obtain ⟨items, rfl, hitems, rfl, hrest⟩ := ih h
    refine ⟨x :: items, (append_cons ..).symm, forall_mem_cons.2 ⟨hP, hitems⟩, rfl, ?_, ?_⟩
    · rw [map_cons, sum_cons, htook.bytes, hrest.bytes, Nat.add_assoc]
    · rw [map_cons, sum_cons, htook.budget, hrest.budget, Nat.add_assoc]

theorem decodeItems_yields (hc : Yields decodeChild depth) {items : List AttributeValue}
    (h : decodeItems decodeChild count [] input remaining = .ok (items, rest, left)) :
    (∀ v ∈ items, v.Fits depth ∧ v.Ordered) ∧ items.length = count ∧
      Took input remaining rest left (wireItems items).length (nodesItems items) := by
  obtain ⟨_, rfl, hitems⟩ := loop_took (fun _ _ _ => rfl) (fun _ _ _ _ => rfl)
    (fun input left v rest left' hv => and_assoc.2 (hc input left v rest left' hv)) h
  rw [wireItems_length, nodesItems_eq]
  exact hitems

/-- The body of a value, after its tag was read. -/
theorem decodeBody_yields {tag : Nat} {v : AttributeValue} (hd : depth ≤ 8)
    (hc : Yields decodeChild (depth + 1)) (h : decodeBody decodeChild tag input remaining = .ok (v, rest, left)) :
    v.Fits depth ∧ v.Ordered ∧ Took input remaining rest left (v.wire.length - 1) (v.nodes - 1) := by
  unfold decodeBody at h
  split at h
  · simp only [bind_eq_ok, pure_ok_iff, Prod.mk.injEq, Prod.exists] at h
    obtain ⟨n, input₁, hget, rfl, rfl, rfl⟩ := h
    exact ⟨.integer hd _, .integer _, (readUint_eq_ok hget).1.trans (by simp [wire]), by simp [nodes]⟩
  · simp only [bind_eq_ok, refuseIf_eq_ok, pure_ok_iff, Prod.mk.injEq, Prod.exists] at h
    obtain ⟨n, input₁, hget, _, hfin, rfl, rfl, rfl⟩ := h
    exact ⟨.number hd (by simpa using hfin), .number _, (readUint_eq_ok hget).1.trans (by simp [wire]), by simp [nodes]⟩
  · simp only [bind_eq_ok, refuseIf_eq_ok, pure_ok_iff, Prod.mk.injEq, Prod.exists] at h
    obtain ⟨n, input₁, hget, _, -, rfl, rfl, rfl⟩ := h
    exact ⟨.boolean hd _, .boolean _, (readUint_eq_ok hget).1.trans (by simp [wire]), by simp [nodes]⟩
  · simp only [bind_eq_ok, refuseIf_eq_ok, pure_ok_iff, Prod.mk.injEq, Prod.exists] at h
    obtain ⟨n, input₁, hget, _, hn, rfl, rfl, rfl⟩ := h
    have hlen := (readUint_eq_ok hget).1
    refine ⟨.text hd (by rw [length_take]; omega), .text _, ?_, by simp [nodes]⟩
    simp only [wire, length_append, bigEndian_length, length_take, length_drop]
    omega
  · simp only [bind_eq_ok, refuseIf_eq_ok, pure_ok_iff, Prod.mk.injEq, Prod.exists] at h
    obtain ⟨n, input₁, hget, _, hn, entries, input₂, left', hent, rfl, rfl, rfl⟩ := h
    have hlen := (readUint_eq_ok hget).1
    obtain ⟨hg, hcount, hbytes, hnodes⟩ := decodeEntries_yields (fun key => validName key = true)
      (fun _ _ _ hr => readName_eq_ok hr) hc ⟨sorted_nil, by simp, by simp, by simp⟩ hent
    simp only [length_nil, wireEntries, nodesEntries] at hcount hbytes hnodes
    refine ⟨.fields hd (by omega) (by omega) hg.keys hg.fits, .fields hg.sorted hg.ordered, ?_, ?_⟩
    · simp only [wire, length_append, bigEndian_length]
      omega
    · simp only [nodes]
      omega
  · simp only [bind_eq_ok, refuseIf_eq_ok, pure_ok_iff, Prod.mk.injEq, Prod.exists] at h
    obtain ⟨n, input₁, hget, _, hn, items, input₂, left', hitems, rfl, rfl, rfl⟩ := h
    have hlen := (readUint_eq_ok hget).1
    obtain ⟨hg, hcount, hbytes, hnodes⟩ := decodeItems_yields hc hitems
    refine ⟨.array hd (by omega) fun v hv => (hg v hv).1, .array fun v hv => (hg v hv).2, ?_, ?_⟩
    · simp only [wire, length_append, bigEndian_length]
      omega
    · simp only [nodes]
      omega
  · simp only [bind_eq_ok, refuseIf_eq_ok, pure_ok_iff, Prod.mk.injEq, Prod.exists] at h
    obtain ⟨n, input₁, hget, _, hn, entries, input₂, left', hent, rfl, rfl, rfl⟩ := h
    have hlen := (readUint_eq_ok hget).1
    obtain ⟨hg, hcount, hbytes, hnodes⟩ := decodeEntries_yields (fun key => validKey key = true)
      (fun _ _ _ hr => readKey_eq_ok hr) hc ⟨sorted_nil, by simp, by simp, by simp⟩ hent
    simp only [length_nil, wireEntries, nodesEntries] at hcount hbytes hnodes
    refine ⟨.map hd (by omega) hg.keys hg.fits, .map hg.sorted hg.ordered, ?_, ?_⟩
    · simp only [wire, length_append, bigEndian_length]
      omega
    · simp only [nodes]
      omega
  · cases h

theorem wire_pos (v : AttributeValue) : 0 < v.wire.length := by
  cases v <;> simp [wire]

theorem decodeLevels_yields {levels : Nat} (hd : depth + levels = 9) : Yields (decodeLevels levels) depth := by
  induction levels generalizing depth with
  | zero =>
    intro input remaining v rest left h
    cases h
  | succ levels ih =>
    intro input remaining v rest left h
    unfold decodeLevels at h
    simp only [bind_eq_ok, refuseIf_eq_ok, Prod.exists] at h
    obtain ⟨_, hpos, tag, input₁, hget, hbody⟩ := h
    have hd8 : depth ≤ 8 := by omega
    obtain ⟨hf, ho, htook⟩ := decodeBody_yields hd8 (ih (by omega)) hbody
    have hlen := (readUint_eq_ok hget).1
    have hw := wire_pos v
    have hn := v.nodes_pos
    have hb := htook.bytes
    have hr := htook.budget
    exact ⟨hf, ho, by omega, by omega⟩

theorem decodeValue_yields (depth : Nat) : Yields (fun input remaining => decodeValue input depth remaining) depth := by
  by_cases hd : depth ≤ 9
  · exact decodeLevels_yields (by omega)
  · intro input remaining v rest left h
    simp only [decodeValue, show 9 - depth = 0 by omega] at h
    cases h

/-! ## Patches -/

theorem decodePath_eq_ok {out : List PathPart}
    (hout : ∀ part ∈ out, part.Valid) (h : decodePath count out input = .ok (path, rest)) :
    (∀ part ∈ path, part.Valid) ∧ path.length = out.length + count ∧
      input.length + (pathWire out).length = (pathWire path).length + rest.length := by
  induction count generalizing out input with
  | zero =>
    cases h
    exact ⟨hout, rfl, Nat.add_comm _ _⟩
  | succ count ih =>
    have hvalid : ∀ part : PathPart, part.Valid → ∀ p ∈ out ++ [part], p.Valid := by
      intro part hp p hm
      rcases mem_append.1 hm with hm | hm
      · exact hout p hm
      · rw [mem_singleton.1 hm]
        exact hp
    unfold decodePath at h
    simp only [bind_eq_ok, Prod.exists] at h
    obtain ⟨tag, input₁, hget, h⟩ := h
    have hlen := (readUint_eq_ok hget).1
    split at h
    · simp only [bind_eq_ok, refuseIf_eq_ok, Prod.exists] at h
      obtain ⟨index, input₂, hindex, _, hlt, h⟩ := h
      have hlen₂ := (readUint_eq_ok hindex).1
      obtain ⟨hv, hn, hbytes⟩ := ih (hvalid (.index index) (not_le.1 hlt)) h
      simp only [pathWire_append, pathWire, PathPart.wire, length_append, bigEndian_length, length_nil,
        length_cons] at hn hbytes
      exact ⟨hv, by omega, by omega⟩
    · simp only [bind_eq_ok, Prod.exists] at h
      obtain ⟨key, input₂, hkey, h⟩ := h
      obtain ⟨hk, hlen₂⟩ := readKey_eq_ok hkey
      obtain ⟨hv, hn, hbytes⟩ := ih (hvalid (.key key) hk) h
      simp only [pathWire_append, pathWire, PathPart.wire, length_append, bigEndian_length, length_nil,
        length_cons] at hn hbytes
      exact ⟨hv, by omega, by omega⟩
    · cases h

theorem decodePaths_eq_ok (h : decodePaths paths input = .ok (path, rest)) :
    (∀ part ∈ path, part.Valid) ∧ path.length ≤ 8 ∧ (paths = false → path = []) ∧
      input.length = (if paths then bigEndian 1 path.length ++ pathWire path else []).length + rest.length := by
  unfold decodePaths at h
  split at h
  · rename_i hp
    simp only [bind_eq_ok, refuseIf_eq_ok, Prod.exists] at h
    obtain ⟨n, input₁, hget, _, hn, h⟩ := h
    obtain ⟨hv, hl, hbytes⟩ := decodePath_eq_ok (by simp) h
    have hlen := (readUint_eq_ok hget).1
    simp only [length_nil, pathWire] at hl hbytes
    refine ⟨hv, by omega, fun hf => absurd (hp.symm.trans hf) (by decide), ?_⟩
    rw [if_pos hp, length_append, bigEndian_length]
    omega
  · rename_i hp
    cases h
    exact ⟨by simp, by simp, fun _ => rfl, by rw [if_neg hp]; simp⟩

theorem decodeEdit_eq_ok {property : Bytes} {kind : Nat} {patch : AttributePatch}
    (h : decodeEdit property path kind input remaining = .ok (patch, rest, left)) :
    patch.property = property ∧ patch.path = path ∧ EditFits patch ∧ PatchOrdered patch ∧
      (patch.replace = true → kind = 2) ∧
      Took input remaining rest left (editWire patch).length (editNodes patch) := by
  unfold decodeEdit at h
  split at h
  · simp only [bind_eq_ok, pure_ok_iff, Prod.mk.injEq, Prod.exists] at h
    obtain ⟨v, input₁, left', hv, rfl, rfl, rfl⟩ := h
    obtain ⟨hf, ho, htook⟩ := decodeValue_yields _ _ _ _ _ _ hv
    refine ⟨rfl, rfl, .replacement hf, ⟨?_, by simp⟩, fun _ => rfl, htook⟩
    rintro _ ⟨⟩
    exact ho
  · simp only [bind_eq_ok, refuseIf_eq_ok, Prod.exists] at h
    obtain ⟨key, input₁, hkey, present, input₂, hpres, _, hle, h⟩ := h
    obtain ⟨hk, hlen₁⟩ := readKey_eq_ok hkey
    have hlen₂ := (readUint_eq_ok hpres).1
    split at h
    · simp only [bind_eq_ok, pure_ok_iff, Prod.mk.injEq, Prod.exists] at h
      obtain ⟨v, input₃, left', hv, rfl, rfl, rfl⟩ := h
      obtain ⟨hf, ho, htook⟩ := decodeValue_yields _ _ _ _ _ _ hv
      have hb := htook.bytes
      refine ⟨rfl, rfl, .assign hk ?_, ⟨?_, by simp⟩, by rintro ⟨⟩, ?_, htook.budget⟩
      · rintro _ ⟨⟩
        exact hf
      · rintro _ ⟨⟩
        exact ho
      · simp only [editWire, Bool.false_eq_true, if_false, if_true, Option.elim_some, length_append, bigEndian_length]
        omega
    · cases h
      refine ⟨rfl, rfl, .assign hk (by simp), ⟨by simp, by simp⟩, by rintro ⟨⟩, ?_, by simp [editNodes]⟩
      simp only [editWire, Bool.false_eq_true, if_false, if_true, Option.elim_none, length_append, bigEndian_length,
        length_nil]
      omega
  · simp only [bind_eq_ok, refuseIf_eq_ok, pure_ok_iff, Prod.mk.injEq, Prod.exists] at h
    obtain ⟨index, input₁, hindex, remove, input₂, hremove, n, input₃, hn, _, hle, items, input₄, left', hitems, rfl,
      rfl, rfl⟩ := h
    have h1 := (readUint_eq_ok hindex).1
    have h2 := (readUint_eq_ok hremove).1
    have h3 := (readUint_eq_ok hn).1
    obtain ⟨hg, hcount, hbytes, hnodes⟩ := decodeItems_yields (decodeValue_yields _) hitems
    refine ⟨rfl, rfl, .splice (by omega) (by omega) (by omega) fun v hv => (hg v hv).1,
      ⟨by simp, fun v hv => (hg v hv).2⟩, by rintro ⟨⟩, ?_, ?_⟩
    · simp only [editWire, Bool.false_eq_true, if_false, length_append, bigEndian_length]
      omega
    · simp only [editNodes, Bool.or_self, Bool.false_eq_true, if_false]
      omega

/-- What the decoder lets through as a patch. -/
structure PatchRead (values : AttributeStruct) (paths : Bool) (patch : AttributePatch) : Prop where
  fits : PatchFits patch
  ordered : PatchOrdered patch
  free : find patch.property values = none
  plain : paths = false → patch.path = [] ∧ patch.replace = false

theorem decodePatch_eq_ok {patch : AttributePatch}
    (h : decodePatch values paths input remaining = .ok (patch, rest, left)) :
    PatchRead values paths patch ∧
      Took input remaining rest left (patchWire paths patch).length (editNodes patch) := by
  unfold decodePatch at h
  simp only [bind_eq_ok, refuseIf_eq_ok, Prod.exists] at h
  obtain ⟨property, input₁, hname, _, hfree, path, input₂, hpath, kind, input₃, hkind, _, hle, hedit⟩ := h
  obtain ⟨hvalid, h1⟩ := readName_eq_ok hname
  obtain ⟨hparts, hlength, hnone, h2⟩ := decodePaths_eq_ok hpath
  have h3 := (readUint_eq_ok hkind).1
  obtain ⟨rfl, rfl, hf, ho, hrep, htook⟩ := decodeEdit_eq_ok hedit
  have h4 := htook.bytes
  refine ⟨⟨⟨hvalid, hlength, hparts, hf⟩, ho, by simpa using hfree, fun hp => ⟨hnone hp, ?_⟩⟩, ?_, htook.budget⟩
  · cases hr : patch.replace with
    | false => rfl
    | true =>
      rw [hrep hr, hp] at hle
      exact absurd hle (by decide)
  · simp only [patchWire, length_append, bigEndian_length] at h2 ⊢
    omega

theorem patchesWire_length (paths : Bool) (patches : List AttributePatch) :
    (patchesWire paths patches).length = (patches.map fun p => (patchWire paths p).length).sum := by
  induction patches with
  | nil => rfl
  | cons _ _ ih => simp only [patchesWire, length_append, map_cons, sum_cons, ih]

theorem patchesNodes_eq (patches : List AttributePatch) : patchesNodes patches = (patches.map editNodes).sum := by
  induction patches with
  | nil => rfl
  | cons _ _ ih => simp only [patchesNodes, map_cons, sum_cons, ih]

theorem decodePatches_eq_ok {patches : List AttributePatch}
    (h : decodePatches values paths count [] input remaining = .ok (patches, rest, left)) :
    (∀ p ∈ patches, PatchRead values paths p) ∧ patches.length = count ∧
      Took input remaining rest left (patchesWire paths patches).length (patchesNodes patches) := by
  obtain ⟨_, rfl, hpatches⟩ := loop_took (fun _ _ _ => rfl) (fun _ _ _ _ => rfl)
    (fun _ _ _ _ _ hp => decodePatch_eq_ok hp) h
  rw [patchesWire_length, patchesNodes_eq]
  exact hpatches

/-! ## Updates -/

theorem decodeEdits_eq_ok {patched snapshot : Bool} {patches : List AttributePatch}
    (h : decodeEdits patched paths snapshot values input remaining = .ok (patches, rest)) :
    (∀ p ∈ patches, PatchRead values paths p) ∧ patches.length ≤ 256 ∧ patchesNodes patches ≤ remaining ∧
      (patched = true ↔ patches ≠ []) ∧ (patches ≠ [] → snapshot = false) ∧
      input.length = (if patches = [] then [] else bigEndian 2 patches.length ++ patchesWire paths patches).length +
        rest.length := by
  unfold decodeEdits at h
  split at h
  · rename_i hp
    simp only [bind_eq_ok, refuseIf_eq_ok, pure_ok_iff, Prod.mk.injEq, Prod.exists] at h
    obtain ⟨_, hsnap, n, input₁, hget, _, hn, ps, input₂, left, hps, rfl, rfl⟩ := h
    obtain ⟨hg, hcount, hbytes, hnodes⟩ := decodePatches_eq_ok hps
    have hlen := (readUint_eq_ok hget).1
    have hne : ps ≠ [] := by
      rintro rfl
      simp only [length_nil] at hcount
      omega
    refine ⟨hg, by omega, by omega, ⟨fun _ => hne, fun _ => hp⟩, fun _ => by simpa using hsnap, ?_⟩
    rw [if_neg hne, length_append, bigEndian_length]
    omega
  · rename_i hp
    cases h
    exact ⟨by simp, by simp, by simp [patchesNodes], ⟨fun h => absurd h hp, fun h => absurd rfl h⟩,
      fun h => absurd rfl h, by simp⟩

/-- Without their paths the patches are no longer. -/
theorem patchesWire_false_le (patches : List AttributePatch) (paths : Bool) :
    (patchesWire false patches).length ≤ (patchesWire paths patches).length := by
  induction patches with
  | nil => exact le_refl _
  | cons p patches ih =>
    have hp : (patchWire false p).length ≤ (patchWire paths p).length := by
      simp only [patchWire, length_append, Bool.false_eq_true, if_false, length_nil]
      omega
    simp only [patchesWire, length_append]
    omega

/-- What is left when the paths are dropped where there are none. -/
theorem patchesWire_fieldPaths_le (update : AttributeUpdate) (paths : Bool)
    (hp : paths = false → ∀ p ∈ update.patches, p.path = [] ∧ p.replace = false) :
    (patchesWire (fieldPaths update) update.patches).length ≤ (patchesWire paths update.patches).length := by
  cases hf : fieldPaths update with
  | false => exact patchesWire_false_le _ _
  | true =>
    cases paths with
    | true => exact le_refl _
    | false =>
      obtain ⟨p, hm, hpath⟩ := any_eq_true.1 hf
      obtain ⟨h1, h2⟩ := hp rfl p hm
      simp [h1, h2] at hpath

/-- The record of an update, read from any bytes the decoder accepts. -/
structure RecordRead (input : Bytes) (update : AttributeUpdate) : Prop where
  accepted : Accepted update
  ordered : UpdateOrdered update
  patched : (ascii "FSA3").isPrefixOf input = true → update.patches ≠ []

/-- Whatever the decoder accepts, the encoder accepts the update. -/
theorem decodeAttributes_eq_ok {update : AttributeUpdate} (h : decodeAttributes input = .ok update) :
    RecordRead input update := by
  unfold decodeAttributes at h
  simp only [bind_eq_ok, refuseIf_eq_ok, pure_ok_iff, Prod.exists] at h
  obtain ⟨_, hlimit, flag, input₁, hflag, _, hle, base, input₂, hbase, revision, input₃, hrev, count, input₄, hcount, _,
    hhead, values, input₅, remaining, hvalues, patches, input₆, hedits, _, hempty, rfl⟩ := h
  rw [not_or, not_or] at hhead
  have h0 : (input.drop 4).length = input.length - 4 := length_drop
  have h1 := (readUint_eq_ok hflag).1
  have h2 := readUint_eq_ok hbase
  have h3 := readUint_eq_ok hrev
  have h4 := (readUint_eq_ok hcount).1
  obtain ⟨hg, hlen, hbytes, hnodes⟩ := decodeEntries_yields (fun key => validName key = true)
    (fun _ _ _ hr => readName_eq_ok hr) (decodeValue_yields 0) ⟨sorted_nil, by simp, by simp, by simp⟩ hvalues
  simp only [length_nil, wireEntries, nodesEntries] at hlen hbytes hnodes
  obtain ⟨hread, hpcount, hpnodes, hpatched, hsnap, hrest⟩ := decodeEdits_eq_ok hedits
  have hnil : input₆.length = 0 := by simpa using hempty
  have hb64 : (UInt64.ofNat base).toNat = base := UInt64.toNat_ofNat_of_lt (by simpa using h2.2)
  have hr64 : (UInt64.ofNat revision).toNat = revision := UInt64.toNat_ofNat_of_lt (by simpa using h3.2)
  have himage : ImageFits values (UInt64.ofNat base) (UInt64.ofNat revision) (flag == 1) := by
    refine ⟨by omega, ?_, ?_, hg.keys, hg.fits⟩
    · rw [UInt64.le_iff_toNat_le, hb64, hr64]
      exact not_lt.1 hhead.2.1
    · intro hs
      have hz : base = 0 := by
        by_contra hne
        exact hhead.2.2 ⟨hs, hne⟩
      rw [hz]
      rfl
  have hshort := patchesWire_fieldPaths_le ⟨UInt64.ofNat base, UInt64.ofNat revision, flag == 1, values, patches⟩
    ((ascii "FSA3").isPrefixOf input) fun hp p hm => (hread p hm).plain hp
  refine ⟨⟨⟨himage, hsnap, hpcount, fun p hm => ⟨(hread p hm).fits, (hread p hm).free⟩⟩, ?_, ?_⟩,
    ⟨hg.sorted, hg.ordered, fun p hm => (hread p hm).ordered⟩, ?_⟩
  · simp only [updateNodes]
    omega
  · simp only [updateBody, length_append, header_length]
    dsimp only at hshort
    split at hrest
    · rename_i hp
      rw [if_pos hp]
      simp only [length_nil] at hrest ⊢
      omega
    rename_i hp
    rw [if_neg hp]
    simp only [length_append, bigEndian_length] at hrest ⊢
    omega
  · intro hthree
    exact hpatched.1 (by rw [hthree]; rfl)

/-- The codec of attribute updates. What the encoder accepts takes at most 1 MiB, of which `attribute_wire_size`
is the exact length, and is read back; what the decoder accepts, the encoder accepts, and it is read back again.
A record with paths that are all empty is written without them. -/
theorem attribute_codec :
    (∀ update bytes, UpdateOrdered update → encodeAttributes update = .ok bytes →
      bytes.length ≤ 1024 * 1024 ∧ decodeAttributes bytes = .ok update ∧
        attributeWireSize update = .ok bytes.length) ∧
    (∀ bytes update, decodeAttributes bytes = .ok update →
      UpdateOrdered update ∧ ∃ bytes', encodeAttributes update = .ok bytes' ∧ decodeAttributes bytes' = .ok update ∧
        ((ascii "FSA3").isPrefixOf bytes = true → fieldPaths update = false →
          (ascii "FSA2").isPrefixOf bytes' = true)) := by
  refine ⟨fun update bytes ho h => ?_, fun bytes update h => ?_⟩
  · obtain ⟨hacc, rfl⟩ := encodeAttributes_eq_ok.1 h
    have hlen : (updateTag update ++ updateBody update).length = 4 + (updateBody update).length := by
      rw [length_append, updateTag_length]
    refine ⟨?_, decodeAttributes_wire hacc ho, ?_⟩
    · rw [hlen]
      exact hacc.size
    · rw [hlen]
      exact attributeWireSize_eq_ok.2 ⟨hacc, rfl⟩
  · have hread := decodeAttributes_eq_ok h
    refine ⟨hread.ordered, updateTag update ++ updateBody update, encodeAttributes_eq_ok.2 ⟨hread.accepted, rfl⟩,
      decodeAttributes_wire hread.accepted hread.ordered, fun hthree hplain => ?_⟩
    rw [(updateTag_flags update _).2.1, hplain]
    simpa using hread.patched hthree

/-- A record with paths whose one patch, the removal of the key `b` of `a`, has none. -/
def pathless : Bytes :=
  ascii "FSA3" ++ [0, 0, 0, 0, 0, 0, 0, 0, 1, 0, 0, 0, 0, 0, 0, 0, 2, 0, 0, 0, 1, 1, 97, 0, 1, 1, 98, 0]

theorem attribute_codec_pathless :
    decodeAttributes pathless = .ok ⟨1, 2, false, [], [{ property := [97], map := true, key := [98] }]⟩ ∧
      ∃ bytes', encodeAttributes ⟨1, 2, false, [], [{ property := [97], map := true, key := [98] }]⟩ = .ok bytes' ∧
        (ascii "FSA2").isPrefixOf bytes' = true := by
  have hread : decodeAttributes pathless =
    .ok ⟨1, 2, false, [], [{ property := [97], map := true, key := [98] }]⟩ := rfl
  obtain ⟨-, bytes', henc, -, htag⟩ := attribute_codec.2 pathless _ hread
  exact ⟨hread, bytes', henc, htag rfl rfl⟩

end Fsnet
