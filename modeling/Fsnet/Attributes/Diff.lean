import Fsnet.Attributes.Edits
/-!
# `diff_fields`

The recursion over two subtrees: each loop over the children keeps the target
between the old container and the new one, and at every level the cheaper of
the edits and the whole replacement is a list of patches that turns one value
into the other.
-/

namespace Fsnet

open Lib AttributeValue Entries List
open AttributePatch (under)

variable {property : Bytes} {path : List PathPart}

/-- What a call of `diff_fields` returns. -/
def Diffs (property : Bytes) (path : List PathPart) (before after : AttributeValue)
    (result : Except Failure (List AttributePatch)) : Prop :=
  ∃ patches, result = .ok (patches.map (under path)) ∧ patches.length ≤ 256 ∧
    (∀ e ∈ patches.map (under path), Good property e) ∧ Turns patches before after

/-- What the edits inside a container come to: none, too many to use, or a way
from one container to the other. -/
def Edits (property : Bytes) (path : List PathPart) (before after : AttributeValue)
    (result : Except Failure (List AttributePatch)) : Prop :=
  ∃ edits, result = .ok edits ∧ (∀ e ∈ edits, Good property e) ∧
    (edits = [] ∨ 256 < edits.length ∨
      ∃ patches, edits = patches.map (under path) ∧ Turns patches before after)

theorem edits_none (before after : AttributeValue) : Edits property path before after (pure []) :=
  ⟨[], rfl, by simp, .inl rfl⟩

variable {after before child t : AttributeValue} {base es done rest value old : AttributeStruct} {key : Bytes}
  {diff : Differ} {acc : List AttributePatch}

theorem diffStep_diffs {inner : Except Failure (List AttributePatch)}
    (ha : Located property path after) (hi : Edits property path before after inner) :
    Diffs property path before after (diffStep inner property path before after) := by
  unfold diffStep
  split_ifs with hsame
  · have hc := (same_iff ha.fits.finite).1 hsame
    exact ⟨[], rfl, by simp, by simp, turns_nil hc⟩
  obtain ⟨edits, rfl, hgood, hedits⟩ := hi
  rw [ok_bind]
  rcases cheaper_ok ha.replacement.cheap (fun e he => (hgood e he).cheap) with hr | ⟨hr, hne, hle⟩
  · refine ⟨[{ property, replace := true, value := some after }], ?_, by simp, ?_,
      turns_replacement property before after ha.ordered⟩
    · simpa [under] using hr
    · simpa [under] using ha.replacement
  rcases hedits with rfl | hlt | ⟨patches, rfl, hturns⟩
  · exact absurd rfl hne
  · omega
  · exact ⟨patches, hr, by simpa using hle, hgood, hturns⟩

/-! ## Structures and maps -/

/-- A map on its way from `base` to a new one, of which the entries `done` are there. -/
structure Progress (base done es : AttributeStruct) : Prop where
  sorted : Sorted es
  ordered : ∀ e ∈ es, e.2.Ordered
  lookups : ∀ k, (find k es).map canon = ((find k done).or (find k base)).map canon

theorem Progress.start (hs : Sorted es) (ho : ∀ e ∈ es, e.2.Ordered)
    (hc : ∀ k, (find k es).map canon = (find k base).map canon) : Progress base [] es :=
  ⟨hs, ho, fun k => by rw [hc]; rfl⟩

theorem Progress.step (h : Progress base done es)
    {child' : AttributeValue} (hk : find key done = none) (ho : child'.Ordered)
    (hc : child'.canon = child.canon) : Progress base (done ++ [(key, child)]) (Entries.insert key child' es) where
  sorted := sorted_insert _ _ h.sorted
  ordered e he := by
    rcases mem_insert_of he with rfl | he
    · exact ho
    · exact h.ordered e he
  lookups k := by
    rw [find_append]
    by_cases hkey : k = key
    · subst hkey
      rw [find_insert_self, hk, find_cons, if_pos rfl]
      simp [hc]
    · rw [find_insert_ne _ hkey, h.lookups, find_cons, if_neg hkey]
      simp

/-- The value under a key that is still to come. -/
theorem Progress.found (h : Progress base done es)
    (hk : find key done = none) (hf : find key base = some before) :
    ∃ c, find key es = some c ∧ c.Ordered ∧ c.canon = before.canon := by
  have hl := h.lookups key
  rw [hk, hf] at hl
  simp only [Option.none_or, Option.map_some, Option.map_eq_some_iff] at hl
  obtain ⟨c, hc, he⟩ := hl
  exact ⟨c, hc, h.ordered _ (find_mem hc), he⟩

theorem Progress.finish (h : Progress base value es) (hs : Sorted value)
    (hkeys : ∀ k, (find k base).isSome = true → (find k value).isSome = true) :
    canonEntries es = canonEntries value := by
  refine canonEntries_ext h.sorted hs fun k => ?_
  rw [h.lookups]
  cases hv : find k value with
  | some => rfl
  | none =>
    cases hb : find k base with
    | none => rfl
    | some => simpa [hv, hb] using hkeys k

/-- A key of the rest of an ordered list is not among those before it. -/
theorem find_done_none {rest : AttributeStruct}
    (hs : Sorted (done ++ (key, child) :: rest)) : find key done = none := by
  cases hf : find key done with
  | none => rfl
  | some =>
    exact absurd ((pairwise_append.1 hs).2.2 _ (find_mem hf) (key, child) mem_cons_self)
      (lt_irrefl key)

/-- The patches lead from any container `==` to the old one to one on its way. -/
def Advances (wrap : AttributeStruct → AttributeValue) (old base done : AttributeStruct)
    (acc : List AttributePatch) : Prop :=
  ∀ t : AttributeValue, t.Ordered → t.canon = (wrap old).canon →
    ∃ es, runPatches t acc = .ok (wrap es) ∧ Progress base done es

/-- The edits of the value under the next key bring the container on. -/
theorem Advances.descend {wrap : AttributeStruct → AttributeValue} {acc patches : List AttributePatch}
    (h : Advances wrap old base done acc) (hw : Keyed wrap) (hk : find key done = none)
    (hf : find key base = some before) (hp : Turns patches before child) :
    Advances wrap old base (done ++ [(key, child)]) (acc ++ patches.map (under [.key key])) := by
  intro t ho ht
  obtain ⟨es, hrun, hes⟩ := h t ho ht
  obtain ⟨c, hc, hco, hcc⟩ := hes.found hk hf
  obtain ⟨c', hrunc, hc'o, hc'c⟩ := hp c hco hcc
  refine ⟨Entries.insert key c' es, ?_, hes.step hk hc'o hc'c⟩
  rw [runPatches_append hrun]
  exact runPatches_key hw hes.sorted hc hrunc

theorem map_under_append (acc patches : List AttributePatch) (part : PathPart) :
    acc.map (under path) ++ patches.map (under (path ++ [part])) =
      (acc ++ patches.map (under [part])).map (under path) := by
  rw [map_append, map_under_under]

theorem canon_eq_map {entries : AttributeStruct} (h : t.canon = (AttributeValue.map entries).canon) :
    ∃ es, t = .map es ∧ canonEntries es = canonEntries entries := by
  cases t <;> simp only [canon, reduceCtorEq, AttributeValue.map.injEq] at h
  exact ⟨_, rfl, h⟩

theorem canon_eq_fields {entries : AttributeStruct} (h : t.canon = (AttributeValue.fields entries).canon) :
    ∃ es, t = .fields es ∧ canonEntries es = canonEntries entries := by
  cases t <;> simp only [canon, reduceCtorEq, AttributeValue.fields.injEq] at h
  exact ⟨_, rfl, h⟩

/-- Equal canonical maps have the same lookups. -/
theorem find_canon_eq {a b : AttributeStruct} (h : canonEntries a = canonEntries b) (k : Bytes) :
    (find k a).map canon = (find k b).map canon := by
  rw [← find_canonEntries, h, find_canonEntries]

/-- The erasing patches, run on a map that has all their keys. -/
theorem runPatches_erase (property : Bytes) {gone : AttributeStruct} (hs : Sorted gone)
    (hes : Sorted es) (hlen : es.length ≤ 256)
    (hin : ∀ e ∈ gone, (find e.1 es).isSome = true) :
    ∃ es', runPatches (.map es) (gone.map fun e => { property, map := true, key := e.1 }) = .ok (.map es') ∧
      Sorted es' ∧ (∀ e ∈ es', e ∈ es) ∧
      ∀ k, find k es' = if (find k gone).isSome then none else find k es := by
  induction gone generalizing es with
  | nil => exact ⟨es, rfl, hes, fun _ h => h, fun k => by simp⟩
  | cons e gone ih =>
    obtain ⟨key, v⟩ := e
    rw [Sorted, pairwise_cons] at hs
    have hkey : contains es key = true := hin _ mem_cons_self
    have hlen' : (Entries.erase key es).length ≤ 256 := le_trans (length_filter_le _ _) hlen
    have hstep : applyPatch { property, map := true, key } (.map es) = .ok (.map (Entries.erase key es)) := by
      simp only [applyPatch, patchTarget, editTarget, Bool.false_eq_true, if_false, if_true, mapOf, pure_eq_ok, ok_bind]
      rw [refuseIf_of_not _ (by simp [hkey]), ok_bind, refuseIf_of_not _ (by omega), ok_bind]
    obtain ⟨es', hrun, hes', hsub, hfind⟩ := ih hs.2 (sorted_erase key hes) hlen'
      fun e he => by rw [find_erase_ne (ne_of_gt (hs.1 e he))]; exact hin e (mem_cons_of_mem _ he)
    refine ⟨es', ?_, hes', fun e he => mem_of_mem_filter (hsub e he), fun k => ?_⟩
    · rw [map_cons, runPatches, hstep, ok_bind, hrun]
    · rw [hfind, find_cons]
      by_cases hk : k = key
      · subst hk; simp
      · rw [if_neg hk, find_erase_ne hk]

/-- The entries of the old map that stay. -/
def kept (old value : AttributeStruct) : AttributeStruct := old.filter fun e => contains value e.1

theorem find_kept (old value : AttributeStruct) (k : Bytes) :
    find k (kept old value) = if contains value k then find k old else none :=
  find_filter_key (contains value) k old

theorem erasePatches_advances (hold : Located property path (.map old)) :
    Advances .map old (kept old value) [] (erasePatches property [] old value) := by
  intro t ho ht
  obtain ⟨es, rfl, hes⟩ := canon_eq_map ht
  have hord := hold.ordered
  have hfits := hold.fits
  cases hord with | map hsold _ =>
  cases hfits with | map _ hl _ _ =>
  cases ho with | map hs hdeep =>
  have hlen : es.length ≤ 256 := by
    have := congrArg List.length hes
    simp only [canonEntries_length] at this
    omega
  have hin : ∀ e ∈ old.filter (fun e => !contains value e.1), (find e.1 es).isSome = true := by
    intro e he
    have hsome := find_isSome_of_mem (mem_of_mem_filter he)
    have hlook := congrArg Option.isSome (find_canon_eq hes e.1)
    rw [Option.isSome_map, Option.isSome_map] at hlook
    rw [hlook, hsome]
  obtain ⟨es', hrun, hs', hsub, hfind⟩ :=
    runPatches_erase property (hsold.sublist filter_sublist) hs hlen hin
  refine ⟨es', hrun, .start hs' (fun e he => hdeep e (hsub e he)) fun k => ?_⟩
  have hgone := find_filter_key (fun k => !contains value k) k old
  rw [hfind, hgone, find_kept]
  cases hv : contains value k with
  | true => simpa [hv] using find_canon_eq hes k
  | false =>
    have hlook := find_canon_eq hes k
    cases hk : find k old with
    | none => simpa [hv, hk] using hlook
    | some => simp

theorem kept_keys (old value : AttributeStruct) (k : Bytes)
    (hk : (find k (kept old value)).isSome = true) : (find k value).isSome = true := by
  rw [find_kept] at hk
  by_contra hne
  rw [contains, if_neg hne] at hk
  cases hk

/-- Every key there is one of the new map, so the size limit holds. -/
theorem Progress.length_le {rest : AttributeStruct} (h : Progress (kept old value) done es)
    (hv : done ++ rest = value) (hl : value.length ≤ 256) : es.length ≤ 256 := by
  refine le_trans (length_le_of_keys h.sorted fun k hk => ?_) hl
  have hlook := congrArg Option.isSome (h.lookups k)
  rw [Option.isSome_map, Option.isSome_map, hk] at hlook
  cases hdone : find k done with
  | some => rw [← hv, find_append, hdone]; rfl
  | none =>
    rw [hdone, Option.none_or] at hlook
    exact kept_keys old value k hlook.symm

theorem runPatches_assign (property : Bytes) (hl : (Entries.insert key child es).length ≤ 256) :
    runPatches (.map es) [assignPatch property [] key child] = .ok (.map (Entries.insert key child es)) := by
  simp only [runPatches, applyPatch, assignPatch, patchTarget, editTarget, Bool.false_eq_true, if_false, if_true, mapOf,
    pure_eq_ok, ok_bind]
  rw [refuseIf_of_not _ (by omega)]
  rfl

/-- Assigning the value under the next key brings a map on. -/
theorem Advances.assign (h : Advances .map old (kept old value) done acc) (property : Bytes)
    (hk : find key done = none) (hv : done ++ (key, child) :: rest = value) (hc : child.Ordered)
    (hl : value.length ≤ 256) :
    Advances .map old (kept old value) (done ++ [(key, child)]) (acc ++ [assignPatch property [] key child]) := by
  intro t ho ht
  obtain ⟨es, hrun, hp⟩ := h t ho ht
  have hp' : Progress (kept old value) (done ++ [(key, child)]) (Entries.insert key child es) := hp.step hk hc rfl
  refine ⟨Entries.insert key child es, ?_, hp'⟩
  rw [runPatches_append hrun]
  exact runPatches_assign property (hp'.length_le (by simpa using hv) hl)

theorem Advances.turns (h : Advances .map old (kept old value) value acc) (hs : Sorted value) :
    Turns acc (.map old) (.map value) := by
  intro t ho ht
  obtain ⟨es, hrun, hp⟩ := h t ho ht
  exact ⟨.map es, hrun, .map hp.sorted hp.ordered, by rw [canon, canon, hp.finish hs (kept_keys old value)]⟩

/-! ## The loops -/

section children

variable (hd : ∀ part b a, Located property (path ++ [part]) b → Located property (path ++ [part]) a →
  Diffs property (path ++ [part]) b a (diff (path ++ [part]) b a))
include hd

theorem fieldEdits_edits (hb : Located property path (.fields old)) (ha : Located property path (.fields value))
    (hkeys : ∀ k, (find k value).isSome = (find k old).isSome)
    (done rest : AttributeStruct) (hv : done ++ rest = value) (acc : List AttributePatch)
    (hg : ∀ e ∈ acc.map (under path), Good property e) (hacc : Advances .fields old old done acc) :
    Edits property path (.fields old) (.fields value)
      (fieldEdits diff path old rest (acc.map (under path))) := by
  have hord := ha.ordered
  cases hord with | fields hs _ =>
  induction rest generalizing done acc with
  | nil =>
    rw [append_nil] at hv
    subst hv
    refine ⟨_, rfl, hg, .inr (.inr ⟨acc, rfl, fun t ho ht => ?_⟩)⟩
    obtain ⟨es, hrun, hp⟩ := hacc t ho ht
    refine ⟨.fields es, hrun, .fields hp.sorted hp.ordered, ?_⟩
    rw [canon, canon, hp.finish hs fun k _ => by rwa [hkeys]]
  | cons e _ ih =>
    obtain ⟨key, child⟩ := e
    have hmem : (key, child) ∈ value := by rw [← hv]; simp
    have hnew : find key done = none := find_done_none (by rw [hv]; exact hs)
    obtain ⟨before, hbefore⟩ : ∃ before, find key old = some before :=
      Option.isSome_iff_exists.1 (by rw [← hkeys, find_of_mem hs hmem]; rfl)
    obtain ⟨_, hdiff, -, hgood, hturns⟩ := hd _ before child (hb.field (find_mem hbefore)) (ha.field hmem)
    have hgood' := forall_mem_append.2 ⟨hg, hgood⟩
    rw [fieldEdits, lookup_of_find hbefore, ok_bind, hdiff, ok_bind]
    rw [map_under_append] at hgood' ⊢
    simp only
    split_ifs with hlong
    · exact ⟨_, rfl, hgood', .inr (.inl hlong)⟩
    · exact ih (done ++ [(key, child)]) (by simpa using hv) _ hgood'
        (hacc.descend (fun _ _ _ _ => rfl) hnew hbefore hturns)

theorem entryEdits_edits (hb : Located property path (.map old)) (ha : Located property path (.map value))
    (done rest : AttributeStruct) (hv : done ++ rest = value) (acc : List AttributePatch)
    (hg : ∀ e ∈ acc.map (under path), Good property e)
    (hacc : Advances .map old (kept old value) done acc) :
    Edits property path (.map old) (.map value)
      (entryEdits diff property path old rest (acc.map (under path))) := by
  have hord := ha.ordered
  have hfits := ha.fits
  cases hord with | map hs hdeep =>
  cases hfits with | map _ hl _ _ =>
  induction rest generalizing done acc with
  | nil =>
    rw [append_nil] at hv
    subst hv
    exact ⟨_, rfl, hg, .inr (.inr ⟨acc, rfl, hacc.turns hs⟩)⟩
  | cons e _ ih =>
    obtain ⟨key, child⟩ := e
    have hmem : (key, child) ∈ value := by rw [← hv]; simp
    have hnew : find key done = none := find_done_none (by rw [hv]; exact hs)
    have hkey : find key (kept old value) = find key old := by
      rw [find_kept, contains, find_of_mem hs hmem]; rfl
    rw [entryEdits]
    split_ifs with hlong
    · exact ⟨_, rfl, hg, .inr (.inl hlong)⟩
    cases hbefore : find key old with
    | some before =>
      obtain ⟨_, hdiff, -, hgood, hturns⟩ := hd _ before child (hb.entry (find_mem hbefore)) (ha.entry hmem)
      have hgood' := forall_mem_append.2 ⟨hg, hgood⟩
      simp only
      rw [hdiff, ok_bind]
      rw [map_under_append] at hgood' ⊢
      exact ih (done ++ [(key, child)]) (by simpa using hv) _ hgood'
        (hacc.descend (fun _ _ _ _ => rfl) hnew (hkey.trans hbefore) hturns)
    | none =>
      have hassign : [assignPatch property path key child] =
          [assignPatch property [] key child].map (under path) := by
        simp [under, assignPatch]
      simp only
      rw [hassign, ← map_append]
      refine ih (done ++ [(key, child)]) (by simpa using hv) _ ?_ (hacc.assign property hnew hv (hdeep _ hmem) hl)
      rw [map_append, ← hassign, forall_mem_append]
      exact ⟨hg, by simpa using ha.assign hmem⟩

/-- The loop over the middle of two vectors of one length, from index `i`: the
first `i` items are already the new ones. -/
theorem itemEdits_edits {old value : List AttributeValue} (hb : Located property path (.array old))
    (ha : Located property path (.array value)) (hlen : old.length = value.length) (count i : Nat)
    (hi : i + count ≤ value.length)
    (hend : (old.drop (i + count)).map canon = (value.drop (i + count)).map canon) (acc : List AttributePatch)
    (hg : ∀ e ∈ acc.map (under path), Good property e)
    (hacc : ∀ t : AttributeValue, t.Ordered → t.canon = (AttributeValue.array old).canon →
      ∃ items, runPatches t acc = .ok (.array items) ∧ (∀ v ∈ items, v.Ordered) ∧
        items.map canon = (value.take i ++ old.drop i).map canon) :
    Edits property path (.array old) (.array value)
      (itemEdits diff path i ((old.drop i).take count) ((value.drop i).take count)
        (acc.map (under path))) := by
  induction count generalizing i acc with
  | zero =>
    simp only [take_zero, itemEdits]
    refine ⟨_, rfl, hg, .inr (.inr ⟨acc, rfl, fun t ho ht => ?_⟩)⟩
    obtain ⟨items, hrun, hord, hitems⟩ := hacc t ho ht
    refine ⟨.array items, hrun, .array hord, ?_⟩
    rw [canon, canon, canonItems_eq, canonItems_eq, hitems, map_append]
    rw [Nat.add_zero] at hend
    rw [hend, ← map_append, take_append_drop]
  | succ count ih =>
    have hio : i < old.length := by omega
    have hiv : i < value.length := by omega
    rw [drop_eq_getElem_cons hio, drop_eq_getElem_cons hiv, take_succ_cons, take_succ_cons, itemEdits]
    obtain ⟨patches, hdiff, -, hgood, hturns⟩ := hd _ old[i] value[i] (hb.item (getElem?_eq_getElem hio))
      (ha.item (getElem?_eq_getElem hiv))
    have hgood' := forall_mem_append.2 ⟨hg, hgood⟩
    rw [hdiff, ok_bind]
    rw [map_under_append] at hgood' ⊢
    simp only
    split_ifs with hlong
    · exact ⟨_, rfl, hgood', .inr (.inl hlong)⟩
    refine ih (i + 1) (by omega) ?_ _ hgood' fun t ho ht => ?_
    · rwa [show i + 1 + count = i + (count + 1) by omega]
    · obtain ⟨items, hrun, hord, hitems⟩ := hacc t ho ht
      have hitem : items[i]?.map canon = some (old[i].canon) := by
        have := congrArg (fun l => l[i]?) hitems
        simp only [getElem?_map] at this
        rw [this, getElem?_append_right (by simp)]
        simp [Nat.min_eq_left (le_of_lt hiv), getElem?_eq_getElem hio]
      obtain ⟨c, hc, hcc⟩ := Option.map_eq_some_iff.1 hitem
      obtain ⟨c', hrunc, hc'o, hc'c⟩ := hturns c (hord c (mem_of_getElem? hc)) hcc
      refine ⟨items.set i c', ?_, ?_, ?_⟩
      · rw [runPatches_append hrun]
        exact runPatches_item hc hrunc
      · intro v hv
        rcases mem_or_eq_of_mem_set hv with hv | rfl
        · exact hord v hv
        · exact hc'o
      · rw [map_set, hitems, hc'c, ← map_set]
        congr 1
        rw [set_append_right _ _ (by simp), length_take, Nat.min_eq_left (le_of_lt hiv), Nat.sub_self,
          drop_eq_getElem_cons hio, set_cons_zero, ← take_append_getElem hiv, append_assoc,
          singleton_append]

theorem middleEdits_edits {old value : List AttributeValue} (hb : Located property path (.array old))
    (ha : Located property path (.array value)) :
    Edits property path (.array old) (.array value) (middleEdits diff path old value) := by
  obtain ⟨hle, hle', hlead, htail⟩ := ha.ends old
  unfold middleEdits
  simp only
  split_ifs with hlen
  · generalize commonLead old value = lead at *
    generalize commonTail old value lead = tail at *
    have hsum : lead + (value.length - lead - tail) = value.length - tail := by omega
    refine itemEdits_edits hd hb ha hlen _ lead (by omega) ?_ [] (by simp) fun t ho ht => ?_
    · rw [hsum, ← htail, hlen]
    · obtain ⟨items, rfl, hitems⟩ := canon_eq_array ht
      cases ho with | array hdeep =>
      refine ⟨items, rfl, hdeep, ?_⟩
      rw [hitems, map_append, ← hlead, ← map_append, take_append_drop]
  · exact edits_none _ _

theorem innerEdits_edits (hb : Located property path before) (ha : Located property path after) :
    Edits property path before after (innerEdits diff property path before after) := by
  cases before <;> cases after <;> try exact edits_none _ _
  · rename_i old value
    have hord := hb.ordered
    cases hord with | fields hsold _ =>
    unfold innerEdits
    simp only
    split_ifs with hkeys
    · obtain ⟨hlen, hall⟩ := hkeys
      have hsub : ∀ k, (find k old).isSome = true → (find k value).isSome = true := by
        intro k hk
        obtain ⟨b, hb⟩ := Option.isSome_iff_exists.1 hk
        exact all_eq_true.1 hall _ (find_mem hb)
      have hsame := same_keys hsold hlen hsub
      refine fieldEdits_edits hd hb ha (fun k => (hsame k).symm) [] value rfl [] (by simp) fun t ho ht => ?_
      obtain ⟨es, rfl, hes⟩ := canon_eq_fields ht
      cases ho with | fields hs hdeep =>
      exact ⟨es, rfl, .start hs hdeep (find_canon_eq hes)⟩
    · exact edits_none _ _
  · rename_i old value
    obtain ⟨edits, hmid, hgood, hedits⟩ := middleEdits_edits hd hb ha
    unfold innerEdits
    simp only
    rw [hmid, ok_bind]
    rcases cheaper_ok (hb.splice ha).cheap (fun e he => (hgood e he).cheap) with hr | ⟨hr, hne, hle⟩
    · refine ⟨_, hr, by simpa using hb.splice ha,
        .inr (.inr ⟨[splicePatch property [] old value], ?_, turns_splice hb ha⟩)⟩
      simp [under, splicePatch]
    · exact ⟨_, hr, hgood, hedits⟩
  · rename_i old value
    unfold innerEdits
    simp only
    have herase : erasePatches property path old value =
        (erasePatches property [] old value).map (under path) := by
      simp [erasePatches, under]
    rw [herase]
    refine entryEdits_edits hd hb ha [] value rfl _ ?_ (erasePatches_advances hb)
    rw [← herase]
    intro e he
    obtain ⟨⟨k, v⟩, hm, rfl⟩ := mem_map.1 he
    exact hb.erase (mem_of_mem_filter hm)

end children

/-- `diff_fields` returns patches, at most 256, that lead from the old value to the new one. -/
theorem diffLevels_diffs (levels : Nat) (hb : Located property path before) (ha : Located property path after) :
    Diffs property path before after (diffLevels levels property path before after) := by
  induction levels generalizing path before after with
  | zero => exact diffStep_diffs ha (edits_none _ _)
  | succ _ ih => exact diffStep_diffs ha (innerEdits_edits (fun _ b a hb ha => ih hb ha) hb ha)

end Fsnet
