import Fsnet.Attributes.Convergence
/-!
# `attribute_delta` finds a bridge

Whichever record the sizes select, it is the next image itself or a bridge to
it, and it is within the encoder's limits; so a replica that holds the previous
image and applies the decoded record holds the next one.
-/

namespace Fsnet

open Lib AttributeValue Entries List

/-! ## Container edits -/

theorem Progress.keep {base done es : AttributeStruct} (h : Progress base done es) {key : Bytes}
    {before child : AttributeValue} (hk : find key done = none) (hf : find key base = some before)
    (hc : before.canon = child.canon) : Progress base (done ++ [(key, child)]) es where
  sorted := h.sorted
  ordered := h.ordered
  lookups k := by
    rw [h.lookups, find_append]
    by_cases hkey : k = key
    · subst hkey
      rw [hk, hf, find_cons, if_pos rfl]
      simp [hc]
    · rw [find_cons, if_neg hkey]
      simp

/-- Assigning the changed entries completes a map from which the stale keys are gone. -/
theorem assignPatches_turns {name : Bytes} {old value : AttributeStruct}
    (hvalue : Located name [] (.map value)) (done rest : AttributeStruct) (hv : done ++ rest = value)
    (acc : List AttributePatch) (hacc : Advances .map old (kept old value) done acc) :
    Turns (acc ++ (rest.filter fun e => changed old e.1 e.2).map fun e => assignPatch name [] e.1 e.2)
      (.map old) (.map value) := by
  have hord := hvalue.ordered
  have hfits := hvalue.fits
  cases hord with | map hs hdeep =>
  cases hfits with | map _ hl _ deep =>
  induction rest generalizing done acc with
  | nil =>
    rw [append_nil] at hv
    subst hv
    rw [filter_nil, map_nil, append_nil]
    exact hacc.turns hs
  | cons e _ ih =>
    obtain ⟨key, child⟩ := e
    have hmem : (key, child) ∈ value := by rw [← hv]; simp
    have hfind : find key value = some child := find_of_mem hs hmem
    have hnew : find key done = none := find_done_none (by rw [hv]; exact hs)
    cases hch : changed old key child with
    | true =>
      rw [filter_cons_of_pos (by simpa using hch), map_cons, ← singleton_append, ← append_assoc]
      exact ih (done ++ [(key, child)]) (by simpa using hv) _ (hacc.assign name hnew hv (hdeep _ hmem) hl)
    | false =>
      rw [filter_cons_of_neg (by simpa using hch)]
      refine ih (done ++ [(key, child)]) (by simpa using hv) _ fun t ho ht => ?_
      obtain ⟨es, hrun, hp⟩ := hacc t ho ht
      -- an unchanged entry is there already
      obtain ⟨before, hbefore, hsame⟩ : ∃ before, find key old = some before ∧ same before child = true := by
        unfold changed at hch
        cases hb : find key old with
        | none => simp [hb] at hch
        | some b => exact ⟨b, rfl, by simpa [hb] using hch⟩
      have hkept : find key (kept old value) = some before := by
        rw [find_kept, contains, hfind]; simpa using hbefore
      exact ⟨es, hrun, hp.keep hnew hkept ((same_iff (deep _ hmem).finite).1 hsame)⟩

theorem containerEdits_spec {name : Bytes} {old value : AttributeValue} {edits : List AttributePatch}
    (hold : Located name [] old) (hvalue : Located name [] value)
    (h : containerEdits name (some old) value = some edits) :
    (∀ patch ∈ edits, Good name patch) ∧ Turns edits old value := by
  cases old <;> cases value <;> simp only [containerEdits, reduceCtorEq, Option.some.injEq] at h
  · subst h
    exact ⟨by simpa using hold.splice hvalue, turns_splice hold hvalue⟩
  subst h
  refine ⟨?_, assignPatches_turns hvalue [] _ rfl _ (erasePatches_advances hold)⟩
  rw [forall_mem_append]
  constructor
  · intro patch hp
    obtain ⟨⟨k, v⟩, hm, rfl⟩ := mem_map.1 hp
    exact hold.erase (mem_of_mem_filter hm)
  · intro patch hp
    obtain ⟨⟨k, v⟩, hm, rfl⟩ := mem_map.1 hp
    exact hvalue.assign (mem_of_mem_filter hm)

/-! ## The candidates -/

section candidates

variable {previous next : SnapshotImage}

theorem changed_eq_false {entries : AttributeStruct} {key : Bytes} {value : AttributeValue} (hv : value.Finite)
    (h : changed entries key value = false) : ∃ old, find key entries = some old ∧ old.canon = value.canon := by
  unfold changed at h
  cases hf : find key entries with
  | none => rw [hf] at h; cases h
  | some old =>
    rw [hf] at h
    exact ⟨old, rfl, (same_iff hv).1 (by simpa using h)⟩

theorem finite_of_mem {e : Bytes × AttributeValue} (he : e ∈ next.update.values) : e.2.Finite :=
  (next.imageFits.deep e he).finite

theorem fullDelta_eq : fullDelta previous.update next.update =
    bridge previous.update next.update (fun e => changed previous.update.values e.1 e.2) fun _ => [] := by
  simp [fullDelta, bridge]

theorem fullDelta_bridges :
    Bridges previous.update next.update (fun e => changed previous.update.values e.1 e.2) fun _ => [] where
  good := by simp
  plain := by simp
  turns e he hw := by
    obtain ⟨old, hold, hc⟩ := changed_eq_false (finite_of_mem he) hw
    exact ⟨old, hold, turns_nil hc⟩

theorem fullDelta_accepted (hrev : previous.update.revision ≤ next.update.revision) :
    Accepted (fullDelta previous.update next.update) :=
  within_accepted (next.within_filter _) hrev

/-- The container edits of a property that changed. -/
def changedEdits (previous : AttributeStruct) (e : Bytes × AttributeValue) : Option (List AttributePatch) :=
  if changed previous e.1 e.2 then containerEdits e.1 (find e.1 previous) e.2 else none

theorem flatMap_filter {α β : Type} (p : α → Bool) (f : α → List β) (l : List α) :
    (l.filter p).flatMap f = l.flatMap fun a => if p a then f a else [] := by
  induction l with
  | nil => rfl
  | cons a _ ih =>
    cases hp : p a with
    | true => rw [filter_cons_of_pos hp, flatMap_cons, flatMap_cons, ih, hp]; rfl
    | false => rw [filter_cons_of_neg (by simp [hp]), flatMap_cons, ih, hp]; rfl

theorem sparseDelta_eq : sparseDelta previous.update next.update =
    bridge previous.update next.update
      (fun e => changed previous.update.values e.1 e.2 && (changedEdits previous.update.values e).isNone)
      (fun e => (changedEdits previous.update.values e).getD []) := by
  unfold sparseDelta fullDelta bridge
  simp only [AttributeUpdate.mk.injEq, true_and, flatMap_filter, filter_filter]
  constructor
  · refine filter_congr fun e _ => ?_
    cases hc : changed previous.update.values e.1 e.2 <;> simp [changedEdits, hc]
  · congr 1
    funext e
    cases hc : changed previous.update.values e.1 e.2 <;> simp [changedEdits, hc]

theorem sparseDelta_bridges :
    Bridges previous.update next.update
      (fun e => changed previous.update.values e.1 e.2 && (changedEdits previous.update.values e).isNone)
      (fun e => (changedEdits previous.update.values e).getD []) := by
  have hspec : ∀ e ∈ next.update.values, ∀ edits, changedEdits previous.update.values e = some edits →
      ∃ old, find e.1 previous.update.values = some old ∧
        (∀ patch ∈ edits, Good e.1 patch) ∧ Turns edits old e.2 := by
    intro e he edits hedits
    unfold changedEdits at hedits
    split_ifs at hedits
    cases hf : find e.1 previous.update.values with
    | none => rw [hf] at hedits; cases hedits
    | some old =>
      rw [hf] at hedits
      exact ⟨old, rfl, containerEdits_spec (previous.located (find_mem hf)) (next.located he) hedits⟩
  refine ⟨fun e he patch hp => ?_, fun e he hw => ?_, fun e he hw => ?_⟩
  · cases hedits : changedEdits previous.update.values e with
    | none => simp [hedits] at hp
    | some edits =>
      obtain ⟨old, -, hgood, -⟩ := hspec e he edits hedits
      exact hgood patch (by simpa [hedits] using hp)
  · cases hedits : changedEdits previous.update.values e with
    | none => rfl
    | some => simp [hedits] at hw
  · cases hedits : changedEdits previous.update.values e with
    | none =>
      rw [hedits] at hw
      obtain ⟨old, hold, hc⟩ := changed_eq_false (finite_of_mem he) (by simpa using hw)
      exact ⟨old, hold, turns_nil hc⟩
    | some edits =>
      obtain ⟨old, hold, -, hturns⟩ := hspec e he edits hedits
      exact ⟨old, hold, hturns⟩

/-! ## Field paths -/

/-- What the loop over the properties does with one of them: whether it goes
into the record whole, and the patches it adds. -/
def fieldChoice (previous : AttributeStruct) (e : Bytes × AttributeValue) : Bool × List AttributePatch :=
  match find e.1 previous with
  | none => (true, [])
  | some old =>
    if same old e.2 then (false, [])
    else match diffFields e.1 [] old e.2 with
      | .ok edits => if isRootReplacement edits then (true, []) else (false, edits)
      | .error _ => (false, [])

theorem diffFields_spec {name : Bytes} {old value : AttributeValue} (hold : Located name [] old)
    (hvalue : Located name [] value) :
    ∃ edits, diffFields name [] old value = .ok edits ∧ (∀ patch ∈ edits, Good name patch) ∧ Turns edits old value := by
  obtain ⟨patches, hdiff, -, hgood, hturns⟩ := diffLevels_diffs 8 hold hvalue
  have hid : patches.map (AttributePatch.under []) = patches := map_id' patches
  rw [hid] at hdiff hgood
  exact ⟨patches, hdiff, hgood, hturns⟩

/-- The record with one more property. -/
def AttributeUpdate.extend (delta : AttributeUpdate) (e : Bytes × AttributeValue)
    (choice : Bool × List AttributePatch) :
    AttributeUpdate :=
  { delta with values := if choice.1 then delta.values ++ [e] else delta.values, patches := delta.patches ++ choice.2 }

/-- One round of the loop. -/
theorem fieldsLoop_cons {e : Bytes × AttributeValue} {rest : AttributeStruct} {delta : AttributeUpdate}
    (he : e ∈ next.update.values) (hlt : ∀ x ∈ delta.values, x.1 < e.1) (hle : delta.patches.length ≤ 256) :
    fieldsLoop previous.update.values (e :: rest) delta =
      if (delta.extend e (fieldChoice previous.update.values e)).patches.length > 256 then .ok none
      else fieldsLoop previous.update.values rest (delta.extend e (fieldChoice previous.update.values e)) := by
  obtain ⟨name, value⟩ := e
  have hwhole : delta.withValue name value = delta.extend (name, value) (true, []) := by
    simp [AttributeUpdate.withValue, AttributeUpdate.extend, insert_last _ _ _ hlt]
  have hsame : delta = delta.extend (name, value) (false, []) := by
    simp [AttributeUpdate.extend]
  have hkeep : ∀ w, ¬(delta.extend (name, value) (w, [])).patches.length > 256 := by
    intro w
    simpa [AttributeUpdate.extend] using hle
  rw [fieldsLoop]
  unfold fieldChoice
  simp only
  cases hf : find name previous.update.values with
  | none =>
    simp only
    rw [if_neg (hkeep true), ← hwhole]
  | some old =>
    simp only
    by_cases hs : same old value = true
    · rw [if_pos hs, if_pos hs, if_neg (hkeep false), ← hsame]
    rw [if_neg hs, if_neg hs]
    obtain ⟨edits, hdiff, -⟩ := diffFields_spec (previous.located (find_mem hf)) (next.located he)
    rw [hdiff]
    simp only [ok_bind]
    cases hroot : isRootReplacement edits with
    | true =>
      simp only [if_true]
      rw [hwhole]
      rfl
    | false =>
      simp only [Bool.false_eq_true, if_false]
      rfl

/-- The whole loop: either the patches become too many, or the record has every
property the way it was chosen. -/
theorem fieldsLoop_eq {rest : AttributeStruct} (hrest : rest.Sublist next.update.values) (delta : AttributeUpdate)
    (hlt : ∀ e ∈ delta.values, ∀ e' ∈ rest, e.1 < e'.1) (hle : delta.patches.length ≤ 256) :
    fieldsLoop previous.update.values rest delta = .ok none ∨
      ∃ final : AttributeUpdate, fieldsLoop previous.update.values rest delta = .ok (some final) ∧
        final.patches.length ≤ 256 ∧
        final = { delta with
          values := delta.values ++ rest.filter fun e => (fieldChoice previous.update.values e).1
          patches := delta.patches ++ rest.flatMap fun e => (fieldChoice previous.update.values e).2 } := by
  induction rest generalizing delta with
  | nil => exact .inr ⟨delta, rfl, hle, by simp⟩
  | cons e rest ih =>
    have htail : rest.Sublist next.update.values := (sublist_cons_self _ _).trans hrest
    have hsorted := pairwise_cons.1 (next.sorted.sublist hrest)
    rw [fieldsLoop_cons (hrest.subset mem_cons_self) (fun x hx => hlt x hx e mem_cons_self) hle]
    split_ifs with hlong
    · exact .inl rfl
    have hlt' : ∀ x ∈ (delta.extend e (fieldChoice previous.update.values e)).values, ∀ e' ∈ rest, x.1 < e'.1 := by
      intro x hx e' he'
      simp only [AttributeUpdate.extend] at hx
      split_ifs at hx
      · rcases mem_append.1 hx with hx | hx
        · exact hlt x hx e' (mem_cons_of_mem _ he')
        · rw [mem_singleton.1 hx]; exact hsorted.1 e' he'
      · exact hlt x hx e' (mem_cons_of_mem _ he')
    rcases ih htail _ hlt' (by omega) with hnone | ⟨final, hsome, hfle, hfinal⟩
    · exact .inl hnone
    refine .inr ⟨final, hsome, hfle, hfinal.trans ?_⟩
    simp only [AttributeUpdate.extend, AttributeUpdate.mk.injEq, true_and, flatMap_cons, append_assoc,
      and_true]
    cases hw : (fieldChoice previous.update.values e).1 with
    | true | false => simp [hw]

theorem fieldChoice_bridges :
    Bridges previous.update next.update (fun e => (fieldChoice previous.update.values e).1)
      (fun e => (fieldChoice previous.update.values e).2) := by
  have hspec : ∀ e ∈ next.update.values, (fieldChoice previous.update.values e) = (true, []) ∨
      ((fieldChoice previous.update.values e).1 = false ∧ ∃ old, find e.1 previous.update.values = some old ∧
        (∀ patch ∈ (fieldChoice previous.update.values e).2, Good e.1 patch) ∧
        Turns (fieldChoice previous.update.values e).2 old e.2) := by
    intro e he
    unfold fieldChoice
    cases hf : find e.1 previous.update.values with
    | none => exact .inl rfl
    | some old =>
      simp only
      by_cases hs : same old e.2 = true
      · rw [if_pos hs]
        exact .inr ⟨rfl, old, rfl, by simp, turns_nil ((same_iff (finite_of_mem he)).1 hs)⟩
      rw [if_neg hs]
      obtain ⟨_, hdiff, hgood, hturns⟩ := diffFields_spec (previous.located (find_mem hf)) (next.located he)
      rw [hdiff]
      simp only
      split_ifs
      · exact .inl rfl
      · exact .inr ⟨rfl, old, rfl, hgood, hturns⟩
  refine ⟨fun e he patch hp => ?_, fun e he hw => ?_, fun e he hw => ?_⟩
  · rcases hspec e he with hc | ⟨-, old, -, hgood, -⟩
    · rw [hc] at hp; cases hp
    · exact hgood patch hp
  · rcases hspec e he with hc | ⟨hf, -⟩
    · rw [hc]
    · rw [hf] at hw; cases hw
  · rcases hspec e he with hc | ⟨-, old, hold, -, hturns⟩
    · rw [hc] at hw; cases hw
    · exact ⟨old, hold, hturns⟩

/-! ## The choice -/

/-- A record that leads to the next image and that the encoder accepts. -/
structure Reaches (previous next : SnapshotImage) (delta : AttributeUpdate) : Prop where
  accepted : Accepted delta
  ordered : UpdateOrdered delta
  leads : delta = next.update ∨
    ((∀ k, (find k previous.update.values).isSome = true → (find k next.update.values).isSome = true) ∧
      ∃ whole edits, delta = bridge previous.update next.update whole edits ∧
        Bridges previous.update next.update whole edits)

theorem reaches_next : Reaches previous next next.update := ⟨next.isAccepted, next.ordered, .inl rfl⟩

theorem reaches_bridge {whole : Bytes × AttributeValue → Bool} {edits : Bytes × AttributeValue → List AttributePatch}
    (hkeys : ∀ k, (find k previous.update.values).isSome = true →
      (find k next.update.values).isSome = true)
    (h : Bridges previous.update next.update whole edits)
    (hacc : Accepted (bridge previous.update next.update whole edits)) :
    Reaches previous next (bridge previous.update next.update whole edits) :=
  ⟨hacc, h.updateOrdered, .inr ⟨hkeys, whole, edits, rfl, h⟩⟩

/-- The candidate is taken only after its size was computed; otherwise the choice stays. -/
theorem preferSmaller_cases {smaller : Except Failure Bool} (h : OnlyLength smaller)
    (candidate best : AttributeUpdate) :
    preferSmaller smaller candidate best = .ok best ∨
      (preferSmaller smaller candidate best = .ok candidate ∧ smaller = .ok true) := by
  cases smaller with
  | error e =>
    obtain ⟨_, rfl⟩ := h e rfl
    exact .inl rfl
  | ok b =>
    cases b with
    | true => exact .inr ⟨rfl, rfl⟩
    | false => exact .inl rfl

/-- A bridge with few enough patches: its size is computed or too large. -/
theorem Bridges.size_onlyLength {whole : Bytes × AttributeValue → Bool}
    {edits : Bytes × AttributeValue → List AttributePatch} (h : Bridges previous.update next.update whole edits)
    (hrev : previous.update.revision ≤ next.update.revision)
    (hcount : (bridge previous.update next.update whole edits).patches.length ≤ 256) :
    OnlyLength (attributeWireSize (bridge previous.update next.update whole edits)) :=
  attributeWireSize_onlyLength (h.updateFits hrev hcount)

theorem containerDelta_reaches (previous next : SnapshotImage)
    (hrev : previous.update.revision ≤ next.update.revision) :
    ∃ delta, containerDelta previous.update next.update = .ok delta ∧ Reaches previous next delta ∧
      (delta.snapshot = false → ∀ k, (find k previous.update.values).isSome = true →
        (find k next.update.values).isSome = true) := by
  have himages : ¬(previous.update.snapshot = false ∨ next.update.snapshot = false ∨
      previous.update.patches.isEmpty = false ∨ next.update.patches.isEmpty = false) := by
    simp [previous.snapshot, next.snapshot, previous.patches_nil, next.patches_nil]
  unfold containerDelta
  rw [refuseIf_of_not _ himages, ok_bind]
  by_cases hmissing : previous.update.values.any (fun e => !contains next.update.values e.1) = true
  · rw [if_pos hmissing]
    exact ⟨_, rfl, reaches_next, by rw [next.snapshot]; intro hf; cases hf⟩
  rw [if_neg hmissing, if_neg (fun hback => UInt64.not_le.2 hback hrev)]
  have hkeys : ∀ k, (find k previous.update.values).isSome = true →
      (find k next.update.values).isSome = true := by
    intro k hk
    obtain ⟨v, hv⟩ := Option.isSome_iff_exists.1 hk
    have hall := any_eq_false.1 (Bool.eq_false_iff.2 hmissing) _ (find_mem hv)
    simpa only [contains, Bool.not_eq_true', Bool.not_eq_false] using hall
  have hfull : Reaches previous next (fullDelta previous.update next.update) := by
    have hacc := fullDelta_accepted hrev
    rw [fullDelta_eq] at hacc ⊢
    exact reaches_bridge hkeys fullDelta_bridges hacc
  simp only
  split_ifs with hpatches
  · exact ⟨_, rfl, hfull, fun _ => hkeys⟩
  rw [attributeWireSize_eq_ok.2 ⟨fullDelta_accepted hrev, rfl⟩, ok_bind]
  have hcount : (sparseDelta previous.update next.update).patches.length ≤ 256 := by
    by_contra hlong
    exact hpatches (.inr (by omega))
  have hsize : OnlyLength (attributeWireSize (sparseDelta previous.update next.update)) := by
    rw [sparseDelta_eq] at hcount ⊢
    exact sparseDelta_bridges.size_onlyLength hrev hcount
  have honly : OnlyLength ((attributeWireSize (sparseDelta previous.update next.update)).map fun n =>
      decide (n < 4 + (updateBody (fullDelta previous.update next.update)).length)) := by
    intro e he
    cases hs : attributeWireSize (sparseDelta previous.update next.update) with
    | error => rw [hs] at he; cases he; exact hsize e hs
    | ok => rw [hs] at he; cases he
  rcases preferSmaller_cases honly (sparseDelta previous.update next.update) (fullDelta previous.update next.update)
    with hbest | ⟨hsparse, hok⟩
  · exact ⟨_, hbest, hfull, fun _ => hkeys⟩
  refine ⟨_, hsparse, ?_, fun _ => hkeys⟩
  cases hs : attributeWireSize (sparseDelta previous.update next.update) with
  | error => rw [hs] at hok; cases hok
  | ok =>
    have hacc := (attributeWireSize_eq_ok.1 hs).1
    rw [sparseDelta_eq] at hacc ⊢
    exact reaches_bridge hkeys sparseDelta_bridges hacc

theorem attributeDelta_reaches (previous next : SnapshotImage)
    (hrev : previous.update.revision ≤ next.update.revision) :
    ∃ delta, attributeDelta previous.update next.update = .ok delta ∧ Reaches previous next delta := by
  obtain ⟨best, hbest, hreach, hkeys⟩ := containerDelta_reaches previous next hrev
  unfold attributeDelta
  rw [hbest, ok_bind]
  cases hsnap : best.snapshot with
  | true => exact ⟨best, rfl, hreach⟩
  | false =>
    have hkeys := hkeys hsnap
    rw [if_neg (by simp)]
    rcases fieldsLoop_eq (List.Sublist.refl next.update.values)
        { base := previous.update.revision, revision := next.update.revision, snapshot := false, values := [] }
        (by simp) (by simp) with hnone | ⟨final, hsome, hcount, hfinal⟩
    · rw [hnone, ok_bind]
      exact ⟨best, rfl, hreach⟩
    rw [hsome, ok_bind, preferFields]
    simp only [nil_append] at hfinal
    obtain rfl : final = bridge previous.update next.update (fun e => (fieldChoice previous.update.values e).1)
      (fun e => (fieldChoice previous.update.values e).2) := hfinal
    split_ifs with hempty
    · exact ⟨best, rfl, hreach⟩
    have honly := fieldChoice_bridges.size_onlyLength hrev hcount
    have hbestSize : OnlyLength (attributeWireSize best) := by
      rw [attributeWireSize_eq_ok.2 ⟨hreach.accepted, rfl⟩]
      exact .ok _
    rcases preferSmaller_cases (honly.bind fun n _ => hbestSize.bind fun m _ => .ok (decide (n < m)))
        _ best with hkeep | ⟨htake, hok⟩
    · exact ⟨best, hkeep, hreach⟩
    refine ⟨_, htake, reaches_bridge hkeys fieldChoice_bridges ?_⟩
    simp only [bind_eq_ok] at hok
    obtain ⟨n, hn, -⟩ := hok
    exact (attributeWireSize_eq_ok.1 hn).1

/-- Applying such a record to a replica that holds the previous image. -/
theorem Reaches.apply {delta : AttributeUpdate} (h : Reaches previous next delta) {replica : AttributeReplica}
    (hr : replica.Holds previous.update) (hrev : previous.update.revision ≤ next.update.revision) :
    ∃ replica', replica.apply delta = .ok (true, replica') ∧ replica'.Holds next.update := by
  rcases h.leads with rfl | ⟨hkeys, _, _, rfl, hbridge⟩
  · exact AttributeReplica.apply_snapshot hr.initialized (hr.revision ▸ hrev)
  · exact AttributeReplica.apply_bridge hr hrev hkeys hbridge h.accepted

end candidates

/-! ## Empty deltas -/

theorem containerDelta_cases {previous next delta : AttributeUpdate} (h : containerDelta previous next = .ok delta) :
    next.snapshot = true ∧ (delta = next ∨
      ((∀ e ∈ previous.values, contains next.values e.1 = true) ∧
        (delta = fullDelta previous next ∨ delta.patches ≠ []))) := by
  simp only [containerDelta, bind_eq_ok, refuseIf_eq_ok] at h
  obtain ⟨_, himages, h⟩ := h
  refine ⟨by simp only [not_or] at himages; simpa using himages.2.1, ?_⟩
  split_ifs at h with hmissing hback hpatches
  · cases h
    exact .inl rfl
  · cases h
    exact .inl rfl
  all_goals
    have hkeys : ∀ e ∈ previous.values, contains next.values e.1 = true := by
      intro e he
      have hall := any_eq_false.1 (Bool.eq_false_iff.2 hmissing) e he
      simpa using hall
    right
    refine ⟨hkeys, ?_⟩
  · cases h
    exact .inl rfl
  · simp only [bind_eq_ok] at h
    obtain ⟨_, -, h⟩ := h
    unfold preferSmaller at h
    have hsparse : (sparseDelta previous next).patches ≠ [] := by
      intro hnil
      exact hpatches (.inl (by rw [hnil]; rfl))
    split at h
    · cases h
      exact .inr hsparse
    · cases h
      exact .inl rfl
    · split_ifs at h
      · cases h
        exact .inl rfl

/-- A delta with nothing in it: every property is as it was, and none is gone. -/
theorem attributeDelta_empty {previous next delta : AttributeUpdate} (h : attributeDelta previous next = .ok delta)
    (hsnap : delta.snapshot = false) (hvalues : delta.values = []) (hpatches : delta.patches = []) :
    (∀ e ∈ previous.values, contains next.values e.1 = true) ∧
      ∀ e ∈ next.values, changed previous.values e.1 e.2 = false := by
  simp only [attributeDelta, bind_eq_ok] at h
  obtain ⟨best, hbest, h⟩ := h
  obtain ⟨hnext, hcases⟩ := containerDelta_cases hbest
  -- the record with field paths is taken only if it has patches
  have hdelta : delta = best := by
    split_ifs at h
    · cases h
      rfl
    simp only [bind_eq_ok] at h
    obtain ⟨_, -, h⟩ := h
    unfold preferFields at h
    split at h
    · cases h
      rfl
    next fields =>
      split_ifs at h with hempty
      · cases h
        rfl
      unfold preferSmaller at h
      split at h
      · cases h
        rw [hpatches] at hempty
        exact absurd rfl hempty
      · cases h
        rfl
      · split_ifs at h
        · cases h
          rfl
  subst hdelta
  rcases hcases with rfl | ⟨hkeys, rfl | hne⟩
  · rw [hnext] at hsnap
    cases hsnap
  · refine ⟨hkeys, ?_⟩
    intro e he
    by_contra hch
    have hmem : e ∈ (fullDelta previous next).values := mem_filter.2 ⟨he, by simpa using hch⟩
    rw [hvalues] at hmem
    cases hmem
  · exact absurd hpatches hne

/-! ## Following a delta -/

/-- A replica that holds the previous image, whatever its zeros, and applies the
decoded delta to the next one holds the next one. -/
theorem attribute_delta_followed (previous next : SnapshotImage) (replica : AttributeReplica)
    (hrev : previous.update.revision ≤ next.update.revision) (hr : replica.Holds previous.update) :
    ∃ delta bytes decoded replica', attributeDelta previous.update next.update = .ok delta ∧
      encodeAttributes delta = .ok bytes ∧ decodeAttributes bytes = .ok decoded ∧
      replica.apply decoded = .ok (true, replica') ∧ replica'.revision = next.update.revision ∧
      sameEntries replica'.values next.update.values = true := by
  obtain ⟨delta, hdelta, hreach⟩ := attributeDelta_reaches previous next hrev
  have hbytes := encodeAttributes_eq_ok.2 ⟨hreach.accepted, rfl⟩
  have hdecoded := decodeAttributes_wire hreach.accepted hreach.ordered
  obtain ⟨replica', happly, hholds⟩ := hreach.apply hr hrev
  exact ⟨delta, _, delta, replica', hdelta, hbytes, hdecoded, happly, hholds.revision, hholds.same⟩

/-- A position and a score, at revision 1. -/
def scoreBefore : SnapshotImage where
  update :=
    { base := 0, revision := 1, snapshot := true
      values := [(ascii "pos", .array [.number negativeZero, .integer 2]), (ascii "score", .integer 1)] }
  snapshot := rfl
  ordered :=
    { sorted := pairwise_pair.2 (by decide)
      deep := by simp [Ordered.array, Ordered.integer, Ordered.number]
      patches := by simp }
  accepted := ⟨_, rfl⟩

/-- The position gets an item, its zero another sign, and the score rises. -/
def scoreAfter : SnapshotImage where
  update :=
    { base := 0, revision := 2, snapshot := true
      values := [(ascii "pos", .array [.number 0, .integer 2, .integer 3]), (ascii "score", .integer 5)] }
  snapshot := rfl
  ordered :=
    { sorted := pairwise_pair.2 (by decide)
      deep := by simp [Ordered.array, Ordered.integer, Ordered.number]
      patches := by simp }
  accepted := ⟨_, rfl⟩

/-- The replica after the first image. -/
def scoreReplica : AttributeReplica :=
  { image := some scoreBefore.update, revision := 1, initialized := true, bytes := 1351 }

theorem attribute_delta_followed_score :
    ∃ delta bytes decoded replica', attributeDelta scoreBefore.update scoreAfter.update = .ok delta ∧
      encodeAttributes delta = .ok bytes ∧ decodeAttributes bytes = .ok decoded ∧
      scoreReplica.apply decoded = .ok (true, replica') ∧ replica'.revision = 2 ∧
      sameEntries replica'.values scoreAfter.update.values = true :=
  attribute_delta_followed scoreBefore scoreAfter scoreReplica (by decide)
    { initialized := rfl, revision := rfl, same := by decide
      sorted := scoreBefore.ordered.sorted, ordered := scoreBefore.ordered.deep }

end Fsnet
