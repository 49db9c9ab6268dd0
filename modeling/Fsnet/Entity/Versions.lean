import Fsnet.Entity.Proposal
import Fsnet.Entity.Validation
import Fsnet.Replication.State
/-!
# Revisions of attributes

`EntityAttributes` over its whole life: constructed or restored, then published
to. Every attribute carries the revision it last changed at, and these stamps
are all the history the carrier has: `changes` since an earlier revision is the
attributes with a later stamp, and laid over what a view saw then it gives what
the view sees now.
-/

namespace Fsnet

open Lib Entries List

structure AttributeView where
  observer : Bool
  connection : ConnectionRef

variable {values : AttributeStruct}

namespace EntityAttributes

/-- Every value is valid for the definition of its attribute. -/
def ValidIn (schema : EntitySchema) (values : AttributeStruct) : Prop :=
  ∀ name d v, schema.attributes.find name = some d → find name values = some v → d.admits v = true

/-- An image that was read over the old values has the same keys and only valid values. -/
theorem overwrite_eq_ok {allowed : AttributeDefinition → Bool} {text : String} {schema : EntitySchema}
    {next next' : AttributeStruct} (h : overwrite allowed text schema values next = .ok next')
    (hkeys : next.map Prod.fst = schema.attributes.entries.map Prod.fst) :
    next'.map Prod.fst = schema.attributes.entries.map Prod.fst ∧ (ValidIn schema next → ValidIn schema next') := by
  induction values generalizing next with
  | nil =>
    cases h
    exact ⟨hkeys, id⟩
  | cons e rest ih =>
    obtain ⟨name, value⟩ := e
    rw [overwrite] at h
    split at h
    · cases h
    rename_i d hd
    obtain ⟨hrefused, h⟩ := refuseIf_bind_eq_ok.1 h
    have hsome : (find name next).isSome = true := by
      rw [Entries.isSome_find_of_keys hkeys]
      exact Option.isSome_iff_exists.2 ⟨d, hd⟩
    have hsorted : Sorted next := sorted_of_keys (hkeys ▸ List.Sublist.refl _) schema.attributes.sorted
    obtain ⟨hk, hv⟩ := ih h ((keys_insert value hsorted hsome).trans hkeys)
    refine ⟨hk, fun hvalid => hv ?_⟩
    intro other d' v hd' hf
    by_cases hname : other = name
    · subst hname
      rw [find_insert_self] at hf
      rw [hd] at hd'
      cases hd'
      cases hf
      simpa using (not_or.1 hrefused).2
    · rw [find_insert_ne _ hname] at hf
      exact hvalid other d' v hd' hf

/-- What `restore` and `restore_full` leave: the schema, the keys, valid values and the given revision. -/
structure Reads (model image : EntityAttributes) (revision : UInt64) : Prop where
  schema : image.schema = model.schema
  revision : image.revision = revision
  keys : model.values.map Prod.fst = model.schema.attributes.entries.map Prod.fst →
    image.values.map Prod.fst = model.schema.attributes.entries.map Prod.fst
  valid : model.values.map Prod.fst = model.schema.attributes.entries.map Prod.fst →
    ValidIn model.schema model.values → ValidIn model.schema image.values

theorem reads_overwrite {allowed : AttributeDefinition → Bool} {text : String} {model image : EntityAttributes}
    {revision : UInt64} (h : (do
      let next ← overwrite allowed text model.schema values model.values
      pure { model with values := next, revision }) = Except.ok image) : Reads model image revision := by
  obtain ⟨_, hnext, himage⟩ := bind_eq_ok.1 h
  obtain rfl := Except.ok.inj himage
  exact ⟨rfl, rfl, fun hk => (overwrite_eq_ok hnext hk).1, fun hk => (overwrite_eq_ok hnext hk).2⟩

end EntityAttributes

namespace AttributeCarrier

open EntityAttributes

/-! ## Carriers -/

/-- The constructor. -/
def construct (schema : EntitySchema) (methods : OrdMap Bytes RpcPolicy) (owner : Bytes) :
    Except Failure AttributeCarrier := do
  schema.validate methods
  pure (new schema owner)

variable (model : AttributeCarrier)

/-- The carrier of a restored image: every attribute is stamped with its revision. -/
def restamped (image : EntityAttributes) (revision : UInt64)
    (h : Reads model.toEntityAttributes image revision) : AttributeCarrier where
  toEntityAttributes := image
  owner := model.owner
  modified := model.modified.map fun e => (e.1, revision)
  keyed := by
    rw [h.schema]
    exact h.keys model.keyed
  tracked := by
    rw [h.schema, map_map]
    exact model.tracked

def restore (model : AttributeCarrier) (values : AttributeStruct) (revision : UInt64) :
    Except Failure AttributeCarrier :=
  match h : model.toEntityAttributes.restore values revision with
  | .error e => .error e
  | .ok image => .ok (model.restamped image revision (reads_overwrite h))

def restoreFull (model : AttributeCarrier) (values : AttributeStruct) (revision : UInt64) :
    Except Failure AttributeCarrier :=
  match h : model.toEntityAttributes.restoreFull values revision with
  | .error e => .error e
  | .ok image => .ok (model.restamped image revision (reads_overwrite h))

/-- A constructed carrier, restored and published to any number of times. -/
inductive Built : AttributeCarrier → Prop
  | constructed {schema : EntitySchema} {methods : OrdMap Bytes RpcPolicy} {owner : Bytes} {model : AttributeCarrier}
    (h : construct schema methods owner = .ok model) : Built model
  | restored {model next : AttributeCarrier} (hm : Built model) {values : AttributeStruct} {revision : UInt64}
    (h : model.restore values revision = .ok next) : Built next
  | restoredFull {model next : AttributeCarrier} (hm : Built model) {values : AttributeStruct} {revision : UInt64}
    (h : model.restoreFull values revision = .ok next) : Built next
  | published {model : AttributeCarrier} (hm : Built model) (mutation : Mutation) : Built (model.attempt mutation)

/-! ## Views -/

def owned (view : AttributeView) : Bool := view.connection.matchesKey model.owner

/-- May the view see the attribute? -/
def visibleTo (view : AttributeView) (d : AttributeDefinition) : Bool :=
  d.visible (model.owned view) view.observer

def modifiedAfter (since : UInt64) (name : Bytes) : Bool :=
  (find name model.modified).any fun stamp => stamp > since

/-- The loop over the schema that copies the attributes to `keep`. -/
def gather (held : AttributeStruct) (keep : Bytes → AttributeDefinition → Bool) :
    List (Bytes × AttributeDefinition) → Except Failure AttributeStruct
  | [] => pure []
  | (name, d) :: rest =>
    if keep name d then do
      let value ← lookup name held
      let others ← gather held keep rest
      pure ((name, value) :: others)
    else gather held keep rest

def snapshot (model : AttributeCarrier) (view : AttributeView) : Except Failure AttributeUpdate := do
  let values ← gather model.values (fun _ d => model.visibleTo view d) model.schema.attributes.entries
  pure { base := 0, revision := model.revision, snapshot := true, values }

def changes (since : UInt64) (view : AttributeView) : Except Failure AttributeUpdate :=
  if since > model.revision then model.snapshot view
  else do
    let values ← gather model.values (fun name d => model.visibleTo view d && model.modifiedAfter since name)
      model.schema.attributes.entries
    pure { base := since, revision := model.revision, snapshot := false, values }

/-! ## What a published mutation changes -/

theorem checkCommitted_eq_ok {schema : EntitySchema} {u : Unit}
    (h : checkCommitted schema values = .ok u) :
    ∀ e ∈ values, ∃ d, schema.attributes.find e.1 = some d ∧ d.admits e.2 = true := by
  induction values with
  | nil => nofun
  | cons e rest ih =>
    obtain ⟨name, value⟩ := e
    rw [checkCommitted] at h
    split at h
    · cases h
    · rename_i d hd
      obtain ⟨hvalid, h⟩ := refuseIf_bind_eq_ok.1 h
      exact forall_mem_cons.2 ⟨⟨d, hd, by simpa using hvalid⟩, ih h⟩

theorem find_of_lookup {k : Bytes} {entries : AttributeStruct} {v : AttributeValue} (h : lookup k entries = .ok v) :
    find k entries = some v := by
  unfold lookup at h
  split at h
  · cases h
    assumption
  · cases h

/-- The prepared values are those of the mutation that differ from the held ones. -/
def Differing (held values prepared : AttributeStruct) : Prop :=
  ∀ name v, find name prepared = some v →
    (name, v) ∈ values ∧ ∃ current, find name held = some current ∧ current.same v = false

theorem prepare_eq_ok {held all prepared prepared' : AttributeStruct}
    (h : prepare held values prepared = .ok prepared') (hsub : values ⊆ all) (hp : Differing held all prepared) :
    Differing held all prepared' := by
  induction values generalizing prepared with
  | nil =>
    cases h
    exact hp
  | cons e _ ih =>
    obtain ⟨name, _⟩ := e
    rw [cons_subset] at hsub
    rw [prepare, bind_eq_ok] at h
    obtain ⟨current, hcurrent, h⟩ := h
    refine ih h hsub.2 ?_
    split_ifs with hsame
    · exact hp
    intro other v hf
    by_cases hname : other = name
    · subst hname
      rw [find_insert_self] at hf
      cases hf
      exact ⟨hsub.1, current, find_of_lookup hcurrent, by simpa using hsame⟩
    · rw [find_insert_ne _ hname] at hf
      exact hp other v hf

/-- A call of `publish`, from outside: it leaves the carrier, or it swaps in valid values that differ. -/
inductive Outcome (model : AttributeCarrier) (mutation : Mutation) : AttributeCarrier → Prop
  | same : Outcome model mutation model
  | swapped {prepared : AttributeStruct} (hne : prepared ≠ []) (room : model.revision.toNat + 1 < 2 ^ 64)
    (valid : ∀ e ∈ mutation.values, ∃ d, model.schema.attributes.find e.1 = some d ∧ d.admits e.2 = true)
    (differ : Differing model.values mutation.values prepared) : Outcome model mutation (model.swapIn prepared)

theorem attempt_outcome (mutation : Mutation) : Outcome model mutation (model.attempt mutation) := by
  rcases publish_cases model mutation with ⟨_, -, h⟩ | ⟨prepared, hprepared, h⟩
  · rw [attempt, h]
    exact .same
  rw [attempt, h]
  dsimp only
  obtain ⟨hroom, hprepared⟩ := refuseIf_bind_eq_ok.1 hprepared
  obtain ⟨_, hcheck, hprepared⟩ := bind_eq_ok.1 hprepared
  split_ifs with hne
  · have hlt := model.revision.toNat_lt
    exact .swapped hne (by omega) (checkCommitted_eq_ok hcheck)
      (prepare_eq_ok hprepared (List.Subset.refl _) (by simp [Differing]))
  · exact .same

section swapped

variable (model : AttributeCarrier) (prepared : AttributeStruct) (name : Bytes)

theorem find_swapIn : find name (model.swapIn prepared).values =
    (find name model.values).map fun v => (find name prepared).getD v :=
  find_map_values (fun k v => (find k prepared).getD v) name model.values

theorem stamp_swapIn : find name (model.swapIn prepared).modified =
    (find name model.modified).map fun stamp => if contains prepared name then model.revision + 1 else stamp :=
  find_map_values (fun k stamp => if contains prepared k then model.revision + 1 else stamp) name model.modified

theorem revision_swapIn (h : model.revision.toNat + 1 < 2 ^ 64) :
    (model.swapIn prepared).revision.toNat = model.revision.toNat + 1 := by
  show (model.revision + 1).toNat = _
  rw [UInt64.toNat_add]
  exact Nat.mod_eq_of_lt h

end swapped

/-! ## What holds of every carrier -/

/-- Every value is valid for its definition, and no attribute changed after the current revision. -/
structure Sound (model : AttributeCarrier) : Prop where
  valid : ValidIn model.schema model.values
  stamped : ∀ name stamp, find name model.modified = some stamp → stamp ≤ model.revision

variable {model next now point : AttributeCarrier} {mutation : Mutation}

theorem sound_construct {schema : EntitySchema} {methods : OrdMap Bytes RpcPolicy} {owner : Bytes}
    (h : construct schema methods owner = .ok model) : Sound model := by
  obtain ⟨_, hvalid, hmodel⟩ := bind_eq_ok.1 h
  obtain rfl := Except.ok.inj hmodel
  have hinitial := EntitySchema.validate_admits hvalid
  constructor
  · intro name d v hd hv
    obtain ⟨e, he, hev⟩ := mem_map.1 (find_mem hv)
    obtain ⟨rfl, rfl⟩ := Prod.mk.inj hev
    have hmem := (schema.attributes.mem_entries_iff e.1 d).2 hd
    obtain rfl : d = e.2 := Option.some.inj (hd.symm.trans (find_of_mem schema.attributes.sorted he))
    exact hinitial _ hmem
  · intro name _ hs
    obtain ⟨e, -, he⟩ := mem_map.1 (find_mem hs)
    obtain ⟨-, rfl⟩ := Prod.mk.inj he
    exact UInt64.le_refl _

theorem Sound.restamped (h : Sound model) {image : EntityAttributes} {revision : UInt64}
    (hr : Reads model.toEntityAttributes image revision) : Sound (model.restamped image revision hr) := by
  constructor
  · show ValidIn image.schema image.values
    rw [hr.schema]
    exact hr.valid model.keyed h.valid
  · intro _ _ hs
    obtain ⟨e, -, he⟩ := mem_map.1 (find_mem hs)
    obtain ⟨-, rfl⟩ := Prod.mk.inj he
    show revision ≤ image.revision
    rw [hr.revision]
    exact UInt64.le_refl _

theorem Sound.step (h : Sound model) (ho : Outcome model mutation next) : Sound next := by
  cases ho with
  | same => exact h
  | @swapped prepared hne room valid differ =>
    have hrevision := revision_swapIn model prepared room
    constructor
    · intro name d v hd hv
      rw [find_swapIn, Option.map_eq_some_iff] at hv
      obtain ⟨old, hold, rfl⟩ := hv
      cases hp : find name prepared with
      | none => exact h.valid name d old hd hold
      | some w =>
        obtain ⟨d', hd', hw⟩ := valid _ (differ name w hp).1
        obtain rfl : d = d' := Option.some.inj (hd.symm.trans hd')
        exact hw
    · intro name stamp hs
      rw [stamp_swapIn, Option.map_eq_some_iff] at hs
      obtain ⟨old, hold, rfl⟩ := hs
      have hle := UInt64.le_iff_toNat_le.1 (h.stamped name old hold)
      rw [UInt64.le_iff_toNat_le, hrevision]
      split_ifs
      · exact hrevision.le
      · omega

theorem Built.sound (h : Built model) : Sound model := by
  induction h with
  | constructed h => exact sound_construct h
  | restored _ h ih =>
    unfold restore at h
    split at h
    · cases h
    · cases h
      exact ih.restamped _
  | restoredFull _ h ih =>
    unfold restoreFull at h
    split at h
    · cases h
    · cases h
      exact ih.restamped _
  | published _ mutation ih => exact ih.step (attempt_outcome _ mutation)

/-- What an earlier carrier still says: an attribute that was not stamped since has its value of then. -/
structure Since (point now : AttributeCarrier) : Prop where
  schema : now.schema = point.schema
  owner : now.owner = point.owner
  le : point.revision ≤ now.revision
  unchanged : ∀ name, now.modifiedAfter point.revision name = false →
    find name now.values = find name point.values

theorem Since.refl (point : AttributeCarrier) : Since point point :=
  ⟨rfl, rfl, UInt64.le_refl _, fun _ _ => rfl⟩

theorem Since.step (h : Since point now) (ho : Outcome now mutation next) : Since point next := by
  cases ho with
  | same => exact h
  | @swapped prepared hne room valid differ =>
    have hrevision := revision_swapIn now prepared room
    have hle := UInt64.le_iff_toNat_le.1 h.le
    refine ⟨h.schema, h.owner, UInt64.le_iff_toNat_le.2 (by omega), ?_⟩
    intro name hname
    have htracked : (find name now.modified).isSome = (find name now.values).isSome :=
      Entries.isSome_find_of_keys (now.tracked.trans now.keyed.symm) name
    rw [modifiedAfter, stamp_swapIn] at hname
    rw [find_swapIn]
    cases hstamp : find name now.modified with
    | none =>
      rw [hstamp] at htracked
      have hnone : find name now.values = none := by simpa using htracked.symm
      rw [← h.unchanged name (by rw [modifiedAfter, hstamp]; rfl), hnone]
      rfl
    | some stamp =>
      rw [hstamp] at hname
      simp only [Option.map_some, Option.any_some, decide_eq_false_iff_not, UInt64.not_lt] at hname
      cases hp : find name prepared with
      | some v =>
        -- a swapped attribute has the new stamp, which is later than the point
        rw [contains, hp, Option.isSome_some, if_pos rfl, UInt64.le_iff_toNat_le] at hname
        change (now.swapIn prepared).revision.toNat ≤ _ at hname
        omega
      | none =>
        rw [contains, hp, Option.isSome_none, if_neg Bool.false_ne_true] at hname
        rw [← h.unchanged name (by simp [modifiedAfter, hstamp, UInt64.not_lt, hname])]
        simp

/-! ## What a view is sent -/

/-- The loop finds every attribute, and what it copies is what `keep` selects. -/
theorem gather_eq_ok {held : AttributeStruct} {keep : Bytes → AttributeDefinition → Bool}
    {l : List (Bytes × AttributeDefinition)} (hs : Sorted l)
    (hheld : ∀ e ∈ l, (find e.1 held).isSome = true) :
    ∃ values, gather held keep l = .ok values ∧ (values.map Prod.fst).Sublist (l.map Prod.fst) ∧
      ∀ name, find name values =
        (find name l).bind fun d => if keep name d then find name held else none := by
  induction l with
  | nil => exact ⟨[], rfl, List.Sublist.refl _, fun _ => rfl⟩
  | cons e _ ih =>
    obtain ⟨name, d⟩ := e
    have hs := pairwise_cons.1 hs
    rw [forall_mem_cons] at hheld
    obtain ⟨values, hvalues, hsub, hfind⟩ := ih hs.2 hheld.2
    obtain ⟨_, hvalue⟩ := Option.isSome_iff_exists.1 hheld.1
    rw [gather]
    by_cases hkeep : keep name d = true
    · rw [if_pos hkeep, lookup_of_find hvalue, ok_bind, hvalues, ok_bind]
      refine ⟨_, rfl, hsub.cons_cons name, ?_⟩
      intro other
      rw [find_cons, find_cons, hfind]
      split_ifs with hother
      · subst hother
        rw [Option.bind_some, if_pos hkeep, hvalue]
      · rfl
    · rw [if_neg hkeep, hvalues]
      refine ⟨values, rfl, hsub.cons name, ?_⟩
      intro other
      rw [find_cons, hfind]
      split_ifs with hother
      · subst hother
        rw [find_none_of_lt hs.1, Option.bind_some, if_neg hkeep]
        rfl
      · rfl

/-- The update holds the attributes `keep` selects, with their current values. -/
structure Holds (model : AttributeCarrier) (keep : Bytes → AttributeDefinition → Bool) (values : AttributeStruct) :
    Prop where
  sorted : Sorted values
  find : ∀ name, find name values =
    (model.schema.attributes.find name).bind fun d => if keep name d then find name model.values else none

theorem find_of_schema (model : AttributeCarrier) {name : Bytes} {d : AttributeDefinition}
    (h : model.schema.attributes.find name = some d) : ∃ v, find name model.values = some v := by
  rw [← Option.isSome_iff_exists, Entries.isSome_find_of_keys model.keyed]
  exact Option.isSome_iff_exists.2 ⟨d, h⟩

theorem gather_holds (model : AttributeCarrier) (keep : Bytes → AttributeDefinition → Bool) :
    ∃ values, gather model.values keep model.schema.attributes.entries = .ok values ∧ Holds model keep values := by
  have hheld : ∀ e ∈ model.schema.attributes.entries, (find e.1 model.values).isSome = true := by
    intro e he
    exact Option.isSome_iff_exists.2 (model.find_of_schema (find_of_mem model.schema.attributes.sorted he))
  obtain ⟨values, hvalues, hsub, hfind⟩ := gather_eq_ok model.schema.attributes.sorted hheld
  exact ⟨values, hvalues, sorted_of_keys hsub model.schema.attributes.sorted, hfind⟩

theorem Holds.visible {keep : Bytes → AttributeDefinition → Bool}
    (h : Holds model keep values) {e : Bytes × AttributeValue} (he : e ∈ values) :
    ∃ d, model.schema.attributes.find e.1 = some d ∧ keep e.1 d = true := by
  have hf := h.find e.1
  rw [find_of_mem h.sorted he] at hf
  obtain ⟨d, hd, hk⟩ := Option.bind_eq_some_iff.1 hf.symm
  exact ⟨d, hd, by_contra fun hno => by rw [if_neg hno] at hk; cases hk⟩

/-- What `changes` since an earlier carrier sends, laid over what the view saw then, is what it sees now. -/
structure Bridged (point now : AttributeCarrier) (view : AttributeView) (before delta after : AttributeUpdate) :
    Prop where
  snapshotThen : point.snapshot view = .ok before
  changesNow : now.changes point.revision view = .ok delta
  snapshotNow : now.snapshot view = .ok after
  base : delta.base = point.revision
  revision : delta.revision = after.revision
  partly : delta.snapshot = false
  values : AttributeReplica.overlay before.values delta.values = after.values
  visible : ∀ e ∈ delta.values, ∃ d, now.schema.attributes.find e.1 = some d ∧ now.visibleTo view d = true

theorem Since.bridged (h : Since point now) (view : AttributeView) :
    ∃ before delta after, Bridged point now view before delta after := by
  have hsame : now.visibleTo view = point.visibleTo view := by
    unfold visibleTo owned
    rw [h.owner]
  obtain ⟨before, hbefore, hb⟩ := point.gather_holds fun _ d => point.visibleTo view d
  obtain ⟨delta, hdelta, hd⟩ := now.gather_holds fun name d =>
    now.visibleTo view d && now.modifiedAfter point.revision name
  obtain ⟨after, hafter, ha⟩ := now.gather_holds fun _ d => now.visibleTo view d
  refine ⟨⟨0, point.revision, true, before, []⟩, ⟨point.revision, now.revision, false, delta, []⟩,
    ⟨0, now.revision, true, after, []⟩, ?_, ?_, ?_, rfl, rfl, rfl, ?_, ?_⟩
  · rw [AttributeCarrier.snapshot, hbefore]
    rfl
  · rw [changes, if_neg (UInt64.not_lt.2 h.le), hdelta]
    rfl
  · rw [AttributeCarrier.snapshot, hafter]
    rfl
  · refine ext_find (AttributeReplica.sorted_overlay hb.sorted) ha.sorted fun name => ?_
    rw [AttributeReplica.find_overlay hd.sorted, hd.find, hb.find, ha.find, h.schema, hsame]
    cases hschema : point.schema.attributes.find name with
    | none => rfl
    | some d =>
      simp only [Option.bind_some, Bool.and_eq_true]
      by_cases hv : point.visibleTo view d = true
      · rw [if_pos hv, if_pos hv]
        by_cases hm : now.modifiedAfter point.revision name = true
        · obtain ⟨v, hvalue⟩ := now.find_of_schema (h.schema ▸ hschema)
          rw [if_pos ⟨hv, hm⟩, hvalue]
          rfl
        · rw [if_neg fun hboth => hm hboth.2, h.unchanged name (by simpa using hm)]
          rfl
      · rw [if_neg hv, if_neg hv, if_neg fun hboth => hv hboth.1]
        rfl
  · intro e he
    obtain ⟨d, hfind, hkeep⟩ := hd.visible he
    exact ⟨d, hfind, (Bool.and_eq_true_iff.1 hkeep).1⟩

/-! ## Runs -/

/-- Some attribute has another value, by `==`. -/
def Differs (model next : AttributeCarrier) : Prop :=
  ∃ name v w, find name model.values = some v ∧ find name next.values = some w ∧ v.same w = false

/-- What holds of a carrier and of an earlier one of the same run. -/
structure Versioned (point now : AttributeCarrier) : Prop where
  valid : ∀ name d, now.schema.attributes.find name = some d →
    ∃ v, find name now.values = some v ∧ d.admits v = true
  thrown : ∀ mutation failure next, publish mutation now = (.error failure, next) → next = now
  stale : ∀ mutation next, publish mutation now = (.ok false, next) → next = now
  counted : ∀ mutation, Differs now (now.attempt mutation) →
    (now.attempt mutation).revision.toNat = now.revision.toNat + 1
  kept : ∀ mutation, ¬Differs now (now.attempt mutation) → now.attempt mutation = now
  bridged : ∀ view, ∃ before delta after, Bridged point now view before delta after

/-- A call that does not return `true` leaves the carrier. -/
theorem publish_unapplied {result : Except Failure Bool} (h : publish mutation model = (result, next))
    (hr : result ≠ .ok true) : next = model := by
  rcases publish_cases model mutation with ⟨_, -, h'⟩ | ⟨prepared, -, h'⟩
  · exact (Prod.mk.inj (h'.symm.trans h)).2.symm
  · exact absurd (Prod.mk.inj (h'.symm.trans h)).1.symm hr

/-- No valid value differs from itself: it holds no NaN. -/
theorem Sound.not_differs (h : Sound model) : ¬Differs model model := by
  rintro ⟨name, v, w, hv, hw, hsame⟩
  obtain rfl : v = w := Option.some.inj (hv.symm.trans hw)
  have hschema := Entries.isSome_find_of_keys model.keyed name
  rw [hv] at hschema
  obtain ⟨d, hd⟩ := Option.isSome_iff_exists.1 hschema.symm
  have hfinite := finite_of_admits (h.valid name d v hd hv)
  rw [(AttributeValue.same_iff hfinite).2 rfl] at hsame
  cases hsame

/-- Values that were swapped in differ. -/
theorem differs_swapIn {prepared : AttributeStruct} (hne : prepared ≠ [])
    (h : Differing model.values values prepared) : Differs model (model.swapIn prepared) := by
  obtain ⟨e, rest, rfl⟩ := exists_cons_of_ne_nil hne
  have hf : find e.1 (e :: rest) = some e.2 := by
    rw [find_cons, if_pos rfl]
  obtain ⟨-, current, hcurrent, hsame⟩ := h e.1 e.2 hf
  refine ⟨e.1, current, e.2, hcurrent, ?_, hsame⟩
  rw [find_swapIn, hcurrent, hf]
  rfl

theorem Sound.versioned (h : Sound now) (hs : Since point now) : Versioned point now where
  valid := by
    intro name d hd
    obtain ⟨v, hv⟩ := now.find_of_schema hd
    exact ⟨v, hv, h.valid name d v hd hv⟩
  thrown _ _ _ hf := publish_unapplied hf (by simp)
  stale _ _ hf := publish_unapplied hf (by simp)
  counted := by
    intro mutation hd
    have ho := now.attempt_outcome mutation
    generalize now.attempt mutation = next at ho hd ⊢
    cases ho with
    | same => exact absurd hd h.not_differs
    | swapped _ room _ _ => exact revision_swapIn now _ room
  kept := by
    intro mutation hd
    have ho := now.attempt_outcome mutation
    generalize now.attempt mutation = next at ho hd ⊢
    cases ho with
    | same => rfl
    | swapped hne _ _ differ => exact absurd (differs_swapIn hne differ) hd
  bridged := hs.bridged

/-- The revisions of a carrier. However it was built and whatever is published to it: its values stay valid, a
call that throws or is stale changes nothing, the revision counts the calls that change a value, and the changes
since any earlier point take every view from what it saw then to what it sees now. -/
theorem attributes_versioned {model : AttributeCarrier} (h : Built model) (before after : List Mutation) :
    Versioned (run attempt model before) (run attempt model (before ++ after)) := by
  have hsound : ∀ mutations, Sound (run attempt model mutations) :=
    run_inv (fun s mutation hs => hs.step (s.attempt_outcome mutation)) h.sound
  have hsince : Since (run attempt model before) (run attempt model (before ++ after)) := by
    rw [run_append]
    exact run_inv (fun s mutation hs => hs.step (s.attempt_outcome mutation)) (Since.refl _) after
  exact (hsound _).versioned hsince

/-- A number is published, then a stale one, and a view follows from the first call on. -/
theorem attributes_versioned_bag : Versioned (run attempt (new bagSchema []) [⟨0, [(ascii "secret", .integer 5)]⟩])
        (run attempt (new bagSchema []) [⟨0, [(ascii "secret", .integer 5)]⟩, ⟨0, [(ascii "secret", .integer 6)]⟩]) ∧
      (run attempt (new bagSchema [])
        [⟨0, [(ascii "secret", .integer 5)]⟩, ⟨0, [(ascii "secret", .integer 6)]⟩]).revision = 1 := by
  have hvalid : bagSchema.validate .empty = .ok () := rfl
  have hbuilt : Built (new bagSchema []) := .constructed (bind_eq_ok.2 ⟨(), hvalid, rfl⟩)
  exact ⟨attributes_versioned hbuilt [_] [_], rfl⟩

end AttributeCarrier

end Fsnet
