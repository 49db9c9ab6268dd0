import Fsnet.Attributes.Applying
import Fsnet.Lib.Runs
import Fsnet.Lib.Shared
/-!
# Replicas that share their image

`AttributeReplica` keeps its image behind a `shared_ptr`: copies of a replica
and the snapshots taken from it point at the same record, and a delta is laid
over that record in place if nobody else holds it. The heap below has the
variables of a program, replicas and retained snapshots, in the order of their
construction. A call runs statement by statement on the heap, so that a throw
leaves whatever was written before it.
-/

namespace Fsnet

open Lib List

/-- The fields of a replica beside `image_`. The source has no `budget`: it is
the budget of the last call that returned true. -/
structure ReplicaFields where
  revision : UInt64 := 0
  initialized : Bool := false
  bytes : Nat := 0
  budget : Nat := 0

/-- What a variable of the program is, apart from its pointer. -/
inductive ReplicaHolder where
  | replica (fields : ReplicaFields)
  | retained

/-- The allocations of one call, any of which may throw `std::bad_alloc`. -/
inductive AllocationSite where
  /-- The copies that patches are run on. -/
  | materialized
  /-- The record of a snapshot. -/
  | carrier
  /-- The copy of a delta's values. -/
  | prepared
  /-- The copy of a record that is shared. -/
  | detached
  deriving DecidableEq

/-- Variable `i` has the pointer of slot `i`. -/
structure ReplicaHeap where
  images : Shared AttributeUpdate := {}
  holders : List ReplicaHolder := []

/-- A member function call: it returns or throws, and leaves a heap either way. -/
abbrev ReplicaCall := EStateM Failure ReplicaHeap

namespace ReplicaHeap

variable (s : ReplicaHeap) (i : Nat) (fields : ReplicaFields) (update : AttributeUpdate) (maxImageBytes : Nat)
    (fault : Option AllocationSite)

/-- The replica as its own members see it. -/
def view : AttributeReplica :=
  { image := s.images.read i, revision := fields.revision, initialized := fields.initialized, bytes := fields.bytes }

def setFields : ReplicaCall Unit :=
  modify fun s => { s with holders := s.holders.set i (.replica fields) }

def onImages (f : Shared AttributeUpdate → Shared AttributeUpdate) : ReplicaCall Unit :=
  modify fun s => { s with images := f s.images }

def allocate (site : AllocationSite) : ReplicaCall Unit :=
  ofExcept (refuseIf (fault = some site) .badAlloc)

/-- Copy the record before it is written, if a snapshot or another replica holds it too. -/
def detach : ReplicaCall Unit := do
  let s ← EStateM.get
  if s.images.unique i then pure ()
  else do
    allocate fault .detached
    onImages (·.copy i)

/-- The new image: a record of its own for a snapshot, an overlay in place for a delta. -/
def replaceImage : ReplicaCall Unit :=
  if update.snapshot then do
    allocate fault .carrier
    onImages (·.make i (imageOf update.values update.revision))
  else do
    allocate fault .prepared
    detach i fault
    -- the loop over the prepared map: nodes are moved or swapped, nothing is allocated
    onImages (·.write i fun image => { image with values := AttributeReplica.overlay image.values update.values })

/-- The rest of `apply` once there are no patches. -/
def storeAt : ReplicaCall Bool := do
  let s ← EStateM.get
  let count ← ofExcept ((s.view i fields).charge update)
  ofExcept (refuseIf (count > maxImageBytes) .replicaBudget)
  replaceImage i update fault
  onImages (·.write i fun image => { image with revision := update.revision })
  setFields i { revision := update.revision, initialized := true, bytes := count, budget := maxImageBytes }
  pure true

/-- `AttributeReplica::apply` on the replica in variable `i`. -/
def applyAt : ReplicaCall Bool := do
  let s ← EStateM.get
  let admitted ← ofExcept ((s.view i fields).admits update)
  if admitted = false then pure false
  else if update.patches.isEmpty then storeAt i fields update maxImageBytes fault
  else do
    allocate fault .materialized
    let values ← ofExcept (materialize (s.view i fields).values update.patches update.values)
    let materialized : AttributeUpdate :=
      { base := update.base, revision := update.revision, snapshot := false, values }
    let admitted ← ofExcept ((s.view i fields).admits materialized)
    if admitted = false then pure false else storeAt i fields materialized maxImageBytes fault

/-- Construct a variable that points where `p` points. -/
def push (v : ReplicaHolder) (p : Option Nat) : ReplicaHeap :=
  { images := s.images.declare.point s.images.slots.length p, holders := s.holders ++ [v] }

/-- Overwrite a variable. -/
def place (v : ReplicaHolder) (p : Option Nat) : ReplicaHeap :=
  { images := s.images.point i p, holders := s.holders.set i v }

def fieldsAt : Option ReplicaFields :=
  match s.holders[i]? with
  | some (.replica fields) => some fields
  | _ => none

/-- The replica in variable `i`, if there is one. -/
def replica : Option AttributeReplica := (s.fieldsAt i).map (s.view i)

/-- The contents of the snapshot retained in variable `i`. -/
def retained (s : ReplicaHeap) (i : Nat) : Option AttributeUpdate :=
  match s.holders[i]? with
  | some .retained => s.images.read i
  | _ => none

/-- The budget of the last call on replica `i` that returned true. -/
def allowed : Option Nat := (s.fieldsAt i).map (·.budget)

/-- A call with the heap it leaves; a variable that is no replica has no members. -/
def call : Except Failure Bool × ReplicaHeap :=
  match s.fieldsAt i with
  | some fields =>
    match applyAt i fields update maxImageBytes fault s with
    | .ok applied s' => (.ok applied, s')
    | .error failure s' => (.error failure, s')
  | none => (.ok false, s)

end ReplicaHeap

/-- What a program does with replicas and their snapshots. -/
inductive ReplicaAction where
  | create
  | copy (source : Nat)
  | moveNew (source : Nat)
  | assign (target source : Nat)
  | moveInto (target source : Nat)
  | reset (target : Nat)
  | snapshot (source : Nat)
  | release (i : Nat)
  | apply (i : Nat) (update : { u : AttributeUpdate // UpdateOrdered u }) (maxImageBytes : Nat)
      (fault : Option AllocationSite)

namespace ReplicaHeap

def step (s : ReplicaHeap) : ReplicaAction → ReplicaHeap
  | .create => s.push (.replica {}) none
  | .copy source =>
    match s.fieldsAt source with
    | some fields => s.push (.replica fields) (s.images.pointer source)
    | none => s
  | .moveNew source =>
    match s.fieldsAt source with
    | some fields => (s.push (.replica fields) (s.images.pointer source)).place source (.replica {}) none
    | none => s
  | .assign target source =>
    match s.fieldsAt target, s.fieldsAt source with
    | some _, some fields => s.place target (.replica fields) (s.images.pointer source)
    | _, _ => s
  | .moveInto target source =>
    match s.fieldsAt target, s.fieldsAt source with
    | some _, some fields =>
      if target = source then s
      else (s.place target (.replica fields) (s.images.pointer source)).place source (.replica {}) none
    | _, _ => s
  | .reset target =>
    match s.fieldsAt target with
    | some _ => s.place target (.replica {}) none
    | none => s
  | .snapshot source =>
    match s.fieldsAt source with
    | some fields => s.push .retained (if fields.initialized then s.images.pointer source else none)
    | none => s
  | .release i =>
    match s.holders[i]? with
    | some .retained => s.place i .retained none
    | _ => s
  | .apply i update maxImageBytes fault => (s.call i update.1 maxImageBytes fault).2

/-! ## One variable changes at a time -/

variable {s : ReplicaHeap}

theorem fieldsAt_eq_some {i : Nat} {fields : ReplicaFields} :
    s.fieldsAt i = some fields ↔ s.holders[i]? = some (.replica fields) := by
  unfold fieldsAt
  split <;> simp_all

/-- Pointers are valid, and every replica is in order, within the budget of its last success. -/
structure Inv (s : ReplicaHeap) : Prop where
  valid : s.images.Valid
  aligned : s.images.slots.length = s.holders.length
  sound : ∀ i fields, s.fieldsAt i = some fields → (s.view i fields).Sound fields.budget

/-- Variable `i` is now `v`, reading `image`; no other variable sees a difference. -/
structure Sets (s : ReplicaHeap) (i : Nat) (v : ReplicaHolder) (image : Option AttributeUpdate) (s' : ReplicaHeap) :
    Prop where
  valid : s'.images.Valid
  aligned : s'.images.slots.length = s'.holders.length
  holder : s'.holders[i]? = some v
  image : s'.images.read i = image
  others : ∀ j, j ≠ i → s'.holders[j]? = s.holders[j]? ∧ s'.images.read j = s.images.read j

section sets

variable {s s' : ReplicaHeap} {i : Nat} {v : ReplicaHolder} {image : Option AttributeUpdate}

theorem Inv.lt (h : Inv s) {w : ReplicaHolder} (hi : s.holders[i]? = some w) : i < s.images.slots.length := by
  rw [h.aligned]
  exact (List.getElem?_eq_some_iff.1 hi).1

theorem Sets.inv (h : Sets s i v image s') (hs : Inv s)
    (hv : ∀ fields, v = .replica fields →
      ({ image, revision := fields.revision, initialized := fields.initialized, bytes := fields.bytes } :
        AttributeReplica).Sound fields.budget) : Inv s' := by
  refine ⟨h.valid, h.aligned, ?_⟩
  intro j fields hj
  rw [fieldsAt_eq_some] at hj
  unfold view
  by_cases hji : j = i
  · subst hji
    rw [h.image]
    apply hv
    exact Option.some.inj (h.holder.symm.trans hj)
  obtain ⟨hh, hr⟩ := h.others j hji
  rw [hr]
  apply hs.sound j fields
  rw [fieldsAt_eq_some, ← hh, hj]

theorem sets_push (hs : Inv s) (p : Option Nat) (hp : ∀ a, p = some a → a < s.images.cells.length) :
    Sets s s.holders.length v (p.bind fun a => s.images.cells[a]?) (s.push v p) := by
  have hlt : s.images.slots.length < s.images.declare.slots.length := by simp
  refine ⟨hs.valid.declare.point hp, ?_, ?_, ?_, ?_⟩
  · simp [push, hs.aligned]
  · simp [push]
  · rw [← hs.aligned]
    exact Shared.read_point_self p hlt
  · intro j hj
    constructor
    · rcases Nat.lt_or_gt_of_ne hj with hlt | hgt
      · exact getElem?_append_left hlt
      · have hold : s.holders[j]? = none := getElem?_eq_none (by omega)
        have hnew : (s.holders ++ [v])[j]? = none := getElem?_eq_none (by simp; omega)
        exact hnew.trans hold.symm
    · rw [← hs.aligned] at hj
      exact (Shared.read_point_ne p hj).trans (Shared.read_declare j)

theorem sets_place (hs : Inv s) {w : ReplicaHolder} (hi : s.holders[i]? = some w) (p : Option Nat)
    (hp : ∀ a, p = some a → a < s.images.cells.length) :
    Sets s i v (p.bind fun a => s.images.cells[a]?) (s.place i v p) := by
  have hlt := hs.lt hi
  refine ⟨hs.valid.point hp, ?_, ?_, Shared.read_point_self p hlt, ?_⟩
  · simp [place, hs.aligned]
  · rw [hs.aligned] at hlt
    simp [place, getElem?_set_self hlt]
  · intro j hj
    exact ⟨getElem?_set_ne (Ne.symm hj), Shared.read_point_ne p hj⟩

end sets

/-! ## A call, statement by statement -/

section calls

variable {α β : Type} {s : ReplicaHeap}

theorem ofExcept_ok_bind {x : Except Failure α} {a : α} (h : x = .ok a) (f : α → ReplicaCall β) :
    ((ofExcept x : ReplicaCall α) >>= f) s = f a s := by
  subst h
  rfl

theorem ofExcept_error_bind {x : Except Failure α} {e : Failure} (h : x = .error e) (f : α → ReplicaCall β) :
    ((ofExcept x : ReplicaCall α) >>= f) s = .error e s := by
  subst h
  rfl

theorem get_bind (f : ReplicaHeap → ReplicaCall β) : ((EStateM.get : ReplicaCall ReplicaHeap) >>= f) s = f s s := rfl

theorem allocate_bind (fault : Option AllocationSite) (site : AllocationSite) (f : Unit → ReplicaCall β) :
    (allocate fault site >>= f) s = if fault = some site then .error .badAlloc s else f () s := by
  unfold allocate
  split_ifs with h
  · exact ofExcept_error_bind (refuseIf_of _ h) f
  · exact ofExcept_ok_bind (refuseIf_of_not _ h) f

end calls

/-- Slot `i` is the only one to point at its record, which reads `image`; the
other slots read what they did. -/
structure Owns (before : Shared AttributeUpdate) (i : Nat) (image : AttributeUpdate) (after : Shared AttributeUpdate) :
    Prop where
  valid : after.Valid
  length : after.slots.length = before.slots.length
  read : after.read i = some image
  others : ∀ j, j ≠ i → after.read j = before.read j
  sole : after.Sole i

section owns

variable {before after : Shared AttributeUpdate} {i : Nat} {image : AttributeUpdate}

theorem owns_make (hv : before.Valid) (hi : i < before.slots.length) (image : AttributeUpdate) :
    Owns before i image (before.make i image) where
  valid := hv.make image
  length := Shared.length_make image
  read := Shared.read_make_self image hi
  others _ hj := Shared.read_make_ne hv image hj
  sole := Shared.sole_make hv image hi

theorem Owns.write (h : Owns before i image after) (f : AttributeUpdate → AttributeUpdate) :
    Owns before i (f image) (after.write i f) where
  valid := h.valid.write f
  length := (Shared.length_write f).trans h.length
  read := by rw [Shared.read_write_self, h.read, Option.map_some]
  others j hj := (Shared.read_write_ne h.sole f hj).trans (h.others j hj)
  sole := h.sole.write f

/-- Detaching throws before it writes, or makes the record the replica's own. -/
theorem detach_cases (hv : s.images.Valid) (hi : i < s.images.slots.length)
    (hr : s.images.read i = some image) (fault : Option AllocationSite) :
    (∃ e, detach i fault s = .error e s) ∨
      ∃ images, detach i fault s = .ok () { s with images } ∧ Owns s.images i image images := by
  unfold detach
  rw [get_bind]
  by_cases hu : s.images.unique i = true
  · rw [if_pos hu]
    exact .inr ⟨s.images, rfl, hv, rfl, hr, fun _ _ => rfl, Shared.sole_of_unique hu⟩
  rw [if_neg hu, allocate_bind]
  split_ifs
  · exact .inl ⟨_, rfl⟩
  · refine .inr ⟨s.images.make i image, ?_, owns_make hv hi image⟩
    change EStateM.Result.ok () { s with images := s.images.copy i } = _
    rw [Shared.copy_of_read hr]

/-- The new image is in place and the replica's own, or nothing was written. -/
theorem replaceImage_cases (hv : s.images.Valid) (hi : i < s.images.slots.length)
    {update : AttributeUpdate} (hr : update.snapshot = false → s.images.read i = some image)
    (fault : Option AllocationSite) :
    (∃ e, replaceImage i update fault s = .error e s) ∨
      ∃ images, replaceImage i update fault s = .ok () { s with images } ∧
        Owns s.images i
          (if update.snapshot then imageOf update.values update.revision
            else { image with values := AttributeReplica.overlay image.values update.values }) images := by
  unfold replaceImage
  cases hsnap : update.snapshot with
  | true =>
    simp only [if_true]
    rw [allocate_bind]
    split_ifs
    · exact .inl ⟨_, rfl⟩
    · exact .inr ⟨_, rfl, owns_make hv hi _⟩
  | false =>
    simp only [Bool.false_eq_true, if_false]
    rw [allocate_bind]
    split_ifs
    · exact .inl ⟨_, rfl⟩
    rcases detach_cases hv hi (hr hsnap) fault with ⟨e, he⟩ | ⟨_, hd, howns⟩
    · left
      exact ⟨e, by simp only [bind, EStateM.bind, he]⟩
    right
    refine ⟨_, ?_, howns.write fun image =>
      { image with values := AttributeReplica.overlay image.values update.values }⟩
    simp only [bind, EStateM.bind, hd]
    rfl

end owns

section apply

variable {s : ReplicaHeap} {i : Nat} {fields : ReplicaFields} {update : AttributeUpdate} (budget : Nat)
  (fault : Option AllocationSite)

/-- The variable after a call that stored `next`. -/
def storedFields (next : AttributeReplica) (budget : Nat) : ReplicaFields :=
  { revision := next.revision, initialized := next.initialized, bytes := next.bytes, budget }

/-- A store throws and leaves the heap, or does on the heap what it does on the replica alone. -/
theorem storeAt_cases (hs : Inv s) (hf : s.fieldsAt i = some fields)
    (hinit : update.snapshot = false → fields.initialized = true) :
    (∃ e, storeAt i fields update budget fault s = .error e s) ∨
      ∃ next s', (s.view i fields).store update budget = .ok next ∧
        storeAt i fields update budget fault s = .ok true s' ∧
        Sets s i (.replica (storedFields next budget)) next.image s' := by
  have hholder := fieldsAt_eq_some.1 hf
  have hlt := hs.lt hholder
  have hsound := hs.sound i fields hf
  unfold storeAt
  rw [get_bind]
  rcases hcharge : (s.view i fields).charge update with e | count
  · exact .inl ⟨e, rfl⟩
  rw [ofExcept_ok_bind rfl]
  by_cases hbudget : count > budget
  · exact .inl ⟨_, ofExcept_error_bind (refuseIf_of _ hbudget) _⟩
  rw [ofExcept_ok_bind (refuseIf_of_not _ hbudget)]
  -- the record a delta is laid over is the snapshot the replica holds
  have hread : update.snapshot = false →
      s.images.read i = some (imageOf (s.view i fields).values fields.revision) :=
    fun hsnap => (hs.sound i fields hf).image_eq (hinit hsnap)
  rcases replaceImage_cases hs.valid hlt hread fault with ⟨e, he⟩ | ⟨_, hok, howns⟩
  · left
    exact ⟨e, by simp only [bind, EStateM.bind, he]⟩
  right
  have hstore : (s.view i fields).store update budget =
      .ok { image := some (imageOf ((s.view i fields).target update) update.revision), revision := update.revision
            initialized := true, bytes := count } := by
    rw [AttributeReplica.store, hcharge, ok_bind, refuseIf_of_not _ hbudget]
    rfl
  refine ⟨_, _, hstore, by simp only [bind, EStateM.bind, hok]; rfl, ?_⟩
  have hdone := howns.write fun image => { image with revision := update.revision }
  refine ⟨hdone.valid, ?_, ?_, ?_, ?_⟩
  · rw [hdone.length, hs.aligned]
    simp
  · rw [hs.aligned] at hlt
    exact getElem?_set_self hlt
  · rw [hdone.read]
    unfold AttributeReplica.target
    cases update.snapshot <;> rfl
  · intro j hj
    exact ⟨getElem?_set_ne (Ne.symm hj), hdone.others j hj⟩

/-- A call on the heap does what it does on the replica alone, except that it
may throw for want of memory; if it does not return true the heap is as before. -/
theorem applyAt_cases (hs : Inv s) (hf : s.fieldsAt i = some fields) (update : AttributeUpdate) :
    (∃ e, applyAt i fields update budget fault s = .error e s) ∨
      applyAt i fields update budget fault s = .ok false s ∨
      ∃ next s', (s.view i fields).applyWithin update budget = .ok (true, next) ∧
        applyAt i fields update budget fault s = .ok true s' ∧
        Sets s i (.replica (storedFields next budget)) next.image s' := by
  unfold applyAt AttributeReplica.applyWithin
  rw [get_bind]
  rcases hadm : (s.view i fields).admits update with e | admitted
  · exact .inl ⟨e, rfl⟩
  rw [ofExcept_ok_bind rfl, ok_bind]
  cases admitted with
  | false => exact .inr (.inl rfl)
  | true =>
    simp only [Bool.true_eq_false, if_false]
    have hinit := (AttributeReplica.admits_eq_true hadm).2.1
    by_cases hempty : update.patches.isEmpty = true
    · rw [if_pos hempty, if_pos hempty]
      rcases storeAt_cases budget fault hs hf (fun hsnap => (hinit hsnap).1) with
        herr | ⟨next, s', hstore, hcall, hsets⟩
      · exact .inl herr
      · exact .inr (.inr ⟨next, s', by rw [hstore]; rfl, hcall, hsets⟩)
    rw [if_neg hempty, if_neg hempty, allocate_bind]
    split_ifs
    · exact .inl ⟨_, rfl⟩
    rcases hmat : materialize (s.view i fields).values update.patches update.values with e | values
    · exact .inl ⟨e, rfl⟩
    rw [ofExcept_ok_bind rfl, ok_bind]
    -- the recursive call: its update has no patches, and is checked again
    rcases hagain : (s.view i fields).admits
      { base := update.base, revision := update.revision, snapshot := false, values } with e | again
    · exact .inl ⟨e, rfl⟩
    rw [ofExcept_ok_bind rfl, ok_bind]
    cases again with
    | false => exact .inr (.inl rfl)
    | true =>
      simp only [Bool.true_eq_false, if_false]
      rcases storeAt_cases budget fault hs hf (fun hsnap => ((AttributeReplica.admits_eq_true hagain).2.1 hsnap).1) with
        herr | ⟨next, s', hstore, hcall, hsets⟩
      · exact .inl herr
      · exact .inr (.inr ⟨next, s', by rw [hstore]; rfl, hcall, hsets⟩)


/-- A call on a replica: it leaves the heap and does not return true, or it
changes that replica alone, as `applyWithin` would. -/
inductive Called (s : ReplicaHeap) (i : Nat) (fields : ReplicaFields) (update : AttributeUpdate) (budget : Nat) :
    Except Failure Bool × ReplicaHeap → Prop
  | unchanged {outcome : Except Failure Bool} (h : outcome ≠ .ok true) : Called s i fields update budget (outcome, s)
  | applied {next : AttributeReplica} {s' : ReplicaHeap}
      (applies : (s.view i fields).applyWithin update budget = .ok (true, next))
      (sets : Sets s i (.replica (storedFields next budget)) next.image s') :
      Called s i fields update budget (.ok true, s')

theorem call_called (hs : Inv s) (hf : s.fieldsAt i = some fields) (update : AttributeUpdate) :
    Called s i fields update budget (s.call i update budget fault) := by
  unfold call
  rw [hf]
  rcases applyAt_cases budget fault hs hf update with ⟨e, he⟩ | hno | ⟨_, _, happ, hcall, hsets⟩
  · simp only [he]
    exact .unchanged (by simp)
  · simp only [hno]
    exact .unchanged (by simp)
  · simp only [hcall]
    exact .applied happ hsets

end apply

/-! ## Programs -/

theorem inv_empty : Inv {} where
  valid i a h := by simp [Shared.pointer] at h
  aligned := rfl
  sound i fields h := by simp [fieldsAt] at h

theorem fresh_sound (fields : ReplicaFields) (h : ReplicaHolder.replica {} = .replica fields) :
    ({ image := none, revision := fields.revision, initialized := fields.initialized, bytes := fields.bytes } :
      AttributeReplica).Sound fields.budget := by
  cases h
  exact .fresh

theorem inv_step (hs : Inv s) (a : ReplicaAction) : Inv (s.step a) := by
  cases a with
  | create => exact (sets_push hs none (by simp)).inv hs fresh_sound
  | copy source =>
    simp only [step]
    split
    next fields hf =>
      apply (sets_push hs _ (hs.valid source)).inv hs
      rintro _ ⟨⟩
      exact hs.sound source fields hf
    next => exact hs
  | moveNew source =>
    simp only [step]
    split
    next fields hf =>
      have hpush := sets_push (v := .replica fields) hs _ (hs.valid source)
      have hs' : Inv (s.push (.replica fields) (s.images.pointer source)) := by
        apply hpush.inv hs
        rintro _ ⟨⟩
        exact hs.sound source fields hf
      have hholder := fieldsAt_eq_some.1 hf
      have hstill : (s.push (.replica fields) (s.images.pointer source)).holders[source]? = some (.replica fields) := by
        rw [(hpush.others source (ne_of_lt (List.getElem?_eq_some_iff.1 hholder).1)).1, hholder]
      exact (sets_place hs' hstill none (by simp)).inv hs' fresh_sound
    next => exact hs
  | assign _ source =>
    simp only [step]
    split
    next _ fields ht hf =>
      apply (sets_place hs (fieldsAt_eq_some.1 ht) _ (hs.valid source)).inv hs
      rintro _ ⟨⟩
      exact hs.sound source fields hf
    next => exact hs
  | moveInto target source =>
    simp only [step]
    split
    next _ fields ht hf =>
      split_ifs with hself
      · exact hs
      have hset := sets_place (v := .replica fields) hs (fieldsAt_eq_some.1 ht) _ (hs.valid source)
      have hs' : Inv (s.place target (.replica fields) (s.images.pointer source)) := by
        apply hset.inv hs
        rintro _ ⟨⟩
        exact hs.sound source fields hf
      have hstill := (hset.others source (Ne.symm hself)).1.trans (fieldsAt_eq_some.1 hf)
      exact (sets_place hs' hstill none (by simp)).inv hs' fresh_sound
    next => exact hs
  | reset =>
    simp only [step]
    split
    next _ hf => exact (sets_place hs (fieldsAt_eq_some.1 hf) none (by simp)).inv hs fresh_sound
    next => exact hs
  | snapshot source =>
    simp only [step]
    split
    next fields hf =>
      apply (sets_push hs _ ?_).inv hs
      · rintro _ ⟨⟩
      · split_ifs
        · exact hs.valid source
        · simp
    next => exact hs
  | release =>
    simp only [step]
    split
    next hi =>
      apply (sets_place hs hi none (by simp)).inv hs
      rintro _ ⟨⟩
    next => exact hs
  | apply i update budget fault =>
    simp only [step]
    cases hf : s.fieldsAt i with
    | none => simpa [call, hf] using hs
    | some fields =>
      have hcalled := call_called budget fault hs hf update.1
      generalize s.call i update.1 budget fault = result at hcalled
      cases hcalled with
      | unchanged => exact hs
      | applied applies sets =>
        apply sets.inv hs
        rintro _ ⟨⟩
        exact (AttributeReplica.applyWithin_sound (hs.sound i fields hf) update.2.sorted applies).1

theorem inv_run (actions : List ReplicaAction) : Inv (run step {} actions) :=
  run_inv (I := Inv) (fun _ a h => inv_step h a) inv_empty actions

/-! ## What a caller can rely on -/

/-- What holds of a replica between calls, `budget` being that of the last call
that returned true. -/
structure Consistent (replica : AttributeReplica) (budget : Nat) : Prop where
  held : replica.initialized = true → ∃ image body, replica.image = some image ∧ image.values = replica.values ∧
    image.snapshot = true ∧ encodeAttributes image = .ok (ascii "FSA1" ++ body)
  charged : replica.initialized = true → ∃ size, imageWireSize replica.values = .ok size ∧
    replica.bytes = size + attributeImageBytes replica.values ∧ replica.bytes ≤ budget
  empty : replica.initialized = false → replica.image = none ∧ replica.values = [] ∧ replica.bytes = 0

theorem consistent_of_sound {replica : AttributeReplica} {budget : Nat} (h : replica.Sound budget) :
    Consistent replica budget := by
  cases h with
  | fresh => exact ⟨nofun, nofun, fun _ => ⟨rfl, rfl, rfl⟩⟩
  | holding _ accepted measured charged within =>
    refine ⟨fun _ => ⟨_, _, rfl, rfl, rfl, encodeAttributes_eq_ok.2 ⟨accepted, rfl⟩⟩, ?_, nofun⟩
    intro _
    exact ⟨_, measured, charged, within⟩

/-- No variable but `i` reads anything else than before. -/
structure Isolated (s : ReplicaHeap) (i : Nat) (s' : ReplicaHeap) : Prop where
  replicas : ∀ j, j ≠ i → s'.replica j = s.replica j ∧ s'.allowed j = s.allowed j
  snapshots : ∀ j, s'.retained j = s.retained j

theorem isolated_refl (s : ReplicaHeap) (i : Nat) : Isolated s i s := ⟨fun _ _ => ⟨rfl, rfl⟩, fun _ => rfl⟩

theorem Sets.isolated {s' : ReplicaHeap} {i : Nat} {fields before : ReplicaFields} {image : Option AttributeUpdate}
    (h : Sets s i (.replica fields) image s') (hf : s.fieldsAt i = some before) : Isolated s i s' := by
  constructor
  · intro j hj
    obtain ⟨hholder, hread⟩ := h.others j hj
    have hfields : s'.fieldsAt j = s.fieldsAt j := by rw [fieldsAt, hholder, fieldsAt]
    have hview : s'.view j = s.view j := by
      funext f
      rw [view, hread, view]
    exact ⟨by rw [replica, hfields, hview, replica], by rw [allowed, hfields, allowed]⟩
  · intro j
    by_cases hji : j = i
    · -- the variable called upon is a replica, before and after
      subst hji
      rw [retained, h.holder, retained, fieldsAt_eq_some.1 hf]
    · obtain ⟨hholder, hread⟩ := h.others j hji
      rw [retained, hholder, hread, retained]

/-- The contract of one call. -/
structure AtomicCall (s : ReplicaHeap) (i : Nat) (before : AttributeReplica) (update : AttributeUpdate)
    (maxImageBytes : Nat) (outcome : Except Failure Bool) (s' : ReplicaHeap) : Prop where
  unchanged : outcome ≠ .ok true → s' = s
  advanced : outcome = .ok true → ∃ after, s'.replica i = some after ∧ s'.allowed i = some maxImageBytes ∧
    after.revision = update.revision ∧ before.revision ≤ update.revision
  isolated : Isolated s i s'

theorem replica_eq_some {i : Nat} {before : AttributeReplica} (h : s.replica i = some before) :
    ∃ fields, s.fieldsAt i = some fields ∧ s.view i fields = before := by
  simpa [replica] using h

/-- In every program with replicas, copies of them and retained snapshots, and
for every call of `apply`: a call that throws or returns false leaves everything
as it was; one that returns true moves the replica to the update's revision and
leaves every other replica and every retained snapshot as it was; and between
calls every initialized replica holds an encodable snapshot, charged in full and
within the budget of its last success. -/
theorem attribute_replica_atomic (actions : List ReplicaAction) :
    (∀ i replica budget, (run step {} actions).replica i = some replica →
      (run step {} actions).allowed i = some budget → Consistent replica budget) ∧
    ∀ i before (update : { u : AttributeUpdate // UpdateOrdered u }) maxImageBytes fault,
      (run step {} actions).replica i = some before →
      AtomicCall (run step {} actions) i before update.1 maxImageBytes
        ((run step {} actions).call i update.1 maxImageBytes fault).1
        ((run step {} actions).call i update.1 maxImageBytes fault).2 := by
  have hs := inv_run actions
  generalize run step {} actions = s at hs
  constructor
  · intro i replica _ hr hb
    obtain ⟨fields, hf, rfl⟩ := replica_eq_some hr
    rw [allowed, hf, Option.map_some, Option.some.injEq] at hb
    subst hb
    exact consistent_of_sound (hs.sound i fields hf)
  · intro i _ update maxImageBytes fault hr
    obtain ⟨fields, hf, rfl⟩ := replica_eq_some hr
    have hcalled := call_called maxImageBytes fault hs hf update.1
    generalize s.call i update.1 maxImageBytes fault = result at hcalled
    cases hcalled with
    | unchanged hne => exact ⟨fun _ => rfl, fun h => absurd h hne, isolated_refl s i⟩
    | @applied next s' applies sets =>
      obtain ⟨-, hrev, hle⟩ := AttributeReplica.applyWithin_sound (hs.sound i fields hf) update.2.sorted applies
      have hfields := fieldsAt_eq_some.2 sets.holder
      refine ⟨fun h => absurd rfl h, fun _ => ?_, sets.isolated hf⟩
      exact ⟨s'.view i (storedFields next maxImageBytes), by rw [replica, hfields]; rfl, by rw [allowed, hfields]; rfl,
        hrev, hle⟩

/-- A score, and its change while a snapshot and a copy hold the old one. -/
def scoreRecord (base revision : UInt64) (snapshot : Bool) (score : Int64) :
    { u : AttributeUpdate // UpdateOrdered u } :=
  ⟨{ base, revision, snapshot, values := [(ascii "score", .integer score)] }, by
    refine ⟨by simp [Entries.Sorted], ?_, by simp⟩
    simp only [mem_singleton, forall_eq]
    exact .integer _⟩

theorem attribute_replica_atomic_shared :
    let s := run step {} [.create, .apply 0 (scoreRecord 0 1 true 5) 1000 none, .snapshot 0, .copy 0]
    let result := s.call 0 (scoreRecord 1 2 false 6).1 1000 none
    result.1 = .ok true ∧ result.2.replica 2 = s.replica 2 ∧ result.2.retained 1 = s.retained 1 := by
  have hcall := (attribute_replica_atomic
    [.create, .apply 0 (scoreRecord 0 1 true 5) 1000 none, .snapshot 0, .copy 0]).2 0 _ (scoreRecord 1 2 false 6) 1000
    none rfl
  exact ⟨by decide +kernel, (hcall.isolated.replicas 2 (by decide)).1, hcall.isolated.snapshots 1⟩

/-- A replica that no call has succeeded on yet is charged nothing, not even the empty record. -/
theorem image_bytes_before_first_snapshot :
    ¬∀ actions i replica, (run step {} actions).replica i = some replica →
      ∃ size, imageWireSize replica.values = .ok size ∧ replica.bytes = size + attributeImageBytes replica.values := by
  intro h
  obtain ⟨size, -, hbytes⟩ := h [.create] 0 {} rfl
  have hcharge : attributeImageBytes ({} : AttributeReplica).values = 256 := rfl
  rw [hcharge] at hbytes
  simp only at hbytes
  omega

end ReplicaHeap

end Fsnet
