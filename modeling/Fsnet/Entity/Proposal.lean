import Fsnet.Attributes.Applying
import Fsnet.Entity.Schema
/-!
# Attribute writes proposed by a caller

`EntityAttributes::stage` and `publish`, and `stage_attribute_proposal`, which
runs the patches of an untrusted proposal against the authoritative image. What
is proved: a staged mutation names the roots of the proposal and nothing else,
all of them writable by the caller; and what the caller may not write has no
influence on the outcome.
-/

namespace Fsnet

open Lib Entries List
open AttributeReplica (overlay holding sorted_materialize find_overlay apply_fresh admits_of)

/-- `EntityAttributes` in full: the image of its schema's attributes, the owner
the carrier was built for, and the revision each attribute last changed at. The
maps have the keys of the schema, which no member function changes. -/
structure AttributeCarrier extends EntityAttributes where
  owner : Bytes
  modified : List (Bytes × UInt64)
  keyed : values.map Prod.fst = schema.attributes.entries.map Prod.fst
  tracked : modified.map Prod.fst = schema.attributes.entries.map Prod.fst

structure Mutation where
  expected : UInt64
  values : AttributeStruct

namespace AttributeCarrier

/-- The constructor, after `validate` has passed. -/
def new (schema : EntitySchema) (owner : Bytes) : AttributeCarrier where
  toEntityAttributes := EntityAttributes.new schema
  owner := owner
  modified := schema.attributes.entries.map fun e => (e.1, 0)
  keyed := by simp [EntityAttributes.new]
  tracked := by simp [EntityAttributes.new]

/-! ## Staging -/

/-- The access a definition grants to a role. -/
def accessOf (d : AttributeDefinition) : Caller → AttributeAccess
  | .server => d.server
  | .client => d.client

/-- A server has to be live, a client to be live and to own the entity. -/
def authorized (owner : Bytes) (who : CallIdentity) (live : Bool) : Bool :=
  match who.caller with
  | .server => live
  | .client => who.owns live owner

/-- The loop of `stage`. -/
def stageValues (schema : EntitySchema) (caller : Caller) : AttributeStruct → Except Failure Unit
  | [] => pure ()
  | (name, value) :: rest =>
    match schema.attributes.find name with
    | none => throw .outOfRange
    | some d => do
      refuseIf ((accessOf d caller).writes = false) (.runtime "attribute write denied")
      refuseIf (d.admits value = false) (.invalid "attribute type or size mismatch")
      stageValues schema caller rest

variable (model : AttributeCarrier)

def stage (values : AttributeStruct) (who : CallIdentity) (live : Bool) :
    Except Failure Mutation := do
  refuseIf (values.length > model.schema.attributes.size) (.invalid "attribute update limit")
  refuseIf (authorized model.owner who live = false) (.runtime "attribute write denied")
  stageValues model.schema who.caller values
  pure ⟨model.revision, values⟩

/-! ## Publishing -/

/-- The check of every value before the first one is stored. -/
def checkCommitted (schema : EntitySchema) : AttributeStruct → Except Failure Unit
  | [] => pure ()
  | (name, value) :: rest =>
    match schema.attributes.find name with
    | none => throw .outOfRange
    | some d => do
      refuseIf (d.admits value = false) (.invalid "invalid committed attribute")
      checkCommitted schema rest

/-- The values that differ from the current ones. -/
def prepare (held : AttributeStruct) : AttributeStruct → AttributeStruct → Except Failure AttributeStruct
  | [], prepared => pure prepared
  | (name, value) :: rest, prepared => do
    let current ← lookup name held
    prepare held rest (if current.same value then prepared else Entries.insert name value prepared)

/-- The swaps into `values_` and `modified_`, whose keys stay. -/
def swapIn (prepared : AttributeStruct) : AttributeCarrier where
  schema := model.schema
  values := model.values.map fun e => (e.1, (find e.1 prepared).getD e.2)
  revision := model.revision + 1
  owner := model.owner
  modified := model.modified.map fun e => (e.1, if contains prepared e.1 then model.revision + 1 else e.2)
  keyed := by simp only [map_map, Function.comp_def]; exact model.keyed
  tracked := by simp only [map_map, Function.comp_def]; exact model.tracked

/-- The checks and the copies, before the first swap. -/
def prepareAll (mutation : Mutation) : Except Failure AttributeStruct := do
  refuseIf (model.revision.toNat = 2 ^ 64 - 1) (.overflow "attribute revision exhausted")
  checkCommitted model.schema mutation.values
  prepare model.values mutation.values []

def publish (mutation : Mutation) : ExceptT Failure (StateM AttributeCarrier) Bool := do
  let model ← getThe AttributeCarrier
  if mutation.expected ≠ model.revision then return false
  let prepared ← model.prepareAll mutation
  if prepared ≠ [] then set (model.swapIn prepared)
  return true

/-- The carrier a call of `publish` leaves, whether it returns or throws. -/
def attempt (mutation : Mutation) : AttributeCarrier := (publish mutation model).2

/-! ## Proposals -/

/-- The roots of a proposal: its values, and for each patched property that has
none the current one. -/
def proposalRoots (held : AttributeStruct) : List AttributePatch → AttributeStruct → Except Failure AttributeStruct
  | [], roots => pure roots
  | patch :: rest, roots => do
    let value ← lookup patch.property held
    proposalRoots held rest
      (if contains roots patch.property then roots else Entries.insert patch.property value roots)

/-- The loop that gives each root the value it has in the candidate. -/
def settleRoots (candidate : AttributeStruct) : AttributeStruct → Except Failure AttributeStruct
  | [] => pure []
  | (name, _) :: rest => do
    let value ← lookup name candidate
    let rest ← settleRoots candidate rest
    pure ((name, value) :: rest)

/-- `stage_attribute_proposal`. The caller's callbacks are asked by each `stage`:
`live` is their answer to the first, `relive` to the second. -/
def stageAttributeProposal (proposal : AttributeUpdate) (who : CallIdentity)
    (live relive : Bool) : Except Failure Mutation := do
  let _ ← attributeWireSize proposal
  refuseIf (proposal.snapshot = true ∨ proposal.base ≠ model.revision ∨ proposal.revision ≠ proposal.base)
    (.invalid "invalid or stale client proposal")
  if proposal.patches.isEmpty then model.stage proposal.values who live
  else do
    let roots ← proposalRoots model.values proposal.patches proposal.values
    let _ ← model.stage roots who live
    let (_, candidate) ← ({} : AttributeReplica).apply (imageOf model.values model.revision)
    let (applied, candidate) ← candidate.apply proposal
    refuseIf (applied = false) (.invalid "unapplicable client proposal")
    let roots ← settleRoots candidate.values roots
    model.stage roots who relive

/-! ## What a staged mutation contains -/

/-- The attribute is one the role may write, and the value is valid for it. -/
def Writable (schema : EntitySchema) (caller : Caller) (e : Bytes × AttributeValue) : Prop :=
  ∃ d, schema.attributes.find e.1 = some d ∧ (accessOf d caller).writes = true ∧ d.admits e.2 = true

variable {values : AttributeStruct} {model : AttributeCarrier} {who : CallIdentity} {live : Bool} {mutation : Mutation}

theorem stageValues_eq_ok {schema : EntitySchema} {caller : Caller} {u : Unit} :
    stageValues schema caller values = .ok u ↔ ∀ e ∈ values, Writable schema caller e := by
  induction values with
  | nil => simp [stageValues]
  | cons e _ ih =>
    obtain ⟨name, _⟩ := e
    rw [forall_mem_cons, ← ih, stageValues]
    cases hd : schema.attributes.find name with
    | none => simp [Writable, hd]
    | some => simp [Writable, hd, refuseIf_bind_eq_ok, and_assoc]

theorem stage_eq_ok : model.stage values who live = .ok mutation ↔
      values.length ≤ model.schema.attributes.size ∧ authorized model.owner who live = true ∧
        (∀ e ∈ values, Writable model.schema who.caller e) ∧ mutation = ⟨model.revision, values⟩ := by
  simp only [stage, bind_eq_ok, refuseIf_eq_ok, stageValues_eq_ok, pure_ok_iff, gt_iff_lt, not_lt,
    Bool.not_eq_false, exists_const, eq_comm (a := mutation)]

/-- The names an update mentions, whole or by a patch. -/
def Mentions (proposal : AttributeUpdate) (name : Bytes) : Prop :=
  contains proposal.values name = true ∨ ∃ patch ∈ proposal.patches, patch.property = name

theorem contains_insert (k name : Bytes) (v : AttributeValue) (l : AttributeStruct) :
    contains (Entries.insert k v l) name = true ↔ contains l name = true ∨ k = name := by
  unfold contains
  by_cases h : name = k
  · subst h
    simp
  · simp [find_insert_ne _ h, Ne.symm h]

variable {held roots : AttributeStruct} {proposal : AttributeUpdate}

theorem proposalRoots_eq_ok {roots' : AttributeStruct} {patches : List AttributePatch}
    (hs : Sorted roots) (h : proposalRoots held patches roots = .ok roots') :
    Sorted roots' ∧
      ∀ name, contains roots' name = true ↔
        contains roots name = true ∨ ∃ patch ∈ patches, patch.property = name := by
  induction patches generalizing roots with
  | nil =>
    cases h
    exact ⟨hs, by simp⟩
  | cons patch _ ih =>
    simp only [proposalRoots, bind_eq_ok] at h
    obtain ⟨_, -, h⟩ := h
    split_ifs at h with hin
    · -- the property already is a root
      obtain ⟨hs', hnames⟩ := ih hs h
      refine ⟨hs', ?_⟩
      intro name
      rw [hnames]
      constructor
      · rintro (hr | ⟨p, hp, rfl⟩)
        · exact .inl hr
        · exact .inr ⟨p, mem_cons_of_mem _ hp, rfl⟩
      · rintro (hr | ⟨p, hp, rfl⟩)
        · exact .inl hr
        · rcases mem_cons.1 hp with rfl | hp
          · exact .inl hin
          · exact .inr ⟨p, hp, rfl⟩
    · obtain ⟨hs', hnames⟩ := ih (sorted_insert _ _ hs) h
      refine ⟨hs', ?_⟩
      intro name
      rw [hnames, contains_insert]
      constructor
      · rintro ((hr | rfl) | ⟨p, hp, rfl⟩)
        · exact .inl hr
        · exact .inr ⟨patch, mem_cons_self, rfl⟩
        · exact .inr ⟨p, mem_cons_of_mem _ hp, rfl⟩
      · rintro (hr | ⟨p, hp, rfl⟩)
        · exact .inl (.inl hr)
        · rcases mem_cons.1 hp with rfl | hp
          · exact .inl (.inr rfl)
          · exact .inr ⟨p, hp, rfl⟩

theorem settleRoots_eq_ok {candidate roots' : AttributeStruct} (h : settleRoots candidate roots = .ok roots') :
    roots'.map Prod.fst = roots.map Prod.fst := by
  induction roots generalizing roots' with
  | nil =>
    cases h
    rfl
  | cons e _ ih =>
    obtain ⟨_, _⟩ := e
    simp only [settleRoots, bind_eq_ok, pure_ok_iff] at h
    obtain ⟨_, -, _, hrest, rfl⟩ := h
    simp [ih hrest]

/-- Maps with the same keys have the same names and the same order. -/
theorem contains_of_keys {l m : AttributeStruct} (h : l.map Prod.fst = m.map Prod.fst) (name : Bytes) :
    contains l name = contains m name := by
  induction l generalizing m with
  | nil =>
    cases m with
    | nil => rfl
    | cons => simp at h
  | cons _ _ ih =>
    cases m with
    | nil => simp at h
    | cons =>
      simp only [map_cons, List.cons.injEq] at h
      unfold contains
      rw [find_cons, find_cons, h.1]
      split_ifs
      · rfl
      · exact ih h.2

/-! ## Publishing touches nothing else -/

theorem find_map_values {V : Type} (f : Bytes → V → V) (k : Bytes) (l : List (Bytes × V)) :
    find k (l.map fun e => (e.1, f e.1 e.2)) = (find k l).map (f k) := by
  induction l with
  | nil => rfl
  | cons _ _ ih =>
    rw [map_cons, find_cons, ih, find_cons]
    split_ifs with h
    · rw [h]
      rfl
    · rfl

theorem find_prepare {prepared prepared' : AttributeStruct} {k : Bytes}
    (h : prepare held values prepared = .ok prepared') (hk : contains values k = false) :
    find k prepared' = find k prepared := by
  induction values generalizing prepared with
  | nil =>
    cases h
    rfl
  | cons e _ ih =>
    obtain ⟨_, _⟩ := e
    simp only [prepare, bind_eq_ok] at h
    obtain ⟨_, -, h⟩ := h
    rw [contains, find_cons] at hk
    split_ifs at hk with hkey
    · cases hk
    rw [ih h hk]
    split_ifs
    · rfl
    · exact find_insert_ne _ hkey _

/-- Everything that throws comes before the swaps. -/
theorem publish_cases (model : AttributeCarrier) (mutation : Mutation) :
    (∃ result, result ≠ .ok true ∧ publish mutation model = (result, model)) ∨
      ∃ prepared, model.prepareAll mutation = .ok prepared ∧
        publish mutation model = (.ok true, if prepared ≠ [] then model.swapIn prepared else model) := by
  have hrun : publish mutation model = (if mutation.expected ≠ model.revision then pure false else do
      let prepared ← model.prepareAll mutation
      if prepared ≠ [] then set (model.swapIn prepared)
      return true : ExceptT Failure (StateM AttributeCarrier) Bool) model := rfl
  rw [hrun]
  split_ifs
  · exact .inl ⟨.ok false, by simp, rfl⟩
  cases model.prepareAll mutation with
  | error e => exact .inl ⟨.error e, by simp, rfl⟩
  | ok prepared =>
    refine .inr ⟨prepared, rfl, ?_⟩
    change (if prepared ≠ [] then (_ : ExceptT Failure (StateM AttributeCarrier) Bool) else _) model = _
    split_ifs <;> rfl

/-- A mutation leaves every attribute it does not name. -/
theorem attempt_frame {name : Bytes} (hname : contains mutation.values name = false) :
    find name (model.attempt mutation).values = find name model.values := by
  rcases publish_cases model mutation with ⟨_, -, h⟩ | ⟨prepared, hprepared, h⟩
  · rw [attempt, h]
  rw [attempt, h]
  dsimp only
  split_ifs
  swap
  · rfl
  obtain ⟨_, -, hprepared⟩ := bind_eq_ok.1 hprepared
  obtain ⟨_, -, hprepared⟩ := bind_eq_ok.1 hprepared
  have hnone : find name prepared = none := find_prepare hprepared hname
  change find name (model.values.map fun e => (e.1, (find e.1 prepared).getD e.2)) = _
  rw [find_map_values (fun k v => (find k prepared).getD v), hnone]
  simp

/-- What a successful staging guarantees. -/
structure Authorized (model : AttributeCarrier) (proposal : AttributeUpdate) (who : CallIdentity) (live : Bool)
    (mutation : Mutation) : Prop where
  expected : mutation.expected = model.revision
  sorted : Sorted mutation.values
  roots : ∀ name, contains mutation.values name = true ↔ Mentions proposal name
  permitted : live = true ∧ (who.caller = .client → who.connection.matchesKey model.owner = true)
  writable : ∀ e ∈ mutation.values, Writable model.schema who.caller e
  others : ∀ (target : AttributeCarrier) name, ¬Mentions proposal name →
    find name (target.attempt mutation).values = find name target.values

theorem authorized_eq_true {owner : Bytes} (h : authorized owner who live = true) :
    live = true ∧ (who.caller = .client → who.connection.matchesKey owner = true) := by
  unfold authorized at h
  cases hc : who.caller with
  | server =>
    rw [hc] at h
    exact ⟨h, nofun⟩
  | client =>
    simp only [hc, CallIdentity.owns, Bool.and_eq_true] at h
    exact ⟨h.1, fun _ => h.2⟩

theorem authorized_of_stage {relive : Bool} (hs : Sorted values)
    (hroots : ∀ name, contains values name = true ↔ Mentions proposal name)
    (hauth : authorized model.owner who live = true) (h : model.stage values who relive = .ok mutation) :
    Authorized model proposal who live mutation := by
  obtain ⟨-, -, hwritable, rfl⟩ := stage_eq_ok.1 h
  refine ⟨rfl, hs, hroots, authorized_eq_true hauth, hwritable, ?_⟩
  intro _ name hname
  apply attempt_frame
  rw [Bool.eq_false_iff]
  intro hc
  exact hname ((hroots name).1 hc)

theorem stageAttributeProposal_authorized {relive : Bool} (hp : Sorted proposal.values)
    (h : stageAttributeProposal model proposal who live relive = .ok mutation) :
    Authorized model proposal who live mutation := by
  simp only [stageAttributeProposal, bind_eq_ok] at h
  obtain ⟨_, -, _, -, h⟩ := h
  split_ifs at h with hempty
  · refine authorized_of_stage hp ?_ (stage_eq_ok.1 h).2.1 h
    intro name
    simp [Mentions, List.isEmpty_iff.1 hempty]
  simp only [bind_eq_ok] at h
  obtain ⟨_, hroots, _, hfirst, ⟨_, _⟩, -, ⟨_, _⟩, -, _, -, _, hroots', h⟩ := h
  obtain ⟨hsorted, hnames⟩ := proposalRoots_eq_ok hp hroots
  have hkeys := settleRoots_eq_ok hroots'
  refine authorized_of_stage (sorted_of_keys (hkeys ▸ .refl _) hsorted) ?_ (stage_eq_ok.1 hfirst).2.1 h
  intro name
  rw [contains_of_keys hkeys, hnames]
  rfl

/-! ## What the caller may not write has no influence -/

/-- The attributes the caller may write now. -/
def mayWrite (model : AttributeCarrier) (who : CallIdentity) (live : Bool) (name : Bytes) : Bool :=
  authorized model.owner who live &&
    (model.schema.attributes.find name).any fun d => (accessOf d who.caller).writes

/-- Maps with the same keys whose values agree at the keys in `W`. -/
def Agree (W : Bytes → Prop) (l m : AttributeStruct) : Prop :=
  List.Forall₂ (fun e e' => e.1 = e'.1 ∧ (W e.1 → e.2 = e'.2)) l m

section agree

variable {W : Bytes → Prop} {l m : AttributeStruct}

theorem Agree.refl (l : AttributeStruct) : Agree W l l := List.forall₂_same.2 fun _ _ => ⟨rfl, fun _ => rfl⟩

theorem Agree.keys (h : Agree W l m) : l.map Prod.fst = m.map Prod.fst := by
  induction h with
  | nil => rfl
  | cons hd _ ih => rw [map_cons, map_cons, hd.1, ih]

theorem Agree.find (h : Agree W l m) {k : Bytes} (hk : W k) : find k l = find k m := by
  induction h with
  | nil => rfl
  | cons hd _ ih =>
    rw [find_cons, find_cons, ← hd.1, ih]
    split_ifs with hkey
    · rw [hd.2 (hkey ▸ hk)]
    · rfl

theorem Agree.insert (h : Agree W l m) {k : Bytes} {v w : AttributeValue} (hv : W k → v = w) :
    Agree W (Entries.insert k v l) (Entries.insert k w m) := by
  induction h with
  | nil => exact .cons ⟨rfl, hv⟩ .nil
  | @cons _ _ _ _ hd tl ih =>
    simp only [Entries.insert, ← hd.1]
    split_ifs
    · exact .cons ⟨rfl, hv⟩ (.cons ⟨rfl, hd.2⟩ tl)
    · exact .cons ⟨rfl, hv⟩ tl
    · exact .cons ⟨rfl, hd.2⟩ ih

theorem Agree.eq_of_forall (h : Agree W l m) (hW : ∀ e ∈ l, W e.1) : l = m := by
  induction h with
  | nil => rfl
  | cons hd _ ih =>
    rw [forall_mem_cons] at hW
    rw [Prod.ext hd.1 (hd.2 hW.1), ih hW.2]

end agree

variable {W : Bytes → Prop} {l m : AttributeStruct}

theorem lookup_agree (h : Agree W l m) (k : Bytes) :
    (lookup k l = .error .outOfRange ∧ lookup k m = .error .outOfRange) ∨
      ∃ v w, lookup k l = .ok v ∧ lookup k m = .ok w ∧ (W k → v = w) := by
  have hkeys := contains_of_keys h.keys k
  unfold lookup
  unfold contains at hkeys
  cases hl : find k l with
  | none =>
    rw [hl] at hkeys
    have hm : find k m = none := by simpa using hkeys.symm
    rw [hm]
    exact .inl ⟨rfl, rfl⟩
  | some v =>
    rw [hl] at hkeys
    obtain ⟨w, hm⟩ := Option.isSome_iff_exists.1 hkeys.symm
    rw [hm]
    refine .inr ⟨v, w, rfl, rfl, fun hk => ?_⟩
    have := h.find hk
    rw [hl, hm] at this
    exact Option.some.inj this

/-- The roots are found in both images or in neither, and they agree where the images do. -/
theorem proposalRoots_agree {held' : AttributeStruct} (hheld : Agree W held held')
    (patches : List AttributePatch) {roots' : AttributeStruct} (h : Agree W roots roots') :
    (∃ e, proposalRoots held patches roots = .error e ∧ proposalRoots held' patches roots' = .error e) ∨
      ∃ r r', proposalRoots held patches roots = .ok r ∧ proposalRoots held' patches roots' = .ok r' ∧
        Agree W r r' := by
  induction patches generalizing roots roots' with
  | nil => exact .inr ⟨roots, roots', rfl, rfl, h⟩
  | cons patch _ ih =>
    simp only [proposalRoots]
    rcases lookup_agree hheld patch.property with ⟨hl, hm⟩ | ⟨v, w, hl, hm, hvw⟩
    · rw [hl, hm]
      exact .inl ⟨_, rfl, rfl⟩
    rw [hl, hm, ok_bind, ok_bind, contains_of_keys h.keys]
    split_ifs
    · exact ih h
    · exact ih (h.insert hvw)

/-- Values the role may not write are refused before they are looked at. -/
theorem stageValues_agree {schema : EntitySchema} {caller : Caller}
    (hW : ∀ name d, schema.attributes.find name = some d → (accessOf d caller).writes = true → W name)
    (h : Agree W l m) : stageValues schema caller l = stageValues schema caller m := by
  induction h with
  | nil => rfl
  | @cons e e' _ _ hd _ ih =>
    obtain ⟨name, v⟩ := e
    obtain ⟨_, _⟩ := e'
    obtain ⟨rfl, hv⟩ := hd
    simp only [stageValues]
    cases hf : schema.attributes.find name with
    | none => rfl
    | some d =>
      simp only
      by_cases hw : (accessOf d caller).writes = true
      · obtain rfl := hv (hW name d hf hw)
        rw [ih]
      · have hdenied : (accessOf d caller).writes = false := by simpa using hw
        rw [refuseIf_of _ hdenied, error_bind, error_bind]

theorem materialize_congr {held' : AttributeStruct} {patches : List AttributePatch}
    (h : ∀ patch ∈ patches, find patch.property held = find patch.property held')
    (m : AttributeStruct) : materialize held patches m = materialize held' patches m := by
  induction patches generalizing m with
  | nil => rfl
  | cons patch _ ih =>
    rw [forall_mem_cons] at h
    have hsource : patchSource held m patch.property = patchSource held' m patch.property := by
      unfold patchSource lookup
      rw [h.1]
    simp only [materialize, hsource, ih h.2]

/-- The image of the model, and the one the proposal leads to, are within the limits of a record. -/
structure WithinLimits (model : AttributeCarrier) (proposal : AttributeUpdate) : Prop where
  before : ∃ bytes, encodeAttributes (imageOf model.values model.revision) = .ok bytes
  after : ∀ changed, materialize model.values proposal.patches proposal.values = .ok changed →
    ∃ bytes, encodeAttributes (imageOf (overlay model.values changed) model.revision) = .ok bytes

theorem accepted_of_encode {update : AttributeUpdate} (h : ∃ bytes, encodeAttributes update = .ok bytes) :
    Accepted update := by
  obtain ⟨_, h⟩ := h
  exact (encodeAttributes_eq_ok.1 h).1

theorem sorted_values (model : AttributeCarrier) : Sorted model.values := by
  have hs := model.schema.attributes.sorted
  unfold Sorted at hs ⊢
  rw [← pairwise_map (f := Prod.fst) (R := (· < ·))] at hs ⊢
  rwa [model.keyed]

/-- Trying a proposal: its patches are run, the values they make are checked, and
these are laid over the candidate. -/
theorem apply_candidate {values : AttributeStruct} {revision : UInt64} (bytes : Nat)
    (hs : Sorted values) (hp : Sorted proposal.values) (hacc : Accepted proposal)
    (hbase : proposal.base = revision) (hrev : proposal.revision = revision)
    (hpatches : proposal.patches.isEmpty = false)
    (hafter : ∀ changed, materialize values proposal.patches proposal.values = .ok changed →
      Accepted (imageOf (overlay values changed) revision)) :
    ∃ count, (holding values revision bytes).apply proposal = (do
      let changed ← materialize values proposal.patches proposal.values
      let _ ← attributeWireSize { base := revision, revision, snapshot := false, values := changed }
      pure (true, holding (overlay values changed) revision count)) := by
  have hadm : (holding values revision bytes).admits proposal = .ok true :=
    admits_of hacc rfl (fun _ => hbase) (by rw [hrev]; exact UInt64.le_refl _)
  have hheld : (holding values revision bytes).values = values := rfl
  unfold AttributeReplica.apply AttributeReplica.applyWithin
  rw [hadm, ok_bind, if_neg (by simp), hpatches, if_neg (by simp), hheld]
  rcases hmat : materialize values proposal.patches proposal.values with e | changed
  · exact ⟨0, rfl⟩
  simp only [ok_bind, hbase, hrev]
  rcases hsize : attributeWireSize { base := revision, revision, snapshot := false, values := changed } with e | n
  · have hrefused : (holding values revision bytes).admits
        { base := revision, revision, snapshot := false, values := changed } = .error e := by
      unfold AttributeReplica.admits
      rw [hsize]
      rfl
    simp only [hrefused]
    exact ⟨0, rfl⟩
  · have hagain : (holding values revision bytes).admits
        { base := revision, revision, snapshot := false, values := changed } = .ok true :=
      admits_of (attributeWireSize_eq_ok.1 hsize).1 rfl (fun _ => rfl) (UInt64.le_refl _)
    have hvalues : Sorted (holding values revision bytes).values := hs
    have hchanged : Sorted
        ({ base := revision, revision, snapshot := false, values := changed } : AttributeUpdate).values :=
      sorted_materialize hp hmat
    obtain ⟨count, hcharge, hle⟩ := AttributeReplica.charge_ok hvalues hchanged nofun (hafter changed hmat)
    refine ⟨count, ?_⟩
    rw [hagain, ok_bind, if_neg (by simp), AttributeReplica.store_ok hcharge hle]
    rfl

theorem agree_of_find (hl : Sorted l)
    (hkeys : l.map Prod.fst = m.map Prod.fst) (h : ∀ k, W k → find k l = find k m) : Agree W l m := by
  induction l generalizing m with
  | nil =>
    cases m with
    | nil => exact .nil
    | cons => simp at hkeys
  | cons e _ ih =>
    cases m with
    | nil => simp at hkeys
    | cons e' m =>
      have hm : Sorted (e' :: m) := sorted_of_keys (hkeys ▸ .refl _) hl
      have hl' := pairwise_cons.1 hl
      have hm' := pairwise_cons.1 hm
      simp only [map_cons, List.cons.injEq] at hkeys
      refine .cons ⟨hkeys.1, ?_⟩ (ih hl'.2 hkeys.2 ?_)
      · intro hW
        have hfind := h e.1 hW
        rw [find_cons, if_pos rfl, find_cons, if_pos hkeys.1] at hfind
        exact Option.some.inj hfind
      · intro k hW
        by_cases hk : k = e.1
        · -- the head's key is not in the tails
          subst hk
          rw [find_none_of_lt hl'.1, hkeys.1, find_none_of_lt hm'.1]
        · have hfind := h k hW
          rwa [find_cons, if_neg hk, find_cons, if_neg (hkeys.1 ▸ hk)] at hfind

/-- Two carriers the caller cannot tell apart by what it may write. -/
structure Alike (model model' : AttributeCarrier) (who : CallIdentity) (live : Bool) : Prop where
  schema : model'.schema = model.schema
  owner : model'.owner = model.owner
  revision : model'.revision = model.revision
  writable : ∀ name, model.mayWrite who live name = true →
    find name model.values = find name model'.values

section alike

variable {model model' : AttributeCarrier} {who : CallIdentity} {live : Bool}

theorem Alike.agree (h : Alike model model' who live) :
    Agree (fun name => model.mayWrite who live name = true) model.values model'.values := by
  apply agree_of_find model.sorted_values _ h.writable
  rw [model.keyed, model'.keyed, h.schema]

/-- Staging what agrees where the caller may write fails alike, or stages one and the same mutation. -/
theorem Alike.stage (h : Alike model model' who live) {l m : AttributeStruct}
    (hlm : Agree (fun name => model.mayWrite who live name = true) l m) :
    (∃ e, model.stage l who live = .error e ∧ model'.stage m who live = .error e) ∨
      (l = m ∧ model.stage l who live = .ok ⟨model.revision, l⟩ ∧ model'.stage m who live = .ok ⟨model.revision, l⟩ ∧
        ∀ e ∈ l, model.mayWrite who live e.1 = true) := by
  have hlen : l.length = m.length := hlm.length_eq
  unfold AttributeCarrier.stage
  rw [h.schema, h.owner, h.revision, ← hlen]
  by_cases hsize : l.length > model.schema.attributes.size
  · rw [refuseIf_of _ hsize]
    exact .inl ⟨_, rfl, rfl⟩
  rw [refuseIf_of_not _ hsize, ok_bind, ok_bind]
  cases hauth : authorized model.owner who live with
  | false => exact .inl ⟨_, rfl, rfl⟩
  | true =>
    rw [refuseIf_of_not _ (by simp), ok_bind, ok_bind]
    have hW : ∀ name d, model.schema.attributes.find name = some d → (accessOf d who.caller).writes = true →
        model.mayWrite who live name = true := by
      intro name d hd hw
      simp [mayWrite, hauth, hd, hw]
    rw [← stageValues_agree hW hlm]
    rcases hvalues : stageValues model.schema who.caller l with e | u
    · exact .inl ⟨e, rfl, rfl⟩
    right
    have hall : ∀ e ∈ l, model.mayWrite who live e.1 = true := by
      intro e he
      obtain ⟨d, hd, hw, -⟩ := stageValues_eq_ok.1 hvalues e he
      exact hW e.1 d hd hw
    obtain rfl := hlm.eq_of_forall hall
    exact ⟨rfl, rfl, rfl, hall⟩

theorem settleRoots_congr {candidate candidate' : AttributeStruct}
    (h : ∀ e ∈ roots, find e.1 candidate = find e.1 candidate') :
    settleRoots candidate roots = settleRoots candidate' roots := by
  induction roots with
  | nil => rfl
  | cons _ _ ih =>
    rw [forall_mem_cons] at h
    simp only [settleRoots, lookup, h.1, ih h.2]

theorem stage_congr (h : Alike model model' who live) (values : AttributeStruct) (relive : Bool) :
    model.stage values who relive = model'.stage values who relive := by
  unfold AttributeCarrier.stage
  rw [h.schema, h.owner, h.revision]

/-- The outcome of a proposal is decided by the schema, the owner, the revision
and the attributes the caller may write. -/
theorem stageAttributeProposal_congr (h : Alike model model' who live)
    (hp : Sorted proposal.values) (hl : WithinLimits model proposal) (hl' : WithinLimits model' proposal)
    (relive : Bool) :
    stageAttributeProposal model proposal who live relive = stageAttributeProposal model' proposal who live relive := by
  unfold stageAttributeProposal
  rw [h.revision]
  rcases hsize : attributeWireSize proposal with e | _
  · rfl
  rw [ok_bind, ok_bind]
  by_cases hstale : proposal.snapshot = true ∨ proposal.base ≠ model.revision ∨ proposal.revision ≠ proposal.base
  · rw [refuseIf_of _ hstale]
    rfl
  rw [refuseIf_of_not _ hstale, ok_bind, ok_bind]
  simp only [not_or, ne_eq, Bool.not_eq_true, not_not] at hstale
  obtain ⟨-, hbase, hrev⟩ := hstale
  by_cases hempty : proposal.patches.isEmpty = true
  · rw [if_pos hempty, if_pos hempty]
    exact stage_congr h _ _
  rw [if_neg hempty, if_neg hempty]
  have hpatches : proposal.patches.isEmpty = false := by simpa using hempty
  -- the roots fail alike, or agree where the caller may write
  rcases proposalRoots_agree h.agree proposal.patches (Agree.refl proposal.values) with
    ⟨e, he, he'⟩ | ⟨roots, _, hroots, hroots', hagree⟩
  · rw [he, he']
    rfl
  rw [hroots, hroots', ok_bind, ok_bind]
  rcases h.stage hagree with ⟨e, he, he'⟩ | ⟨rfl, hok, hok', hall⟩
  · rw [he, he']
    rfl
  rw [hok, hok', ok_bind, ok_bind]
  -- from here on every root is writable, so both models have the same values for it
  have hnames := (proposalRoots_eq_ok hp hroots).2
  have hsame : ∀ patch ∈ proposal.patches,
      find patch.property model.values = find patch.property model'.values := by
    intro patch hmem
    apply h.writable
    obtain ⟨v, hv⟩ := Option.isSome_iff_exists.1 ((hnames patch.property).2 (.inr ⟨patch, hmem, rfl⟩))
    exact hall _ (find_mem hv)
  have hacc := (attributeWireSize_eq_ok.1 hsize).1
  have hrev' : proposal.revision = model.revision := hrev.trans hbase
  have hbefore' : Accepted (imageOf model'.values model.revision) := h.revision ▸ accepted_of_encode hl'.before
  obtain ⟨bytes, hfresh⟩ := apply_fresh model.sorted_values (accepted_of_encode hl.before)
  obtain ⟨bytes', hfresh'⟩ := apply_fresh model'.sorted_values hbefore'
  obtain ⟨count, hcandidate⟩ := apply_candidate bytes model.sorted_values hp hacc hbase hrev' hpatches
    fun changed hc => accepted_of_encode (hl.after changed hc)
  obtain ⟨count', hcandidate'⟩ := apply_candidate bytes' model'.sorted_values hp hacc hbase hrev' hpatches
    fun changed hc => h.revision ▸ accepted_of_encode (hl'.after changed hc)
  rw [hfresh, hfresh']
  simp only [ok_bind]
  rw [hcandidate, hcandidate', ← materialize_congr hsame proposal.values]
  rcases hmat : materialize model.values proposal.patches proposal.values with e | changed
  · rfl
  simp only [ok_bind]
  rcases attributeWireSize { base := model.revision, revision := model.revision, snapshot := false, values := changed }
    with e | n
  · rfl
  simp only [ok_bind, pure_eq_ok]
  rw [refuseIf_of_not _ (by simp), ok_bind, ok_bind]
  have hsettle : settleRoots (overlay model.values changed) roots =
      settleRoots (overlay model'.values changed) roots := by
    apply settleRoots_congr
    intro e he
    have hchanged := sorted_materialize hp hmat
    rw [find_overlay hchanged, find_overlay hchanged, h.writable e.1 (hall e he)]
  have hvalues : (holding (overlay model.values changed) model.revision count).values =
      overlay model.values changed := rfl
  have hvalues' : (holding (overlay model'.values changed) model.revision count').values =
      overlay model'.values changed := rfl
  rw [hvalues, hvalues', hsettle]
  simp only [stage_congr h]

end alike

/-- A staged proposal names its roots alone, each writable by its caller and
valid, and publishing it leaves the others; what the caller may not write decides
neither whether it is staged nor what is. -/
theorem attribute_proposal_confined (model : AttributeCarrier) (proposal : { u : AttributeUpdate // UpdateOrdered u })
    (who : CallIdentity) (live relive : Bool) :
    (∀ mutation, stageAttributeProposal model proposal.1 who live relive = .ok mutation →
      Authorized model proposal.1 who live mutation) ∧
    ∀ model', Alike model model' who live → WithinLimits model proposal.1 → WithinLimits model' proposal.1 →
      stageAttributeProposal model proposal.1 who live relive =
        stageAttributeProposal model' proposal.1 who live relive := by
  constructor
  · intro _ h
    exact stageAttributeProposal_authorized proposal.2.sorted h
  · intro _ h hl hl'
    exact stageAttributeProposal_congr h proposal.2.sorted hl hl' relive

/-- A bag its owner may write, and a number clients may not see. -/
def bagSchema : EntitySchema where
  attributes :=
    ⟨[(ascii "bag", { type := .map, initial := .map [], client := .readWrite, maxItems := 4
                      element := some { type := .integer, initial := .integer 0 } }),
      (ascii "secret", { type := .integer, initial := .integer 0, client := .none, visibility := .none })], by
      simp only [Sorted, pairwise_cons, mem_singleton, forall_eq]
      decide⟩

def bagOwner : ConnectionRef := ⟨ascii "0123456789abcdef0123456789abcdef", 7⟩

def bagModel (secret : Int64) : AttributeCarrier where
  schema := bagSchema
  values := [(ascii "bag", .map []), (ascii "secret", .integer secret)]
  revision := 3
  owner := ascii "connection/0123456789abcdef0123456789abcdef/7"
  modified := [(ascii "bag", 3), (ascii "secret", 3)]
  keyed := rfl
  tracked := rfl

/-- One coin into the bag. -/
def bagProposal : { u : AttributeUpdate // UpdateOrdered u } :=
  ⟨{ base := 3, revision := 3, snapshot := false, values := []
     patches := [{ property := ascii "bag", map := true, key := ascii "coin", value := some (.integer 1) }] }, by
    refine ⟨sorted_nil, by simp, ?_⟩
    simp only [mem_singleton, forall_eq]
    exact ⟨by simp; exact .integer _, by simp⟩⟩

theorem attribute_proposal_confined_bag :
    (∃ mutation, stageAttributeProposal (bagModel 1) bagProposal.1 ⟨.client, [], 1, bagOwner⟩ true true = .ok mutation ∧
      Authorized (bagModel 1) bagProposal.1 ⟨.client, [], 1, bagOwner⟩ true mutation) ∧
    stageAttributeProposal (bagModel 1) bagProposal.1 ⟨.client, [], 1, bagOwner⟩ true true =
      stageAttributeProposal (bagModel 2) bagProposal.1 ⟨.client, [], 1, bagOwner⟩ true true := by
  have hconfined := attribute_proposal_confined (bagModel 1) bagProposal ⟨.client, [], 1, bagOwner⟩ true true
  refine ⟨?_, hconfined.2 (bagModel 2) ⟨rfl, rfl, rfl, ?_⟩ ⟨⟨_, rfl⟩, ?_⟩ ⟨⟨_, rfl⟩, ?_⟩⟩
  · have hok : (stageAttributeProposal (bagModel 1) bagProposal.1 ⟨.client, [], 1, bagOwner⟩ true true).isOk =
        true := by
      decide +kernel
    rcases hstage : stageAttributeProposal (bagModel 1) bagProposal.1 ⟨.client, [], 1, bagOwner⟩ true true with
      e | mutation
    · rw [hstage] at hok
      cases hok
    · exact ⟨mutation, rfl, hconfined.1 mutation hstage⟩
  · intro name hname
    by_cases hsecret : name = ascii "secret"
    · -- the one attribute they differ in is not the client's to write
      subst hsecret
      have hdenied : (bagModel 1).mayWrite ⟨.client, [], 1, bagOwner⟩ true (ascii "secret") = false := by decide +kernel
      rw [hdenied] at hname
      cases hname
    · simp only [bagModel, find_cons, if_neg hsecret]
  · rintro _ ⟨⟩
    exact ⟨_, rfl⟩
  · rintro _ ⟨⟩
    exact ⟨_, rfl⟩

end AttributeCarrier

end Fsnet
