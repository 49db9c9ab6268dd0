import Fsnet.Attributes.Applying
import Fsnet.Replication.State
/-!
# Subscribers follow the commits

The image remembered for a subscriber is the one its replica holds, and it has
the values of what the subscriber may see of the last commit. A commit that
changed nothing visible may be skipped: then the remembered revision falls
behind and the values still agree.
-/

namespace Fsnet

open Lib AttributeValue List

/-! ## Projections -/

/-- The part of an image a client may read. -/
def visibleValues (schema : EntitySchema) (owned observer : Bool) (values : AttributeStruct) : AttributeStruct :=
  values.filter fun e => (schema.attributes.find e.1).any (·.visible owned observer)

variable {schema : EntitySchema} {replica : AttributeReplica} {image : CommittedImage} {sub : Subscription}
  {standing : Standing} {s : Replication}

/-- The loop over the schema finds exactly the visible part of a full image. -/
theorem projectValues_eq {owned observer : Bool} {values : AttributeStruct}
    (hs : Entries.Sorted values) (l : List (Bytes × AttributeDefinition)) (m : AttributeStruct)
    (hl : l.Sublist schema.attributes.entries) (hm : m.Sublist values) (hkeys : m.map Prod.fst = l.map Prod.fst) :
    projectValues owned observer values l = .ok (visibleValues schema owned observer m) := by
  induction l generalizing m with
  | nil =>
    obtain rfl : m = [] := by simpa using hkeys
    rfl
  | cons e _ ih =>
    obtain ⟨_, d⟩ := e
    cases m with
    | nil => simp at hkeys
    | cons e' m =>
      obtain ⟨name', value⟩ := e'
      simp only [map_cons, List.cons.injEq] at hkeys
      obtain ⟨rfl, hkeys⟩ := hkeys
      have hrest := ih m ((sublist_cons_self _ _).trans hl) ((sublist_cons_self _ _).trans hm) hkeys
      have hd : schema.attributes.find name' = some d :=
        (schema.attributes.mem_entries_iff name' d).1 (hl.subset mem_cons_self)
      have hv : Entries.find name' values = some value := Entries.find_of_mem hs (hm.subset mem_cons_self)
      rw [projectValues, visibleValues]
      cases hvis : d.visible owned observer with
      | true =>
        rw [if_pos rfl, lookup_of_find hv, ok_bind, hrest, ok_bind, filter_cons_of_pos (by simp [hd, hvis])]
        rfl
      | false =>
        rw [if_neg (by simp), hrest, filter_cons_of_neg (by simp [hd, hvis])]
        rfl

theorem CommittedImage.project_eq {owned observer : Bool} (image : CommittedImage) (h : image.isOf schema) :
    projectValues owned observer image.values schema.attributes.entries =
      .ok (visibleValues schema owned observer image.values) :=
  projectValues_eq image.sorted _ _ (List.Sublist.refl _) (List.Sublist.refl _) h

/-- The key tells the owner and the observer bit apart: the length before the
owner says where it ends. -/
theorem Permission.key_inj {p q : Permission} (h : p.key = q.key) : p = q := by
  have hfree : ∀ n, (0x3a : UInt8) ∉ decimal n := by
    intro n hmem
    have := decimal_isDigit n _ hmem
    revert this
    decide
  obtain ⟨hlen, hrest⟩ := cut_inj (hfree _) (hfree _) h
  obtain ⟨howner, hflag⟩ := append_inj hrest (decimal_injective hlen)
  have hbit : p.observer = q.observer := by
    cases hp : p.observer <;> cases hq : q.observer <;> simp [hp, hq] at hflag ⊢
  cases p
  cases q
  simp_all

/-! ## One subscriber -/

/-- The updates applied to a new replica one after another, as long as each is taken. -/
def replay (updates : List AttributeUpdate) : Option AttributeReplica :=
  updates.foldlM (fun replica update =>
    match replica.apply update with
    | .ok (true, next) => some next
    | _ => none) {}

theorem replay_append {updates : List AttributeUpdate} {update : AttributeUpdate} {next : AttributeReplica}
    (h : replay updates = some replica) (ha : replica.apply update = .ok (true, next)) :
    replay (updates ++ [update]) = some next := by
  unfold replay at h ⊢
  rw [foldlM_append, h]
  simp [ha]

theorem replay_first {image : AttributeUpdate}
    (h : ({} : AttributeReplica).apply image = .ok (true, replica)) : replay [image] = some replica := by
  unfold replay
  simp [h]

/-- The subscriber is up to date with an image: its replica took every update,
it holds the remembered image, and that has the values visible to it. -/
structure Follows (schema : EntitySchema) (image : CommittedImage) (sent : List AttributeUpdate)
    (stood : Option Standing) (sub : Subscription) (view : Permission) (replica : AttributeReplica)
    (last : SnapshotImage) : Prop where
  replayed : replay sent = some replica
  permission : sub.permission = view.key
  /-- it may read by what was known of it when it was last visited -/
  standing : ∃ standing, stood = some standing ∧ sub.permissionOf standing = .ok view
  remembered : sub.last = last.update
  holds : replica.Holds last.update
  revision : last.update.revision ≤ image.revision
  values : canonEntries last.update.values =
    canonEntries (visibleValues schema (sub.owns view.owner) view.observer image.values)

theorem filtered_eq_ok (hof : image.isOf schema) {next : AttributeUpdate} {view : Permission}
    (h : sub.filtered standing schema image.revision image.values = .ok (next, view)) :
    sub.permissionOf standing = .ok view ∧
      next = imageOf (visibleValues schema (sub.owns view.owner) view.observer image.values) image.revision := by
  simp only [Subscription.filtered, bind_eq_ok, pure_ok_iff, Prod.mk.injEq] at h
  obtain ⟨_, hview, _, hvisible, rfl, rfl⟩ := h
  rw [image.project_eq hof] at hvisible
  cases hvisible
  exact ⟨hview, rfl⟩

/-- The visible part of an image that fits a record. -/
def visibleSnapshot (schema : EntitySchema) (owned observer : Bool) (image : CommittedImage)
    (h : Accepted (imageOf (visibleValues schema owned observer image.values) image.revision)) : SnapshotImage where
  update := imageOf (visibleValues schema owned observer image.values) image.revision
  snapshot := rfl
  ordered := ⟨image.sorted.sublist filter_sublist, fun e he => image.ordered e (mem_of_mem_filter he), nofun⟩
  accepted := ⟨_, encodeAttributes_eq_ok.2 ⟨h, rfl⟩⟩

theorem imageCount_eq_ok {image : AttributeUpdate} {n : Nat} (h : Replication.imageCount image = .ok n) :
    Accepted image := by
  simp only [Replication.imageCount, bind_eq_ok] at h
  obtain ⟨_, hsize, -⟩ := h
  exact (attributeWireSize_eq_ok.1 hsize).1

/-- The snapshot of a watch. -/
theorem firstImage_follows {watched : Subscription} {handle : Option UInt64} (hof : image.isOf schema)
    (h : s.firstImage sub schema image standing handle = .ok (some watched)) :
    watched.key = sub.key ∧
      ∃ view replica last, Follows schema image [watched.last] (some standing) watched view replica last := by
  simp only [Replication.firstImage, bind_eq_ok] at h
  obtain ⟨⟨_, view⟩, hfiltered, _, hcount, h⟩ := h
  obtain ⟨hview, rfl⟩ := filtered_eq_ok hof hfiltered
  have hacc := imageCount_eq_ok hcount
  split_ifs at h
  · cases h
  simp only [bind_eq_ok] at h
  obtain ⟨_, -, h⟩ := h
  cases handle with
  | none => cases h
  | some =>
    cases h
    have hsorted : Entries.Sorted (visibleValues schema (sub.owns view.owner) view.observer image.values) :=
      image.sorted.sublist filter_sublist
    obtain ⟨n, happly⟩ := AttributeReplica.apply_fresh hsorted hacc
    refine ⟨rfl, view, _, visibleSnapshot schema (sub.owns view.owner) view.observer image hacc,
      replay_first happly, rfl,
      ⟨standing, rfl, hview⟩, rfl,
        ⟨rfl, rfl, ?_, hsorted, fun e he => image.ordered e (mem_of_mem_filter he)⟩, UInt64.le_refl _, rfl⟩
    exact (sameEntries_image (visibleSnapshot schema (sub.owns view.owner) view.observer image hacc)).2 rfl

theorem firstImage_pending {watched : Subscription} {handle : Option UInt64}
    (h : s.firstImage sub schema image standing handle = .ok (some watched)) : watched.pending = false := by
  simp only [Replication.firstImage, bind_eq_ok] at h
  obtain ⟨_, -, _, -, h⟩ := h
  split_ifs at h
  · cases h
  simp only [bind_eq_ok] at h
  obtain ⟨_, -, h⟩ := h
  cases handle with
  | none => cases h
  | some =>
    cases h
    rfl

/-- Nothing of what is visible changed, so the values of both images are the same. -/
theorem canon_of_empty {last : SnapshotImage} {next delta : AttributeUpdate} (hs : Entries.Sorted next.values)
    (hf : ∀ e ∈ next.values, e.2.Finite) (h : attributeDelta last.update next = .ok delta)
    (hsnap : delta.snapshot = false) (hvalues : delta.values = []) (hpatches : delta.patches = []) :
    canonEntries last.update.values = canonEntries next.values := by
  obtain ⟨hkeys, hsame⟩ := attributeDelta_empty h hsnap hvalues hpatches
  apply canonEntries_ext last.sorted hs
  intro k
  cases hk : Entries.find k next.values with
  | some =>
    have hmem := Entries.find_mem hk
    obtain ⟨_, hold, hc⟩ := changed_eq_false (hf _ hmem) (hsame _ hmem)
    rw [hold]
    simp [hc]
  | none =>
    cases hl : Entries.find k last.update.values with
    | none => rfl
    | some =>
      have := hkeys _ (Entries.find_mem hl)
      rw [contains, hk] at this
      cases this

/-- One commit for a subscriber that followed the one before. -/
theorem nextImage_follows {old : CommittedImage}
    {standing : CommitStanding} {outcome : Replication.Outcome} {sent : List AttributeUpdate} {view : Permission}
    {stood : Option Standing} {last : SnapshotImage} (hf : Follows schema old sent stood sub view replica last)
    (hrev : old.revision ≤ image.revision) (hof : image.isOf schema)
    (h : s.nextImage sub schema image standing = .ok outcome) :
    match outcome with
    | .skip => Follows schema image sent (some standing.toStanding) sub view replica last
    | .drop => True
    | .send sub' update => sub'.key = sub.key ∧ sub'.pending = sub.pending ∧
        ∃ replica' last',
          Follows schema image (sent ++ [update]) (some standing.toStanding) sub' view replica' last' := by
  unfold Replication.nextImage at h
  by_cases hhandle : standing.handle ≠ some sub.generation
  · rw [if_pos hhandle] at h
    cases h
    trivial
  simp only [if_neg hhandle, bind_eq_ok] at h
  obtain ⟨⟨_, view'⟩, hfiltered, h⟩ := h
  obtain ⟨hview, rfl⟩ := filtered_eq_ok hof hfiltered
  by_cases hkey : view'.key ≠ sub.permission
  · rw [if_pos hkey] at h
    cases h
    trivial
  -- the permission is the one of the snapshot, so the same attributes are visible
  obtain rfl : view' = view := Permission.key_inj (by rw [← hf.permission]; simpa using hkey)
  simp only [if_neg hkey, bind_eq_ok] at h
  obtain ⟨update, hdelta, h⟩ := h
  rw [hf.remembered] at hdelta h
  rw [imageOf_revision] at h
  have hle : last.update.revision ≤ image.revision := UInt64.le_trans hf.revision hrev
  have hsorted : Entries.Sorted (visibleValues schema (sub.owns view'.owner) view'.observer image.values) :=
    image.sorted.sublist filter_sublist
  by_cases hempty : update.snapshot = false ∧ update.values.isEmpty ∧ update.patches.isEmpty ∧
      (image.revision = last.update.revision ∨ sub.owns standing.owner = false)
  · rw [if_pos hempty] at h
    cases h
    obtain ⟨hsnap, hvalues, hpatches, -⟩ := hempty
    refine ⟨hf.replayed, hf.permission, ⟨_, rfl, hview⟩, hf.remembered, hf.holds, hle, ?_⟩
    exact canon_of_empty hsorted (fun e he => image.finite e (mem_of_mem_filter he)) hdelta hsnap
      (List.isEmpty_iff.1 hvalues) (List.isEmpty_iff.1 hpatches)
  rw [if_neg hempty] at h
  simp only [bind_eq_ok] at h
  obtain ⟨count, hcount, h⟩ := h
  by_cases hbytes : count > s.limits.imageBytes - s.bytes + sub.bytes
  · rw [if_pos hbytes] at h
    cases h
    trivial
  simp only [if_neg hbytes, bind_eq_ok] at h
  obtain ⟨_, -, h⟩ := h
  split_ifs at h with hnotified
  · cases h
    trivial
  cases h
  -- the image was measured before it was sent, so it is a snapshot the delta leads to
  have hacc := imageCount_eq_ok hcount
  obtain ⟨delta, hdelta', hreach⟩ := attributeDelta_reaches last
    (visibleSnapshot schema (sub.owns view'.owner) view'.observer image hacc) hle
  obtain rfl : update = delta := by
    have := hdelta.symm.trans hdelta'
    cases this
    rfl
  obtain ⟨replica', happly, hholds⟩ := hreach.apply hf.holds hle
  exact ⟨rfl, rfl, replica', visibleSnapshot schema (sub.owns view'.owner) view'.observer image hacc,
    replay_append hf.replayed happly, rfl, ⟨_, rfl, hview⟩, rfl, hholds, UInt64.le_refl _, rfl⟩

/-! ## All subscribers -/

namespace Replication

variable {schema : EntitySchema} {image : CommittedImage} {s s' : Replication} {ids : List Nat} {id : Nat}
  {sub : Subscription}

/-- The subscriber follows some image that came no later than `image`. -/
def Behind (schema : EntitySchema) (image : CommittedImage) (s : Replication) (id : Nat) (sub : Subscription) : Prop :=
  ∃ old view replica last, old.revision ≤ image.revision ∧
    Follows schema old (s.sent id) (s.stood id) sub view replica last

/-- The subscriber follows `image` itself. -/
def Current (schema : EntitySchema) (image : CommittedImage) (s : Replication) (id : Nat) (sub : Subscription) : Prop :=
  ∃ view replica last, Follows schema image (s.sent id) (s.stood id) sub view replica last

theorem Current.behind (h : Current schema image s id sub) : Behind schema image s id sub := by
  obtain ⟨view, replica, last, h⟩ := h
  exact ⟨image, view, replica, last, UInt64.le_refl _, h⟩

/-- Nothing was sent under a number that is not taken or still waits. -/
structure Numbered (s : Replication) : Prop where
  waiting : ∀ id sub, s.subscriptions.find id = some sub → sub.pending = true → s.sent id = []
  known : ∀ id sub, s.subscriptions.find id = some sub → id ≤ s.serial
  unused : ∀ id, s.serial < id → s.sent id = []

structure Inv (s : Replication) : Prop extends Numbered s where
  live : ∀ id sub, s.subscriptions.find id = some sub → sub.pending = false →
    ∃ schema image, s.schemas sub.key.type = some schema ∧ s.images sub.key = some image ∧ image.isOf schema ∧
      Current schema image s id sub
  imaged : ∀ key image, s.images key = some image → ∃ schema, s.schemas key.type = some schema ∧ image.isOf schema

/-- At most the subscribers in `ids` are touched. One may be gone, and one that
is there still is for its entity; while it is pending nothing was sent to it. -/
structure Touches (s : Replication) (ids : List Nat) (s' : Replication) : Prop where
  schemas : s'.schemas = s.schemas
  images : s'.images = s.images
  serial : s'.serial = s.serial
  others : ∀ j, j ∉ ids →
    s'.subscriptions.find j = s.subscriptions.find j ∧ s'.sent j = s.sent j ∧ s'.stood j = s.stood j
  stays : ∀ j sub', s'.subscriptions.find j = some sub' → ∃ sub, s.subscriptions.find j = some sub ∧
    sub'.key = sub.key ∧ (sub'.pending = true → sub = sub' ∧ s'.sent j = s.sent j)
  unsent : ∀ j, s.subscriptions.find j = none → s'.sent j = s.sent j

theorem touches_refl (s : Replication) (ids : List Nat) : Touches s ids s :=
  ⟨rfl, rfl, rfl, fun _ _ => ⟨rfl, rfl, rfl⟩, fun _ sub h => ⟨sub, h, rfl, fun _ => ⟨rfl, rfl⟩⟩, fun _ _ => rfl⟩

theorem Touches.trans {s'' : Replication} {ids' : List Nat} (h : Touches s ids s') (h' : Touches s' ids' s'') :
    Touches s (ids ++ ids') s'' where
  schemas := h'.schemas.trans h.schemas
  images := h'.images.trans h.images
  serial := h'.serial.trans h.serial
  others j hj := by
    rw [mem_append, not_or] at hj
    obtain ⟨hfind, hsent, hstood⟩ := h.others j hj.1
    obtain ⟨hfind', hsent', hstood'⟩ := h'.others j hj.2
    exact ⟨hfind'.trans hfind, hsent'.trans hsent, hstood'.trans hstood⟩
  stays j sub'' hsub'' := by
    obtain ⟨sub', hsub', hkey', hpending'⟩ := h'.stays j sub'' hsub''
    obtain ⟨sub, hsub, hkey, hpending⟩ := h.stays j sub' hsub'
    refine ⟨sub, hsub, hkey'.trans hkey, ?_⟩
    intro hp
    obtain ⟨rfl, hsent'⟩ := hpending' hp
    obtain ⟨rfl, hsent⟩ := hpending hp
    exact ⟨rfl, hsent'.trans hsent⟩
  unsent j hj := by
    have hnone : s'.subscriptions.find j = none := by
      cases hs : s'.subscriptions.find j with
      | none => rfl
      | some sub' =>
        obtain ⟨_, hsub, -⟩ := h.stays j sub' hs
        rw [hj] at hsub
        cases hsub
    exact (h'.unsent j hnone).trans (h.unsent j hj)

theorem touches_remove (s : Replication) (id : Nat) :
    Touches s [id] (s.remove id) ∧ (s.remove id).subscriptions.find id = none := by
  unfold remove
  split
  next hnone => exact ⟨touches_refl s [id], hnone⟩
  next sub hsub =>
    refine ⟨⟨rfl, rfl, rfl, fun j hj => ⟨?_, rfl, rfl⟩, ?_, fun _ _ => rfl⟩, OrdMap.find_erase_self _ _⟩
    · exact OrdMap.find_erase_ne _ (by simpa using hj)
    · intro j sub' hsub'
      exact ⟨sub', OrdMap.find_of_erase hsub', rfl, fun _ => ⟨rfl, rfl⟩⟩

theorem touches_visit (s : Replication) (id : Nat) (standing : Standing) :
    Touches s [id] (s.visit id standing) ∧ (s.visit id standing).stood id = some standing :=
  ⟨{ touches_refl s [id] with others := fun _ hj => ⟨rfl, rfl, if_neg (by simpa using hj)⟩ }, if_pos rfl⟩

theorem touches_remember {sub' : Subscription}
    (hsub : s.subscriptions.find id = some sub) (hkey : sub'.key = sub.key) (hp : sub'.pending = false)
    (update : AttributeUpdate) (standing : Standing) :
    Touches s [id] (s.remember id sub' update standing) ∧
      (s.remember id sub' update standing).subscriptions.find id = some sub' ∧
      (s.remember id sub' update standing).sent id = s.sent id ++ [update] ∧
      (s.remember id sub' update standing).stood id = some standing := by
  have hself : (s.remember id sub' update standing).subscriptions.find id = some sub' := OrdMap.find_insert_self _ _ _
  refine ⟨⟨rfl, rfl, rfl, fun j hj => ⟨?_, ?_, ?_⟩, ?_, ?_⟩, hself, if_pos rfl, if_pos rfl⟩
  · exact OrdMap.find_insert_ne _ _ (by simpa using hj)
  · exact if_neg (by simpa using hj)
  · exact if_neg (by simpa using hj)
  · intro j sub'' hsub''
    by_cases hj : j = id
    · subst hj
      rw [hself] at hsub''
      cases hsub''
      refine ⟨sub, hsub, hkey, fun hpending => ?_⟩
      rw [hp] at hpending
      cases hpending
    · have hfind : (s.remember id sub' update standing).subscriptions.find j = s.subscriptions.find j :=
        OrdMap.find_insert_ne _ _ hj
      rw [hfind] at hsub''
      exact ⟨sub'', hsub'', rfl, fun _ => ⟨rfl, if_neg hj⟩⟩
  · intro j hnone
    apply if_neg
    rintro rfl
    rw [hsub] at hnone
    cases hnone

/-- A commit brings a subscriber that was behind up to date, or ends its subscription. -/
theorem commitOne_spec (standing : Nat → CommitStanding) (hof : image.isOf schema)
    (h : ∀ sub, s.subscriptions.find id = some sub → sub.pending = false → Behind schema image s id sub) :
    Touches s [id] (commitOne schema image standing s id) ∧
      ∀ sub, (commitOne schema image standing s id).subscriptions.find id = some sub → sub.pending = false →
        Current schema image (commitOne schema image standing s id) id sub := by
  have hgone : Touches s [id] (s.remove id) ∧ ∀ sub, (s.remove id).subscriptions.find id = some sub →
      sub.pending = false → Current schema image (s.remove id) id sub := by
    refine ⟨(touches_remove s id).1, ?_⟩
    intro sub hsub
    rw [(touches_remove s id).2] at hsub
    cases hsub
  unfold commitOne
  cases hsub : s.subscriptions.find id with
  | none =>
    refine ⟨touches_refl s [id], ?_⟩
    intro sub hsome
    rw [hsub] at hsome
    cases hsome
  | some sub =>
    simp only
    split_ifs with hpending hexpired
    · refine ⟨touches_refl s [id], ?_⟩
      intro sub' hsub' hp
      rw [hsub] at hsub'
      cases hsub'
      rw [hpending] at hp
      cases hp
    · exact hgone
    obtain ⟨_, view, replica, last, hrev, hfollows⟩ := h sub hsub (by simpa using hpending)
    cases hnext : s.nextImage sub schema image (standing id) with
    | error => exact hgone
    | ok outcome =>
      have hstep := nextImage_follows hfollows hrev hof hnext
      cases outcome with
      | drop => exact hgone
      | skip =>
        obtain ⟨htouches, hstood⟩ := touches_visit s id (standing id).toStanding
        refine ⟨htouches, ?_⟩
        intro sub' hsub' _
        cases hsub.symm.trans hsub'
        exact ⟨view, replica, last, hstood ▸ hstep⟩
      | send _ update =>
        obtain ⟨hkey, hp, replica', last', hstep⟩ := hstep
        rw [Bool.not_eq_true] at hpending
        obtain ⟨htouches, hself, hsent, hstood⟩ :=
          touches_remember hsub hkey (hp.trans hpending) update (standing id).toStanding
        refine ⟨htouches, ?_⟩
        intro _ hsub'' _
        simp only at hsub'' ⊢
        rw [hself] at hsub''
        cases hsub''
        rw [Current, hsent, hstood]
        exact ⟨view, replica', last', hstep⟩

/-- After the loop every visited subscriber that is still there is up to date. -/
theorem commitAll_spec (standing : Nat → CommitStanding) (hof : image.isOf schema) (order : List Nat)
    (h : ∀ id ∈ order, ∀ sub, s.subscriptions.find id = some sub → sub.pending = false →
      Behind schema image s id sub) :
    Touches s order (order.foldl (commitOne schema image standing) s) ∧
      ∀ id ∈ order, ∀ sub, (order.foldl (commitOne schema image standing) s).subscriptions.find id = some sub →
        sub.pending = false → Current schema image (order.foldl (commitOne schema image standing) s) id sub := by
  induction order generalizing s with
  | nil => exact ⟨touches_refl s [], by simp⟩
  | cons id rest ih =>
    rw [forall_mem_cons] at h
    obtain ⟨htouches, hcurrent⟩ := commitOne_spec standing hof h.1
    rw [foldl_cons]
    have hbehind : ∀ j ∈ id :: rest, ∀ sub, (commitOne schema image standing s id).subscriptions.find j = some sub →
        sub.pending = false → Behind schema image (commitOne schema image standing s id) j sub := by
      intro j hj sub hsub hp
      by_cases hji : j = id
      · subst hji
        exact (hcurrent sub hsub hp).behind
      obtain ⟨hfind, hsent, hstood⟩ := htouches.others j (by simpa using hji)
      rw [hfind] at hsub
      rw [Behind, hsent, hstood]
      exact h.2 j (by simpa [hji] using hj) sub hsub hp
    obtain ⟨htouches', hcurrent'⟩ := ih fun j hj => hbehind j (mem_cons_of_mem _ hj)
    refine ⟨htouches.trans htouches', ?_⟩
    intro j hj sub hsub hp
    by_cases hrest : j ∈ rest
    · exact hcurrent' j hrest sub hsub hp
    -- visited first and not again
    obtain rfl : j = id := by simpa [hrest] using hj
    obtain ⟨hfind, hsent, hstood⟩ := htouches'.others j hrest
    rw [hfind] at hsub
    rw [Current, hsent, hstood]
    exact hcurrent sub hsub hp

theorem Touches.numbered (h : Touches s ids s') (hs : Numbered s) : Numbered s' := by
  refine ⟨?_, ?_, ?_⟩
  · intro id sub' hsub' hp
    obtain ⟨sub, hsub, -, hpending⟩ := h.stays id sub' hsub'
    obtain ⟨rfl, hsent⟩ := hpending hp
    rw [hsent]
    exact hs.waiting id sub hsub hp
  · intro id sub' hsub'
    obtain ⟨sub, hsub, -⟩ := h.stays id sub' hsub'
    rw [h.serial]
    exact hs.known id sub hsub
  · intro id hid
    rw [h.serial] at hid
    have hnone : s.subscriptions.find id = none := by
      cases hsub : s.subscriptions.find id with
      | none => rfl
      | some sub => exact absurd (hs.known id sub hsub) (by omega)
    rw [h.unsent id hnone]
    exact hs.unused id hid

theorem Touches.inv (h : Touches s ids s') (hs : Inv s)
    (hids : ∀ id ∈ ids, ∀ sub, s'.subscriptions.find id = some sub → sub.pending = false →
      ∃ schema image, s'.schemas sub.key.type = some schema ∧ s'.images sub.key = some image ∧ image.isOf schema ∧
        Current schema image s' id sub) : Inv s' := by
  refine ⟨h.numbered hs.toNumbered, ?_, ?_⟩
  · intro id sub hsub hp
    by_cases hid : id ∈ ids
    · exact hids id hid sub hsub hp
    obtain ⟨hfind, hsent, hstood⟩ := h.others id hid
    rw [hfind] at hsub
    simp only [Current, hsent, hstood, h.schemas, h.images]
    exact hs.live id sub hsub hp
  · intro key image himage
    rw [h.images] at himage
    rw [h.schemas]
    exact hs.imaged key image himage

theorem inv_remove (hs : Inv s) (id : Nat) : Inv (s.remove id) := by
  obtain ⟨htouches, hgone⟩ := touches_remove s id
  apply htouches.inv hs
  intro j hj _ hsub
  obtain rfl : j = id := by simpa using hj
  rw [hgone] at hsub
  cases hsub

theorem inv_watch (hs : Inv s) (identity : CallIdentity) (key : EntityKey) (automatic : Bool) :
    Inv (s.watch identity key automatic) := by
  unfold watch
  split_ifs
  · exact hs
  · exact hs
  · exact hs
  -- the new subscription waits, with nothing sent under its number
  have hfind : ∀ id sub, (s.subscriptions.insert (s.serial + 1) { identity, key, automatic }).find id = some sub →
      (id = s.serial + 1 ∧ sub.pending = true) ∨ (id ≤ s.serial ∧ s.subscriptions.find id = some sub) := by
    intro id sub hsub
    rcases OrdMap.find_of_insert hsub with ⟨hid, rfl⟩ | ⟨-, hsub⟩
    · exact .inl ⟨hid, rfl⟩
    · exact .inr ⟨hs.known id sub hsub, hsub⟩
  refine ⟨⟨?_, ?_, ?_⟩, ?_, hs.imaged⟩
  · intro id sub hsub hp
    rcases hfind id sub hsub with ⟨rfl, -⟩ | ⟨-, hold⟩
    · exact hs.unused _ (Nat.lt_succ_self _)
    · exact hs.waiting id sub hold hp
  · intro id sub hsub
    rcases hfind id sub hsub with ⟨rfl, -⟩ | ⟨hle, -⟩
    · exact le_refl _
    · exact Nat.le_succ_of_le hle
  · intro id hid
    exact hs.unused id (Nat.lt_of_succ_lt hid)
  · intro id sub hsub hp
    rcases hfind id sub hsub with ⟨-, hpending⟩ | ⟨-, hold⟩
    · rw [hpending] at hp
      cases hp
    · exact hs.live id sub hold hp

theorem inv_answered (hs : Inv s) (id : Nat) (ok : Bool) (standing : Standing)
    (handle : Option UInt64) : Inv (s.answered id ok standing handle) := by
  unfold answered
  cases hsub : s.subscriptions.find id with
  | none => exact hs
  | some sub =>
    by_cases hpending : sub.pending = false
    · simp only [if_pos hpending]
      exact hs
    simp only [if_neg hpending]
    split
    next schema image hschema himage =>
      split_ifs
      · exact inv_remove hs id
      split
      next watched hwatched =>
        obtain ⟨schema', hschema', hof⟩ := hs.imaged _ _ himage
        obtain rfl : schema = schema' := Option.some.inj (hschema.symm.trans hschema')
        obtain ⟨hkey, hfollows⟩ := firstImage_follows hof hwatched
        have hlive : watched.pending = false := firstImage_pending hwatched
        obtain ⟨htouches, hself, hsent, hstood⟩ := touches_remember hsub hkey hlive watched.last standing
        apply htouches.inv hs
        intro j hj _ hsub' _
        obtain rfl : j = id := by simpa using hj
        rw [hself] at hsub'
        cases hsub'
        rw [hs.waiting j sub hsub (by simpa using hpending), nil_append] at hsent
        rw [htouches.schemas, htouches.images, hkey]
        refine ⟨schema, image, hschema, himage, hof, ?_⟩
        rw [Current, hsent, hstood]
        exact hfollows
      next => exact inv_remove hs id
    next => exact inv_remove hs id

theorem mem_interested {key : EntityKey} :
    id ∈ s.interested key ↔ ∃ sub, s.subscriptions.find id = some sub ∧ sub.key = key := by
  simp [interested, OrdMap.mem_entries_iff]

theorem inv_committed (hs : Inv s) (key : EntityKey) (image : CommittedImage) (order : List Nat)
    (standing : Nat → CommitStanding) : Inv (s.committed key image order standing) := by
  unfold committed
  split
  next => exact hs
  next schema hschema =>
    split_ifs with hguard
    swap
    · exact hs
    obtain ⟨hof, hfollows, hperm⟩ := hguard
    have horder : ∀ id, id ∈ order ↔ ∃ sub, s.subscriptions.find id = some sub ∧ sub.key = key := by
      intro id
      rw [(isPerm_iff.1 hperm).mem_iff, mem_interested]
    have hbehind : ∀ id ∈ order, ∀ sub, s.subscriptions.find id = some sub → sub.pending = false →
        Behind schema image s id sub := by
      intro id hid sub hsub hp
      obtain ⟨sub', hsub', rfl⟩ := (horder id).1 hid
      obtain rfl : sub' = sub := Option.some.inj (hsub'.symm.trans hsub)
      obtain ⟨schema', old, hschema', hold, -, view, replica, last, hcurrent⟩ := hs.live id _ hsub hp
      obtain rfl : schema = schema' := Option.some.inj (hschema.symm.trans hschema')
      refine ⟨old, view, replica, last, ?_, hcurrent⟩
      simpa [follows, hold] using hfollows
    obtain ⟨htouches, hcurrent⟩ := commitAll_spec standing hof order
      (s := { s with images := fun k => if k = key then some image else s.images k }) hbehind
    refine ⟨htouches.numbered ⟨hs.waiting, hs.known, hs.unused⟩, ?_, ?_⟩
    · intro id sub' hsub' hp
      rw [htouches.schemas, htouches.images]
      obtain ⟨_, hsub, hkey, -⟩ := htouches.stays id sub' hsub'
      by_cases hid : id ∈ order
      · obtain ⟨_, hsub₀, rfl⟩ := (horder id).1 hid
        cases hsub₀.symm.trans hsub
        rw [hkey]
        exact ⟨schema, image, hschema, if_pos rfl, hof, hcurrent id hid sub' hsub' hp⟩
      -- subscribers of other entities
      obtain ⟨hfind, hsent, hstood⟩ := htouches.others id hid
      rw [hfind] at hsub'
      have hother : sub'.key ≠ key := fun hk => hid ((horder id).2 ⟨sub', hsub', hk⟩)
      simp only [Current, hsent, hstood, if_neg hother]
      exact hs.live id sub' hsub' hp
    · intro k image' himage'
      rw [htouches.images] at himage'
      rw [htouches.schemas]
      simp only at himage'
      split_ifs at himage' with hk
      · cases himage'
        subst hk
        exact ⟨schema, hschema, hof⟩
      · exact hs.imaged k image' himage'

theorem inv_step (hs : Inv s) (a : ReplicationAction) : Inv (s.step a) := by
  cases a with
  | watch identity key automatic => exact inv_watch hs identity key automatic
  | answered id ok standing handle => exact inv_answered hs id ok standing handle
  | committed key image order standing => exact inv_committed hs key image order standing
  | ended id => exact inv_remove hs id
  | stop => exact ⟨⟨nofun, nofun, hs.unused⟩, nofun, hs.imaged⟩

theorem inv_init (limits : ReplicationLimits) (schemas : Bytes → Option EntitySchema) : Inv (init limits schemas) :=
  ⟨⟨nofun, nofun, fun _ _ => rfl⟩, nofun, nofun⟩

/-- The replica of every live subscription took the snapshot and every update
sent since, and it has the values of the last commit for exactly the attributes
the subscriber may read by what was known of it when it was last visited,
whichever commits were skipped. -/
theorem subscriber_follows_commits (limits : ReplicationLimits) (schemas : Bytes → Option EntitySchema)
    (actions : List ReplicationAction) (id : Nat) (sub : Subscription)
    (hsub : (run step (init limits schemas) actions).subscriptions.find id = some sub) (hlive : sub.pending = false) :
    ∃ schema image standing, ∃ view : Permission, ∃ replica,
      (run step (init limits schemas) actions).schemas sub.key.type = some schema ∧
      (run step (init limits schemas) actions).images sub.key = some image ∧ image.isOf schema ∧
      (run step (init limits schemas) actions).stood id = some standing ∧ sub.permissionOf standing = .ok view ∧
      sub.permission = view.key ∧ replay ((run step (init limits schemas) actions).sent id) = some replica ∧
      sameEntries replica.values (visibleValues schema (sub.owns view.owner) view.observer image.values) = true := by
  have hinv : Inv (run step (init limits schemas) actions) :=
    run_inv (I := Inv) (fun _ a h => inv_step h a) (inv_init limits schemas) actions
  obtain ⟨schema, image, hschema, himage, hof, view, replica, _, hfollows⟩ := hinv.live id sub hsub hlive
  obtain ⟨standing, hstood, hview⟩ := hfollows.standing
  refine ⟨schema, image, standing, view, replica, hschema, himage, hof, hstood, hview, hfollows.permission,
    hfollows.replayed, ?_⟩
  have hcanon := hfollows.holds.canon_eq.trans hfollows.values
  refine (sameEntries_iff ?_).2 hcanon
  intro e _ e' he'
  exact same_iff (image.finite e' (mem_of_mem_filter he'))

/-- A score everyone may watch and a number kept from clients. -/
def scoreSchema : EntitySchema where
  attributes :=
    ⟨[(ascii "score", { type := .integer, initial := .integer 0, visibility := .observers }),
      (ascii "secret", { type := .integer, initial := .integer 0, client := .none, visibility := .none })], by
      simp only [Entries.Sorted, pairwise_cons, mem_singleton, forall_eq]
      decide⟩

def scoreImage (revision : UInt64) (score secret : Int64) : CommittedImage where
  revision
  values := [(ascii "score", .integer score), (ascii "secret", .integer secret)]
  sorted := pairwise_pair.2 (show ascii "score" < ascii "secret" by decide)
  ordered := by simp [Ordered.integer]
  finite := by simp [Finite.integer]

def scoreKey : EntityKey := ⟨ascii "Match", ascii "00000000000000aa"⟩

def scoreWatcher : CallIdentity := ⟨.client, ascii "guest", 4, .none⟩

/-- Seen by the observer callback, and everything else in order. -/
def scoreStanding : CommitStanding := ⟨⟨true, [], true⟩, false, some 1, true⟩

/-- Two commits after the watch: the score rises, then only the number changes. -/
def scoreActions : List ReplicationAction :=
  [.committed scoreKey (scoreImage 1 5 0) [] fun _ => scoreStanding, .watch scoreWatcher scoreKey false,
    .answered 1 true scoreStanding.toStanding (some 1),
    .committed scoreKey (scoreImage 2 6 0) [1] fun _ => scoreStanding,
    .committed scoreKey (scoreImage 3 6 1) [1] fun _ => scoreStanding]

def scoreRun : Replication :=
  run step (init ⟨8, 8, 1000000⟩ fun type => if type = ascii "Match" then some scoreSchema else none) scoreActions

theorem subscriber_follows_commits_score :
    (scoreRun.sent 1).length = 2 ∧
      ∃ schema image replica, scoreRun.schemas scoreKey.type = some schema ∧ scoreRun.images scoreKey = some image ∧
        image.isOf schema ∧ replay (scoreRun.sent 1) = some replica ∧
        sameEntries replica.values (visibleValues schema false true image.values) = true := by
  refine ⟨by decide +kernel, ?_⟩
  have hlive : ((scoreRun.subscriptions.find 1).map fun sub => (sub.pending, sub.key, sub.identity)) =
      some (false, scoreKey, scoreWatcher) := by decide +kernel
  obtain ⟨sub, hsub, hfields⟩ := Option.map_eq_some_iff.1 hlive
  simp only [Prod.mk.injEq] at hfields
  obtain ⟨hpending, hkey, hidentity⟩ := hfields
  obtain ⟨schema, image, standing, view, replica, hschema, himage, hof, hstood, hview, -, hreplay, hsame⟩ :=
    subscriber_follows_commits _ _ scoreActions 1 sub hsub hpending
  have hobserved : (scoreRun.stood 1).map (·.observed) = some true := by decide +kernel
  have hsees : standing.observed = true := by
    change scoreRun.stood 1 = some standing at hstood
    rw [hstood] at hobserved
    exact Option.some.inj hobserved
  have hobserver : view.observer = true := by
    simp only [Subscription.permissionOf, bind_eq_ok, pure_ok_iff] at hview
    obtain ⟨_, -, _, -, rfl⟩ := hview
    rw [hsees, Bool.true_or]
  have howns : sub.owns view.owner = false := by
    simp [Subscription.owns, CallIdentity.owns, hidentity, scoreWatcher, ConnectionRef.matchesKey, ConnectionRef.valid,
      ConnectionRef.none]
  rw [hkey] at hschema himage
  rw [howns, hobserver] at hsame
  exact ⟨schema, image, replica, hschema, himage, hof, hreplay, hsame⟩

end Replication

end Fsnet
