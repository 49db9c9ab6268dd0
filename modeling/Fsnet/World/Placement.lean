import Fsnet.World.Requests
/-!
# Placement and handoffs

A record is placed on a node by its creation or by a handoff, and only hosts of
that node lease or commit it. A handoff leaves a ticket in the record: the
version it replaced. No two handoffs of an entity have the same one.
-/

namespace Fsnet

open Lib List

variable {hash : Bytes → Bytes} {limits : HostId → RuntimeLimits} {host : HostId} {k : EntityKey} {j : Job}
  {T : List Event} {e : Event} {id : Bytes} {old new c : Cell StoredRecord} {value : StoredRecord} {w : World}

/-- The commit of a handoff. -/
def Event.HandsOff (id : Bytes) : Event → Prop
  | .committed _ k j _ _ => k.id = id ∧ j.request.handoffTarget ≠ []
  | _ => False

/-- What the placement of entities comes down to. -/
structure Placed (w : World) : Prop where
  /-- A leased record is placed on the node of its owner, or nowhere. -/
  owned : ∀ id cell, (w.entities id).get = some cell → cell.value.val.owner ≠ [] → cell.value.val.placement ≠ [] →
    entityNodeMatches cell.value.val.owner cell.value.val.placement = true
  /-- After a handoff, and before the next one, only hosts of its target commit. -/
  exclusive : ∀ newer between earlier host k job old new host' k' job' old' new',
    w.trace = newer ++ .committed host' k' job' old' new' :: (between ++ .committed host k job old new :: earlier) →
    k'.id = k.id → job.request.handoffTarget ≠ [] → (∀ e ∈ between, ¬e.HandsOff k.id) →
    entityNodeMatches host'.owner job.request.handoffTarget = true
  /-- An acceptance that succeeded was committed, over a record with its ticket. -/
  accepted : ∀ host k job result, .host host (.replied k job result) ∈ w.trace → job.request.acceptTransfer ≠ 0 →
    result.status = .ok → ∃ job' old new, .committed host k job' old new ∈ w.trace ∧ job'.serial = job.serial ∧
      job'.request.acceptTransfer = job.request.acceptTransfer
  ticket : ∀ host k job old new, .committed host k job old new ∈ w.trace → job.request.acceptTransfer ≠ 0 →
    old.value.val.transferId = job.request.acceptTransfer
  /-- After the next handoff the ticket of a handoff is of no use. -/
  delayed : ∀ newer between between' earlier host k job old new host₁ k₁ job₁ old₁ new₁ host₂ k₂ job₂ old₂ new₂,
    w.trace = newer ++ .committed host₂ k₂ job₂ old₂ new₂ :: (between' ++ .committed host₁ k₁ job₁ old₁ new₁ ::
      (between ++ .committed host k job old new :: earlier)) →
    k₁.id = k.id → k₂.id = k.id → job.request.handoffTarget ≠ [] → job₁.request.handoffTarget ≠ [] →
    job₂.request.acceptTransfer ≠ 0 → job₂.request.acceptTransfer ≠ new.value.val.transferId

/-! ## What a write does to the placement -/

/-- The record a commit writes, in terms of its job. -/
theorem Commits.record (hc : Commits hash T host (limits host) k old value j) :
    ∃ m, value.val = committedRecord host j m := by
  obtain ⟨_, _, _, _, _, _, -, -, hb, -, _, _, _, rfl⟩ := hc.past
  obtain ⟨m, m', -, -, -, hv⟩ := hb.record.metadata
  exact ⟨m', hv⟩

/-- A write is the first one, or it replaces the newest record. -/
inductive Replaces (T : List Event) (id : Bytes) (e : Event) (new : Cell StoredRecord) : Prop
  | creates (creation : EntityCreation) (hnil : history T id = []) (hv : new.value.val = creation.record)
  | keeps (old : Cell StoredRecord) (hold : (history T id).head? = some old)
    (hplacement : new.value.val.placement = old.value.val.placement)
    (hticket : new.value.val.transferId = old.value.val.transferId) (hnot : ¬e.HandsOff id)
  | handsOff (old : Cell StoredRecord) (hold : (history T id).head? = some old)
      (hticket : new.value.val.transferId = old.version)
    (he : e.HandsOff id)

theorem Event.Lawful.replaces (hp : Past hash limits T) (he : e.Lawful hash limits T) (hw : e.writeTo id = some new) :
    Replaces T id e new := by
  cases e with
  | created =>
    obtain ⟨rfl, rfl⟩ := written_iff.1 hw
    obtain ⟨hnil, creation, hv⟩ := he
    exact .creates creation hnil hv
  | granted _ _ _ old' =>
    obtain ⟨rfl, rfl⟩ := written_iff.1 hw
    obtain ⟨hold, _, _, x, -, hv, -⟩ := he
    exact .keeps old' hold (by rw [hv]; rfl) (by rw [hv]; rfl) id
  | released _ _ old' =>
    obtain ⟨rfl, rfl⟩ := written_iff.1 hw
    obtain ⟨hold, -, hv⟩ := he
    exact .keeps old' hold (by rw [hv]) (by rw [hv]) id
  | committed _ _ j old' =>
    obtain ⟨rfl, rfl⟩ := written_iff.1 hw
    obtain ⟨hold, hc⟩ := he
    obtain ⟨-, hg⟩ := hc.grounded hp
    obtain ⟨m, hv⟩ := hc.record
    by_cases htarget : j.request.handoffTarget = []
    · refine .keeps old' hold ?_ ?_ fun hoff => hoff.2 htarget
      · rw [hv, ← hg.placement]
        exact if_pos htarget
      · rw [hv, ← hg.transferId]
        exact if_pos htarget
    · refine .handsOff old' hold ?_ ⟨rfl, htarget⟩
      rw [hv, ← hg.version]
      exact if_neg htarget
  | acquired | host => cases hw

theorem Past.of_suffix {T' : List Event} (hp : Past hash limits T) (hs : T' <:+ T) : Past hash limits T' :=
  fun e earlier he => hp e earlier (he.trans hs)

theorem Past.head (hp : Past hash limits (e :: T)) : e.Lawful hash limits T := hp e T (suffix_refl _)

theorem Past.tail (hp : Past hash limits (e :: T)) : Past hash limits T := hp.of_suffix (suffix_cons e T)

theorem history_cons (e : Event) (T : List Event) (id : Bytes) :
    history (e :: T) id = (e.writeTo id).toList ++ history T id := by
  rw [history, filterMap_cons]
  cases e.writeTo id <;> rfl

/-- Without a handoff the placement stays. -/
theorem placement_since {between : List Event} (hp : Past hash limits (between ++ T))
    (hnone : ∀ e ∈ between, ¬e.HandsOff id) (hc : (history T id).head? = some c) :
    ∃ c', (history (between ++ T) id).head? = some c' ∧ c'.value.val.placement = c.value.val.placement := by
  induction between with
  | nil => exact ⟨c, hc, rfl⟩
  | cons e between ih =>
    rw [forall_mem_cons] at hnone
    obtain ⟨c', hc', hplacement⟩ := ih hp.tail hnone.2
    rw [cons_append, history_cons]
    cases hw : e.writeTo id with
    | none => exact ⟨c', hc', hplacement⟩
    | some new =>
      refine ⟨new, rfl, ?_⟩
      cases hp.head.replaces hp.tail hw with
      | creates _ hnil =>
        have hempty : history (between ++ T) id = [] := hnil
        rw [hempty] at hc'
        cases hc'
      | keeps _ hold hkept =>
        cases hc'.symm.trans hold
        exact hkept.trans hplacement
      | handsOff _ _ _ hoff => exact absurd hoff hnone.1

theorem Event.HandsOff.writes (he : e.HandsOff id) : ∃ new, e.writeTo id = some new := by
  cases e with
  | committed _ _ _ _ new => exact ⟨new, if_pos he.1⟩
  | created | acquired | granted | released | host => exact he.elim

/-- After a handoff and another one, the ticket in the record is the version of a
cell that was written since the first. -/
theorem ticket_since {since : List Event} {first : Event} (hp : Past hash limits (since ++ first :: T))
    (hfirst : first.HandsOff id) (hsecond : ∃ e ∈ since, e.HandsOff id)
    (hc : (history (since ++ first :: T) id).head? = some c) :
    ∃ d ∈ (since ++ [first]).filterMap (Event.writeTo id), d.version = c.value.val.transferId := by
  have hsplit : ∀ l : List Event, history (l ++ first :: T) id =
      (l ++ [first]).filterMap (Event.writeTo id) ++ history T id := fun l => by
    rw [← history_append, append_assoc, singleton_append]
  obtain ⟨written, hwritten⟩ := hfirst.writes
  have hfront : ∀ l : List Event, (l ++ [first]).filterMap (Event.writeTo id) ≠ [] := fun l hnil => by
    have hmem : written ∈ (l ++ [first]).filterMap (Event.writeTo id) :=
      mem_filterMap.2 ⟨first, mem_append_right _ (mem_singleton_self _), hwritten⟩
    rw [hnil] at hmem
    cases hmem
  induction since generalizing c with
  | nil =>
    obtain ⟨e, he, -⟩ := hsecond
    cases he
  | cons e since ih =>
    have hgrow : ∀ d ∈ (since ++ [first]).filterMap (Event.writeTo id),
        d ∈ (e :: since ++ [first]).filterMap (Event.writeTo id) := fun d hd => by
      obtain ⟨e', he', hw'⟩ := mem_filterMap.1 hd
      exact mem_filterMap.2 ⟨e', mem_cons_of_mem _ he', hw'⟩
    have hrest : ¬e.HandsOff id → ∃ e ∈ since, e.HandsOff id := fun hnot => by
      obtain ⟨e', he', hoff⟩ := hsecond
      rcases mem_cons.1 he' with rfl | he'
      · exact absurd hoff hnot
      · exact ⟨e', he', hoff⟩
    rw [cons_append, history_cons] at hc
    cases hw : e.writeTo id with
    | none =>
      rw [hw] at hc
      have hnot : ¬e.HandsOff id := fun hoff => by
        obtain ⟨_, hnew⟩ := hoff.writes
        rw [hw] at hnew
        cases hnew
      obtain ⟨d, hd, hv⟩ := ih hp.tail (hrest hnot) hc
      exact ⟨d, hgrow d hd, hv⟩
    | some =>
      rw [hw] at hc
      cases hc
      cases hp.head.replaces hp.tail hw with
      | creates _ hnil =>
        have hempty : history (since ++ first :: T) id = [] := hnil
        rw [hsplit, append_eq_nil_iff] at hempty
        exact absurd hempty.1 (hfront since)
      | keeps _ hold _ hticket hnot =>
        obtain ⟨d, hd, hv⟩ := ih hp.tail (hrest hnot) hold
        exact ⟨d, hgrow d hd, hv.trans hticket.symm⟩
      | handsOff old hold hticket =>
        -- the replaced cell is the newest of those written since the first handoff
        refine ⟨old, hgrow old ?_, hticket.symm⟩
        have hhead : (history (since ++ first :: T) id).head? = some old := hold
        rw [hsplit, head?_append_of_ne_nil _ (hfront since)] at hhead
        exact mem_of_mem_head? hhead

/-! ## Leased records -/

/-- A leased record is placed on the node of its owner, or nowhere. -/
def EntityRecord.Owned (r : EntityRecord) : Prop :=
  r.owner ≠ [] → r.placement ≠ [] → entityNodeMatches r.owner r.placement = true

theorem Event.Lawful.owned (hp : Past hash limits T) (he : e.Lawful hash limits T) (hw : e.writeTo id = some new)
    (hcontrol : ∀ j, e.job = some j → j.request.handoffTarget ≠ [] → j.request.route.isControl = true) :
    new.value.val.Owned := by
  cases e with
  | created | released =>
    obtain ⟨rfl, rfl⟩ := written_iff.1 hw
    obtain ⟨-, _, hv⟩ := he
    intro howner
    rw [hv] at howner
    exact absurd rfl howner
  | granted =>
    obtain ⟨rfl, rfl⟩ := written_iff.1 hw
    obtain ⟨-, _, time, x, hat, hv, -⟩ := he
    rw [hv]
    exact fun _ => hat.found.admits.placement
  | committed host k j old new' =>
    obtain ⟨rfl, rfl⟩ := written_iff.1 hw
    obtain ⟨-, hc⟩ := he
    obtain ⟨-, hg⟩ := hc.grounded hp
    obtain ⟨m, hv⟩ := hc.record
    have hadmits := hg.admits
    intro howner hplacement
    rw [hv] at howner hplacement ⊢
    -- a commit that keeps the lease is not a handoff
    have hrelease : j.request.route.isControl = false := by
      by_contra hrelease
      exact howner (if_pos (by simpa using hrelease))
    have htarget : j.request.handoffTarget = [] := by
      by_contra htarget
      rw [hcontrol j rfl htarget] at hrelease
      cases hrelease
    have hsame : (committedRecord host j m).placement = old.value.val.placement := by
      rw [← hg.placement]
      exact if_pos htarget
    have hhost : (committedRecord host j m).owner = host.owner := if_neg (by rw [hrelease]; decide)
    rw [hsame] at hplacement ⊢
    rw [hhost]
    exact hadmits.placement hplacement
  | acquired | host => cases hw

theorem owned_run (ht : Traced hash limits w) (ha : Attributed hash w) (id : Bytes) {cell : Cell StoredRecord}
    (hc : cell ∈ history w.trace id) : cell.value.val.Owned := by
  obtain ⟨e, he, hw⟩ := mem_filterMap.1 hc
  obtain ⟨newer, earlier, htrace⟩ := append_of_mem he
  have hs : e :: earlier <:+ w.trace := ⟨newer, htrace.symm⟩
  refine (ht.past e earlier hs).owned (ht.past.of_suffix hs).tail hw fun j hj => ?_
  cases e with
  | created | released => cases hj
  | acquired | host => cases hw
  | granted host k | committed host k => exact (ha.events _ he host k j rfl hj).wellformed.1

/-! ## Acceptances -/

theorem acceptance_committed (ht : Traced hash limits w) (ha : Attributed hash w) {result : Result}
    (he : .host host (.replied k j result) ∈ w.trace) (haccept : j.request.acceptTransfer ≠ 0)
    (hok : result.status = .ok) : ∃ value, CommittedBy w.trace host k j value := by
  obtain ⟨newer, earlier, htrace⟩ := append_of_mem he
  have hs : .host host (.replied k j result) :: earlier <:+ w.trace := ⟨newer, htrace.symm⟩
  have hsub : earlier ⊆ w.trace := fun e he => hs.subset (mem_cons_of_mem _ he)
  obtain ⟨hid, hin, htimer⟩ := (ha.events _ he host k j rfl rfl).wellformed.2.1 haccept
  cases ht.past _ earlier hs hok with
  | missing _ hi =>
    rw [hin] at hi
    cases hi
  | committed value hc => exact ⟨value, hc.mono hsub⟩
  | replayed _ _ _ _ hc hr hadm =>
    -- an acceptance has no timer, no delivery and no key, so there is nothing to replay
    obtain ⟨_, hreq, -⟩ := hadm.kept.request
    rw [hreq] at hid hin htimer
    obtain ⟨j₁, r, _, x, hat, rfl, -⟩ := (ht.past.acquired (hsub hc)).loaded
    rcases hat.replays hr with hrt | ⟨_, -, e, _, _, hi, -⟩ | ⟨_, -, _, -, hkey, -⟩
    · have hnone : (j₁.loaded host r x).request.timer = none := htimer
      rw [hnone] at hrt
      cases hrt
    · have hnone : (j₁.loaded host r x).request.incoming = none := hin
      rw [hnone] at hi
      cases hi
    · exact absurd hid hkey

/-- No acceptance commits with the ticket of a handoff that was followed by another one. -/
theorem ticket_of_past (ht : Traced hash limits w) {newer between between' earlier : List Event}
    {host₁ host₂ : HostId} {k₁ k₂ : EntityKey} {job₁ job₂ : Job} {old₁ new₁ old₂ new₂ : Cell StoredRecord}
    (hk₁ : k₁.id = k.id) (hk₂ : k₂.id = k.id) (htarget : j.request.handoffTarget ≠ [])
    (htarget₁ : job₁.request.handoffTarget ≠ []) (haccept : job₂.request.acceptTransfer ≠ 0)
    (htrace : w.trace = newer ++ .committed host₂ k₂ job₂ old₂ new₂ ::
    (between' ++ .committed host₁ k₁ job₁ old₁ new₁ ::
      (between ++ .committed host k j old new :: earlier))) :
    job₂.request.acceptTransfer ≠ new.value.val.transferId := by
  have hassoc : between' ++ Event.committed host₁ k₁ job₁ old₁ new₁ ::
    (between ++ .committed host k j old new :: earlier) =
      (between' ++ .committed host₁ k₁ job₁ old₁ new₁ :: between) ++ .committed host k j old new :: earlier := by
    rw [append_assoc, cons_append]
  rw [hassoc] at htrace
  have hs : Event.committed host₂ k₂ job₂ old₂ new₂ ::
      ((between' ++ .committed host₁ k₁ job₁ old₁ new₁ :: between) ++ .committed host k j old new :: earlier) <:+
        w.trace :=
    ⟨newer, htrace.symm⟩
  have hp := (ht.past.of_suffix hs).tail
  have hpe := hp.of_suffix (suffix_append _ _)
  -- the record the acceptance replaced has its ticket
  obtain ⟨hold₂, hc₂⟩ := ht.past _ _ hs
  have hadmits := (hc₂.grounded hp).2.admits
  rw [hk₂] at hold₂
  have hfirst : (Event.committed host k j old new).HandsOff k.id := ⟨rfl, htarget⟩
  obtain ⟨d, hd, hversion⟩ := ticket_since hp hfirst
    ⟨.committed host₁ k₁ job₁ old₁ new₁, by simp, hk₁, htarget₁⟩ hold₂
  rw [(hadmits.accept haccept).1] at hversion
  -- the ticket of the first handoff is older
  have hold : old ∈ history earlier k.id := mem_of_mem_head? hpe.head.1
  have hticket : new.value.val.transferId = old.version := by
    obtain ⟨m, hv⟩ := hpe.head.2.record
    rw [hv, ← (hpe.head.2.grounded hpe.tail).2.version]
    exact if_neg htarget
  have hfull : w.trace = (newer ++ .committed host₂ k₂ job₂ old₂ new₂ ::
      ((between' ++ .committed host₁ k₁ job₁ old₁ new₁ :: between) ++ [.committed host k j old new])) ++ earlier := by
    rw [htrace]
    simp
  have hnodup := (w.entities k.id).nodup
  rw [ht.cells, hfull, history_append, map_append] at hnodup
  intro heq
  refine disjoint_of_nodup_append hnodup (a := old.version) ?_ (mem_map_of_mem hold)
  rw [← hticket, ← heq, ← hversion]
  obtain ⟨e, he, hw⟩ := mem_filterMap.1 hd
  exact mem_map_of_mem (mem_filterMap.2 ⟨e, mem_append_right _ (mem_cons_of_mem _ he), hw⟩)

/-- Placements, handoffs and acceptances, in every run. -/
theorem placed_run (hash : Bytes → Bytes) (limits : HostId → RuntimeLimits) (actions : List Action) :
    Placed (run (World.step hash) (World.init limits) actions) := by
  have ht := traced_run hash limits actions
  have ha := attributed_run hash limits actions
  generalize run (World.step hash) (World.init limits) actions = w at ht ha
  refine ⟨fun id _ hget => ?_, ?_, ?_, ?_, ?_⟩
  · refine owned_run ht ha id ?_
    rw [← ht.cells]
    exact Register.mem_of_get hget
  · intro newer between earlier host k job old new host' k' job' old' new' htrace hk htarget hnone
    have hs : .committed host' k' job' old' new' :: (between ++ .committed host k job old new :: earlier) <:+ w.trace :=
      ⟨newer, htrace.symm⟩
    have hp := (ht.past.of_suffix hs).tail
    have hpe := hp.of_suffix (suffix_append between _)
    obtain ⟨hold', hc'⟩ := ht.past _ _ hs
    obtain ⟨-, hc⟩ := hpe.head
    obtain ⟨m, hv⟩ := hc.record
    have hnew : (history (.committed host k job old new :: earlier) k.id).head? = some new := by
      rw [history_cons]
      simp [Event.writeTo]
    obtain ⟨c, hhead, hplacement⟩ := placement_since hp hnone hnew
    rw [hk, hhead] at hold'
    cases hold'
    have htarget' : new.value.val.placement = job.request.handoffTarget := by
      rw [hv]
      exact if_neg htarget
    have hadmits := (hc'.grounded hp).2.admits
    have hmatch := hadmits.placement (by rw [hplacement, htarget']; exact htarget)
    rw [hplacement, htarget'] at hmatch
    exact hmatch
  · intro host k job _ he haccept hok
    obtain ⟨_, job', old, new, hcommitted, -, _, rfl⟩ := acceptance_committed ht ha he haccept hok
    exact ⟨job', old, new, hcommitted, rfl, rfl⟩
  · intro host k job old new he haccept
    obtain ⟨newer, earlier, htrace⟩ := append_of_mem he
    have hs : .committed host k job old new :: earlier <:+ w.trace := ⟨newer, htrace.symm⟩
    obtain ⟨-, hc⟩ := ht.past _ earlier hs
    have hadmits := (hc.grounded (ht.past.of_suffix hs).tail).2.admits
    exact (hadmits.accept haccept).1
  · intro newer between _ earlier host k job old new _ _ _ _ _ _ _ _ _ _ htrace hk₁
      hk₂ htarget htarget₁ haccept
    exact ticket_of_past ht hk₁ hk₂ htarget htarget₁ haccept htrace

end Fsnet
