import Fsnet.World.Registry
/-!
# Discovery of messages

A worker finds the messages it has to deliver through the registry alone. The
invariant of a run says that a source that was ever registered is still listed,
unless its tombstone is stored, and that nothing is in an outbox, of a record or
of a job, before its source was registered.
-/

namespace Fsnet

open Lib List Function

variable {hash : Bytes → Bytes} {limits : HostId → RuntimeLimits} {host : HostId} {k : EntityKey} {j j' : Job}
  {T T' news : List Event} {id : Bytes} {c : Cell StoredRecord} {w w' : World} {o o' : Option Job} {h : Host}
  {env : Ambient} {s : Bytes × Bytes} {expected : UInt64} {base : DeliverySources}

/-! ## The registry -/

/-- The sources a worker finds. -/
def World.sources (w : World) : DeliverySources := ((w.registry ()).get.map Cell.value).getD []

/-- The source was registered once. -/
def Registered (w : World) (s : Bytes × Bytes) : Prop := ∃ cell ∈ (w.registry ()).cells, s ∈ cell.value

/-- A tombstone of the source was stored. -/
def Retired (T : List Event) (s : Bytes × Bytes) : Prop :=
  ∃ c ∈ history T s.2, c.value.val.metadata.destroyed = true ∧ c.value.val.metadata.type = s.1

/-- A writer has read the sources `base` under the version it expects to replace. -/
def Based (w : World) (expected : UInt64) (base : DeliverySources) : Prop :=
  (expected = 0 ∧ base = []) ∨ ∃ cell ∈ (w.registry ()).cells, cell.version = expected ∧ cell.value = base

theorem Retired.mono (hT : T ⊆ T') (hr : Retired T s) : Retired T' s := by
  obtain ⟨c, hc, hd⟩ := hr
  exact ⟨c, history_grows hT s.2 c hc, hd⟩

theorem registered_of_mem (hs : s ∈ w.sources) : Registered w s := by
  unfold World.sources at hs
  cases hg : (w.registry ()).get with
  | none =>
    rw [hg] at hs
    cases hs
  | some cell =>
    rw [hg] at hs
    exact ⟨cell, Register.mem_of_get hg, hs⟩

theorem based_get (w : World) : Based w (((w.registry ()).get.map Cell.version).getD 0) w.sources := by
  unfold World.sources
  cases hg : (w.registry ()).get with
  | none => exact .inl ⟨rfl, rfl⟩
  | some cell => exact .inr ⟨cell, Register.mem_of_get hg, rfl, rfl⟩

/-- Whoever swaps the registry has read what it holds. -/
theorem Based.sources_eq (hb : Based w expected base) (hv : (w.registry ()).version = expected) : w.sources = base := by
  unfold World.sources
  rcases hb with ⟨rfl, rfl⟩ | ⟨_, hcell, rfl, rfl⟩
  · rw [Register.get_of_version_eq_zero hv]
    rfl
  · rw [Register.get_of_version hcell hv]
    rfl

section
variable (hsub : (w.registry ()).cells ⊆ (w'.registry ()).cells)
include hsub

theorem Registered.mono (hr : Registered w s) : Registered w' s := by
  obtain ⟨cell, hcell, hs⟩ := hr
  exact ⟨cell, hsub hcell, hs⟩

theorem Based.mono (hb : Based w expected base) : Based w' expected base := by
  refine hb.imp_right fun hcell => ?_
  obtain ⟨cell, hcell, heq⟩ := hcell
  exact ⟨cell, hsub hcell, heq⟩

end

theorem RegistryView.cells (hv : RegistryView w w') : (w.registry ()).cells ⊆ (w'.registry ()).cells := by
  rcases hv.registry with heq | ⟨_, _, _, heq, -⟩
  · rw [heq]
    exact List.Subset.refl _
  · rw [heq, update_self]
    exact subset_cons_self _ _

/-! ## The invariant -/

/-- A send adds its source to what it has read, and has registered it when it is done. -/
structure SendListed (w : World) (send : Send) : Prop where
  register : ∀ attempt expected sources, send.stage = .register attempt expected sources →
    ∃ base, Based w expected base ∧ sources = base ++ [(send.entity.type, send.entity.id)]
  finished : send.stage = .finished .ok → Registered w (send.entity.type, send.entity.id)

/-- A worker takes out a source whose tombstone is stored, and no other. -/
structure RetirementListed (w : World) (r : Retirement) : Prop where
  retired : Retired w.trace r.source
  next : ∀ expected sources, r.next = some (expected, sources) →
    ∃ base, Based w expected base ∧ sources = base.erase r.source

/-- A job that runs has no message before its entity is registered. -/
def Posted (w : World) (k : EntityKey) (j : Job) : Prop :=
  (∀ stage, j.phase ≠ .acquiring stage) → j.delivery.outbox ≠ [] → Registered w (k.type, k.id)

structure Listed (w : World) : Prop where
  kept : ∀ s, Registered w s → s ∈ w.sources ∨ Retired w.trace s
  sends : ∀ host n send, (w.hosts host).sends n = some send → SendListed w send
  retirements : ∀ n r, w.retirements n = some r → RetirementListed w r
  records : ∀ id, ∀ c ∈ history w.trace id, c.value.val.snapshot.delivery.outbox ≠ [] →
    Registered w (c.value.val.metadata.type, id)
  jobs : ∀ host k j, (w.hosts host).active k = some j → Posted w k j

theorem listed_init (limits : HostId → RuntimeLimits) : Listed (World.init limits) where
  kept s hr := by
    obtain ⟨_, hcell, -⟩ := hr
    cases hcell
  sends _ _ _ hs := nomatch hs
  retirements _ _ hr := nomatch hr
  records _ _ hc := nomatch hc
  jobs _ _ _ hj := nomatch hj

/-! ## Writers of the registry -/

/-- No write of the registry loses a source that is not retired. -/
theorem Listed.kept_step (hl : Listed w) (hT : w.trace ⊆ w'.trace) (hv : RegistryView w w') (hr : Registered w' s) :
    s ∈ w'.sources ∨ Retired w'.trace s := by
  rcases hv.registry with heq | ⟨_, value, _, heq, hwrite⟩
  · have hsources : w'.sources = w.sources := by unfold World.sources; rw [heq]
    rw [hsources]
    unfold Registered at hr
    rw [heq] at hr
    exact (hl.kept s hr).imp_right (Retired.mono hT)
  have hsources : w'.sources = value := by
    unfold World.sources
    rw [heq, update_self]
    rfl
  rw [hsources]
  obtain ⟨cell, hcell, hs⟩ := hr
  rw [heq, update_self, Register.cells_push] at hcell
  rcases mem_cons.1 hcell with rfl | hcell
  · exact .inl hs
  rcases hl.kept s ⟨cell, hcell, hs⟩ with hmem | hretired
  swap
  · exact .inr (hretired.mono hT)
  cases hwrite with
  | register host n send attempt expected hsend hp hver =>
    obtain ⟨base, hbased, rfl⟩ := (hl.sends host n send hsend).register attempt expected value hp
    rw [hbased.sources_eq hver] at hmem
    exact .inl (mem_append_left _ hmem)
  | retire n r expected hr hp hver =>
    have hlisted := hl.retirements n r hr
    obtain ⟨_, hbased, rfl⟩ := hlisted.next expected value hp
    rw [hbased.sources_eq hver] at hmem
    by_cases heq : s = r.source
    · rw [heq]
      exact .inr (hlisted.retired.mono hT)
    · exact .inl ((mem_erase_of_ne heq).2 hmem)

theorem SendListed.mono (hsub : (w.registry ()).cells ⊆ (w'.registry ()).cells) {send : Send} (hs : SendListed w send) :
    SendListed w' send := by
  refine ⟨fun attempt expected sources hp => ?_, fun hp => (hs.finished hp).mono hsub⟩
  obtain ⟨base, hb, heq⟩ := hs.register attempt expected sources hp
  exact ⟨base, hb.mono hsub, heq⟩

/-- A send that has read the registry has found its source there, or is about to add it. -/
theorem sendListed_read (w : World) (send : Send) (limits : RuntimeLimits) (attempt : Nat) :
    SendListed w (send.resumeRegistry limits attempt (w.registry ()).get) := by
  have hharmless : ∀ {send : Send}, send.Harmless → SendListed w send := fun hh =>
    ⟨fun _ _ _ hp => absurd hp (hh.1 _ _ _), fun hp => absurd hp hh.2⟩
  unfold Send.resumeRegistry
  dsimp only
  split
  · rename_i hmem
    exact ⟨fun _ _ _ hp => (nomatch hp), fun _ => registered_of_mem hmem⟩
  split
  · exact hharmless (harmless_finish (by decide))
  split
  · exact hharmless (harmless_finish (by decide))
  · refine ⟨fun _ _ sources hp => ?_, fun hp => (nomatch hp)⟩
    cases hp
    exact ⟨w.sources, based_get w, rfl⟩

theorem Listed.sends_step (hl : Listed w) (hv : RegistryView w w') {n : Nat} {send : Send}
    (hs : (w'.hosts host).sends n = some send) : SendListed w' send := by
  cases hv.sends host n send hs with
  | same hs => exact (hl.sends host n send hs).mono hv.cells
  | harmless hh => exact ⟨fun _ _ _ hp => absurd hp (hh.1 _ _ _), fun hp => absurd hp hh.2⟩
  | read send₀ attempt limits _ hn =>
    rw [hn]
    exact (sendListed_read w send₀ limits attempt).mono hv.cells
  | registered send₀ attempt expected _ hs hp hn hw =>
    rw [hn]
    refine ⟨fun _ _ _ hp' => (nomatch hp'), fun _ => ?_⟩
    obtain ⟨cell, hget, rfl⟩ := hw
    obtain ⟨_, -, hsources⟩ := (hl.sends host n send₀ hs).register attempt expected _ hp
    refine ⟨cell, Register.mem_of_get hget, ?_⟩
    rw [hsources]
    exact mem_append_right _ mem_cons_self

theorem Listed.retirements_step (hl : Listed w) (hcells : ∀ id, (w.entities id).cells = history w.trace id)
    (hT : w.trace ⊆ w'.trace) (hv : RegistryView w w') {n : Nat} {r : Retirement} (hr : w'.retirements n = some r) :
    RetirementListed w' r := by
  cases hv.retirements n r hr with
  | same hr =>
    have hold := hl.retirements n r hr
    refine ⟨hold.retired.mono hT, fun expected sources hp => ?_⟩
    obtain ⟨base, hb, heq⟩ := hold.next expected sources hp
    exact ⟨base, hb.mono hv.cells, heq⟩
  | begun cell hget hdestroyed htype hn =>
    refine ⟨Retired.mono hT ⟨cell, ?_, hdestroyed, htype⟩, fun expected sources hp => ?_⟩
    · rw [← hcells]
      exact Register.mem_of_get hget
    · rw [hn] at hp
      cases hp
  | read r₀ cell hr hs hget hn =>
    refine ⟨hs ▸ (hl.retirements n r₀ hr).retired.mono hT, fun expected sources hp => ?_⟩
    rw [hn] at hp
    cases hp
    exact ⟨cell.value, .inr ⟨cell, hv.cells (Register.mem_of_get hget), rfl, rfl⟩, by rw [hs]⟩
  | again r₀ hr hs hn =>
    refine ⟨hs ▸ (hl.retirements n r₀ hr).retired.mono hT, fun expected sources hp => ?_⟩
    rw [hn] at hp
    cases hp

/-! ## Jobs -/

/-- What a delivery goes back to is what it was acquired with. -/
theorem Executes.rollback (hp : Past hash limits T) (he : Executes hash T host (limits host) k c j)
    (hm : j.metadataOnly = false) (hin : j.request.incoming.isSome = true)
    (hne : (j.deliveryRollback.getD {}).outbox ≠ []) : c.value.val.snapshot.delivery.outbox ≠ [] := by
  obtain ⟨h, _, _, _, j₁, j₂, hacq, -, hadmitted, -, hrestored, hpath⟩ := he.past
  have hsame : j.deliveryRollback = j₂.deliveryRollback ∧ j.metadataOnly = j₂.metadataOnly ∧
      j.request.incoming = j₂.request.incoming := by
    clear he hm hin hne
    induction hpath with
    | refl => exact ⟨rfl, rfl, rfl⟩
    | tail _ hstep ih =>
      rw [hstep.same]
      exact ih
  have hrestored' : j₂.metadataOnly = j₁.metadataOnly ∧ j₂.request = j₁.request := by
    rw [hrestored.same]
    exact ⟨rfl, rfl⟩
  rw [hsame.2.1, hrestored'.1] at hm
  rw [hsame.2.2, hrestored'.2] at hin
  rcases hrestored.rollback with ⟨-, -, -, hdelivery, -⟩ | ⟨hnone | hmeta, -⟩
  · rw [hsame.1, hdelivery] at hne
    have hne' : j₁.delivery.outbox ≠ [] := hne
    rw [hadmitted.outbox] at hne'
    exact (hp.acquired hacq).loads.delivery.outbox hne'
  · rw [show j₁.request.incoming = none from hnone] at hin
    cases hin
  · rw [show j₁.metadataOnly = true from hmeta] at hm
    cases hm

/-- A job goes to its commit with the messages it had, or with those of its rollback if its delivery was declined. -/
theorem Concludes.posted {result : Result} {turn : Turn} (hc : Concludes hash host h k env j result turn)
    (hj : turn.host.active k = some j') (hne : j'.delivery.outbox ≠ []) :
    j.delivery.outbox ≠ [] ∨
      (j.request.incoming.isSome = true ∧ j.logicStarted = true ∧ (j.deliveryRollback.getD {}).outbox ≠ []) := by
  obtain ⟨_, _, _, hs, hb, -⟩ := hc.commit hj
  obtain ⟨_, -, _, hd, -⟩ := hb.outcome
  rw [hd.outbox] at hne
  cases hs with
  | ok => exact .inl hne
  | declined hin hlogic => exact .inr ⟨hin, hlogic, hne⟩

theorem posted_acquiring {stage : AcquireStage} (hp : j.phase = .acquiring stage) : Posted w k j :=
  fun hnot => absurd hp (hnot stage)

/-- A job runs with the messages of its record, and with those it has registered itself for. -/
theorem JobMove.posted (hp : Past hash limits T) (hcells : ∀ id, (w.entities id).cells = history T id)
    (hl : ∀ j, o = some j → Lineage hash T host (limits host) k j) (hfixed : (w.hosts host).limits = limits host)
    (htype : ∀ j, o = some j → j.request.route.type = k.type)
    (hrecords : ∀ c ∈ history T k.id, c.value.val.snapshot.delivery.outbox ≠ [] →
      Registered w (c.value.val.metadata.type, k.id))
    (hsends : (w.hosts host).Sent k → Registered w (k.type, k.id)) (hposted : ∀ j, o = some j → Posted w k j)
    (hm : JobMove hash w w' host k o o' news) (hj' : o' = some j') : Posted w k j' := by
  have hrecord : ∀ j c, o = some j → c ∈ history T k.id → Grounded host (limits host) c j →
      c.value.val.snapshot.delivery.outbox ≠ [] → Registered w (k.type, k.id) := by
    intro j c hj hc hg hne
    have hadmits := hg.admits
    have hlisted := hrecords c hc hne
    rwa [hadmits.type, htype j hj] at hlisted
  cases hm with
  | same => exact hposted j' hj'
  | stop | threw | refuse | timeOut | finish => cases hj'
  | begin =>
    cases hj'
    exact posted_acquiring rfl
  | acquire j _ _ hm =>
    cases hj'
    obtain ⟨stage, hstage⟩ := (hm.attains hcells (hfixed ▸ hl j rfl)).acquiring
    exact posted_acquiring hstage
  | commit j _ _ hm =>
    cases hj'
    obtain ⟨_, _, hphase, _, _, _, heq⟩ := hm.step
    rw [heq]
    exact fun _ => hposted j rfl (not_acquiring hphase nofun)
  | run j _ _ hphase hs hrun =>
    obtain ⟨c, hc⟩ := lineage_acquired hphase hs (hl j rfl)
    have hacq := hp.acquired hc
    have hout : j.delivery.outbox ≠ [] → Registered w (k.type, k.id) := fun hne =>
      hrecord j c rfl hacq.mem hacq.grounded (hacq.loads.delivery.outbox hne)
    cases hrun with
    | refused | failed | replayed =>
      rw [Host.complete_active] at hj'
      cases hj'
    | concludes _ j₂ _ _ ha _ _ hres _ _ _ hcon =>
      intro _ hne
      rcases hcon.posted hj' hne with hne | ⟨-, hlogic, -⟩
      · rw [hres.outbox, ha.outbox] at hne
        exact hout hne
      -- no logic has run, so there is nothing to decline
      have hblank : j₂.logicStarted = j.logicStarted := by rw [hres.same, ha.same]
      obtain ⟨j₀, r, _, x, hat, rfl, -⟩ := hacq.loaded
      rw [hblank, show (((j₀.loaded host r x).takes c).acquiring (.finished false)).logicStarted =
        j₀.logicStarted from rfl, hat.trying.blank.logicStarted] at hlogic
      cases hlogic
    | starts _ _ j₂ _ ha _ _ hres =>
      rw [setJob_active] at hj'
      cases hj'
      intro _ hne
      have hne' : j₂.delivery.outbox ≠ [] := hne
      rw [hres.outbox, ha.outbox] at hne'
      exact hout hne'
  | answer j _ _ _ _ _ hphase ha =>
    have hold := hposted j rfl
    obtain ⟨hmeta, c, hexec⟩ := (lineage_executing hphase).1 (hl j rfl)
    have hnot := not_acquiring hphase nofun
    cases ha with
    | concludes _ _ _ hcon =>
      intro _ hne
      rcases hcon.posted hj' hne with hne | ⟨hin, -, hne⟩
      · exact hold hnot hne
      · obtain ⟨hmem, hg⟩ := hexec.grounded hp
        exact hrecord j c rfl hmem hg (hexec.rollback hp hmeta hin hne)
    | starts =>
      rw [setJob_active] at hj'
      cases hj'
      exact fun _ hne => hold hnot hne
  | schedule j _ _ _ _ hphase hs =>
    cases hj'
    rw [hs.same]
    exact fun _ => hposted j rfl (not_acquiring hphase nofun)
  | amend j _ _ _ hphase _ _ _ hsent =>
    cases hj'
    intro _ hne
    rcases hsent hne with hne | hregistered
    · exact hposted j rfl (not_acquiring hphase nofun) hne
    · exact hsends hregistered

/-! ## Records -/

theorem Listed.records_step (h : Explained hash limits w) (hl : Listed w) (hm : StoreMove w w' news)
    (hc : c ∈ history (news ++ w.trace) id) (hne : c.value.val.snapshot.delivery.outbox ≠ []) :
    Registered w (c.value.val.metadata.type, id) := by
  rw [history_append] at hc
  rcases mem_append.1 hc with hnew | hold
  swap
  · exact hl.records id c hold hne
  cases newRecord h.traced hm hnew with
  | created _ hv =>
    rw [hv] at hne
    exact absurd rfl hne
  | granted host old cachedFence _ hold hv =>
    rw [hv] at hne ⊢
    have hsame : (resident host cachedFence old.value.val).delivery.outbox ≠ [] := hne
    rw [resident_delivery] at hsame
    exact hl.records id old hold hsame
  | committed host k j _ hid hj hph _ hcommits =>
    subst hid
    have hadmits := (hcommits.grounded h.traced.past).2.admits
    rw [(hcommits.metadata h.traced.past).1, hadmits.type, (h.attributed.jobs host k j hj).type]
    refine hl.jobs host k j hj (not_acquiring hph nofun) ?_
    obtain ⟨m, hv⟩ := hcommits.record
    rw [hv] at hne
    unfold committedRecord at hne
    dsimp only at hne
    split at hne
    · exact absurd rfl hne
    · exact hne
  | released old hold hv =>
    rw [hv] at hne ⊢
    exact hl.records id old hold hne

theorem listed_step (w : World) (action : Action) (h : Explained hash limits w) (hl : Listed w) :
    Listed (w.step hash action) := by
  have hv := step_registry hash w action
  obtain ⟨_, hstored, hstore⟩ := step_store hash w action
  obtain ⟨_, -, -, hmoves, -⟩ := step_view hash w action
  have hT := step_trace_subset hash w action
  refine ⟨fun s hr => hl.kept_step hT hv hr, fun host n send hs => hl.sends_step hv hs,
    fun n r hr => hl.retirements_step h.traced.cells hT hv hr, fun id c hc hne => ?_, fun host k j hj hnot hne => ?_⟩
  · rw [hstored] at hc
    exact (hl.records_step h hstore hc hne).mono hv.cells
  · have hsends : (w.hosts host).Sent k → Registered w (k.type, k.id) := by
      rintro ⟨n, send, hs, hstage, rfl⟩
      exact (hl.sends host n send hs).finished hstage
    have hposted := (hmoves host k).posted h.traced.past h.traced.cells (h.traced.jobs host k) (h.traced.fixed host)
      (fun j hj => (h.attributed.jobs host k j hj).type) (hl.records k.id) hsends (hl.jobs host k) hj
    exact (hposted hnot hne).mono hv.cells

/-- Every record with a message that is still to be delivered has its entity in the registry. -/
structure Discoverable (w : World) : Prop where
  listed : ∀ id cell, (w.entities id).get = some cell → pendingOutbox cell.value.val.snapshot.delivery = true →
    ∃ registry, (w.registry ()).get = some registry ∧ (cell.value.val.metadata.type, id) ∈ registry.value

theorem Listed.discoverable (h : Explained hash limits w) (hl : Listed w) : Discoverable w := by
  refine ⟨fun id cell hget hpending => ?_⟩
  have hhead : (history w.trace id).head? = some cell := by
    rw [h.traced.newest]
    exact hget
  have hne : cell.value.val.snapshot.delivery.outbox ≠ [] := by
    intro hnil
    rw [pendingOutbox, hnil] at hpending
    cases hpending
  rcases hl.kept _ (hl.records id cell (mem_of_mem_head? hhead) hne) with hmem | ⟨_, htomb, hdestroyed, -⟩
  · unfold World.sources at hmem
    cases hg : (w.registry ()).get with
    | none =>
      rw [hg] at hmem
      cases hmem
    | some registry =>
      rw [hg] at hmem
      exact ⟨registry, rfl, hmem⟩
  · -- a tombstone stays one, and has no outbox
    have hdead := h.traced.past.destroyed htomb hdestroyed hhead
    exact absurd (h.traced.past.buried (mem_of_mem_head? hhead) hdead) hne

/-- Whatever hosts and workers do, no message waits in a record that the registry does not lead to. -/
theorem discoverable_run (hash : Bytes → Bytes) (limits : HostId → RuntimeLimits) (actions : List Action) :
    Discoverable (run (World.step hash) (World.init limits) actions) := by
  obtain ⟨h, hl⟩ := explained_inv (listed_init limits) (fun w action => listed_step w action) actions
  exact hl.discoverable h

end Fsnet
