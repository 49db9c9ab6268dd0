import Fsnet.World.Awake
/-!
# The registry of delivery sources

A send registers its source before the job that made it can commit, and only a
source whose record is a tombstone is taken out again. So a worker that reads
the registry finds every record with a message in its outbox.
-/

namespace Fsnet

open Lib List Function

variable {hash : Bytes → Bytes} {limits : HostId → RuntimeLimits} {host : HostId} {k : EntityKey} {j : Job}
  {T : List Event} {id : Bytes} {old new c : Cell StoredRecord} {w w' : World} {h h' : Host}
  {env : Ambient} {value : StoredRecord}

/-! ## Tombstones -/

theorem Executes.metadata (hp : Past hash limits T) (he : Executes hash T host (limits host) k c j) :
    j.metadata = some c.value.val.metadata := by
  obtain ⟨_, hacq, -, heq⟩ := he.keeps Job.metadata (fun ha => by rw [ha.same]) (fun hr => by rw [hr.same]) fun hs => by
    rw [hs.same]
  rw [heq]
  obtain ⟨_, r, _, x, -, rfl, hc⟩ := (hp.acquired hacq).loaded
  rcases hc with ⟨rfl, -⟩ | hc
  · rfl
  · rw [hc]
    rfl

theorem committedMetadata_fixed {m m' : EntityMetadata} (hm : committedMetadata j m = some m') :
    m'.type = m.type ∧ m'.destroyed = m.destroyed := by
  unfold committedMetadata at hm
  split at hm
  · cases hm
    exact ⟨rfl, rfl⟩
  split at hm
  · cases hm
  · cases hm
    exact ⟨rfl, rfl⟩

/-- A commit keeps the type, and leaves a tombstone exactly when it destroys. -/
theorem Commits.metadata (hp : Past hash limits T) (hc : Commits hash T host (limits host) k c value j) :
    value.val.metadata.type = c.value.val.metadata.type ∧ value.val.metadata.destroyed = j.request.route.isDestroy := by
  obtain ⟨-, hg⟩ := hc.grounded hp
  have hadmits := hg.admits
  obtain ⟨j₃, j₄, j₅, result, result', now, he, hs, hb, -, stage, ownerLost, status, rfl⟩ := hc.past
  obtain ⟨m, m', hm, hm', -, hv⟩ := hb.record.metadata
  have hold : m = c.value.val.metadata := by
    have h₄ : j₄.metadata = j₃.metadata := by cases hs <;> rfl
    rw [h₄, he.metadata hp] at hm
    exact (Option.some.inj hm).symm
  obtain ⟨htype, hdestroyed⟩ := committedMetadata_fixed hm'
  rw [hv]
  unfold committedRecord
  dsimp only
  split
  · rename_i hdestroy
    exact ⟨by rw [htype, hold], hdestroy.symm⟩
  rename_i hdestroy
  refine ⟨by rw [htype, hold], ?_⟩
  rw [hdestroyed, hold, hadmits.alive]
  exact (Bool.eq_false_iff.2 hdestroy).symm

theorem Derived.metadata (hp : Past hash limits T) (hd : Derived hash limits T id old new) :
    new.value.val.metadata.type = old.value.val.metadata.type ∧
      (old.value.val.metadata.destroyed = true → new.value.val.metadata.destroyed = true) := by
  cases hd with
  | granted _ _ _ _ _ _ _ hv | released _ _ _ _ hv =>
    rw [hv]
    exact ⟨rfl, fun hdestroyed => hdestroyed⟩
  | committed _ _ _ _ _ _ _ _ _ hc =>
    have hadmits := (hc.grounded hp).2.admits
    refine ⟨(hc.metadata hp).1, fun hdestroyed => ?_⟩
    rw [hadmits.alive] at hdestroyed
    cases hdestroyed

/-- A tombstone stays one. -/
theorem Past.destroyed (hp : Past hash limits T) {d : Cell StoredRecord} (hd : d ∈ history T id)
    (hdestroyed : d.value.val.metadata.destroyed = true) (hc : (history T id).head? = some c) :
    c.value.val.metadata.destroyed = true :=
  hp.stays (P := fun c => c.value.val.metadata.destroyed = true)
    (fun _ _ _ hs hderived => (hderived.metadata (hp.of_suffix hs)).2) hd hdestroyed hc

/-- A tombstone holds no message. -/
def EntityRecord.Buried (r : EntityRecord) : Prop := r.metadata.destroyed = true → r.snapshot.delivery.outbox = []

theorem Derived.buried (hp : Past hash limits T) (hd : Derived hash limits T id old new) (hb : old.value.val.Buried) :
    new.value.val.Buried := by
  cases hd with
  | granted host _ _ _ _ cachedFence _ hv =>
    rw [hv]
    intro hdestroyed
    show (resident host cachedFence old.value.val).delivery.outbox = []
    rw [resident_delivery]
    exact hb hdestroyed
  | released _ _ _ _ hv =>
    rw [hv]
    exact hb
  | committed _ _ _ _ _ _ _ _ _ hc =>
    intro hdestroyed
    rw [(hc.metadata hp).2] at hdestroyed
    obtain ⟨m, hv⟩ := hc.record
    rw [hv]
    unfold committedRecord
    dsimp only
    rw [if_pos hdestroyed]

theorem Past.buried (hp : Past hash limits T) (hc : c ∈ history T id) : c.value.val.Buried := by
  induction T generalizing c with
  | nil => cases hc
  | cons e T ih =>
    rw [history_cons] at hc
    rcases mem_append.1 hc with hnew | hold
    swap
    · exact ih hp.tail hold
    have hw : e.writeTo id = some c := Option.mem_toList.1 hnew
    cases hhead : (history T id).head? with
    | some => exact (hp.head.derived hp.tail hw hhead).buried hp (ih hp.tail (mem_of_mem_head? hhead))
    | none =>
      -- the first record is the one the catalog created
      cases hp.head.replaces hp.tail hw with
      | creates _ _ hv =>
        rw [hv]
        intro hdestroyed
        cases hdestroyed
      | keeps _ hold | handsOff _ hold =>
        rw [hhead] at hold
        cases hold

/-! ## Sends in flight -/

theorem Turned.sends {good : Prop} (ht : Turned h k j good h') : h'.sends = h.sends := by
  cases ht with
  | ended c => exact Host.complete_sends { h with counters := c } ..
  | goesOn => rfl

theorem enqueue_sends (hash : Bytes → Bytes) (host : HostId) (h : Host) (call : Call) (live : Bool) :
    (h.enqueue hash host call live).sends = h.sends := by
  unfold Host.enqueue
  split
  · rfl
  split
  · rfl
  dsimp only
  split
  · rfl
  rename_i h' _ ho
  have hopen : h'.sends = h.sends := by
    unfold Host.openSlot at ho
    split at ho
    · cases ho
      rfl
    split at ho
    · cases ho
    · cases ho
      rfl
  split
  · exact hopen
  · exact hopen

/-- A send that has neither registered its source nor is about to. -/
def Send.Harmless (send : Send) : Prop :=
  (∀ attempt expected sources, send.stage ≠ .register attempt expected sources) ∧ send.stage ≠ .finished .ok

theorem harmless_finish {send : Send} {status : Status} (hs : status ≠ .ok) : (send.finish status).Harmless :=
  ⟨fun _ _ _ h => (nomatch h), fun h => hs (SendStage.finished.inj h)⟩

theorem resumeTarget_harmless (send : Send) (stored : Option (Cell StoredRecord)) :
    (send.resumeTarget stored).Harmless := by
  unfold Send.resumeTarget
  split
  · exact harmless_finish (by decide)
  dsimp only
  split
  · exact harmless_finish (by decide)
  · split
    · exact harmless_finish (by decide)
    · exact ⟨nofun, nofun⟩

/-- Where a send comes from in a step. -/
inductive SendMove (w w' : World) (host : HostId) (n : Nat) (send' : Send) : Prop
  | same (hs : (w.hosts host).sends n = some send')
  | harmless (hs : send'.Harmless)
  | read (send : Send) (attempt : Nat) (limits : RuntimeLimits) (hs : (w.hosts host).sends n = some send)
    (hn : send' = send.resumeRegistry limits attempt (w.registry ()).get)
  | registered (send : Send) (attempt : Nat) (expected : UInt64) (sources : DeliverySources)
    (hs : (w.hosts host).sends n = some send) (hp : send.stage = .register attempt expected sources)
    (hn : send' = send.finish .ok) (hw : ∃ cell, (w'.registry ()).get = some cell ∧ cell.value = sources)

/-- How the registry is written: by a send, or by a worker that takes out a tombstone. -/
inductive RegistryWrite (w : World) (value : DeliverySources) : Prop
  | register (host : HostId) (n : Nat) (send : Send) (attempt : Nat) (expected : UInt64)
    (hs : (w.hosts host).sends n = some send) (hp : send.stage = .register attempt expected value)
    (hv : (w.registry ()).version = expected)
  | retire (n : Nat) (r : Retirement) (expected : UInt64) (hr : w.retirements n = some r)
    (hp : r.next = some (expected, value)) (hv : (w.registry ()).version = expected)

/-- Where the retirement of a source comes from in a step. -/
inductive RetireMove (w : World) (n : Nat) (r' : Retirement) : Prop
  | same (hr : w.retirements n = some r')
  | begun (cell : Cell StoredRecord) (hg : (w.entities r'.source.2).get = some cell)
    (hd : cell.value.val.metadata.destroyed = true) (ht : cell.value.val.metadata.type = r'.source.1)
    (hn : r'.next = none)
  | read (r : Retirement) (cell : Cell DeliverySources) (hr : w.retirements n = some r) (hs : r'.source = r.source)
    (hg : (w.registry ()).get = some cell) (hn : r'.next = some (cell.version, cell.value.erase r.source))
  | again (r : Retirement) (hr : w.retirements n = some r) (hs : r'.source = r.source) (hn : r'.next = none)

/-- The registry is kept or written once. -/
def RegistryMove (w w' : World) : Prop :=
  w'.registry = w.registry ∨ ∃ version value, ∃ hf : (w.registry ()).Fresh version,
    w'.registry = update w.registry () ((w.registry ()).push version value hf) ∧ RegistryWrite w value

/-- What a step does to the registry and to those who write it. -/
structure RegistryView (w w' : World) : Prop where
  registry : RegistryMove w w'
  sends : ∀ host n send', (w'.hosts host).sends n = some send' → SendMove w w' host n send'
  retirements : ∀ n r', w'.retirements n = some r' → RetireMove w n r'

theorem registryView_keep (hr : w'.registry = w.registry) (ht : w'.retirements = w.retirements)
    (hs : ∀ host, (w'.hosts host).sends = (w.hosts host).sends) : RegistryView w w' := by
  refine ⟨.inl hr, fun _ n _ h => .same ?_, fun n _ h => .same ?_⟩
  · rw [← hs]
    exact h
  · rw [← ht]
    exact h

theorem RegistryView.refl (w : World) : RegistryView w w := registryView_keep rfl rfl fun _ => rfl

theorem setHost_sends (hs : h.sends = (w.hosts host).sends) (host' : HostId) :
    ((w.setHost host h).hosts host').sends = (w.hosts host').sends := by
  by_cases hh : host' = host
  · subst hh
    rw [setHost_self]
    exact hs
  · rw [show (w.setHost host h).hosts host' = w.hosts host' from update_of_ne hh _ _]

theorem registryView_onHost {f : Host → Host} (hf : (f (w.hosts host)).sends = (w.hosts host).sends) :
    RegistryView w (w.onHost host f) :=
  registryView_keep rfl rfl (setHost_sends hf)

theorem registryView_play {turn : Turn} (hs : turn.host.sends = (w.hosts host).sends) :
    RegistryView w (w.play host turn) :=
  registryView_keep rfl rfl (setHost_sends hs)

theorem registryView_setJob (hr : w'.registry = w.registry) (ht : w'.retirements = w.retirements)
    (hh : w'.hosts = (w.setJob host k j).hosts) : RegistryView w w' := by
  refine registryView_keep hr ht fun host' => ?_
  rw [hh]
  exact setHost_sends (by rfl) host'

theorem registryView_storage {a : Access} : RegistryView w (w.storage hash host k a j) := by
  unfold World.storage World.readFor World.grant World.commit World.arm
  dsimp only
  repeat' split
  all_goals first
    | exact registryView_setJob rfl rfl rfl
    | exact .refl w

theorem finishAcquire_sends (threw : Bool) :
    ((w.hosts host).finishAcquire hash host k j threw env).host.sends = (w.hosts host).sends := by
  unfold Host.finishAcquire
  split
  · exact Host.complete_sends ..
  split
  · rename_i hs
    obtain ⟨_, _, hc, -⟩ := refuseAcquired_complete (w.hosts host) k hs
    rw [hc]
    exact Host.complete_sends ..
  · rw [(runAcquired_runs hash host (w.hosts host) k j env).turned.sends, (learnOwner_slotOnly ..).sends]

theorem registryView_finish : RegistryView w (w.finish hash host k env j) := by
  unfold World.finish
  dsimp only
  split
  · exact .refl w
  split
  · exact registryView_play (finishAcquire_sends _)
  · rename_i threw _ _
    obtain ⟨_, _, hc, -⟩ := finishCommit_complete (w.hosts host) k j threw
    rw [hc]
    exact registryView_play (Host.complete_sends ..)
  · exact .refl w

theorem registryView_script {result : Result} (hr : (w.hosts host).running k = some j) :
    RegistryView w (w.play host ((w.hosts host).scriptResult hash host k j result env)) := by
  obtain ⟨-, steps, _, hp⟩ := running_eq_some hr
  cases steps with
  | nil =>
    refine registryView_play ?_
    unfold Host.scriptResult
    rw [hp]
  | cons hook rest =>
    have ha := scriptResult_answers hash host (w.hosts host) k hp (cons_ne_nil hook rest) result env
    exact registryView_play ha.turned.sends

theorem registryView_releaseStorage {a : Access} (stage : ReleaseStage) :
    RegistryView w (w.releaseStorage host k a stage) := by
  unfold World.releaseStorage
  split
  · exact registryView_keep rfl rfl (setHost_sends rfl)
  · split
    · exact .refl w
    · refine registryView_keep rfl rfl fun host' => ?_
      exact setHost_sends (by rfl) host'
  · exact .refl w

/-- One send has moved on. -/
theorem registryView_setSend {n : Nat} {next : Send} (hr : RegistryMove w w') (ht : w'.retirements = w.retirements)
    (hh : w'.hosts = (w.setHost host ((w.hosts host).setSend n next)).hosts) (hm : SendMove w w' host n next) :
    RegistryView w w' := by
  refine ⟨hr, fun host' n' _ hs => ?_, fun n _ h => .same (ht ▸ h)⟩
  rw [hh] at hs
  by_cases hhost : host' = host
  · subst hhost
    rw [setHost_self] at hs
    by_cases hn : n' = n
    · subst hn
      rw [show ((w.hosts host').setSend n' next).sends n' = some next from update_self ..] at hs
      cases hs
      exact hm
    · rw [show ((w.hosts host').setSend n next).sends n' = (w.hosts host').sends n' from update_of_ne hn _ _] at hs
      exact .same hs
  · rw [show (w.setHost host ((w.hosts host).setSend n next)).hosts host' = w.hosts host' from
      update_of_ne hhost _ _] at hs
    exact .same hs

theorem registryView_sendStorage {n : Nat} {send : Send} {a : Access} (hs : (w.hosts host).sends n = some send) :
    RegistryView w (w.sendStorage host n a send) := by
  unfold World.sendStorage
  dsimp only
  split
  · refine registryView_setSend (.inl rfl) rfl rfl (.harmless ?_)
    split
    · exact harmless_finish (by decide)
    · exact resumeTarget_harmless send _
  · rename_i attempt _
    refine registryView_setSend (.inl rfl) rfl rfl ?_
    split
    · exact .harmless (harmless_finish (by decide))
    · exact .read send attempt _ hs rfl
  · rename_i attempt expected sources hp
    split
    · exact .refl w
    rename_i hswap
    rcases Store.swap_cases hswap with ⟨rfl, hv, hf, rfl⟩ | ⟨rfl, rfl⟩
    · refine registryView_setSend (.inr ⟨a.version, sources, hf, rfl, .register host n send attempt expected hs hp hv⟩)
        rfl rfl ?_
      split
      · exact .harmless (harmless_finish (by decide))
      · refine .registered send attempt expected sources hs hp rfl ⟨⟨a.version, sources⟩, ?_, rfl⟩
        simp [World.setHost]
    · refine registryView_setSend (.inl rfl) rfl rfl (.harmless ?_)
      split
      · exact harmless_finish (by decide)
      unfold Send.resumeRegister
      rw [if_neg (by decide)]
      split
      · exact ⟨by simp, by simp⟩
      · exact harmless_finish (by decide)
  · exact .refl w

theorem registryView_startSend (n : Nat) (type id method payload : Bytes) :
    RegistryView w (w.onHost host fun h => h.startSend k n type id method payload) := by
  unfold World.onHost Host.startSend
  dsimp only
  split
  · exact registryView_keep rfl rfl (setHost_sends rfl)
  split
  · exact registryView_keep rfl rfl (setHost_sends rfl)
  · exact registryView_setSend (.inl rfl) rfl rfl (.harmless ⟨nofun, nofun⟩)

theorem finishSend_sends {n : Nat} (send : Send) (status : Status) {m : Nat} {send' : Send}
    (hs : (h.finishSend hash n send status).sends m = some send') : h.sends m = some send' := by
  have hkept : update h.sends n none m = some send' → h.sends m = some send' := by
    intro hs
    by_cases hm : m = n
    · subst hm
      rw [update_self] at hs
      cases hs
    · rwa [update_of_ne hm] at hs
  unfold Host.finishSend at hs
  dsimp only at hs
  split at hs
  · exact hkept hs
  split at hs
  · exact hkept hs
  · split at hs
    · exact hkept hs
    · exact hkept hs

theorem registryView_finishSend (n : Nat) (send : Send) (status : Status) :
    RegistryView w (w.onHost host fun h => h.finishSend hash n send status) := by
  refine ⟨.inl rfl, fun host' m _ hs => .same ?_, fun _ _ hr => .same hr⟩
  by_cases hhost : host' = host
  · subst hhost
    have hself : (w.onHost host' fun h => h.finishSend hash n send status).hosts host' =
        (w.hosts host').finishSend hash n send status := setHost_self ..
    rw [hself] at hs
    exact finishSend_sends send status hs
  have hother : (w.onHost host fun h => h.finishSend hash n send status).hosts host' = w.hosts host' :=
    update_of_ne hhost _ _
  rw [hother] at hs
  exact hs

/-- One retirement has moved on. -/
theorem registryView_setRetirement {n : Nat} {next : Option Retirement} (hr : RegistryMove w w')
    (hh : w'.hosts = w.hosts) (ht : w'.retirements = update w.retirements n next)
    (hm : ∀ r', next = some r' → RetireMove w n r') : RegistryView w w' := by
  refine ⟨hr, fun _ m _ hs => .same (hh ▸ hs), fun m r' h => ?_⟩
  rw [ht] at h
  by_cases hn : m = n
  · subst hn
    rw [update_self] at h
    exact hm r' h
  · rw [update_of_ne hn] at h
    exact .same h

theorem registryView_deliveryScan (source : Bytes × Bytes) (n : Nat) : RegistryView w (w.deliveryScan source n) := by
  unfold World.deliveryScan
  split
  · exact .refl w
  split
  · exact .refl w
  rename_i cell hget
  dsimp only
  split
  · rename_i hdestroyed
    split
    · exact .refl w
    rename_i hnot
    rw [not_or, not_not] at hnot
    refine registryView_setRetirement (.inl rfl) rfl rfl fun _ h => ?_
    cases h
    exact .begun cell hget hdestroyed hnot.1 rfl
  · split <;> exact registryView_keep rfl rfl fun _ => rfl

theorem registryView_retire (n : Nat) (a : Access) : RegistryView w (w.retire n a) := by
  unfold World.retire
  split
  · exact .refl w
  rename_i r hr
  split
  · split
    · exact registryView_setRetirement (.inl rfl) rfl rfl fun r' h => (nomatch h)
    rename_i cell hcell
    have hget : (w.registry ()).get = some cell := by
      split at hcell
      · cases hcell
      · exact hcell
    split
    · refine registryView_setRetirement (.inl rfl) rfl rfl fun r' h => ?_
      cases h
      exact .read r cell hr rfl hget rfl
    · exact registryView_setRetirement (.inl rfl) rfl rfl fun r' h => (nomatch h)
  · rename_i expected sources hnext
    split
    · exact .refl w
    rename_i registry _ _ hswap
    have hwrite : RegistryMove w { w with registry } := by
      rcases Store.swap_cases hswap with ⟨-, hv, hf, hreg⟩ | ⟨-, hreg⟩
      · exact .inr ⟨a.version, sources, hf, hreg, .retire n r expected hr hnext hv⟩
      · exact .inl hreg
    dsimp only
    split
    · exact registryView_setRetirement hwrite rfl rfl fun r' h => (nomatch h)
    · refine registryView_setRetirement hwrite rfl rfl fun r' h => ?_
      cases h
      exact .again r hr rfl rfl

theorem step_registry (hash : Bytes → Bytes) (w : World) (action : Action) : RegistryView w (w.step hash action) := by
  cases action with
  | bind =>
    refine registryView_onHost ?_
    unfold World.bindMethod
    split <;> rfl
  | setPolicy =>
    refine registryView_onHost ?_
    unfold World.setPolicy
    split
    · rfl
    · split <;> rfl
  | unbind | enableDelivery | drain | stop => exact registryView_keep rfl rfl (setHost_sends rfl)
  | create =>
    simp only [World.step, World.create]
    repeat' split
    all_goals exact registryView_keep rfl rfl fun _ => rfl
  | ask =>
    simp only [World.step]
    split
    · exact .refl w
    · exact registryView_onHost (enqueue_sends ..)
  | acquire _ k =>
    refine registryView_onHost (f := fun h => h.acquire k) ?_
    unfold Host.acquire
    repeat' split
    all_goals rfl
  | expireQueued _ k position =>
    refine registryView_onHost (f := fun h => h.expireQueued k position) ?_
    unfold Host.expireQueued
    repeat' split
    all_goals rfl
  | expireJob =>
    refine registryView_play ?_
    unfold Host.expireJob
    split
    · rfl
    · split
      · exact Host.complete_sends ..
      · rfl
  | evict host k =>
    refine registryView_onHost (f := fun h => h.evict hash host k) ?_
    unfold Host.evict
    split
    · rfl
    split
    · rfl
    · split
      · exact enqueue_sends ..
      · exact (SlotOnly.dropSlot ..).sends
  | deactivate host k generation accepted =>
    refine registryView_onHost (f := fun h => h.deactivate hash host k generation accepted) ?_
    unfold Host.deactivate
    split
    · rfl
    split
    · exact enqueue_sends ..
    · repeat' split
      all_goals rfl
  | storage =>
    simp only [World.step]
    split
    · exact .refl w
    · exact registryView_storage
  | finish =>
    simp only [World.step]
    split
    · exact .refl w
    · exact registryView_finish
  | releaseStorage =>
    simp only [World.step]
    split
    · exact .refl w
    · exact registryView_releaseStorage _
  | finishRelease =>
    simp only [World.step]
    split
    · refine registryView_onHost ?_
      unfold Host.finishRelease
      dsimp only
      split
      · exact (SlotOnly.dropSlot ..).sends
      · split <;> rfl
    · exact .refl w
  | script host k result env =>
    simp only [World.step]
    split
    · exact .refl w
    · rename_i hr
      exact registryView_script hr
  | schedule =>
    refine registryView_play ?_
    unfold Host.schedule
    repeat' split
    all_goals rfl
  | cancel _ k key =>
    refine registryView_onHost (f := fun h => h.cancel k key) ?_
    unfold Host.cancel
    repeat' split
    all_goals rfl
  | forget _ k ticket =>
    refine registryView_onHost (f := fun h => h.forget k ticket) ?_
    unfold Host.forget
    split <;> rfl
  | startSend _ _ n type id method payload => exact registryView_startSend n type id method payload
  | sendStorage host n a =>
    simp only [World.step]
    split
    · exact .refl w
    · rename_i hs
      exact registryView_sendStorage hs
  | finishSend _ n =>
    simp only [World.step]
    split
    · exact .refl w
    · split
      · exact registryView_finishSend n _ _
      · exact .refl w
  | scanBucket | scanRecord | scanWrite =>
    simp only [World.step, World.scanBucket, World.scanRecord, World.scanWrite]
    repeat' split
    all_goals exact registryView_keep rfl rfl fun _ => rfl
  | deliveryScan source n => exact registryView_deliveryScan source n
  | retire n a => exact registryView_retire n a

end Fsnet
