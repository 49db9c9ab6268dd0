import Fsnet.World.Lineage
/-!
# What the trace says about its events

Every event is explained by what came before it. A write replaced the newest
record, and what it wrote follows from the job that made it; a job that commits
still holds the cell it acquired; a request was answered with success only
after a commit, or from a record.
-/

namespace Fsnet

open Lib List

/-! ## What a job keeps from its acquisition on -/

/-- The fields no step of an acquired job touches. -/
structure Steady (j j' : Job) : Prop where
  kept : Kept j j'
  version : j'.version = j.version
  expires : j'.expires = j.expires
  placement : j'.placement = j.placement
  transferId : j'.transferId = j.transferId
  created : j'.created = j.created
  timerEvent : j'.timerEvent = j.timerEvent
  replay : j'.replay = j.replay

namespace Steady

variable {a b c j : Job}

theorem refl (j : Job) : Steady j j := ⟨.refl j, rfl, rfl, rfl, rfl, rfl, rfl, rfl⟩

theorem trans (h : Steady a b) (h' : Steady b c) : Steady a c :=
  ⟨h.kept.trans h'.kept, h'.version.trans h.version, h'.expires.trans h.expires, h'.placement.trans h.placement,
    h'.transferId.trans h.transferId, h'.created.trans h.created, h'.timerEvent.trans h.timerEvent,
    h'.replay.trans h.replay⟩

end Steady

variable {hash : Bytes → Bytes} {host : HostId} {h : Host} {limits : RuntimeLimits} {k : EntityKey} {env : Ambient}
  {j j' : Job} {T : List Event} {c : Cell StoredRecord} {value : StoredRecord}

theorem Admitted.steady (ha : Admitted h k env j j') : Steady j j' := by
  refine ⟨ha.kept, ?_, ?_, ?_, ?_, ?_, ?_, ?_⟩ <;> rw [ha.same]

theorem Restored.steady {slot : Slot} (hr : Restored h slot j j') : Steady j j' := by
  refine ⟨hr.kept, ?_, ?_, ?_, ?_, ?_, ?_, ?_⟩ <;> rw [hr.same]

theorem Amends.steady (ha : Amends hash limits k j j') : Steady j j' := by
  refine ⟨ha.kept, ?_, ?_, ?_, ?_, ?_, ?_, ?_⟩ <;> cases ha with
    | schedule _ _ hs => rw [hs.same]
    | cancel | forget | send => rfl

/-- What a step of script logic can change. -/
theorem ScriptStep.same (hs : ScriptStep hash limits k j j') : j' = { j with
    timers := j'.timers, timerDirty := j'.timerDirty, timerCharge := j'.timerCharge, delivery := j'.delivery
    resident := j'.resident, phase := j'.phase, logicStarted := j'.logicStarted } := by
  cases hs with
  | amends _ ha =>
    cases ha with
    | schedule _ _ hs => rw [hs.same]
    | cancel | forget | send => rfl
  | charges | starts => rfl

theorem ScriptStep.steady (hs : ScriptStep hash limits k j j') : Steady j j' := by
  rw [hs.same]
  exact ⟨.set rfl, rfl, rfl, rfl, rfl, rfl, rfl, rfl⟩

theorem steady_path (hp : Relation.ReflTransGen (ScriptStep hash limits k) j j') : Steady j j' := by
  induction hp with
  | refl => exact .refl j
  | tail _ hs ih => exact ih.trans hs.steady

theorem Settles.steady {r r' : Result} (hs : Settles j r j' r') : Steady j j' := by
  refine ⟨hs.kept, ?_, ?_, ?_, ?_, ?_, ?_, ?_⟩ <;> cases hs <;> rfl

theorem Built.steady {now : Int} {result : Result} (hb : Built hash host limits k now j result j' value) :
    Steady j j' := by
  have hk : Kept j j' := by
    rw [hb.same]
    exact .set rfl
  refine ⟨hk, ?_, ?_, ?_, ?_, ?_, ?_, ?_⟩ <;> rw [hb.same]

/-- What holds of a job that has acquired the cell `c`. -/
structure Grounded (host : HostId) (limits : RuntimeLimits) (c : Cell StoredRecord) (j : Job) : Prop where
  admits : Admits host j.request c.value.val
  owner : c.value.val.owner = host.owner
  version : j.version = c.version
  fence : j.fence = c.value.val.fence
  expires : j.expires = c.value.val.expires
  placement : j.placement = c.value.val.placement
  transferId : j.transferId = c.value.val.transferId
  created : j.created = !c.value.val.initialized

/-- A record is admitted whatever the payload and the error of the request are. -/
theorem Admits.congr {request : Request} {r : EntityRecord} (h : Admits host request r) (payload : Bytes)
    (deliveryError : Option Result) : Admits host { request with payload, deliveryError } r := { h with }

theorem Grounded.steady (hg : Grounded host limits c j) (hs : Steady j j') : Grounded host limits c j' := by
  obtain ⟨deliveryError, hr, -⟩ := hs.kept.request
  refine ⟨?_, hg.owner, hs.version.trans hg.version, hs.kept.fence.trans hg.fence, hs.expires.trans hg.expires,
    hs.placement.trans hg.placement, hs.transferId.trans hg.transferId, hs.created.trans hg.created⟩
  rw [hr]
  exact hg.admits.congr j.request.payload deliveryError

theorem Acquired.grounded {H : History} (ha : Acquired H host limits k c j) : Grounded host limits c j := by
  obtain ⟨j₀, r, time, x, hat, rfl, hc⟩ := ha.loaded
  have hadmits := hat.found.admits.congr x.payload j₀.request.deliveryError
  rcases hc with ⟨rfl, howner⟩ | hc
  · exact ⟨hadmits, howner, rfl, rfl, rfl, rfl, rfl, rfl⟩
  refine ⟨?_, ?_, rfl, rfl, rfl, ?_, ?_, ?_⟩
  · rw [hc]
    exact { hadmits with }
  all_goals
    rw [hc]
    rfl

/-! ## Lawful events -/

/-- The job's record was swapped in. -/
def CommittedBy (T : List Event) (host : HostId) (k : EntityKey) (j : Job) (value : StoredRecord) : Prop :=
  ∃ j' old new, .committed host k j' old new ∈ T ∧ new.value = value ∧ ∃ stage, j = j'.commitStage value stage

/-- Why a request was answered with success. -/
inductive Succeeded (T : List Event) (host : HostId) (k : EntityKey) (j : Job) (result : Result) : Prop
  /-- A delivery whose job was refused as not found is acknowledged as such. -/
  | missing (e : DeliveryEnvelope) (hi : j.request.incoming = some e) (hs : j.status = .notFound)
    (hd : encodeDeliveryAck e.message.ticket ⟨.notFound, []⟩ = .ok result.data)
  /-- The answer was found in a record. -/
  | replayed (h : Host) (env : Ambient) (j₀ : Job) (c : Cell StoredRecord) (hc : .acquired host k j₀ c ∈ T)
    (hr : j₀.replay = true) (ha : Admitted h k env j₀ j) (hd : result.data = j₀.output)
  | committed (value : StoredRecord) (hc : CommittedBy T host k j value) (hd : result.data = j.output)

/-- What the trace before an event says about it. -/
def Event.Lawful (hash : Bytes → Bytes) (limits : HostId → RuntimeLimits) (T : List Event) : Event → Prop
  | .created id cell => history T id = [] ∧ ∃ creation : EntityCreation, cell.value.val = creation.record
  | .acquired host k j c => Acquired (history T) host (limits host) k c j
  | .granted host k j old new => (history T k.id).head? = some old ∧ ∃ j₀ time x,
      Attempted (history T) host k j₀ old.value.val time x ∧
      new.value.val = old.value.val.leased host (limits host) j₀.cachedFence time ∧
      ∃ stage, j = (j₀.loaded host old.value.val x).acquiring stage
  | .committed host k j old new =>
      (history T k.id).head? = some old ∧ Commits hash T host (limits host) k old new.value j
  | .released host k old new => (history T k.id).head? = some old ∧ old.value.val.owner = host.owner ∧
      new.value.val = { old.value.val with owner := [], expires := 0 }
  | .host host (.replied k j result) => result.status = .ok → Succeeded T host k j result
  | .host _ _ => True

/-- Every event is lawful. -/
def Past (hash : Bytes → Bytes) (limits : HostId → RuntimeLimits) (T : List Event) : Prop :=
  ∀ e earlier, e :: earlier <:+ T → e.Lawful hash limits earlier

section
variable {limits : HostId → RuntimeLimits}

theorem Past.append {news : List Event} (hp : Past hash limits T)
    (hn : ∀ newer e older, news = newer ++ e :: older → e.Lawful hash limits (older ++ T)) :
    Past hash limits (news ++ T) := by
  induction news with
  | nil => exact hp
  | cons e news ih =>
    intro e' earlier hs
    rcases suffix_cons_iff.1 hs with heq | hs
    · injection heq with he ht
      rw [he, ht]
      exact hn [] e news rfl
    · refine ih (fun newer e older heq => ?_) e' earlier hs
      rw [heq] at hn
      exact hn (_ :: newer) e older rfl

/-- The acquisitions of the past, with what has been written since. -/
theorem Past.acquired (hp : Past hash limits T) (he : .acquired host k j c ∈ T) :
    Acquired (history T) host (limits host) k c j := by
  obtain ⟨newer, earlier, rfl⟩ := append_of_mem he
  have ha : Acquired (history earlier) host (limits host) k c j := hp _ earlier ⟨newer, rfl⟩
  refine ha.mono (history_grows fun e he => ?_)
  exact mem_append_right _ (mem_cons_of_mem _ he)

/-- The acquisition of a job that executes. -/
theorem Executes.acquired {l : RuntimeLimits} (he : Executes hash T host l k c j) :
    ∃ j₀, .acquired host k j₀ c ∈ T ∧ j₀.replay = false ∧ Steady j₀ j := by
  obtain ⟨h, _, _, j₀, _, _, hacq, hreplay, ha, -, hr, hpath⟩ := he.past
  exact ⟨j₀, hacq, hreplay, (ha.steady.trans hr.steady).trans (steady_path hpath)⟩

/-- What neither the way to script logic nor a step of it changes. -/
theorem Executes.keeps {l : RuntimeLimits} {α : Type} (f : Job → α)
    (ha : ∀ {h : Host} {env : Ambient} {j j' : Job}, Admitted h k env j j' → f j' = f j)
    (hr : ∀ {h : Host} {slot : Slot} {j j' : Job}, Restored h slot j j' → f j' = f j)
    (hs : ∀ {j j' : Job}, ScriptStep hash l k j j' → f j' = f j) (he : Executes hash T host l k c j) :
    ∃ j₀, .acquired host k j₀ c ∈ T ∧ j₀.replay = false ∧ f j = f j₀ := by
  obtain ⟨h, _, _, j₀, _, _, hacq, hreplay, hadmitted, -, hrestored, hpath⟩ := he.past
  refine ⟨j₀, hacq, hreplay, ?_⟩
  clear he
  induction hpath with
  | refl => exact (hr hrestored).trans (ha hadmitted)
  | tail _ hstep ih => exact (hs hstep).trans ih

theorem Executes.grounded (hp : Past hash limits T) (he : Executes hash T host (limits host) k c j) :
    c ∈ history T k.id ∧ Grounded host (limits host) c j := by
  obtain ⟨_, hacq, -, hsteady⟩ := he.acquired
  have hacquired := hp.acquired hacq
  exact ⟨hacquired.mem, hacquired.grounded.steady hsteady⟩

theorem Commits.grounded (hp : Past hash limits T) (hc : Commits hash T host (limits host) k c value j) :
    c ∈ history T k.id ∧ Grounded host (limits host) c j := by
  obtain ⟨_, _, _, _, _, _, he, hs, hb, -, _, _, _, rfl⟩ := hc.past
  obtain ⟨hmem, hg⟩ := he.grounded hp
  refine ⟨hmem, ?_⟩
  have hgb := hg.steady (hs.steady.trans hb.steady)
  exact ⟨hgb.admits, hgb.owner, hgb.version, hgb.fence, hgb.expires, hgb.placement, hgb.transferId, hgb.created⟩

end

/-! ## Releases -/

/-- A release that read the record is about to write it without the lease. -/
def Releasing (T : List Event) (host : HostId) (k : EntityKey) (stage : ReleaseStage) : Prop :=
  ∀ expected value, stage = .writing expected value → ∃ c ∈ history T k.id, c.version = expected ∧
    c.value.val.owner = host.owner ∧ value.val = { c.value.val with owner := [], expires := 0 }

theorem Releasing.mono {T' : List Event} {stage : ReleaseStage} (hT : T ⊆ T') (hr : Releasing T host k stage) :
    Releasing T' host k stage := by
  intro expected value hs
  obtain ⟨c, hc, hrest⟩ := hr expected value hs
  exact ⟨c, history_grows hT _ c hc, hrest⟩

section
variable {w w' : World} {o o' : Option Job} {news : List Event}

theorem ReleaseStep.releasing {stage stage' : ReleaseStage} (hcells : ∀ id, (w.entities id).cells = history T id)
    (hs : ReleaseStep w host k stage stage') : Releasing T host k stage' := by
  intro _ _ hw
  cases hs with
  | fail | write => cases hw
  | read =>
    unfold Host.releaseRead at hw
    split at hw
    · cases hw
    rename_i cell hg
    split at hw
    · cases hw
    rename_i howner
    split at hw
    · cases hw
    rename_i hv
    cases hw
    refine ⟨cell, ?_, rfl, not_not.1 howner, EntityRecord.encoded_eq_some.1 hv⟩
    rw [← hcells]
    exact Register.mem_of_get hg

/-- Where the release of an entity comes from in a step. -/
theorem JobMove.release {stage : ReleaseStage} (hm : JobMove hash w w' host k o o' news)
    (hs : (w'.hosts host).releases k = some stage) :
    (w.hosts host).releases k = some stage ∨ stage = .reading ∨ ∃ stage₀, ReleaseStep w host k stage₀ stage := by
  have hcomplete : ∀ {j : Job} {result : Result} {uncertain : Bool},
      w'.hosts host = ((w.hosts host).complete k j result uncertain).host → (w.hosts host).releases k = some stage := by
    intro j result uncertain hh
    rw [hh, Host.complete_releases] at hs
    exact hs
  cases hm with
  | same _ _ _ hslot =>
    cases hslot with
    | same _ hr | push _ _ _ _ _ _ _ _ hr | expire _ _ _ _ _ hr | drop _ _ _ _ hr => exact .inl (hr ▸ hs)
    | deactivate _ _ _ _ hr =>
      rw [hr] at hs
      exact .inr (.inl (Option.some.inj hs).symm)
    | release stage₀ _ _ hstep _ hr =>
      rw [hr] at hs
      exact .inr (.inr ⟨stage₀, Option.some.inj hs ▸ hstep⟩)
    | released _ _ _ hr =>
      rw [hr] at hs
      cases hs
  | stop _ _ hr =>
    rw [hr] at hs
    cases hs
  | begin _ _ _ _ _ _ _ _ hr => exact .inl (hr ▸ hs)
  | acquire _ _ _ _ hr | commit _ _ _ _ hr | schedule _ _ _ _ _ _ _ hr | amend _ _ _ _ _ _ hr =>
    exact .inl (hr.release ▸ hs)
  | threw _ _ hh | refuse _ _ _ _ _ _ hh | timeOut _ _ _ _ hh | finish _ _ _ _ _ _ _ hh => exact .inl (hcomplete hh)
  | run _ _ _ _ _ hr hh =>
    rw [hh, (hr.isLocal (learnOwner_slotOnly _ _ _)).releases] at hs
    exact .inl hs
  | answer _ _ _ _ _ _ _ ha hh =>
    rw [hh, ha.isLocal.releases] at hs
    exact .inl hs

end

/-! ## The invariant -/

/-- The swap of a job that has ended is in the trace. -/
def Written (T : List Event) (host : HostId) (k : EntityKey) (j : Job) : Prop :=
  ∀ value, j.phase = .committing (.finished false) value → j.status = .ok → CommittedBy T host k j value

/-- The state agrees with the trace, and the trace is lawful. -/
structure Traced (hash : Bytes → Bytes) (limits : HostId → RuntimeLimits) (w : World) : Prop where
  fixed : ∀ host, (w.hosts host).limits = limits host
  cells : ∀ id, (w.entities id).cells = history w.trace id
  jobs : ∀ host k j, (w.hosts host).active k = some j → Lineage hash w.trace host (limits host) k j
  written : ∀ host k j, (w.hosts host).active k = some j → Written w.trace host k j
  releases : ∀ host k stage, (w.hosts host).releases k = some stage → Releasing w.trace host k stage
  past : Past hash limits w.trace

section
variable {limits : HostId → RuntimeLimits} {w w' : World} {o o' : Option Job} {news : List Event}

theorem Traced.newest (ht : Traced hash limits w) (id : Bytes) : (history w.trace id).head? = (w.entities id).get := by
  rw [← ht.cells, Register.get]

/-- A cell of the trace whose version the store still has is the newest one. -/
theorem Traced.get_of_version (ht : Traced hash limits w) {id : Bytes} (hc : c ∈ history w.trace id)
    (hv : (w.entities id).version = c.version) : (w.entities id).get = some c :=
  Register.get_of_version (by rw [ht.cells]; exact hc) hv

/-- The one write of a step, with the event that explains it. -/
structure Wrote (hash : Bytes → Bytes) (limits : HostId → RuntimeLimits) (w w' : World) (e : Event) : Prop where
  write : ∃ id version value, Pushes w w' id version value ∧
    ∀ id', e.writeTo id' = if id = id' then some ⟨version, value⟩ else none
  lawful : e.Lawful hash limits w.trace

theorem Traced.wrote (ht : Traced hash limits w) (hm : StoreMove w w' news) :
    (w'.entities = w.entities ∧ ∀ e ∈ news, ∀ id, e.writeTo id = none) ∨
      ∃ e, news = [e] ∧ Wrote hash limits w w' e := by
  cases hm with
  | keep _ he hn => exact .inl ⟨he, hn⟩
  | create id creation version value _ hv hget hp =>
    refine .inr ⟨_, rfl, ⟨id, version, value, hp, fun _ => rfl⟩, ?_, creation, hv⟩
    have hnil := ht.newest id
    rw [hget] at hnil
    exact head?_eq_none_iff.1 hnil
  | grant host k j _ _ version value hj hph hver hp =>
    have hl := ht.jobs host k j hj
    unfold Lineage at hl
    rw [hph] at hl
    obtain ⟨c, hc, rfl, j₀, time, x, hat, hvalue, hstage⟩ := hl
    have hget := ht.get_of_version hc hver
    rw [hget]
    refine .inr ⟨_, rfl, ⟨k.id, version, value, hp, fun _ => rfl⟩, ?_, j₀, time, x, hat, hvalue, hstage⟩
    rw [ht.newest, hget]
  | commit host k j version value hj hph hver hp =>
    obtain ⟨c, hc⟩ := lineage_committing hph (ht.jobs host k j hj)
    obtain ⟨hmem, hg⟩ := hc.grounded ht.past
    have hget := ht.get_of_version hmem (hver.trans hg.version)
    rw [hget]
    refine .inr ⟨_, rfl, ⟨k.id, version, value, hp, fun _ => rfl⟩, ?_, hc⟩
    rw [ht.newest, hget]
  | release host k expected version value hr hver hp =>
    obtain ⟨c, hc, rfl, howner, hvalue⟩ := ht.releases host k _ hr expected value rfl
    have hget := ht.get_of_version hc hver
    rw [hget]
    refine .inr ⟨_, rfl, ⟨k.id, version, value, hp, fun _ => rfl⟩, ?_, howner, hvalue⟩
    rw [ht.newest, hget]

theorem history_append (news T : List Event) (id : Bytes) :
    history (news ++ T) id = news.filterMap (Event.writeTo id) ++ history T id :=
  filterMap_append

theorem Traced.cells_step (ht : Traced hash limits w) (hm : StoreMove w w' news) (id : Bytes) :
    (w'.entities id).cells = history (news ++ w.trace) id := by
  rw [history_append]
  rcases ht.wrote hm with ⟨he, hn⟩ | ⟨e, rfl, ⟨id₀, _, _, hp, hw⟩, -⟩
  · rw [he, ht.cells, filterMap_eq_nil_iff.2 fun e he => hn e he id, nil_append]
  rw [hp.pushed, filterMap_cons, hw, filterMap_nil]
  by_cases hid : id₀ = id
  · subst hid
    rw [Function.update_self, if_pos rfl, Register.cells_push, ht.cells]
    rfl
  · rw [Function.update_of_ne (Ne.symm hid), if_neg hid, ht.cells]
    rfl

/-! ## Jobs along a step -/

variable {T' : List Event} {h : Host} {result : Result} {turn : Turn} {e : Event}

theorem CommittedBy.mono (hT : T ⊆ T') (hc : CommittedBy T host k j value) : CommittedBy T' host k j value := by
  obtain ⟨j', old, new, he, hrest⟩ := hc
  exact ⟨j', old, new, hT he, hrest⟩

theorem Written.mono (hT : T ⊆ T') (hw : Written T host k j) : Written T' host k j :=
  fun value hp hs => (hw value hp hs).mono hT

/-- A job whose commit has not ended. -/
theorem written_of_phase (hp : ∀ value, j.phase ≠ .committing (.finished false) value) : Written T host k j :=
  fun value hph => absurd hph (hp value)

theorem kept_starting (j : Job) (resident : Nat) (hook : Hook) (rest : List Hook) (state : Bytes) :
    Kept j (j.starting resident hook rest state) := .set rfl

/-- The job runs a step of script logic, or has just been handed to its commit. -/
def Job.GoesOn (j : Job) : Prop :=
  (∃ value, j.phase = .committing .submitted value) ∨ ∃ steps state, j.phase = .executing steps state

/-- Where a turn of a job leaves its host: the job is answered, with success only if
`good`, or it goes on. -/
inductive Turned (h : Host) (k : EntityKey) (j : Job) (good : Prop) : Host → Prop
  | ended (c : Counters) (j' : Job) (r : Result) (hr : r.status = .ok → good) :
    Turned h k j good ({ h with counters := c }.complete k j' r).host
  | goesOn (c : Counters) (j' : Job) (hk : Kept j j') (hp : j'.GoesOn) :
    Turned h k j good ({ h with counters := c }.setJob k j')

theorem Concludes.turned {j₀ : Job} {good : Prop} (hk : Kept j₀ j)
    (hc : Concludes hash host h k env j result turn) : Turned h k j₀ good turn.host := by
  cases hc with
  | ended c j₁ r _ _ hr => exact .ended c j₁ r fun hok => absurd hok hr
  | commits c _ _ j₂ v _ hs hb =>
    refine .goesOn c j₂ (hk.trans (hs.kept.trans hb.steady.kept)) (.inl ⟨v, ?_⟩)
    rw [hb.same]

theorem Answers.turned (ha : Answers hash host h k env j result turn) : Turned h k j False turn.host := by
  cases ha with
  | concludes resident _ _ hc =>
    have hk : Kept j { j with resident } := .set rfl
    exact hc.turned hk
  | starts c => exact .goesOn c _ (kept_starting ..) (.inr ⟨_, _, rfl⟩)

theorem Runs.turned (hr : Runs hash host h k env j turn) : Turned h k j (j.replay = true) turn.host := by
  cases hr with
  | refused c j₁ r _ hs | failed c _ j₁ r _ _ hs => exact .ended c j₁ r fun hok => absurd hok hs
  | replayed c j₁ _ hr => exact .ended c j₁ _ fun _ => hr
  | concludes _ _ _ turn' ha _ _ hres _ _ _ hc =>
    have hturned : Turned h k j (j.replay = true) turn'.host := hc.turned (ha.kept.trans hres.kept)
    exact hturned
  | starts c _ _ _ ha _ _ hres =>
    exact .goesOn c _ ((ha.kept.trans hres.kept).trans (kept_starting ..)) (.inr ⟨_, _, rfl⟩)

theorem Turned.active {h' : Host} {good : Prop} (ht : Turned h k j good h') (hj : h'.active k = some j') :
    Kept j j' ∧ j'.GoesOn := by
  cases ht with
  | ended =>
    rw [Host.complete_active] at hj
    cases hj
  | goesOn _ _ hk hp =>
    rw [setJob_active] at hj
    cases hj
    exact ⟨hk, hp⟩

theorem Job.GoesOn.not_finished (hg : j.GoesOn) (value : StoredRecord) :
    j.phase ≠ .committing (.finished false) value := by
  rcases hg with ⟨v, hp⟩ | ⟨_, _, hp⟩
  · rw [hp]
    exact nofun
  · rw [hp]
    exact nofun

theorem CommitMove.written (ht : Traced hash limits w) (hj : (w.hosts host).active k = some j)
    (hm : CommitMove w w' host k j j' news) : Written (news ++ w.trace) host k j' := by
  obtain ⟨_, value, hp, rfl | ⟨_, rfl, hne⟩ | ⟨rfl, hv, rfl, version, rfl⟩⟩ := hm.advance
  · exact fun _ _ hs => (nomatch hs)
  · exact written_of_phase fun _ hph => hne (Phase.committing.inj hph).1
  · -- the version the job holds is that of a cell, so the swap replaced it
    obtain ⟨c, hc⟩ := lineage_committing hp (ht.jobs host k j hj)
    obtain ⟨hmem, hg⟩ := hc.grounded ht.past
    rw [ht.get_of_version hmem (hv.trans hg.version)]
    intro v hph _
    cases hph
    exact ⟨j, c, ⟨version, value⟩, mem_cons_self, rfl, _, rfl⟩

theorem JobMove.written (ht : Traced hash limits w) (ho : (w.hosts host).active k = o)
    (hm : JobMove hash w w' host k o o' news) : ∀ j', o' = some j' → Written (news ++ w.trace) host k j' := by
  intro j' hj'
  cases hm with
  | same => exact (ht.written host k j' (ho.trans hj')).mono (subset_append_right _ _)
  | stop | threw | refuse | timeOut | finish => cases hj'
  | begin =>
    cases hj'
    exact written_of_phase nofun
  | acquire j _ _ hm =>
    cases hj'
    have hl := ht.jobs host k j ho
    rw [← ht.fixed] at hl
    obtain ⟨_, hstage⟩ := (hm.attains ht.cells hl).acquiring
    refine written_of_phase fun _ hph => ?_
    cases hstage.symm.trans hph
  | commit _ _ _ hm =>
    cases hj'
    exact hm.written ht ho
  | run _ _ _ _ _ hr | answer _ _ _ _ _ _ _ hr => exact written_of_phase (hr.turned.active hj').2.not_finished
  | schedule _ _ _ _ _ hp hs =>
    cases hj'
    refine written_of_phase fun v hv => ?_
    rw [hs.same] at hv
    cases hp.symm.trans hv
  | amend _ _ _ _ hp ha =>
    cases hj'
    refine written_of_phase fun v hv => ?_
    rw [ha.phase, hp] at hv
    cases hv

/-! ## Events along a step -/

theorem lawful_host {e : HostEvent}
    (h : ∀ k j result, e = .replied k j result → result.status = .ok → Succeeded T host k j result) :
    (Event.host host e).Lawful hash limits T := by
  cases e with
  | replied k j result => exact h k j result rfl
  | checked | started | scheduled => trivial

/-- The events of a turn that answers nobody with success. -/
theorem lawful_unanswered {events : List HostEvent}
    (h : ∀ k j result, .replied k j result ∈ events → result.status ≠ .ok) :
    ∀ e ∈ events, (Event.host host e).Lawful hash limits T :=
  fun _ he => lawful_host fun k j result heq hs => absurd hs (h k j result (heq ▸ he))

theorem CheckEvents.not_replied {live : Bool} {checks : List HostEvent} (hc : CheckEvents h k live j checks)
    (k' : EntityKey) (j' : Job) (result : Result) : HostEvent.replied k' j' result ∉ checks := by
  intro he
  obtain ⟨_, heq, -⟩ := hc _ he
  cases heq

theorem Concludes.unanswered (hc : Concludes hash host h k env j result turn) :
    ∀ k j result, .replied k j result ∈ turn.events → result.status ≠ .ok := by
  intro k' j' result' he
  cases hc with
  | ended _ _ _ _ _ hs hchk =>
    rcases mem_append.1 he with he | he
    · exact absurd he (hchk.not_replied k' j' result')
    · cases mem_singleton.1 he
      exact hs
  | commits _ j₁ _ _ _ _ _ _ hchk =>
    exact absurd he ((hchk.events (.refl j₁)).not_replied k' j' result')

theorem Answers.lawful (ha : Answers hash host h k env j result turn) :
    ∀ e ∈ turn.events, (Event.host host e).Lawful hash limits T := by
  cases ha with
  | concludes _ _ _ hc => exact lawful_unanswered hc.unanswered
  | starts =>
    refine lawful_unanswered fun k j _ he => ?_
    cases mem_singleton.1 he

theorem Runs.lawful (hl : ∃ c, .acquired host k j c ∈ T)
    (hr : Runs hash host h k env j turn) : ∀ e ∈ turn.events, (Event.host host e).Lawful hash limits T := by
  obtain ⟨c, hc⟩ := hl
  cases hr with
  | refused _ _ _ _ hs =>
    refine lawful_unanswered fun k j result he => ?_
    cases mem_singleton.1 he
    exact hs
  | failed _ _ _ _ _ _ hs =>
    refine lawful_unanswered fun k j result he => ?_
    simp only [mem_cons, not_mem_nil, or_false, reduceCtorEq, false_or] at he
    cases he
    exact hs
  | replayed _ _ ha hrep =>
    intro e he
    refine lawful_host fun k' j' result heq _ => ?_
    subst heq
    simp only [mem_cons, not_mem_nil, or_false, reduceCtorEq, false_or] at he
    cases he
    exact .replayed h env j c hc hrep ha rfl
  | concludes _ _ _ _ _ _ _ _ _ _ _ hcon =>
    refine lawful_unanswered fun k' j' result he => ?_
    rcases mem_cons.1 he with he | he
    · cases he
    · exact hcon.unanswered k' j' result he
  | starts =>
    refine lawful_unanswered fun k j result he => ?_
    simp only [mem_cons, not_mem_nil, or_false, reduceCtorEq] at he

theorem Succeeded.mono (hT : T ⊆ T') (hs : Succeeded T host k j result) : Succeeded T' host k j result := by
  cases hs with
  | missing e hi hst hd => exact .missing e hi hst hd
  | replayed h env j₀ c hc hr ha hd => exact .replayed h env j₀ c (hT hc) hr ha hd
  | committed value hc hd => exact .committed value (hc.mono hT) hd

theorem lawful_host_mono {e : HostEvent} (hT : T ⊆ T') (h : (Event.host host e).Lawful hash limits T) :
    (Event.host host e).Lawful hash limits T' := by
  refine lawful_host fun k j _ heq hs => ?_
  subst heq
  exact (h hs).mono hT

theorem acquiredNews_mem {o : Option (Cell StoredRecord)} (he : e ∈ acquiredNews host k j o) :
    ∃ c, e = .acquired host k j c := by
  unfold acquiredNews at he
  split at he
  · rename_i c _ _
    exact ⟨c, mem_singleton.1 he⟩
  · cases he

theorem AcquireMove.news_mem (hm : AcquireMove hash w host k j j' news) (he : e ∈ news) :
    (∃ j₀ c, e = .acquired host k j₀ c) ∨ e.writeTo k.id ≠ none := by
  cases hm with
  | fail => cases he
  | read | source | confirm =>
    obtain ⟨c, rfl⟩ := acquiredNews_mem he
    exact .inl ⟨_, c, rfl⟩
  | grant =>
    obtain ⟨_, rfl⟩ := swapNews_mem he
    exact .inr (by simp [Event.writeTo])

theorem CommitMove.news_mem (hm : CommitMove w w' host k j j' news) (he : e ∈ news) : e.writeTo k.id ≠ none := by
  cases hm with
  | write =>
    obtain ⟨_, rfl⟩ := swapNews_mem he
    simp [Event.writeTo]
  | submit | armFail | armRecord | armBucket | armWrite | late => cases he

/-- The events of a job that are not writes. -/
theorem JobMove.lawful (ht : Traced hash limits w) (ho : (w.hosts host).active k = o)
    (hm : JobMove hash w w' host k o o' news) {newer older : List Event} (hn : news = newer ++ e :: older)
    (habout : e.about = some (host, k)) (hwrite : ∀ id, e.writeTo id = none) :
    e.Lawful hash limits (older ++ w.trace) := by
  have he : e ∈ news := by
    rw [hn]
    exact mem_append_right _ mem_cons_self
  have hturn : ∀ turn : Turn, news = turn.news host →
      (∀ e ∈ turn.events, (Event.host host e).Lawful hash limits w.trace) →
        e.Lawful hash limits (older ++ w.trace) := by
    intro turn heq hlaw
    rw [heq] at he
    obtain ⟨e', he', rfl⟩ := mem_map.1 (mem_reverse.1 he)
    exact lawful_host_mono (subset_append_right _ _) (hlaw e' he')
  cases hm with
  | same _ _ hnot => exact absurd habout (hnot e he)
  | stop | begin | amend => cases he
  | acquire j j₁ _ hm =>
    have hl := ht.jobs host k j ho
    rw [← ht.fixed] at hl
    rcases hm.news_mem he with ⟨j₀, c, rfl⟩ | hw
    · cases hm.attains ht.cells hl with
      | acquired c' ha =>
        obtain ⟨rfl, ⟨rfl, rfl⟩, rfl⟩ : newer = [] ∧ (j₀ = j₁ ∧ c = c') ∧ older = [] := by
          simpa [cons_eq_append_iff] using hn
        rw [ht.fixed] at ha
        exact ha
      | searching _ _ _ hnot => exact absurd rfl (hnot _ he j₀ c)
    · exact absurd (hwrite k.id) hw
  | commit _ _ _ hm => exact absurd (hwrite k.id) (hm.news_mem he)
  | threw | timeOut =>
    cases mem_singleton.1 he
    exact lawful_host fun _ _ _ heq hs => by cases heq; cases hs
  | refuse _ _ _ _ _ hr =>
    cases mem_singleton.1 he
    refine lawful_host fun k' j' result' heq hok => ?_
    cases heq
    rcases hr with hr | ⟨-, hst, e, hi, hd⟩
    · exact absurd hok hr
    · exact .missing e hi hst hd
  | run j _ turn hp hs hr =>
    exact hturn turn rfl (hr.lawful (lineage_acquired hp hs (ht.jobs host k j ho)))
  | answer _ _ _ _ _ turn _ ha => exact hturn turn rfl ha.lawful
  | schedule =>
    cases mem_singleton.1 he
    trivial
  | finish j threw value hp _ _ hf =>
    cases mem_singleton.1 he
    refine lawful_host fun k' j' result' heq hok => ?_
    cases heq
    cases threw with
    | true =>
      rw [(hf.failed rfl).1] at hok
      cases hok
    | false =>
      obtain ⟨-, hst, hd⟩ := hf.done rfl
      rw [hok] at hst
      exact .committed value ((ht.written host k j ho value hp hst.symm).mono (subset_append_right _ _)) (hd hst.symm)

/-! ## Runs -/

/-- An event is a write, belongs to a job, or is the creation of a record. -/
theorem Event.writes_or_about (e : Event) : (∃ id, e.writeTo id ≠ none) ∨ ∃ host k, e.about = some (host, k) := by
  cases e with
  | created id => exact .inl ⟨id, by simp [Event.writeTo]⟩
  | released _ k => exact .inl ⟨k.id, by simp [Event.writeTo]⟩
  | acquired host k | granted host k | committed host k => exact .inr ⟨host, k, rfl⟩
  | host host e => exact .inr ⟨host, e.entity, rfl⟩

theorem traced_init (hash : Bytes → Bytes) (limits : HostId → RuntimeLimits) :
    Traced hash limits (World.init limits) where
  fixed _ := rfl
  cells _ := rfl
  jobs _ _ _ hj := nomatch hj
  written _ _ _ hj := nomatch hj
  releases _ _ _ hr := nomatch hr
  past _ _ hs := absurd (suffix_nil.1 hs) (cons_ne_nil _ _)

theorem traced_step (w : World) (action : Action) (ht : Traced hash limits w) :
    Traced hash limits (w.step hash action) := by
  obtain ⟨news, htrace, hgrows, hmoves, -⟩ := step_view hash w action
  obtain ⟨news', htrace', hstore⟩ := step_store hash w action
  obtain rfl : news = news' := append_cancel_right (htrace.symm.trans htrace')
  have hsub : w.trace ⊆ news ++ w.trace := subset_append_right _ _
  refine ⟨fun host => (hgrows host).limits.trans (ht.fixed host), fun id => ?_, fun host k j hj => ?_,
    fun host k j hj => ?_, fun host k stage hs => ?_, ?_⟩
  · rw [htrace]
    exact ht.cells_step hstore id
  · rw [htrace, ← ht.fixed]
    refine (hmoves host k).lineage ht.cells (fun j' hj' => ?_) j hj
    rw [ht.fixed]
    exact ht.jobs host k j' hj'
  · rw [htrace]
    exact (hmoves host k).written ht rfl j hj
  · rw [htrace]
    rcases (hmoves host k).release hs with hold | rfl | ⟨_, hstep⟩
    · exact (ht.releases host k stage hold).mono hsub
    · exact nofun
    · exact (hstep.releasing ht.cells).mono hsub
  · rw [htrace]
    refine ht.past.append fun newer e older heq => ?_
    by_cases hw : ∀ id, e.writeTo id = none
    · rcases e.writes_or_about with ⟨id, hid⟩ | ⟨host, k, habout⟩
      · exact absurd (hw id) hid
      · exact (hmoves host k).lawful ht rfl heq habout hw
    -- the only write of the step
    rcases ht.wrote hstore with ⟨-, hnone⟩ | ⟨e', rfl, hwrote⟩
    · exact absurd (hnone e (by rw [heq]; simp)) hw
    · obtain ⟨rfl, rfl, rfl⟩ : newer = [] ∧ e = e' ∧ older = [] := by
        simpa [cons_eq_append_iff] using heq
      exact hwrote.lawful

/-- The trace of every run is lawful. -/
theorem traced_run (hash : Bytes → Bytes) (limits : HostId → RuntimeLimits) (actions : List Action) :
    Traced hash limits (run (World.step hash) (World.init limits) actions) :=
  run_inv traced_step (traced_init hash limits) actions

/-- What every step of a lawful run keeps. -/
theorem traced_inv {I : World → Prop} (hstep : ∀ w action, Traced hash limits w → I w → I (World.step hash w action))
    (hinit : I (World.init limits)) (actions : List Action) : I (run (World.step hash) (World.init limits) actions) :=
  (run_inv (I := fun w => Traced hash limits w ∧ I w) (fun w a h => ⟨traced_step w a h.1, hstep w a h.1 h.2⟩)
    ⟨traced_init hash limits, hinit⟩ actions).2

end

end Fsnet
