import Fsnet.World.Chain
import Fsnet.World.Envelopes
/-!
# Initialized entities

An entity is initialized by the first commit that ran its chain. Before that
nothing a script leaves behind is in its record: no message in the outbox and no
receipt; and no host has it activated, so that its release hooks are not run.
-/

namespace Fsnet

open Lib List

variable {hash : Bytes → Bytes} {limits : HostId → RuntimeLimits} {host : HostId} {k : EntityKey} {j j' : Job}
  {T T' news : List Event} {id : Bytes} {old new c : Cell StoredRecord} {w w' : World} {o o' : Option Job} {h h' : Host}
  {env : Ambient}

/-- Some record of the entity was initialized. -/
def Initialized (T : List Event) (id : Bytes) : Prop := ∃ c ∈ history T id, c.value.val.initialized = true

theorem Initialized.mono (hT : T ⊆ T') (hi : Initialized T id) : Initialized T' id := by
  obtain ⟨c, hc, hinit⟩ := hi
  exact ⟨c, history_grows hT _ c hc, hinit⟩

theorem Derived.initialized (hp : Past hash limits T) (hd : Derived hash limits T id old new)
    (hi : old.value.val.initialized = true) : new.value.val.initialized = true := by
  cases hd with
  | granted _ _ _ _ _ _ _ hv | released _ _ _ _ hv =>
    rw [hv]
    exact hi
  | committed _ _ job _ _ _ _ _ _ hc =>
    obtain ⟨m, hv⟩ := hc.record
    have hcreated : job.created = false := by
      rw [(hc.grounded hp).2.created, hi]
      rfl
    rw [hv]
    show (if job.request.route.isControl then !job.created else true) = true
    rw [hcreated]
    split <;> rfl

/-- The flag is never taken back. -/
theorem Past.initialized (hp : Past hash limits T) (hi : Initialized T id) (hc : (history T id).head? = some c) :
    c.value.val.initialized = true := by
  obtain ⟨d, hd, hinit⟩ := hi
  exact hp.stays (P := fun c => c.value.val.initialized = true)
    (fun _ _ _ hs hderived => hderived.initialized (hp.of_suffix hs)) hd hinit hc

/-! ## Activation -/

variable {slot : Slot} {result : Result} {uncertain : Bool} {l : RuntimeLimits} {turn : Turn}

theorem Slot.settle_activated (ha : (slot.settle j result).activated = true) :
    slot.activated = true ∨ (result.status = .ok ∧ j.metadataOnly = false) := by
  have hlose : ∀ s : Slot, (s.loseOwner j).activated = s.activated := by
    intro s
    unfold Slot.loseOwner
    split <;> rfl
  have hresidence : ∀ s : Slot, (s.settleResidence j result).activated = s.activated := by
    intro s
    unfold Slot.settleResidence
    split <;> rfl
  have howner : ∀ s : Slot, (s.settleOwner j result).activated = s.activated := by
    intro s
    unfold Slot.settleOwner
    split
    · split <;> rfl
    · rfl
  simp only [Slot.settle, hlose, Slot.settleActivation] at ha
  split at ha
  · rename_i hcommit
    exact .inr hcommit
  split at ha
  · cases ha
  · rw [hresidence, howner] at ha
    exact .inl ha

theorem Slot.after_activated {slot' : Slot} {generation : UInt64}
    (hs : slot.after j result uncertain generation = some slot') (ha : slot'.activated = true) :
    slot.activated = true ∨
      (result.status = .ok ∧ j.metadataOnly = false ∧ j.request.route.isControl = false) := by
  have hcarry : ∀ s : Slot, (s.carry j result).activated = s.activated := by
    intro s
    unfold Slot.carry
    split <;> rfl
  have hadopt : (slot.adopt j result).activated = slot.activated := by
    unfold Slot.adopt
    split
    · split <;> rfl
    · rfl
  simp only [Slot.after, Option.ite_none_left_eq_some, Option.some.injEq] at hs
  obtain ⟨hcontrol, -, rfl⟩ := hs
  split at ha
  · cases ha
  rcases Slot.settle_activated ha with hold | ⟨hok, hm⟩
  · rw [hcarry, hadopt] at hold
    exact .inl hold
  · exact .inr ⟨hok, hm, by simpa [hok] using hcontrol⟩

/-- An activated slot was activated before. -/
def KeepsActivation (h : Host) (k : EntityKey) (h' : Host) : Prop :=
  ∀ slot', h'.slots k = some slot' → slot'.activated = true → ∃ slot, h.slots k = some slot ∧ slot.activated = true

theorem KeepsActivation.trans {h'' : Host} (a : KeepsActivation h k h') (b : KeepsActivation h' k h'') :
    KeepsActivation h k h'' := by
  intro slot'' hs'' ha''
  obtain ⟨slot', hs', ha'⟩ := b slot'' hs'' ha''
  exact a slot' hs' ha'

theorem keepsActivation_same (hs : h'.slots k = h.slots k) : KeepsActivation h k h' :=
  fun slot' hs' ha => ⟨slot', hs ▸ hs', ha⟩

theorem keepsActivation_learnOwner (h : Host) (k : EntityKey) (j : Job) : KeepsActivation h k (h.learnOwner k j) := by
  unfold Host.learnOwner
  split
  · rename_i slot _ hslot
    intro _ hs ha
    rw [setSlot_slots] at hs
    cases hs
    exact ⟨slot, hslot, ha⟩
  · exact keepsActivation_same rfl

theorem complete_activated {slot' : Slot}
    (hs : (h.complete k j result uncertain).host.slots k = some slot') (ha : slot'.activated = true) :
    (∃ slot, h.slots k = some slot ∧ slot.activated = true) ∨
      (result.status = .ok ∧ j.metadataOnly = false ∧ j.request.route.isControl = false) := by
  rw [Host.complete_slot] at hs
  obtain ⟨slot, hslot, hafter⟩ := Option.bind_eq_some_iff.1 hs
  exact (Slot.after_activated hafter ha).imp_left fun hold => ⟨slot, hslot, hold⟩

theorem keepsActivation_failed (hr : result.status ≠ .ok) :
    KeepsActivation h k (h.complete k j result uncertain).host :=
  fun _ hs ha => (complete_activated hs ha).resolve_right fun hok => hr hok.1

theorem Turned.keepsActivation {good : Prop} (ht : Turned h k j good h') (hbad : ¬good) : KeepsActivation h k h' := by
  cases ht with
  | ended c _ _ hr => exact keepsActivation_failed (h := { h with counters := c }) fun hok => hbad (hr hok)
  | goesOn => exact keepsActivation_same rfl

/-- The job's end activates its entity: it was committed, or answered from a record. -/
def Job.Activates (j : Job) : Prop :=
  (j.phase = .acquiring (.finished false) ∧ j.status = .ok ∧ j.replay = true) ∨
    ∃ value, j.phase = .committing (.finished false) value ∧ j.status = .ok ∧ j.request.route.isControl = false

/-- Where an activated slot comes from in a step. -/
theorem JobMove.activated (hm : JobMove hash w w' host k o o' news) :
    KeepsActivation (w.hosts host) k (w'.hosts host) ∨ ∃ j, o = some j ∧ j.Activates := by
  cases hm with
  | same _ _ _ hslot =>
    left
    cases hslot with
    | same heq | release _ _ _ _ heq => exact keepsActivation_same heq
    | push _ _ slot _ _ _ hopens hs =>
      intro slot' hs' ha
      rw [hs] at hs'
      cases hs'
      rcases hopens with hopen | ⟨-, rfl⟩
      · exact ⟨slot, hopen, ha⟩
      · cases ha
    | expire slot _ _ hslot hs | deactivate slot hslot _ hs =>
      intro slot' hs' ha
      rw [hs] at hs'
      cases hs'
      exact ⟨slot, hslot, ha⟩
    | drop _ _ _ hs =>
      intro slot' hs'
      rw [hs] at hs'
      cases hs'
    | released _ _ hs =>
      intro slot' hs' ha
      rcases hs with hs | ⟨slot, hslot, hs⟩
      · rw [hs] at hs'
        cases hs'
      · rw [hs] at hs'
        cases hs'
        exact ⟨slot, hslot, ha⟩
  | stop _ hs =>
    left
    intro slot' hs'
    rw [hs] at hs'
    cases hs'
  | begin slot _ _ hslot _ _ _ hs =>
    left
    intro slot' hs' ha
    rw [hs] at hs'
    cases hs'
    exact ⟨slot, hslot, ha⟩
  | acquire _ _ _ _ hs | commit _ _ _ _ hs | schedule _ _ _ _ _ _ _ hs | amend _ _ _ _ _ _ hs =>
    exact .inl (keepsActivation_same hs.slot)
  | threw _ _ hh | timeOut _ _ _ _ hh =>
    rw [hh]
    exact .inl (keepsActivation_failed (by decide))
  | refuse _ _ _ _ _ hr hh =>
    rw [hh]
    left
    rcases hr with hr | ⟨rfl, -⟩
    · exact keepsActivation_failed hr
    · intro slot' hs' ha
      refine (complete_activated hs' ha).resolve_right fun hok => ?_
      cases hok.2.1
  | finish j threw value hp _ _ hf hh =>
    rw [hh]
    by_cases hok : threw = false ∧ j.status = .ok ∧ j.request.route.isControl = false
    · obtain ⟨rfl, hs, hc⟩ := hok
      exact .inr ⟨j, rfl, .inr ⟨value, hp, hs, hc⟩⟩
    left
    intro slot' hs' ha
    refine (complete_activated hs' ha).resolve_right fun hres => hok ?_
    cases threw with
    | true =>
      rw [(hf.failed rfl).1] at hres
      cases hres.1
    | false => exact ⟨rfl, (hf.done rfl).2.1 ▸ hres.1, hres.2.2⟩
  | run j _ _ hp hs hrun hh =>
    rw [hh]
    by_cases hreplay : j.replay = true
    · exact .inr ⟨j, rfl, .inl ⟨hp, hs, hreplay⟩⟩
    · exact .inl ((keepsActivation_learnOwner _ _ _).trans (hrun.turned.keepsActivation hreplay))
  | answer _ _ _ _ _ _ _ ha hh =>
    rw [hh]
    exact .inl (ha.turned.keepsActivation not_false)

/-! ## Jobs -/

/-- What is known of a job that releases its entity: it runs nothing, or the entity was initialized. -/
structure Warm (T : List Event) (k : EntityKey) (j : Job) : Prop where
  chain : ∀ steps state, j.phase = .executing steps state → j.request.route.isControl = true →
    steps = [.noop] ∨ (steps = [.method] ∧ Initialized T k.id)
  outbox : (∀ stage, j.phase ≠ .acquiring stage) → j.request.route.isControl = true → j.delivery.outbox ≠ [] →
    Initialized T k.id

theorem Warm.mono (hT : T ⊆ T') (hw : Warm T k j) : Warm T' k j :=
  ⟨fun steps state hp hc => (hw.chain steps state hp hc).imp_right fun h => ⟨h.1, h.2.mono hT⟩,
    fun hp hc ho => (hw.outbox hp hc ho).mono hT⟩

theorem warm_acquiring {stage : AcquireStage} (hp : j.phase = .acquiring stage) : Warm T k j := by
  refine ⟨fun _ _ hp' => ?_, fun hne => absurd hp (hne stage)⟩
  rw [hp] at hp'
  cases hp'

theorem Kept.route (hk : Kept j j') : j'.request.route = j.request.route := by
  obtain ⟨_, hr, -⟩ := hk.request
  rw [hr]

theorem Kept.incoming (hk : Kept j j') : j'.request.incoming = j.request.incoming := by
  obtain ⟨_, hr, -⟩ := hk.request
  rw [hr]

/-- A delivery that is not answered from the record reaches an initialized entity. -/
theorem Acquired.initialized_of_incoming {e : DeliveryEnvelope}
    (ha : Acquired (history T) host l k c j) (hr : j.replay = false) (hi : j.request.incoming = some e) :
    c.value.val.initialized = true := by
  obtain ⟨_, r, _, x, hat, rfl, hc⟩ := ha.loaded
  obtain ⟨_, harr, -⟩ := hat.found.arrives e hi hr
  rcases hc with ⟨rfl, -⟩ | hc
  · exact harr.initialized
  · rw [hc]
    exact harr.initialized

theorem Acquired.initialized_of_timer (ha : Acquired (history T) host l k c j)
    (ht : j.request.timer.isSome = true) : c.value.val.initialized = true := by
  have hadmits := ha.grounded.admits
  exact (hadmits.timer ht).2

/-- The entity of a job that was answered from a record was initialized. -/
theorem Acquired.initialized_of_replay
    (hrecords : ∀ c ∈ history T k.id, c.value.val.snapshot.receipts ≠ [] → c.value.val.initialized = true)
    (ha : Acquired (history T) host l k c j) (hr : j.replay = true) : Initialized T k.id := by
  by_cases ht : j.request.timer.isSome = true
  · exact ⟨c, ha.mem, ha.initialized_of_timer ht⟩
  obtain ⟨_, r, _, x, hat, rfl, -⟩ := ha.loaded
  rcases hat.replays hr with htimer | ⟨c', hc', e, _, _, -, harr, -⟩ | ⟨c', hc', _, hmem, -⟩
  · exact absurd htimer ht
  · exact ⟨c', hc', harr.initialized⟩
  · exact ⟨c', hc', hrecords c' hc' (ne_nil_of_mem hmem)⟩

/-- An acknowledgement marks a message; it does not make one. -/
theorem Acknowledges.outbox {ack : Option DeliveryAck} {d d' : EntityDeliveryState} (ha : Acknowledges ack d d')
    (hne : d'.outbox ≠ []) : d.outbox ≠ [] := by
  intro hnil
  unfold Acknowledges at ha
  split at ha
  · rw [ha] at hne
    exact hne hnil
  · obtain ⟨-, _, ho, rfl⟩ := ha
    rw [hnil, acknowledgeOutbox, Option.some.injEq] at ho
    exact hne ho.symm

theorem Admitted.outbox (ha : Admitted h k env j j') : j'.delivery.outbox = j.delivery.outbox := by
  rcases ha.delivery with hd | ⟨-, hd⟩
  · rw [hd]
  · rw [hd]

theorem Restored.outbox (hr : Restored h slot j j') : j'.delivery.outbox = j.delivery.outbox := by
  rw [hr.same]

theorem Delivered.outbox {request : Request} {outcome : Result} {d d' : EntityDeliveryState} {output output' : Bytes}
    (hd : Delivered hash request outcome d d' output output') : d'.outbox = d.outbox := by
  unfold Delivered at hd
  split at hd
  · rw [hd.1]
  · obtain ⟨_, _, -, -, rfl⟩ := hd.inbox
    rfl

section

variable (hc : Concludes hash host h k env j result turn)
include hc

/-- A job that was let through to its commit, with the messages it had. -/
theorem Concludes.outbox (hj : turn.host.active k = some j') :
    j'.delivery.outbox = j.delivery.outbox ∨ j.request.incoming.isSome = true := by
  obtain ⟨_, _, _, hs, hb, -⟩ := hc.commit hj
  obtain ⟨_, -, _, hd, -⟩ := hb.outcome
  cases hs with
  | ok => exact .inl hd.outbox
  | declined hi => exact .inr hi

theorem Concludes.committing
    (hj : turn.host.active k = some j') : ∃ value, j'.phase = .committing .submitted value := by
  obtain ⟨_, _, value, -, hb, -⟩ := hc.commit hj
  rw [hb.same]
  exact ⟨value, rfl⟩

/-- A commit in which the entity was initialized, unless the job has no message or does not release it. -/
theorem Concludes.warm
    (hj : turn.host.active k = some j') (hin : j.request.incoming.isSome = true → Initialized T k.id)
    (ho : j.request.route.isControl = true → j.delivery.outbox ≠ [] → Initialized T k.id) : Warm T k j' := by
  obtain ⟨_, hp⟩ := hc.committing hj
  refine ⟨fun _ _ hp' => ?_, fun _ hcontrol hne => ?_⟩
  · rw [hp] at hp'
    cases hp'
  · rcases hc.outbox hj with heq | hi
    · obtain ⟨_, _, _, hs, hb, -⟩ := hc.commit hj
      rw [(hs.kept.trans hb.steady.kept).route] at hcontrol
      exact ho hcontrol (heq ▸ hne)
    · exact hin hi

end

/-- A release runs the stand-in, or the hook of an entity that was activated. -/
theorem chain_of_control (hslot : h.slots k = some slot) (hc : j.request.route.isControl = true) :
    h.chain k j = [.noop] ∨ (h.chain k j = [.method] ∧ slot.activated = true) := by
  unfold Host.chain
  dsimp only
  rw [if_pos hc, hslot, Option.any_some]
  cases slot.activated with
  | true => exact .inr ⟨rfl, rfl⟩
  | false => exact .inl rfl

theorem JobMove.warm (hp : Past hash limits T) (hcells : ∀ id, (w.entities id).cells = history T id)
    (hl : ∀ j, o = some j → Lineage hash T host (limits host) k j) (hfixed : (w.hosts host).limits = limits host)
    (hrecords : ∀ c ∈ history T k.id, c.value.val.snapshot.delivery.outbox ≠ [] → c.value.val.initialized = true)
    (hslots : ∀ slot, (w.hosts host).slots k = some slot → slot.activated = true → Initialized T k.id)
    (hwarm : ∀ j, o = some j → Warm T k j) (hm : JobMove hash w w' host k o o' news) (hj' : o' = some j') :
    Warm T k j' := by
  cases hm with
  | same => exact hwarm j' hj'
  | stop | threw | refuse | timeOut | finish => cases hj'
  | begin =>
    cases hj'
    exact warm_acquiring rfl
  | acquire j _ _ hm =>
    cases hj'
    obtain ⟨stage, hstage⟩ := (hm.attains hcells (hfixed ▸ hl j rfl)).acquiring
    exact warm_acquiring hstage
  | commit j _ _ hm =>
    cases hj'
    obtain ⟨_, _, hphase, _, _, _, heq⟩ := hm.step
    have hold := hwarm j rfl
    rw [heq]
    exact ⟨fun steps state hp' => (nomatch hp'), fun _ => hold.outbox (not_acquiring hphase nofun)⟩
  | run j _ _ hphase hs hrun =>
    obtain ⟨c, hc⟩ := lineage_acquired hphase hs (hl j rfl)
    have hacq := hp.acquired hc
    have hout : j.delivery.outbox ≠ [] → Initialized T k.id := fun hne =>
      ⟨c, hacq.mem, hrecords c hacq.mem (hacq.loads.delivery.outbox hne)⟩
    have hin : j.replay = false → j.request.incoming.isSome = true → Initialized T k.id := fun hr hi => by
      obtain ⟨e, he⟩ := Option.isSome_iff_exists.1 hi
      exact ⟨c, hacq.mem, hacq.initialized_of_incoming hr he⟩
    cases hrun with
    | refused | failed | replayed =>
      rw [Host.complete_active] at hj'
      cases hj'
    | concludes _ _ _ _ ha hr _ hres _ _ _ hcon =>
      have hkept := ha.kept.trans hres.kept
      refine hcon.warm hj' (fun hi => hin hr (hkept.incoming ▸ hi)) fun _ hne => hout ?_
      rw [hres.outbox, ha.outbox] at hne
      exact hne
    | starts _ _ j₂ slot ha _ hslot hres _ _ _ _ hchain =>
      rw [setJob_active] at hj'
      cases hj'
      refine ⟨fun steps state hsteps hcontrol => ?_, fun _ _ hne => hout ?_⟩
      · cases hsteps
        rw [← hchain]
        refine (chain_of_control hslot hcontrol).imp_right fun hmethod => ⟨hmethod.1, ?_⟩
        obtain ⟨slot₀, hslot₀, hact⟩ := keepsActivation_learnOwner (w.hosts host) k j slot hslot hmethod.2
        exact hslots slot₀ hslot₀ hact
      · have hne' : j₂.delivery.outbox ≠ [] := hne
        rw [hres.outbox, ha.outbox] at hne'
        exact hne'
  | answer j steps state _ _ _ hphase ha =>
    have hold := hwarm j rfl
    obtain ⟨-, c, hexec⟩ := (lineage_executing hphase).1 (hl j rfl)
    have hnot := not_acquiring hphase nofun
    cases ha with
    | concludes _ _ _ hcon =>
      refine hcon.warm hj' (fun hi => ?_) fun hcontrol hne => hold.outbox hnot hcontrol hne
      obtain ⟨j₀, hacq, hreplay, hsteady⟩ := hexec.acquired
      have hi' : j₀.request.incoming.isSome = true := by
        rw [← hsteady.kept.incoming]
        exact hi
      obtain ⟨e, he⟩ := Option.isSome_iff_exists.1 hi'
      exact ⟨c, (hp.acquired hacq).mem, (hp.acquired hacq).initialized_of_incoming hreplay he⟩
    | starts _ _ _ _ _ _ _ hdone =>
      rw [setJob_active] at hj'
      cases hj'
      refine ⟨fun steps state hsteps hcontrol => ?_, fun _ hcontrol hne => hold.outbox hnot hcontrol hne⟩
      rcases hold.chain _ _ hdone hcontrol with heq | ⟨heq, -⟩ <;> cases heq
  | schedule j _ _ _ _ hphase hs _ =>
    cases hj'
    have hold := hwarm j rfl
    rw [hs.same]
    exact ⟨hold.chain, fun _ => hold.outbox (not_acquiring hphase nofun)⟩
  | amend j _ _ _ hphase ha _ hnoop =>
    cases hj'
    have hold := hwarm j rfl
    have hroute := ha.kept.route
    refine ⟨fun _ _ hsteps hcontrol => ?_, fun _ hcontrol _ => ?_⟩
    · rw [ha.phase] at hsteps
      exact hold.chain _ _ hsteps (hroute ▸ hcontrol)
    · rcases hold.chain _ _ hphase (hroute ▸ hcontrol) with heq | ⟨-, hinit⟩
      · unfold Job.isNoop at hnoop
        rw [hphase, heq] at hnoop
        cases hnoop
      · exact hinit

/-! ## Records -/

theorem Executes.receipts (he : Executes hash T host l k c j) :
    ∃ j₀, .acquired host k j₀ c ∈ T ∧ j₀.replay = false ∧ j.receipts = j₀.receipts :=
  he.keeps Job.receipts (fun ha => by rw [ha.same]) (fun hr => by rw [hr.same]) fun hs => by rw [hs.same]

/-- A commit that is not keyed writes no receipt the record did not have. -/
theorem Commits.receipts {value : StoredRecord} (hp : Past hash limits T)
    (hc : Commits hash T host (limits host) k c value j) (hkey : j.request.requestId = []) (hne : j.receipts ≠ []) :
    c.value.val.snapshot.receipts ≠ [] := by
  obtain ⟨j₃, j₄, j₅, _, _, _, he, hs, hb, -, _, _, _, rfl⟩ := hc.past
  obtain ⟨_, hacq, -, h₀⟩ := he.receipts
  have h₄ : j₄.receipts = j₃.receipts := by cases hs <;> rfl
  have hkey₄ : j₄.request.requestId = [] := by
    have hsame : j₅.request = j₄.request := by rw [hb.same]
    rw [← hsame]
    exact hkey
  obtain ⟨_, hreceipted, -⟩ := hb.outcome
  have hevict : j₅.receipts = evictReceipts (limits host) j₄.receipts := by
    rcases hreceipted with ⟨-, heq⟩ | ⟨hne', -⟩
    · exact heq
    · exact absurd hkey₄ hne'
  obtain ⟨_, -, hload⟩ := (hp.acquired hacq).loads.snapshot
  intro hnil
  have hempty : j₄.receipts = [] := by
    rw [h₄, h₀, hload, eq_nil_iff_forall_not_mem]
    intro _ hmem
    have := resident_receipts_mem hmem
    rw [hnil] at this
    cases this
  refine hne ?_
  show j₅.receipts = []
  rw [hevict, hempty]
  rfl

/-- What a record holds only once its entity is initialized. -/
def EntityRecord.Marked (r : EntityRecord) : Prop := r.snapshot.delivery.outbox ≠ [] ∨ r.snapshot.receipts ≠ []

structure Awake (w : World) : Prop where
  records : ∀ id, ∀ c ∈ history w.trace id, c.value.val.Marked → c.value.val.initialized = true
  slots : ∀ host k slot, (w.hosts host).slots k = some slot → slot.activated = true → Initialized w.trace k.id
  jobs : ∀ host k j, (w.hosts host).active k = some j → Warm w.trace k j
  envelopes : ∀ e ∈ w.envelopes, Initialized w.trace e.sourceId

theorem Commits.awake {value : StoredRecord} (h : Explained hash limits w) (ha : Awake w)
    (hj : (w.hosts host).active k = some j) {stage : CommitStage} (hph : j.phase = .committing stage value)
    (hc : Commits hash w.trace host (limits host) k c value j) (hhead : (history w.trace k.id).head? = some c)
    (hm : value.val.Marked) : value.val.initialized = true := by
  obtain ⟨m, hv⟩ := hc.record
  cases hcontrol : j.request.route.isControl with
  | false =>
    rw [hv]
    show (if j.request.route.isControl then !j.created else true) = true
    rw [hcontrol]
    rfl
  | true =>
    have hold : c.value.val.initialized = true → value.val.initialized = true := fun hi => by
      rw [hv]
      show (if j.request.route.isControl then !j.created else true) = true
      rw [(hc.grounded h.traced.past).2.created, hi, hcontrol]
      rfl
    have hsnapshot : j.delivery.outbox ≠ [] ∨ j.receipts ≠ [] := by
      rw [hv] at hm
      unfold EntityRecord.Marked committedRecord at hm
      dsimp only at hm
      split at hm
      · rcases hm with hm | hm <;> exact absurd rfl hm
      · exact hm
    apply hold
    rcases hsnapshot with hne | hne
    · exact h.traced.past.initialized ((ha.jobs host k j hj).outbox (not_acquiring hph nofun) hcontrol hne) hhead
    · refine ha.records k.id c (mem_of_mem_head? hhead) (.inr ?_)
      exact hc.receipts h.traced.past ((h.attributed.jobs host k j hj).wellformed.2.2 hcontrol) hne

theorem Job.Activates.initialized (h : Explained hash limits w) (ha : Awake w) (hj : (w.hosts host).active k = some j)
    (hact : j.Activates) : Initialized w.trace k.id := by
  rcases hact with ⟨hp, hs, hr⟩ | ⟨value, hp, hs, hcontrol⟩
  · obtain ⟨c, hc⟩ := lineage_acquired hp hs (h.traced.jobs host k j hj)
    exact (h.traced.past.acquired hc).initialized_of_replay (fun c hc hne => ha.records k.id c hc (.inr hne)) hr
  obtain ⟨j', _, new, hmem, rfl, _, rfl⟩ := h.traced.written host k _ hj value hp hs
  obtain ⟨newer, earlier, htrace⟩ := append_of_mem hmem
  obtain ⟨-, hc⟩ := h.traced.past _ earlier ⟨newer, htrace.symm⟩
  obtain ⟨m, hv⟩ := hc.record
  refine ⟨new, mem_filterMap.2 ⟨_, hmem, if_pos rfl⟩, ?_⟩
  rw [hv]
  show (if j'.request.route.isControl then !j'.created else true) = true
  rw [show j'.request.route.isControl = false from hcontrol]
  rfl

theorem awake_init (limits : HostId → RuntimeLimits) : Awake (World.init limits) where
  records _ _ hc := nomatch hc
  slots _ _ _ hs := nomatch hs
  jobs _ _ _ hj := nomatch hj
  envelopes _ he := nomatch he

variable (hash limits) in
/-- The record a step has written, and what it was made from. -/
inductive NewRecord (w : World) (id : Bytes)
    (c : Cell StoredRecord) : Prop
  | created (creation : EntityCreation) (hv : c.value.val = creation.record)
  | granted (host : HostId) (old : Cell StoredRecord) (cachedFence : Nat) (time : Int) (hold : old ∈ history w.trace id)
    (hv : c.value.val = old.value.val.leased host (limits host) cachedFence time)
  | committed (host : HostId) (k : EntityKey) (j : Job) (old : Cell StoredRecord) (hid : k.id = id)
    (hj : (w.hosts host).active k = some j) (hph : j.phase = .committing .writing c.value)
    (hhead : (history w.trace id).head? = some old) (hc : Commits hash w.trace host (limits host) k old c.value j)
  | released (old : Cell StoredRecord) (hold : old ∈ history w.trace id)
    (hv : c.value.val = { old.value.val with owner := [], expires := 0 })

theorem newRecord (h : Traced hash limits w) (hm : StoreMove w w' news) (hc : c ∈ history news id) :
    NewRecord hash limits w id c := by
  obtain ⟨e, he, hw⟩ := mem_filterMap.1 hc
  have hlawful : e.Lawful hash limits w.trace := by
    rcases h.wrote hm with ⟨-, hnone⟩ | ⟨_, rfl, hwrote⟩
    · rw [hnone e he id] at hw
      cases hw
    · rw [mem_singleton.1 he]
      exact hwrote.lawful
  cases hm with
  | keep _ _ hnone =>
    rw [hnone e he id] at hw
    cases hw
  | create _ creation _ _ _ hv =>
    cases mem_singleton.1 he
    obtain ⟨-, rfl⟩ := written_iff.1 hw
    exact .created creation hv
  | grant host =>
    obtain ⟨old, rfl⟩ := swapNews_mem he
    obtain ⟨rfl, rfl⟩ := written_iff.1 hw
    obtain ⟨hhead, _, time, x, -, hv, -⟩ := hlawful
    exact .granted host old _ time (mem_of_mem_head? hhead) hv
  | commit host k j _ _ hj hph =>
    obtain ⟨old, rfl⟩ := swapNews_mem he
    obtain ⟨rfl, rfl⟩ := written_iff.1 hw
    exact .committed host k j old rfl hj hph hlawful.1 hlawful.2
  | release =>
    obtain ⟨old, rfl⟩ := swapNews_mem he
    obtain ⟨rfl, rfl⟩ := written_iff.1 hw
    obtain ⟨hhead, -, hv⟩ := hlawful
    exact .released old (mem_of_mem_head? hhead) hv

theorem awake_records (h : Explained hash limits w) (ha : Awake w) (hm : StoreMove w w' news) :
    ∀ id, ∀ c ∈ history (news ++ w.trace) id, c.value.val.Marked → c.value.val.initialized = true := by
  intro id c hc hmarked
  rw [history_append] at hc
  rcases mem_append.1 hc with hnew | hold
  swap
  · exact ha.records id c hold hmarked
  cases newRecord h.traced hm hnew with
  | created _ hv =>
    rw [hv] at hmarked
    rcases hmarked with hne | hne <;> exact absurd rfl hne
  | granted host old cachedFence _ hold hv =>
    rw [hv] at hmarked ⊢
    refine ha.records id old hold (hmarked.imp (fun hne => ?_) fun hne hnil => ?_)
    · have hsame : (resident host cachedFence old.value.val).delivery.outbox ≠ [] := hne
      rw [resident_delivery] at hsame
      exact hsame
    · obtain ⟨_, hreceipt⟩ := exists_mem_of_ne_nil _ hne
      have hmem := resident_receipts_mem hreceipt
      rw [hnil] at hmem
      cases hmem
  | committed _ _ _ _ hid hj hph hhead hcommits =>
    subst hid
    exact hcommits.awake h ha hj hph hhead hmarked
  | released old hold hv =>
    rw [hv] at hmarked ⊢
    exact ha.records id old hold hmarked

theorem awake_step (w : World) (action : Action) (h : Explained hash limits w) (ha : Awake w) :
    Awake (w.step hash action) := by
  obtain ⟨_, hstored, hstore⟩ := step_store hash w action
  obtain ⟨_, -, -, hmoves, -⟩ := step_view hash w action
  have hsub := step_trace_subset hash w action
  refine ⟨?_, fun host k slot hs hact => ?_, fun host k j hj => ?_, fun e he => ?_⟩
  · rw [hstored]
    exact awake_records h ha hstore
  · refine Initialized.mono hsub ?_
    rcases (hmoves host k).activated with hkeeps | ⟨j, hj, hactivates⟩
    · obtain ⟨slot₀, hslot₀, hact₀⟩ := hkeeps slot hs hact
      exact ha.slots host k slot₀ hslot₀ hact₀
    · exact hactivates.initialized h ha hj
  · refine Warm.mono hsub ?_
    exact (hmoves host k).warm h.traced.past h.traced.cells (h.traced.jobs host k) (h.traced.fixed host)
      (fun c hc hne => ha.records k.id c hc (.inl hne)) (ha.slots host k) (ha.jobs host k) hj
  · refine Initialized.mono hsub ?_
    rcases (step_carried hash w action).envelopes e he with hold | hread
    · exact ha.envelopes e hold
    obtain ⟨cell, hget, -, hmem, -, -⟩ := hread.source
    have hcell : cell ∈ history w.trace e.sourceId := by
      rw [← h.traced.cells]
      exact Register.mem_of_get hget
    exact ⟨cell, hcell, ha.records e.sourceId cell hcell (.inl (ne_nil_of_mem hmem))⟩

end Fsnet
