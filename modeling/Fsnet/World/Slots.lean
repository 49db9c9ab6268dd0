import Fsnet.Host.AcquireSpec
import Fsnet.Host.ScriptSpec
import Fsnet.World.State
/-!
# What the functions of a host touch

Every function of a host acts on one entity: its slot, its job, its release.
`Elsewhere` says that the other entities are left alone, `SlotMove` lists what
can happen to a slot while its entity's job does not change.
-/

namespace Fsnet

open Lib Function

/-- The host differs at the entity `k` only. -/
structure Elsewhere (h h' : Host) (k : EntityKey) : Prop where
  limits : h'.limits = h.limits
  active : ∀ k', k' ≠ k → h'.active k' = h.active k'
  slots : ∀ k', k' ≠ k → h'.slots k' = h.slots k'
  releases : ∀ k', k' ≠ k → h'.releases k' = h.releases k'

namespace Elsewhere

variable {h h' h'' : Host} {k : EntityKey}

theorem refl (h : Host) (k : EntityKey) : Elsewhere h h k := ⟨rfl, fun _ _ => rfl, fun _ _ => rfl, fun _ _ => rfl⟩

theorem trans (a : Elsewhere h h' k) (b : Elsewhere h' h'' k) : Elsewhere h h'' k where
  limits := b.limits.trans a.limits
  active k' hk := (b.active k' hk).trans (a.active k' hk)
  slots k' hk := (b.slots k' hk).trans (a.slots k' hk)
  releases k' hk := (b.releases k' hk).trans (a.releases k' hk)

theorem setJob (h : Host) (k : EntityKey) (j : Job) : Elsewhere h (h.setJob k j) k :=
  ⟨rfl, fun _ hk => update_of_ne hk _ _, fun _ _ => rfl, fun _ _ => rfl⟩

end Elsewhere

/-- The host differs in the slot of `k` only. -/
structure SlotOnly (h h' : Host) (k : EntityKey) : Prop where
  elsewhere : Elsewhere h h' k
  active : h'.active = h.active
  releases : h'.releases k = h.releases k
  serial : h'.serial = h.serial
  sends : h'.sends = h.sends

namespace SlotOnly

variable {h h' h'' : Host} {k : EntityKey}

theorem refl (h : Host) (k : EntityKey) : SlotOnly h h k := ⟨.refl h k, rfl, rfl, rfl, rfl⟩

theorem trans (a : SlotOnly h h' k) (b : SlotOnly h' h'' k) : SlotOnly h h'' k :=
  ⟨a.elsewhere.trans b.elsewhere, b.active.trans a.active, b.releases.trans a.releases, b.serial.trans a.serial,
    b.sends.trans a.sends⟩

theorem update {o : Option Slot} (hl : h'.limits = h.limits) (ha : h'.active = h.active)
    (hs : h'.slots = update h.slots k o) (hr : h'.releases = h.releases) (hn : h'.serial = h.serial)
    (hm : h'.sends = h.sends) : SlotOnly h h' k :=
  ⟨⟨hl, fun _ _ => by rw [ha], fun _ hk => by rw [hs, update_of_ne hk], fun _ _ => by rw [hr]⟩, ha, by rw [hr], hn, hm⟩

theorem setSlot (h : Host) (k : EntityKey) (slot : Slot) : SlotOnly h (h.setSlot k slot) k :=
  .update rfl rfl rfl rfl rfl rfl

theorem dropSlot (h : Host) (k : EntityKey) : SlotOnly h (h.dropSlot k) k := by
  unfold Host.dropSlot
  split
  · exact .refl h k
  · exact .update rfl rfl rfl rfl rfl rfl

theorem counters (hs : SlotOnly h h' k) (c : Counters) : SlotOnly h { h' with counters := c } k :=
  ⟨⟨hs.elsewhere.limits, hs.elsewhere.active, hs.elsewhere.slots, hs.elsewhere.releases⟩, hs.active,
    hs.releases, hs.serial, hs.sends⟩

end SlotOnly

theorem Host.dropSlot_slot (h : Host) (k : EntityKey) : (h.dropSlot k).slots k = none := by
  unfold dropSlot
  split
  · assumption
  · exact update_self ..

/-- The entity an event is about. -/
@[simp] def HostEvent.entity : HostEvent → EntityKey
  | .checked k _ _ _ => k
  | .started k _ _ => k
  | .scheduled k _ _ => k
  | .replied k _ _ => k

/-! ## Where a request comes from -/

/-- The calls that reach a host: from outside, or from the host itself when an entity is to leave. -/
inductive Called (hash : Bytes → Bytes) (w : World) (host : HostId) (h : Host) : Call → Prop
  | asked (ask : Ask) (call : Call) (ha : ask.toCall hash host w h = some call) : Called hash w host h call
  | leaving (k : EntityKey) (reason : Bytes) :
    Called hash w host h (.framework ⟨k.type, deactivateMethod⟩ k.id reason "")

/-- The slot a request joins: the entity's, or a new one. -/
def Opens (h : Host) (k : EntityKey) (slot : Slot) : Prop :=
  h.slots k = some slot ∨ (h.slots k = none ∧ slot = { generation := h.generation + 1 })

/-- One access of a release. -/
inductive ReleaseStep (w : World) (host : HostId) (k : EntityKey) : ReleaseStage → ReleaseStage → Prop
  | fail : ReleaseStep w host k .reading (.finished .internal)
  | read : ReleaseStep w host k .reading (Host.releaseRead host (w.entities k.id).get)
  | write (expected : UInt64) (value : StoredRecord) (status : Status) :
    ReleaseStep w host k (.writing expected value) (.finished status)

/-- What can happen to the slot and the release of an entity while its job stays as it is. -/
inductive SlotMove (hash : Bytes → Bytes) (w : World) (host : HostId) (h h' : Host) (k : EntityKey) : Prop
  | same (hs : h'.slots k = h.slots k) (hr : h'.releases k = h.releases k)
  | push (call : Call) (method : MethodRef) (slot : Slot) (hc : Called hash w host h call)
      (hk : k = ⟨call.route.type, call.id⟩) (hm : h.methods call.route = some method) (ho : Opens h k slot)
      (hs : h'.slots k = some { slot with
        queue := slot.queue ++ [h.request hash host method call]
        releasing := slot.releasing || (h.request hash host method call).route.isControl })
      (hr : h'.releases k = h.releases k)
  | expire (slot : Slot) (position : Nat) (releasing : Bool) (hslot : h.slots k = some slot)
      (hs : h'.slots k = some { slot with queue := slot.queue.eraseIdx position, releasing })
      (hr : h'.releases k = h.releases k)
  | drop (slot : Slot) (hslot : h.slots k = some slot) (hbusy : slot.busy = false) (hs : h'.slots k = none)
      (hr : h'.releases k = h.releases k)
  | deactivate (slot : Slot) (hslot : h.slots k = some slot) (hbusy : slot.busy = false)
      (hs : h'.slots k = some { slot with busy := true, releasing := true })
      (hr : h'.releases k = some .reading)
  | release (stage stage' : ReleaseStage) (hstage : h.releases k = some stage)
      (hstep : ReleaseStep w host k stage stage')
      (hs : h'.slots k = h.slots k) (hr : h'.releases k = some stage')
  | released (status : Status) (hstage : h.releases k = some (.finished status))
      (hs : h'.slots k = none ∨ ∃ slot, h.slots k = some slot ∧
        h'.slots k = some { slot with busy := false, releasing := false })
      (hr : h'.releases k = none)

/-- A step of a host that leaves its jobs alone. -/
structure Quiet (hash : Bytes → Bytes) (w : World) (host : HostId) (h h' : Host) (k : EntityKey) : Prop where
  elsewhere : Elsewhere h h' k
  active : h'.active k = h.active k
  serial : h'.serial = h.serial
  slot : SlotMove hash w host h h' k

namespace Quiet

variable {hash : Bytes → Bytes} {w : World} {host : HostId} {h h' : Host} {k : EntityKey}

theorem refl (h : Host) (k : EntityKey) : Quiet hash w host h h k := ⟨.refl h k, rfl, rfl, .same rfl rfl⟩

/-- Settings of the host. -/
theorem config (hl : h'.limits = h.limits) (ha : h'.active = h.active) (hs : h'.slots = h.slots)
    (hr : h'.releases = h.releases) (hn : h'.serial = h.serial) (k : EntityKey) : Quiet hash w host h h' k :=
  ⟨⟨hl, fun _ _ => by rw [ha], fun _ _ => by rw [hs], fun _ _ => by rw [hr]⟩, by rw [ha], hn,
    .same (by rw [hs]) (by rw [hr])⟩

theorem bindMethod (route : Route) (method : Method) (k : EntityKey) :
    Quiet hash w host h (World.bindMethod route method h) k := by
  unfold World.bindMethod
  split
  · exact .refl h k
  · refine .config ?_ ?_ ?_ ?_ ?_ k <;> rfl

theorem setPolicy (route : Route) (policy : RpcPolicy) (k : EntityKey) :
    Quiet hash w host h (World.setPolicy route policy h) k := by
  unfold World.setPolicy
  split
  · exact .refl h k
  · split
    · exact .refl h k
    · refine .config ?_ ?_ ?_ ?_ ?_ k <;> rfl

theorem startSend (k : EntityKey) (n : Nat) (type id method payload : Bytes) :
    Quiet hash w host h (h.startSend k n type id method payload) k := by
  unfold Host.startSend
  split
  · exact .refl h k
  · split
    · exact .refl h k
    · refine .config ?_ ?_ ?_ ?_ ?_ k <;> rfl

theorem openSlot_some {slot : Slot} (ho : h.openSlot k = some (h', slot)) :
    Opens h k slot ∧ h'.slots k = some slot ∧ Elsewhere h h' k ∧ h'.active = h.active ∧ h'.serial = h.serial ∧
      h'.releases = h.releases ∧ h'.methods = h.methods ∧ h'.objects = h.objects := by
  unfold Host.openSlot at ho
  split at ho
  · rename_i hslot
    cases ho
    exact ⟨.inl hslot, hslot, .refl h k, rfl, rfl, rfl, rfl, rfl⟩
  rename_i hslot
  split at ho
  · cases ho
  · cases ho
    exact ⟨.inr ⟨hslot, rfl⟩, update_self .., ⟨rfl, fun _ _ => rfl,
      fun _ hk => update_of_ne hk _ _, fun _ _ => rfl⟩, rfl, rfl, rfl, rfl, rfl⟩

theorem enqueue {call : Call} (hc : Called hash w host h call) (live : Bool) :
    Quiet hash w host h (h.enqueue hash host call live) ⟨call.route.type, call.id⟩ := by
  unfold Host.enqueue
  split
  · exact .refl h _
  rename_i method hm
  split
  · exact .refl h _
  dsimp only
  split
  · exact .refl h _
  rename_i h' slot ho
  obtain ⟨hopen, hslot, hel, ha, hs, hr, hmeth, hobj⟩ := openSlot_some ho
  have hreq : h'.request hash host method call = h.request hash host method call := by
    unfold Host.request resolveDelivery
    rw [hmeth, hobj]
  split
  · rename_i hrel
    -- a slot that is being released was there before
    rcases hopen with hold | ⟨-, rfl⟩
    · exact ⟨hel, by rw [ha], hs, .same (hslot.trans hold.symm) (by rw [hr])⟩
    · cases hrel
  have hpush : ∀ request, Elsewhere h' (h'.push ⟨call.route.type, call.id⟩ slot request) ⟨call.route.type, call.id⟩ :=
    fun _ => ⟨rfl, fun _ _ => rfl, fun _ hk => update_of_ne hk _ _, fun _ _ => rfl⟩
  refine ⟨hel.trans (hpush _), by rw [← ha]; rfl, hs, ?_⟩
  refine .push call method slot hc rfl hm hopen ?_ (by rw [← hr]; rfl)
  rw [← hreq]
  exact update_self ..

theorem expireQueued (k : EntityKey) (position : Nat) : Quiet hash w host h (h.expireQueued k position) k := by
  unfold Host.expireQueued
  split
  · exact .refl h k
  rename_i slot hslot
  split
  · exact .refl h k
  · exact ⟨⟨rfl, fun _ _ => rfl, fun _ hk => update_of_ne hk _ _, fun _ _ => rfl⟩, rfl, rfl,
      .expire slot position _ hslot (update_self ..) rfl⟩

theorem dropSlot {slot : Slot} (hslot : h.slots k = some slot) (hbusy : slot.busy = false) :
    Quiet hash w host h (h.dropSlot k) k := by
  have hdrop := SlotOnly.dropSlot h k
  exact ⟨hdrop.elsewhere, by rw [hdrop.active], hdrop.serial, .drop slot hslot hbusy (h.dropSlot_slot k) hdrop.releases⟩

theorem evict (k : EntityKey) : Quiet hash w host h (h.evict hash host k) k := by
  unfold Host.evict
  split
  · exact .refl h k
  rename_i hslot
  split
  · exact .refl h k
  rename_i hidle
  split
  · exact Quiet.enqueue (.leaving k _) true
  · rw [not_or, not_or] at hidle
    exact .dropSlot hslot (by simpa using hidle.2.1)

theorem idleSlot_some {slot : Slot} {generation : UInt64} (hslot : h.slots k = some slot)
    (hi : h.idleSlot k generation = true) : slot.busy = false := by
  unfold Host.idleSlot at hi
  rw [hslot] at hi
  simp only [Option.any_some, Bool.and_eq_true, Bool.not_eq_true'] at hi
  exact hi.1.2

theorem deactivate (k : EntityKey) (generation : UInt64) (accepted : Bool) :
    Quiet hash w host h (h.deactivate hash host k generation accepted) k := by
  unfold Host.deactivate
  split
  · exact .refl h k
  rename_i hidle
  split
  · exact Quiet.enqueue (.leaving k _) true
  split
  · exact .refl h k
  split
  · exact .refl h k
  rename_i slot hslot
  rw [not_or, Bool.not_eq_false] at hidle
  refine ⟨⟨rfl, fun _ _ => rfl, fun _ hk => update_of_ne hk _ _,
    fun _ hk => update_of_ne hk _ _⟩, rfl, rfl, ?_⟩
  exact .deactivate slot hslot (idleSlot_some hslot hidle.2) (update_self ..) (update_self ..)

theorem setRelease {stage stage' : ReleaseStage} (hs : h.releases k = some stage)
    (hstep : ReleaseStep w host k stage stage') : Quiet hash w host h (h.setRelease k stage') k :=
  ⟨⟨rfl, fun _ _ => rfl, fun _ _ => rfl, fun _ hk => update_of_ne hk _ _⟩, rfl, rfl,
    .release stage stage' hs hstep rfl (update_self ..)⟩

theorem finishRelease {status : Status} (hs : h.releases k = some (.finished status)) :
    Quiet hash w host h (h.finishRelease k status) k := by
  have hidle : Elsewhere h { h with releases := update h.releases k none } k :=
    ⟨rfl, fun _ _ => rfl, fun _ _ => rfl, fun _ hk => update_of_ne hk _ _⟩
  unfold Host.finishRelease
  dsimp only
  split
  · have hdrop := SlotOnly.dropSlot { h with releases := update h.releases k none } k
    exact ⟨hidle.trans hdrop.elsewhere, by rw [hdrop.active], hdrop.serial,
      .released status hs (.inl (Host.dropSlot_slot _ k)) (hdrop.releases.trans (update_self ..))⟩
  · split
    · rename_i hnone
      exact ⟨hidle, rfl, rfl, .released status hs (.inl hnone) (update_self ..)⟩
    · rename_i slot hslot
      exact ⟨hidle.trans (SlotOnly.setSlot _ k _).elsewhere, rfl, rfl,
        .released status hs (.inr ⟨slot, hslot, update_self ..⟩) (update_self ..)⟩

end Quiet

/-! ## The end of a job -/

/-- The slot a job leaves behind. -/
def Slot.after (slot : Slot) (j : Job) (result : Result) (uncertain : Bool) (generation : UInt64) : Option Slot :=
  let slot := ((slot.adopt j result).carry j result).settle j result
  let slot := if uncertain then slot.invalidate generation else slot
  if result.status = .ok ∧ j.request.route.isControl then none
  else if j.wrongNode ∧ slot.queue.isEmpty then none
  else some slot

namespace Host

variable (h : Host) (k : EntityKey) (j : Job) (result : Result) (uncertain : Bool)

/-- What completing a job leaves alone, once the job is gone. -/
theorem complete_slotOnly : SlotOnly (h.eraseJob k) (h.complete k j result uncertain).host k := by
  have hsettle : ∀ h : Host, SlotOnly h (h.settleSlot k j result) k := by
    intro h
    unfold settleSlot
    split
    · exact .refl h k
    · exact .setSlot h k _
  have hinvalidate : ∀ h : Host, SlotOnly h (if uncertain then h.invalidateSlot k else h) k := by
    intro h
    split
    · unfold invalidateSlot
      split
      · exact .refl h k
      · exact .update rfl rfl rfl rfl rfl rfl
    · exact .refl h k
  have hcontrol : ∀ h : Host, SlotOnly h (h.releaseControl k j result) k := by
    intro h
    unfold releaseControl
    split
    · exact .dropSlot h k
    · exact .refl h k
  have hwrong : ∀ h : Host, SlotOnly h (h.releaseWrongNode k j) k := by
    intro h
    unfold releaseWrongNode
    split
    · exact .dropSlot h k
    · exact .refl h k
  exact (((((SlotOnly.refl (h.eraseJob k) k).counters _).trans (hsettle _)).trans (hinvalidate _)).trans
    (hcontrol _)).trans (hwrong _)

theorem complete_elsewhere : Elsewhere h (h.complete k j result uncertain).host k := by
  have herase : Elsewhere h (h.eraseJob k) k :=
    ⟨rfl, fun _ hk => update_of_ne hk _ _, fun _ _ => rfl, fun _ _ => rfl⟩
  exact herase.trans (complete_slotOnly h k j result uncertain).elsewhere

theorem settleSlot_slot (h : Host) : (h.settleSlot k j result).slots k =
    (h.slots k).map fun slot => ((slot.adopt j result).carry j result).settle j result := by
  unfold settleSlot
  cases hslot : h.slots k with
  | none => exact hslot
  | some => exact update_self ..

theorem settleSlot_generation (h : Host) : (h.settleSlot k j result).generation = h.generation := by
  unfold settleSlot
  split <;> rfl

theorem invalidateSlot_slot (h : Host) : (h.invalidateSlot k).slots k =
    (h.slots k).map fun slot => slot.invalidate (h.generation + 1) := by
  unfold invalidateSlot
  cases hslot : h.slots k with
  | none => exact hslot
  | some => exact update_self ..

theorem releaseControl_slot (h : Host) : (h.releaseControl k j result).slots k =
    if result.status = .ok ∧ j.request.route.isControl then none else h.slots k := by
  unfold releaseControl
  split
  · exact dropSlot_slot h k
  · rfl

theorem releaseWrongNode_slot (h : Host) : (h.releaseWrongNode k j).slots k =
    if j.wrongNode ∧ (h.slots k).any (fun slot => slot.queue.isEmpty) then none else h.slots k := by
  unfold releaseWrongNode
  split
  · exact dropSlot_slot h k
  · rfl

/-- What completing a job does to its slot. -/
theorem complete_slot : (h.complete k j result uncertain).host.slots k =
    (h.slots k).bind fun slot => slot.after j result uncertain (h.generation + 1) := by
  have hinvalidate : ∀ h : Host, (if uncertain then h.invalidateSlot k else h).slots k =
      (h.slots k).map fun slot => if uncertain then slot.invalidate (h.generation + 1) else slot := by
    intro h
    cases uncertain with
    | true => exact invalidateSlot_slot k h
    | false => simp
  unfold complete
  dsimp only
  rw [releaseWrongNode_slot, releaseControl_slot, hinvalidate, settleSlot_slot, settleSlot_generation]
  show _ = (h.slots k).bind _
  cases hslot : h.slots k with
  | none =>
    rw [show (h.eraseJob k).slots k = none from hslot]
    simp
  | some slot =>
    rw [show (h.eraseJob k).slots k = some slot from hslot]
    simp only [Option.map_some, Option.bind_some, Slot.after]
    split
    · simp
    · simp only [Option.any_some]
      rfl

theorem complete_active : (h.complete k j result uncertain).host.active k = none := by
  rw [(complete_slotOnly h k j result uncertain).active]
  exact update_self ..

theorem complete_sends : (h.complete k j result uncertain).host.sends = h.sends :=
  (complete_slotOnly h k j result uncertain).sends

theorem complete_releases : (h.complete k j result uncertain).host.releases k = h.releases k :=
  (complete_slotOnly h k j result uncertain).releases

end Host

/-! ## Turns -/

theorem learnOwner_slotOnly (h : Host) (k : EntityKey) (j : Job) : SlotOnly h (h.learnOwner k j) k := by
  unfold Host.learnOwner
  split
  · exact .setSlot h k _
  · exact .refl h k

/-- A turn of the host `h` on the job of `k`. -/
structure Turn.Local (turn : Turn) (h : Host) (k : EntityKey) : Prop where
  elsewhere : Elsewhere h turn.host k
  releases : turn.host.releases k = h.releases k
  serial : turn.host.serial = h.serial
  events : ∀ e ∈ turn.events, e.entity = k

variable {hash : Bytes → Bytes} {host : HostId} {h h' : Host} {k : EntityKey} {env : Ambient} {j j' : Job} {turn : Turn}

theorem local_complete {events : List HostEvent} (hs : SlotOnly h h' k) (c : Counters) (j : Job) (result : Result)
    (uncertain : Bool) (he : ∀ e ∈ events, e.entity = k) :
    Turn.Local ⟨({ h' with counters := c }.complete k j result uncertain).host, events⟩ h k := by
  have hdone := Host.complete_slotOnly { h' with counters := c } k j result uncertain
  exact ⟨(hs.counters c).elsewhere.trans (Host.complete_elsewhere _ _ _ _ _), hdone.releases.trans hs.releases,
    hdone.serial.trans hs.serial, he⟩

theorem local_setJob {events : List HostEvent} (hs : SlotOnly h h' k) (c : Counters) (j : Job)
    (he : ∀ e ∈ events, e.entity = k) : Turn.Local ⟨{ h' with counters := c }.setJob k j, events⟩ h k :=
  ⟨(hs.counters c).elsewhere.trans (.setJob _ k j), hs.releases, hs.serial, he⟩

theorem complete_local (h : Host) (k : EntityKey) (j : Job) (result : Result) (uncertain : Bool) :
    (h.complete k j result uncertain).Local h k :=
  local_complete (.refl h k) h.counters j result uncertain (by simp)

theorem CheckEvents.entity {live : Bool} {checks : List HostEvent} (hc : CheckEvents h k live j checks) :
    ∀ e ∈ checks, e.entity = k := by
  intro e he
  obtain ⟨_, rfl, -⟩ := hc e he
  rfl

theorem CommitChecks.entity {live : Bool} {checks : List HostEvent} (hc : CommitChecks h k live j checks) :
    ∀ e ∈ checks, e.entity = k :=
  (hc.events (.refl j)).entity

theorem Concludes.isLocal {result : Result} (hs : SlotOnly h h' k) (hc : Concludes hash host h' k env j result turn) :
    turn.Local h k := by
  cases hc with
  | ended c j' r _ _ _ hc =>
    refine local_complete hs c j' r false ?_
    intro e he
    rcases List.mem_append.1 he with he | he
    · exact hc.entity e he
    · rw [List.mem_singleton.1 he]
      rfl
  | commits c _ _ j' _ _ _ _ hc => exact local_setJob hs c j' hc.entity

theorem Answers.isLocal {result : Result} (ha : Answers hash host h k env j result turn) : turn.Local h k := by
  cases ha with
  | concludes _ _ _ hc => exact hc.isLocal (.refl h k)
  | starts c =>
    exact local_setJob (.refl h k) c _ (by simp)

theorem Runs.isLocal (hs : SlotOnly h h' k) (hr : Runs hash host h' k env j turn) : turn.Local h k := by
  cases hr with
  | refused c j' r | failed c _ j' r =>
    exact local_complete hs c j' r false (by simp)
  | replayed c j₁ =>
    exact local_complete hs c j₁ _ false (by simp)
  | concludes _ _ _ _ _ _ _ _ _ _ _ hc =>
    have hl := hc.isLocal hs
    refine ⟨hl.elsewhere, hl.releases, hl.serial, ?_⟩
    intro e he
    rcases List.mem_cons.1 he with rfl | he
    · rfl
    · exact hl.events e he
  | starts c _ _ _ _ _ _ _ _ =>
    exact local_setJob hs c _ (by simp)

@[simp] theorem setJob_active (h : Host) (k : EntityKey) (j : Job) : (h.setJob k j).active k = some j :=
  update_self ..

/-- A job that is still there when its script has ended goes to its commit. -/
theorem Concludes.commit {result : Result} (hc : Concludes hash host h k env j result turn)
    (hj : turn.host.active k = some j') :
    ∃ j₁ r₁ value, Settles j result j₁ r₁ ∧ Built hash host h.limits k env.now j₁ r₁ j' value ∧
      CommitChecks h k env.live j₁ turn.events := by
  cases hc with
  | ended =>
    rw [Host.complete_active] at hj
    cases hj
  | commits _ j₁ r₁ _ value _ hs hb hchk =>
    rw [setJob_active] at hj
    cases hj
    exact ⟨j₁, r₁, value, hs, hb, hchk⟩

/-- How a job that could not be acquired is answered: it fails, but a delivery
that is refused as not found is acknowledged as such. -/
def RefusedWith (j : Job) (metadataOnly : Bool) (result : Result) : Prop :=
  result.status ≠ .ok ∨ (metadataOnly = true ∧ j.status = .notFound ∧ ∃ e, j.request.incoming = some e ∧
    encodeDeliveryAck e.message.ticket ⟨.notFound, []⟩ = .ok result.data)

theorem refuseAcquired_complete (h : Host) (k : EntityKey) (hs : j.status ≠ .ok) :
    ∃ metadataOnly result, h.refuseAcquired k j = h.complete k { j with metadataOnly } result ∧
      RefusedWith j metadataOnly result := by
  unfold Host.refuseAcquired
  split
  · rename_i e he
    split
    · rename_i hn
      split
      · rename_i output ho
        exact ⟨true, ⟨.ok, output⟩, rfl, .inr ⟨rfl, hn, e, he, ho⟩⟩
      · exact ⟨true, ⟨.internal, []⟩, rfl, .inl (by decide)⟩
    · exact ⟨j.metadataOnly, ⟨j.status, []⟩, rfl, .inl hs⟩
  · exact ⟨j.metadataOnly, ⟨j.status, []⟩, rfl, .inl hs⟩

/-- How a job whose commit has ended is answered. -/
structure FinishedWith (j : Job) (threw : Bool) (result : Result) (uncertain : Bool) : Prop where
  failed : threw = true → result = ⟨.internal, []⟩ ∧ uncertain = true
  done : threw = false → uncertain = false ∧ result.status = j.status ∧ (j.status = .ok → result.data = j.output)

theorem finishCommit_complete (h : Host) (k : EntityKey) (j : Job) (threw : Bool) :
    ∃ result uncertain, h.finishCommit k j threw = h.complete k j result uncertain ∧
      FinishedWith j threw result uncertain := by
  unfold Host.finishCommit
  cases threw with
  | true => exact ⟨_, _, rfl, fun _ => ⟨rfl, rfl⟩, by rintro ⟨⟩⟩
  | false => exact ⟨_, _, rfl, (by rintro ⟨⟩), fun _ => ⟨rfl, rfl, fun hs => if_pos hs⟩⟩

end Fsnet
