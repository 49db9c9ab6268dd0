import Fsnet.World.Past
/-!
# Where a request comes from

Every request in a queue, in a job or in the trace was made by one of the calls
of a host, up to the payload of a timer and the error of a delivery.
-/

namespace Fsnet

open Lib List

variable {hash : Bytes → Bytes} {host : HostId} {h h' : Host} {limits : RuntimeLimits} {k : EntityKey} {env : Ambient}
  {j j' : Job} {w w' : World} {r : Request} {T news : List Event} {o o' : Option Job}

/-- The call behind a request, in a world that knew no more deliveries than this one. -/
structure Requested (hash : Bytes → Bytes) (w : World) (host : HostId) (k : EntityKey) (r : Request) : Prop where
  call : ∃ (w₀ : World) (h₀ : Host) (call : Call) (method : MethodRef), Called hash w₀ host h₀ call ∧
    k = ⟨call.route.type, call.id⟩ ∧ h₀.methods call.route = some method ∧
    w₀.envelopes ⊆ w.envelopes ∧ w₀.answers ⊆ w.answers ∧
    ∃ payload deliveryError, r = { h₀.request hash host method call with payload, deliveryError } ∧
      (r.incoming = none → deliveryError = none)

namespace Requested

theorem mono (hr : Requested hash w host k r) (he : w.envelopes ⊆ w'.envelopes) (ha : w.answers ⊆ w'.answers) :
    Requested hash w' host k r := by
  obtain ⟨w₀, h₀, call, method, hc, hk, hm, he₀, ha₀, hr⟩ := hr.call
  exact ⟨w₀, h₀, call, method, hc, hk, hm, List.Subset.trans he₀ he, List.Subset.trans ha₀ ha, hr⟩

/-- Only a delivery is answered with an error of its own. -/
theorem deliveryError (hr : Requested hash w host k r) (hin : r.incoming = none) : r.deliveryError = none := by
  obtain ⟨_, _, call, _, -, -, -, -, -, _, _, heq, hnone⟩ := hr.call
  rw [heq]
  exact hnone hin

theorem congr (hr : Requested hash w host k r) (payload : Bytes) (deliveryError : Option Result)
    (hd : r.incoming = none → deliveryError = r.deliveryError) :
    Requested hash w host k { r with payload, deliveryError } := by
  have hnone : r.incoming = none → deliveryError = none := fun hin => (hd hin).trans (hr.deliveryError hin)
  obtain ⟨w₀, h₀, call, method, hc, hk, hm, he, ha, _, _, rfl, -⟩ := hr.call
  exact ⟨w₀, h₀, call, method, hc, hk, hm, he, ha, payload, deliveryError, rfl, hnone⟩

theorem kept (hr : Requested hash w host k j.request) (hk : Kept j j') : Requested hash w host k j'.request := by
  obtain ⟨deliveryError, he, hsame⟩ := hk.request
  rw [he]
  exact hr.congr j.request.payload deliveryError hsame

theorem same (hr : Requested hash w host k j.request) (hs : SameRequest j j') : Requested hash w host k j'.request := by
  obtain ⟨-, payload, he⟩ := hs
  rw [he]
  exact hr.congr payload j.request.deliveryError fun _ => rfl

end Requested

/-- A delivery resolved to its method is otherwise the request it was. -/
theorem resolveDelivery_eq (h : Host) (r : Request) :
    ∃ method route deliveryError, resolveDelivery h r = { r with method, route, deliveryError } ∧
      (r.incoming = none → route = r.route ∧ deliveryError = r.deliveryError) ∧
      (route = r.route ∨ route.isInternal = false) ∧ route.type = r.route.type := by
  unfold resolveDelivery
  split
  · exact ⟨_, _, _, rfl, fun _ => ⟨rfl, rfl⟩, .inl rfl, rfl⟩
  rename_i e he
  have hsome : r.incoming ≠ none := by
    rw [he]
    exact Option.some_ne_none e
  dsimp only
  split
  · exact ⟨_, _, _, rfl, fun hn => absurd hn hsome, .inl rfl, rfl⟩
  split
  · exact ⟨_, _, _, rfl, fun hn => absurd hn hsome, .inl rfl, rfl⟩
  · rename_i hinternal
    exact ⟨_, _, _, rfl, fun hn => absurd hn hsome, .inr (by simpa using hinternal), rfl⟩

/-- What a request takes over from its call. -/
structure Carries (call : Call) (r : Request) : Prop where
  handoffTarget : r.handoffTarget = call.handoffTarget
  acceptTransfer : r.acceptTransfer = call.acceptTransfer
  incoming : r.incoming = call.incoming
  ack : r.ack = call.ack
  newOwner : r.newOwner = call.newOwner
  timer : r.timer = call.timer
  tick : r.tick = call.tick
  requestId : call.requestId = [] → r.requestId = []
  route : call.incoming = none → r.route = call.route
  control : r.route.isControl = true → r.route = call.route
  type : r.route.type = call.route.type

theorem isInternal_of_isControl {route : Route} (h : route.isControl = true) : route.isInternal = true := by
  simp only [Route.isControl, Bool.or_eq_true, decide_eq_true_eq] at h
  unfold Route.isInternal
  rcases h with h | h <;> rw [h] <;> decide

theorem request_carries (hash : Bytes → Bytes) (host : HostId) (h : Host) (method : MethodRef) (call : Call) :
    Carries call (h.request hash host method call) := by
  unfold Host.request
  dsimp only
  obtain ⟨_, _, _, heq, hsame, hroute, htype⟩ := resolveDelivery_eq h _
  rw [heq]
  refine ⟨rfl, rfl, rfl, rfl, rfl, rfl, rfl, fun hid => ?_, fun hin => (hsame hin).1, fun hcontrol => ?_, htype⟩
  · simp [hid]
  · refine hroute.resolve_right fun hinternal => ?_
    rw [isInternal_of_isControl hcontrol] at hinternal
    cases hinternal

theorem request_deliveryError (hash : Bytes → Bytes) (host : HostId) (h : Host) (method : MethodRef) {call : Call}
    (hin : call.incoming = none) : (h.request hash host method call).deliveryError = none := by
  unfold Host.request
  dsimp only
  obtain ⟨_, _, _, heq, hsame, -⟩ := resolveDelivery_eq h _
  rw [heq]
  exact (hsame hin).2

theorem Requested.carries (hr : Requested hash w host k r) :
    ∃ w₀ h₀ call, Called hash w₀ host h₀ call ∧ k = ⟨call.route.type, call.id⟩ ∧ w₀.envelopes ⊆ w.envelopes ∧
      w₀.answers ⊆ w.answers ∧ Carries call r := by
  obtain ⟨w₀, h₀, call, method, hc, hk, -, he, ha, _, _, rfl, -⟩ := hr.call
  have hcar := request_carries hash host h₀ method call
  exact ⟨w₀, h₀, call, hc, hk, he, ha, { hcar with }⟩

theorem Requested.type (hr : Requested hash w host k r) : r.route.type = k.type := by
  obtain ⟨_, _, _, -, hk, -, -, hcar⟩ := hr.carries
  rw [hcar.type, hk]

/-! ## What each call may ask for -/

/-- A transfer is a deactivation, an acceptance asks for nothing else, no release is keyed; a delivery carries an
envelope that a worker has read, and an acknowledgement an answer that a worker got. -/
structure Call.Wellformed (w : World) (call : Call) : Prop where
  handoff : call.handoffTarget ≠ [] → call.route.isControl = true ∧ call.incoming = none
  accept : call.acceptTransfer ≠ 0 → call.requestId = [] ∧ call.incoming = none ∧ call.timer = none
  unkeyed : call.route.isControl = true → call.requestId = []
  incoming : ∀ e, call.incoming = some e →
    e ∈ w.envelopes ∧ call.route = ⟨e.message.type, snapshotMethod⟩ ∧ call.id = e.message.id
  ack : ∀ ack, call.ack = some ack → ∃ e result, (e, result) ∈ w.answers ∧ result.status = .ok ∧
    ack.epoch = e.sourceEpoch ∧ ack.ticket = e.message.ticket ∧
    decodeDeliveryAck result.data = .ok (ack.ticket, ack.result) ∧ call.route = ⟨e.sourceType, snapshotMethod⟩ ∧
    call.id = e.sourceId

theorem Called.wellformed {call : Call} (hc : Called hash w host h call) : call.Wellformed w := by
  have hquiet : ∀ call : Call, call.incoming = none → call.ack = none →
      (call.handoffTarget ≠ [] → call.route.isControl = true ∧ call.incoming = none) →
      (call.acceptTransfer ≠ 0 → call.requestId = [] ∧ call.incoming = none ∧ call.timer = none) →
      (call.route.isControl = true → call.requestId = []) → call.Wellformed w :=
    fun call hi hk hh ha hu =>
      ⟨hh, ha, hu, fun e he => (nomatch hi.symm.trans he), fun ack he => (nomatch hk.symm.trans he)⟩
  have hplain : ∀ call : Call, call.incoming = none → call.ack = none → call.handoffTarget = [] →
      call.acceptTransfer = 0 → (call.route.isControl = true → call.requestId = []) → call.Wellformed w :=
    fun call hi hk hh ha hu => hquiet call hi hk (fun hne => absurd hh hne) (fun hne => absurd ha hne) hu
  cases hc with
  | leaving => exact hplain _ rfl rfl rfl rfl fun _ => rfl
  | asked ask call ha =>
    cases ask with
    | call route id payload requestId capacity identity =>
      simp only [Ask.toCall, Host.callEntity, Option.ite_none_right_eq_some, Option.some.injEq] at ha
      obtain ⟨⟨hvalid, -⟩, rfl⟩ := ha
      refine hplain _ rfl rfl rfl rfl fun hcontrol => ?_
      have hinternal : decide (route.method.head? = some 0x24) = true := isInternal_of_isControl hcontrol
      simp only [validEntityMethod, Bool.and_eq_true, decide_eq_true_eq] at hvalid hinternal
      exact absurd hinternal hvalid.2
    | read | readGuarded =>
      cases ha
      exact hplain _ rfl rfl rfl rfl fun _ => rfl
    | write type id proposal requestId identity =>
      simp only [Ask.toCall, Host.writeAttributes, Option.ite_none_right_eq_some, Option.some.injEq] at ha
      rw [← ha.2]
      refine hplain _ rfl rfl rfl rfl fun hcontrol => ?_
      have hnot : Route.isControl ⟨type, writeMethod⟩ = false := by
        show (decide (writeMethod = deactivateMethod) || decide (writeMethod = destroyMethod)) = false
        rfl
      rw [hnot] at hcontrol
      cases hcontrol
    | bindOwner | fireTimer =>
      simp only [Ask.toCall, Host.bindOwner, Host.fireTimer, Option.ite_none_left_eq_some, Option.some.injEq] at ha
      rw [← ha.2]
      exact hplain _ rfl rfl rfl rfl fun _ => rfl
    | receive identity envelope =>
      simp only [Ask.toCall, Host.receiveDelivery] at ha
      split at ha
      · rename_i hmem
        split at ha
        · cases ha
        split at ha
        · cases ha
        · cases ha
          refine ⟨fun hne => absurd rfl hne, fun hne => absurd rfl hne, fun _ => rfl, fun e he => ?_, nofun⟩
          cases he
          exact ⟨hmem, rfl, rfl⟩
      · cases ha
    | acknowledge envelope result =>
      simp only [Ask.toCall, Host.acknowledgeDelivery] at ha
      split at ha
      · rename_i hmem
        split at ha
        · cases ha
        rename_i hdecode
        split at ha
        · rename_i hticket
          split at ha
          · cases ha
          · cases ha
            refine ⟨fun hne => absurd rfl hne, fun hne => absurd rfl hne, fun _ => rfl, nofun, fun ack hack => ?_⟩
            cases hack
            exact ⟨envelope, result, hmem.1, hmem.2, rfl, hticket, hdecode, rfl, rfl⟩
        · cases ha
      · cases ha
    | acceptHandoff =>
      simp only [Ask.toCall, Host.acceptHandoff, Option.ite_none_left_eq_some, Option.some.injEq] at ha
      rw [← ha.2]
      exact hquiet _ rfl rfl (fun hne => absurd rfl hne) (fun _ => ⟨rfl, rfl, rfl⟩) fun _ => rfl
    | handoff =>
      simp only [Ask.toCall, Host.handoff, Option.ite_none_left_eq_some, Option.some.injEq] at ha
      rw [← ha.2]
      exact hquiet _ rfl rfl (fun _ => ⟨by simp [Call.framework, Route.isControl], rfl⟩) (fun hne => absurd rfl hne)
        fun _ => rfl
    | destroy | tick =>
      simp only [Ask.toCall, Host.destroy, Host.tick] at ha
      split at ha
      · cases ha
      · simp only [Option.ite_none_left_eq_some, Option.some.injEq] at ha
        rw [← ha.2]
        exact hplain _ rfl rfl rfl rfl fun _ => rfl

theorem Requested.wellformed (hr : Requested hash w host k r) :
    (r.handoffTarget ≠ [] → r.route.isControl = true) ∧
      (r.acceptTransfer ≠ 0 → r.requestId = [] ∧ r.incoming = none ∧ r.timer = none) ∧
      (r.route.isControl = true → r.requestId = []) := by
  obtain ⟨_, _, _, hc, -, -, -, hcar⟩ := hr.carries
  have hw := hc.wellformed
  refine ⟨fun hne => ?_, fun hne => ?_, fun hcontrol => ?_⟩
  · rw [hcar.handoffTarget] at hne
    obtain ⟨hcontrol, hin⟩ := hw.handoff hne
    rw [hcar.route hin]
    exact hcontrol
  · rw [hcar.acceptTransfer] at hne
    obtain ⟨hid, hin, htimer⟩ := hw.accept hne
    exact ⟨hcar.requestId hid, hcar.incoming.trans hin, hcar.timer.trans htimer⟩
  · rw [hcar.control hcontrol] at hcontrol
    exact hcar.requestId (hw.unkeyed hcontrol)

/-! ## The queue along a step -/

theorem complete_queue {result : Result} {uncertain : Bool} {slot : Slot}
    (hs : (h.complete k j result uncertain).host.slots k = some slot) :
    ∃ slot₀, h.slots k = some slot₀ ∧ slot.queue = slot₀.queue := by
  rw [Host.complete_slot] at hs
  obtain ⟨slot₀, hslot, hafter⟩ := Option.bind_eq_some_iff.1 hs
  refine ⟨slot₀, hslot, ?_⟩
  have hsettled : (((slot₀.adopt j result).carry j result).settle j result).queue = slot₀.queue := by
    have hadopt : (slot₀.adopt j result).queue = slot₀.queue := by
      unfold Slot.adopt
      split
      · split <;> rfl
      · rfl
    have hcarry : ∀ s : Slot, (s.carry j result).queue = s.queue := by
      intro s
      unfold Slot.carry
      split <;> rfl
    have hsettle : ∀ s : Slot, (s.settle j result).queue = s.queue := by
      intro s
      simp only [Slot.settle, Slot.loseOwner, Slot.settleActivation, Slot.settleResidence, Slot.settleOwner]
      repeat' split
      all_goals rfl
    rw [hsettle, hcarry, hadopt]
  have hinvalid : ∀ s : Slot, (if uncertain then s.invalidate (h.generation + 1) else s).queue = s.queue := by
    intro s
    split <;> rfl
  simp only [Slot.after, Option.ite_none_left_eq_some, Option.some.injEq] at hafter
  rw [← hafter.2.2, hinvalid, hsettled]

/-- A turn leaves the queue as it is, or the slot is gone. -/
def KeepsQueue (h : Host) (k : EntityKey) (h' : Host) : Prop :=
  ∀ slot, h'.slots k = some slot → ∃ slot₀, h.slots k = some slot₀ ∧ slot.queue = slot₀.queue

theorem KeepsQueue.trans {h'' : Host} (a : KeepsQueue h k h') (b : KeepsQueue h' k h'') : KeepsQueue h k h'' := by
  intro slot hs
  obtain ⟨slot₁, h₁, hq₁⟩ := b slot hs
  obtain ⟨slot₀, h₀, hq₀⟩ := a slot₁ h₁
  exact ⟨slot₀, h₀, hq₁.trans hq₀⟩

@[simp] theorem setSlot_slots (h : Host) (k : EntityKey) (slot : Slot) : (h.setSlot k slot).slots k = some slot :=
  Function.update_self ..

theorem keepsQueue_learnOwner (h : Host) (k : EntityKey) (j : Job) : KeepsQueue h k (h.learnOwner k j) := by
  unfold Host.learnOwner
  split
  · rename_i slot _ hslot
    intro _ hs
    rw [setSlot_slots] at hs
    cases hs
    exact ⟨slot, hslot, rfl⟩
  · exact fun slot hs => ⟨slot, hs, rfl⟩

theorem Turned.keepsQueue {good : Prop} (ht : Turned h k j good h') : KeepsQueue h k h' := by
  cases ht with
  | ended c => exact fun slot hs => complete_queue (h := { h with counters := c }) hs
  | goesOn => exact fun slot hs => ⟨slot, hs, rfl⟩

/-- A queued request was queued before, or was just made. -/
theorem JobMove.queued (hm : JobMove hash w w' host k o o' news) {slot' : Slot}
    (hs' : (w'.hosts host).slots k = some slot') (hr : r ∈ slot'.queue) :
    (∃ slot, (w.hosts host).slots k = some slot ∧ r ∈ slot.queue) ∨ Requested hash w host k r := by
  have hkeeps : KeepsQueue (w.hosts host) k (w'.hosts host) →
      (∃ slot, (w.hosts host).slots k = some slot ∧ r ∈ slot.queue) ∨ Requested hash w host k r := by
    intro hq
    obtain ⟨slot₀, h₀, heq⟩ := hq slot' hs'
    exact .inl ⟨slot₀, h₀, heq ▸ hr⟩
  have hsame : (w'.hosts host).slots k = (w.hosts host).slots k →
      (∃ slot, (w.hosts host).slots k = some slot ∧ r ∈ slot.queue) ∨ Requested hash w host k r :=
    fun heq => .inl ⟨slot', heq ▸ hs', hr⟩
  cases hm with
  | same _ _ _ hslot =>
    cases hslot with
    | same heq | release _ _ _ _ heq => exact hsame heq
    | push call method slot hc hk hmethod hopens hs =>
      rw [hs] at hs'
      cases hs'
      rcases mem_append.1 hr with hr | hr
      · rcases hopens with hopen | ⟨-, rfl⟩
        · exact .inl ⟨slot, hopen, hr⟩
        · cases hr
      rw [mem_singleton.1 hr]
      refine .inr ⟨w, w.hosts host, call, method, hc, hk, hmethod, List.Subset.refl _, List.Subset.refl _,
        _, _, rfl, ?_⟩
      intro hin
      refine request_deliveryError hash host _ method ?_
      rw [← (request_carries hash host (w.hosts host) method call).incoming]
      exact hin
    | expire slot _ _ hslot hs =>
      rw [hs] at hs'
      cases hs'
      exact .inl ⟨slot, hslot, mem_of_mem_eraseIdx hr⟩
    | drop _ _ _ hs =>
      rw [hs] at hs'
      cases hs'
    | deactivate slot hslot _ hs =>
      rw [hs] at hs'
      cases hs'
      exact .inl ⟨slot, hslot, hr⟩
    | released _ _ hs =>
      rcases hs with hs | ⟨slot, hslot, hs⟩
      · rw [hs] at hs'
        cases hs'
      · rw [hs] at hs'
        cases hs'
        exact .inl ⟨slot, hslot, hr⟩
  | stop _ hs =>
    rw [hs] at hs'
    cases hs'
  | begin slot _ _ hslot hq _ _ hs =>
    rw [hs] at hs'
    cases hs'
    refine .inl ⟨slot, hslot, ?_⟩
    rw [hq]
    exact mem_cons_of_mem _ hr
  | acquire _ _ _ _ hs | commit _ _ _ _ hs | schedule _ _ _ _ _ _ _ hs | amend _ _ _ _ _ _ hs => exact hsame hs.slot
  | threw _ _ hh | refuse _ _ _ _ _ _ hh | timeOut _ _ _ _ hh | finish _ _ _ _ _ _ _ hh =>
    rw [hh] at hkeeps
    exact hkeeps fun slot hs => complete_queue hs
  | run _ _ _ _ _ hrun hh =>
    rw [hh] at hkeeps
    exact hkeeps ((keepsQueue_learnOwner _ _ _).trans hrun.turned.keepsQueue)
  | answer _ _ _ _ _ _ _ ha hh =>
    rw [hh] at hkeeps
    exact hkeeps ha.turned.keepsQueue

/-! ## The job along a step -/

theorem Leads.same {attempt : Nat} {cell : Cell StoredRecord} {time : Int} {S : DeliveryEnvelope → Prop}
    (hl : Leads host limits attempt j cell time S j') : SameRequest j j' := by
  cases hl with
  | declined _ hd => exact hd.same
  | reused x | granting x => exact ⟨rfl, x.payload, rfl⟩

theorem AcquireMove.same (hl : Lineage hash T host (w.hosts host).limits k j)
    (hm : AcquireMove hash w host k j j' news) : SameRequest j j' := by
  unfold Lineage at hl
  cases hm with
  | fail => exact ⟨rfl, _, rfl⟩
  | read attempt time _ _ he =>
    subst he
    rcases resumeRead_cases hash host (w.hosts host).limits attempt j (w.entities k.id).get time with
      ⟨-, he⟩ | ⟨cell, -, ⟨j₀, x, rfl, -, he⟩ | hlead⟩
    · rw [he]
      exact ⟨rfl, _, rfl⟩
    · rw [he]
      exact ⟨rfl, _, rfl⟩
    · exact hlead.same
  | source attempt cell time hp _ he =>
    subst he
    rw [hp] at hl
    obtain ⟨-, j₀, x, -, hread, rfl⟩ := hl
    have hlead : Leads host (w.hosts host).limits attempt j₀ cell time _ _ := resumeSource_leads hread
      ((j₀.loadedFrom cell.value.val x).request.incoming.bind fun e => (w.entities e.sourceId).get)
    obtain ⟨hs, payload, hr⟩ := hlead.same
    exact ⟨hs, payload, hr⟩
  | grant attempt expected value version swapped threw hp =>
    cases threw with
    | true => exact ⟨rfl, _, rfl⟩
    | false =>
      rcases resumeGrant_cases j attempt value swapped with ⟨-, he⟩ | ⟨-, he | he⟩
      all_goals
        rw [if_neg (by decide), he]
        exact ⟨rfl, _, rfl⟩
  | confirm value _ _ he =>
    subst he
    rcases resumeConfirm_cases j value (w.entities k.id).get with ⟨_, -, -, he⟩ | he
    all_goals
      rw [he]
      exact ⟨rfl, _, rfl⟩

/-- The job an event shows. -/
def HostEvent.job : HostEvent → Job
  | .checked _ j _ _ => j
  | .started _ j _ => j
  | .scheduled _ j _ => j
  | .replied _ j _ => j

def Event.job : Event → Option Job
  | .created _ _ => none
  | .acquired _ _ j _ => some j
  | .granted _ _ j _ _ => some j
  | .committed _ _ j _ _ => some j
  | .released _ _ _ _ => none
  | .host _ e => some e.job

theorem Concludes.kept_events {result : Result} {turn : Turn} (hc : Concludes hash host h k env j result turn) :
    ∀ e ∈ turn.events, Kept j e.job := by
  have hchecks : ∀ {checks : List HostEvent}, CheckEvents h k env.live j checks → ∀ e ∈ checks, Kept j e.job := by
    intro checks hchk e he
    obtain ⟨_, rfl, hk, -⟩ := hchk e he
    exact hk
  cases hc with
  | ended _ _ _ _ hk _ hchk =>
    intro e he
    rcases mem_append.1 he with he | he
    · exact hchecks hchk e he
    · rw [mem_singleton.1 he]
      exact hk
  | commits _ _ _ _ _ _ hs _ hchk => exact hchecks (hchk.events hs.kept)

theorem Answers.kept_events {result : Result} {turn : Turn} (ha : Answers hash host h k env j result turn) :
    ∀ e ∈ turn.events, Kept j e.job := by
  cases ha with
  | concludes resident _ _ hc =>
    have hk : Kept j { j with resident } := .set rfl
    exact fun e he => hk.trans (hc.kept_events e he)
  | starts => exact forall_mem_singleton.2 (kept_starting ..)

theorem Runs.kept_events {turn : Turn} (hr : Runs hash host h k env j turn) : ∀ e ∈ turn.events, Kept j e.job := by
  cases hr with
  | refused _ _ _ hk => exact forall_mem_singleton.2 hk
  | failed _ _ _ _ ha hk => exact forall_mem_cons.2 ⟨ha.kept, forall_mem_singleton.2 hk⟩
  | replayed _ _ ha => exact forall_mem_cons.2 ⟨ha.kept, forall_mem_singleton.2 ha.kept⟩
  | concludes _ _ _ _ ha _ _ hres _ _ _ hc =>
    have hk := ha.kept.trans hres.kept
    exact forall_mem_cons.2 ⟨ha.kept, fun e he => hk.trans (hc.kept_events e he)⟩
  | starts _ _ j₂ _ ha _ _ hres _ resident hook rest =>
    have hk := (ha.kept.trans hres.kept).trans (kept_starting j₂ resident hook rest j₂.state)
    exact forall_mem_cons.2 ⟨ha.kept, forall_mem_singleton.2 hk⟩

/-- The requests of the job after a step and of the events about it. -/
theorem JobMove.requested (hl : ∀ j, o = some j → Lineage hash T host (w.hosts host).limits k j)
    (hj : ∀ j, o = some j → Requested hash w host k j.request)
    (hq : ∀ slot, (w.hosts host).slots k = some slot → ∀ r ∈ slot.queue, Requested hash w host k r)
    (hm : JobMove hash w w' host k o o' news) :
    (∀ j', o' = some j' → Requested hash w host k j'.request) ∧
      ∀ e ∈ news, e.about = some (host, k) → ∀ j', e.job = some j' → Requested hash w host k j'.request := by
  have hturn : ∀ {turn : Turn} {j : Job} {h : Host} {good : Prop}, Requested hash w host k j.request →
      (∀ e ∈ turn.events, Kept j e.job) → Turned h k j good turn.host →
      (∀ j', turn.host.active k = some j' → Requested hash w host k j'.request) ∧
        ∀ e ∈ turn.news host, e.about = some (host, k) → ∀ j', e.job = some j' →
          Requested hash w host k j'.request := by
    intro turn j h good hr he ht
    refine ⟨fun j' hj' => hr.kept (ht.active hj').1, fun e hm _ j' hej => ?_⟩
    obtain ⟨e', he', rfl⟩ := mem_map.1 (mem_reverse.1 hm)
    cases hej
    exact hr.kept (he e' he')
  cases hm with
  | same _ _ hnot => exact ⟨hj, fun e he habout => absurd habout (hnot e he)⟩
  | stop => exact ⟨fun _ hj' => (nomatch hj'), fun _ he => (nomatch he)⟩
  | begin slot request _ hslot hqueue =>
    refine ⟨fun j' hj' => ?_, fun _ he => (nomatch he)⟩
    cases hj'
    exact hq slot hslot request (by rw [hqueue]; exact mem_cons_self)
  | acquire j _ _ hm =>
    have hr := (hj j rfl).same (hm.same (hl j rfl))
    refine ⟨fun j' hj' => by cases hj'; exact hr, fun e he _ j' hej => ?_⟩
    cases hm with
    | fail => cases he
    | read | source | confirm =>
      obtain ⟨c, rfl⟩ := acquiredNews_mem he
      cases hej
      exact hr
    | grant =>
      obtain ⟨old, rfl⟩ := swapNews_mem he
      cases hej
      exact hj j rfl
  | commit j _ _ hm =>
    obtain ⟨_, _, -, _, _, _, heq⟩ := hm.step
    refine ⟨fun j' hj' => ?_, fun e he _ j' hej => ?_⟩
    · cases hj'
      rw [heq]
      exact hj j rfl
    · cases hm with
      | write =>
        obtain ⟨_, rfl⟩ := swapNews_mem he
        cases hej
        exact hj j rfl
      | submit | armFail | armRecord | armBucket | armWrite | late => cases he
  | threw j | timeOut j | finish j | refuse j =>
    refine ⟨fun _ hj' => (nomatch hj'), fun e he _ j' hej => ?_⟩
    rw [mem_singleton.1 he] at hej
    cases hej
    exact hj j rfl
  | run j _ _ _ _ hr | answer j _ _ _ _ _ _ hr => exact hturn (hj j rfl) hr.kept_events hr.turned
  | schedule j _ _ _ _ _ hs =>
    refine ⟨fun j' hj' => by cases hj'; exact (hj j rfl).kept hs.kept, fun e he _ j' hej => ?_⟩
    rw [mem_singleton.1 he] at hej
    cases hej
    exact hj j rfl
  | amend j _ _ _ _ ha => exact ⟨fun j' hj' => by cases hj'; exact (hj j rfl).kept ha.kept, fun _ he => (nomatch he)⟩

/-! ## Runs -/

/-- A worker has just read the envelope. -/
structure ReadFrom (w : World) (e : DeliveryEnvelope) : Prop where
  source : ∃ cell, (w.entities e.sourceId).get = some cell ∧ cell.value.val.metadata.destroyed = false ∧
    e.message ∈ cell.value.val.snapshot.delivery.outbox ∧ e.message.done = false ∧
    e.sourceEpoch = cell.value.val.snapshot.delivery.epoch

/-- What a step does to the envelopes and the answers of the delivery workers. -/
inductive Mail (w w' : World) : Prop
  | keep (he : w'.envelopes = w.envelopes) (ha : w'.answers = w.answers)
  | play (host : HostId) (turn : Turn) (hw : w' = w.play host turn)
  | read (e : DeliveryEnvelope) (hr : ReadFrom w e) (he : w'.envelopes = e :: w.envelopes)
    (ha : w'.answers = w.answers)

theorem mail_storage {a : Access} : Mail w (w.storage hash host k a j) := by
  unfold World.storage World.readFor World.grant World.commit World.arm
  dsimp only
  repeat' split
  all_goals exact .keep rfl rfl

theorem mail_deliveryScan (source : Bytes × Bytes) (n : Nat) : Mail w (w.deliveryScan source n) := by
  unfold World.deliveryScan
  split
  · exact .keep rfl rfl
  split
  · exact .keep rfl rfl
  rename_i cell hget
  dsimp only
  split
  · split <;> exact .keep rfl rfl
  rename_i hdestroyed
  split
  · exact .keep rfl rfl
  rename_i envelope hfirst
  refine .read envelope ?_ rfl rfl
  unfold firstPending at hfirst
  obtain ⟨m, hm, rfl⟩ := Option.map_eq_some_iff.1 hfirst
  refine ⟨cell, hget, by simpa using hdestroyed, mem_of_find?_eq_some hm, ?_, rfl⟩
  simpa using find?_some hm

theorem step_mail (hash : Bytes → Bytes) (w : World) (action : Action) : Mail w (w.step hash action) := by
  cases action with
  | create =>
    simp only [World.step, World.create]
    repeat' split
    all_goals exact .keep rfl rfl
  | ask | finishRelease =>
    simp only [World.step]
    split <;> exact .keep rfl rfl
  | expireJob host | schedule host => exact .play host _ rfl
  | storage =>
    simp only [World.step]
    split
    · exact .keep rfl rfl
    · exact mail_storage
  | finish host =>
    simp only [World.step, World.finish]
    repeat' split
    all_goals first
      | exact .keep rfl rfl
      | exact .play host _ rfl
  | script host =>
    simp only [World.step]
    split
    · exact .keep rfl rfl
    · exact .play host _ rfl
  | releaseStorage | sendStorage | finishSend | scanBucket | scanRecord | scanWrite =>
    simp only [World.step, World.releaseStorage, World.sendStorage, World.scanBucket, World.scanRecord,
      World.scanWrite]
    repeat' split
    all_goals exact .keep rfl rfl
  | deliveryScan source n => exact mail_deliveryScan source n
  | retire =>
    simp only [World.step, World.retire]
    repeat' split
    all_goals exact .keep rfl rfl
  | bind | unbind | setPolicy | enableDelivery | drain | stop | acquire | expireQueued | evict | deactivate | cancel |
    forget | startSend => exact .keep rfl rfl

/-- Deliveries that were read, and their answers, are remembered. -/
theorem Mail.subset (hm : Mail w w') : w.envelopes ⊆ w'.envelopes ∧ w.answers ⊆ w'.answers := by
  cases hm with
  | keep he ha => exact ⟨he ▸ List.Subset.refl _, ha ▸ List.Subset.refl _⟩
  | play _ _ hw => exact hw ▸ ⟨List.Subset.refl _, subset_append_right _ _⟩
  | read _ _ he ha => exact ⟨he ▸ subset_cons_self _ _, ha ▸ List.Subset.refl _⟩

/-- Every request has its call. -/
structure Attributed (hash : Bytes → Bytes) (w : World) : Prop where
  queued : ∀ host k slot, (w.hosts host).slots k = some slot → ∀ r ∈ slot.queue, Requested hash w host k r
  jobs : ∀ host k j, (w.hosts host).active k = some j → Requested hash w host k j.request
  events : ∀ e ∈ w.trace, ∀ host k j, e.about = some (host, k) → e.job = some j → Requested hash w host k j.request

theorem attributed_init (hash : Bytes → Bytes) (limits : HostId → RuntimeLimits) :
    Attributed hash (World.init limits) where
  queued _ _ _ hs := nomatch hs
  jobs _ _ _ hj := nomatch hj
  events _ he := nomatch he

theorem attributed_step {limits : HostId → RuntimeLimits} (w : World) (action : Action)
    (h : Traced hash limits w ∧ Attributed hash w) : Attributed hash (w.step hash action) := by
  obtain ⟨ht, ha⟩ := h
  obtain ⟨_, htrace, -, hmoves, -⟩ := step_view hash w action
  obtain ⟨henv, hans⟩ := (step_mail hash w action).subset
  have hjob := fun host k => (hmoves host k).requested (fun j hj => ht.fixed host ▸ ht.jobs host k j hj)
    (ha.jobs host k) (ha.queued host k)
  refine ⟨fun host k _ hs r hr => ?_, fun host k j hj => ((hjob host k).1 j hj).mono henv hans, ?_⟩
  · rcases (hmoves host k).queued hs hr with ⟨slot₀, h₀, hr₀⟩ | hreq
    · exact (ha.queued host k slot₀ h₀ r hr₀).mono henv hans
    · exact hreq.mono henv hans
  · rw [htrace]
    intro e he host k j habout hj
    rcases mem_append.1 he with he | he
    · exact ((hjob host k).2 e he habout j hj).mono henv hans
    · exact (ha.events e he host k j habout hj).mono henv hans

/-- Every request of every run has its call. -/
theorem attributed_run (hash : Bytes → Bytes) (limits : HostId → RuntimeLimits) (actions : List Action) :
    Attributed hash (run (World.step hash) (World.init limits) actions) :=
  traced_inv (fun w action ht ha => attributed_step w action ⟨ht, ha⟩) (attributed_init hash limits) actions

end Fsnet
