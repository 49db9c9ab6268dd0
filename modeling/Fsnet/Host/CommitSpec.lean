import Fsnet.Host.Commit
/-!
# What a commit is built of

One lemma for each part of `buildCommit` says which fields of the job it
changes and how. Together they give `Built`: the job that goes to the storage
thread, and the record it carries, in terms of the job script logic ended with.
-/

namespace Fsnet

open Lib

variable {hash : Bytes → Bytes} {host : HostId} {limits : RuntimeLimits} {h : Host} {k : EntityKey} {env : Ambient}
  {task task' : Task} {now : Int}

theorem orHalt_eq_ok {α : Type} {x : Except Failure α} {status : Status} {a : α} :
    orHalt x task status = .ok a ↔ x = .ok a := by
  cases x <;> simp [orHalt]

/-- A job is ended early with a failure. -/
theorem orHalt_eq_error {α : Type} {x : Except Failure α} {status : Status} {e : Halt} :
    orHalt x task status = .error e ↔ (∃ f, x = .error f) ∧ halt task status = e := by
  cases x <;> simp [orHalt]

/-! ## Timers -/

/-- `timers` is published under the next sequence, stamped with the version the job acquired. -/
structure Published (version : UInt64) (next timers : EntityTimerState) : Prop where
  room : next.sequence.toNat ≠ 2 ^ 64 - 1
  timers : timers = { next with sequence := next.sequence + 1, token := timerStamp version (next.sequence + 1) }

theorem publishTimers_ok {next : EntityTimerState} (hp : publishTimers limits task next = .ok task') :
    ∃ timers charge resident, Published task.job.version next timers ∧
      task'.job = { task.job with timers, timerDirty := true, timerCharge := charge, resident } := by
  unfold publishTimers at hp
  simp only [bind_eq_ok, refuseIf_eq_ok] at hp
  obtain ⟨_, hseq, _, -, _, -, _, -, hp⟩ := hp
  cases hp
  exact ⟨_, _, _, ⟨hseq, rfl⟩, rfl⟩

/-- The occurrence that fired is still pending when the callback has ended. -/
structure StillPending (fired : Option EntityTimerEvent) (metadataOnly : Bool) (timers : EntityTimerState)
    (event : EntityTimerEvent) (pending : EntityTimer) : Prop where
  fired : fired = some event
  runs : metadataOnly = false
  found : timers.entries.find event.timer.key = some pending
  generation : pending.generation = event.timer.generation
  due : pending.due = event.timer.due

/-- The timers after a fired occurrence was advanced. -/
inductive Advanced (now : Int) (version : UInt64) (fired : Option EntityTimerEvent) (metadataOnly : Bool)
    (old new : EntityTimerState) : Prop
  | erased (event : EntityTimerEvent) (pending : EntityTimer) (hp : StillPending fired metadataOnly old event pending)
      (h : Published version { old with entries := old.entries.erase event.timer.key } new) :
    Advanced now version fired metadataOnly old new
  | next (event : EntityTimerEvent) (pending next : EntityTimer)
      (hp : StillPending fired metadataOnly old event pending)
      (hn : advanceEntityTimer pending (max now event.timer.due) = .ok (some next))
      (h : Published version { old with entries := old.entries.insert event.timer.key next } new) :
    Advanced now version fired metadataOnly old new

/-- The timers a commit stores, and whether they have changed. -/
def FiredTimers (now : Int) (job : Job) (timers : EntityTimerState) (dirty : Bool) : Prop :=
  (timers = job.timers ∧ dirty = job.timerDirty ∧
      ∀ event pending, ¬StillPending job.timerEvent job.metadataOnly job.timers event pending) ∨
    (Advanced now job.version job.timerEvent job.metadataOnly job.timers timers ∧ dirty = true)

theorem advanceFired_ok (ha : advanceFired limits now task = .ok task') :
    ∃ timers dirty charge resident, FiredTimers now task.job timers dirty ∧
      task'.job = { task.job with timers, timerDirty := dirty, timerCharge := charge, resident } := by
  -- nothing fired, or what fired is no longer pending
  have hsame : pure task = (Except.ok task' : Except Failure Task) →
      (∀ event pending, ¬StillPending task.job.timerEvent task.job.metadataOnly task.job.timers event pending) →
      ∃ timers dirty charge resident, FiredTimers now task.job timers dirty ∧
        task'.job = { task.job with timers, timerDirty := dirty, timerCharge := charge, resident } := by
    intro h hnot
    cases h
    exact ⟨_, _, _, _, .inl ⟨rfl, rfl, hnot⟩, rfl⟩
  unfold advanceFired at ha
  split at ha
  · rename_i hn
    exact hsame ha fun event pending hp => by cases hn.symm.trans hp.fired
  rename_i event he
  split at ha
  · rename_i hm
    exact hsame ha fun event pending hp => by cases hm.symm.trans hp.runs
  rename_i hm
  dsimp only at ha
  split at ha
  · rename_i hf
    refine hsame ha fun event' pending hp => ?_
    obtain rfl := Option.some.inj (he.symm.trans hp.fired)
    cases hf.symm.trans hp.found
  rename_i pending hf
  split at ha
  · rename_i hmatch
    have hp : StillPending task.job.timerEvent task.job.metadataOnly task.job.timers event pending :=
      ⟨he, by simpa using hm, hf, hmatch.1, hmatch.2⟩
    simp only [bind_eq_ok] at ha
    obtain ⟨advanced, hadv, ha⟩ := ha
    split at ha
    · obtain ⟨timers, charge, resident, hpub, hjob⟩ := publishTimers_ok ha
      exact ⟨timers, true, charge, resident, .inr ⟨.erased event pending hp hpub, rfl⟩, hjob⟩
    · rename_i next
      obtain ⟨timers, charge, resident, hpub, hjob⟩ := publishTimers_ok ha
      exact ⟨timers, true, charge, resident, .inr ⟨.next event pending next hp hadv hpub, rfl⟩, hjob⟩
  · rename_i hmatch
    refine hsame ha fun event' _ hp => ?_
    obtain rfl := Option.some.inj (he.symm.trans hp.fired)
    obtain rfl := Option.some.inj (hf.symm.trans hp.found)
    exact hmatch ⟨hp.generation, hp.due⟩

/-! ## Attributes -/

/-- How the image a script returned is split. -/
structure SplitImage (rebuildable : Bool) (attributes : AttributeCommit) (returned : Bytes) (current : AttributeUpdate)
    (transient stored : Bytes) : Prop where
  image : ∃ image model, decodeAttributes returned = .ok image ∧ image.snapshot = true ∧
    ¬image.revision < attributes.previous.revision ∧
    (EntityAttributes.new attributes.schema).restoreFull image.values image.revision = .ok model ∧
    current = imageUpdate image.revision model.values ∧
    encodeTransient image.revision (model.select fun d => !d.persist || rebuildable) = .ok transient ∧
    encodeAttributes (imageUpdate image.revision model.persistent) = .ok stored

/-- The attribute images of a commit and the state it stores. -/
def SplitAttributes (job : Job) (returned : Bytes) (attributes : Option AttributeCommit) (transient stored : Bytes) :
    Prop :=
  (job.attributes = none ∧ attributes = none ∧ transient = job.transient ∧ stored = returned) ∨
    ∃ before current, job.attributes = some before ∧
      SplitImage job.rebuildable before returned current transient stored ∧
      attributes = some { before with current }

theorem commitAttributes_ok {job job' : Job} {returned stored : Bytes}
    (hc : commitAttributes job returned = .ok (job', stored)) :
    ∃ attributes transient, SplitAttributes job returned attributes transient stored ∧
      job' = { job with attributes, transient } := by
  unfold commitAttributes at hc
  split at hc
  · rename_i hn
    cases hc
    exact ⟨job.attributes, job.transient, .inl ⟨hn, hn, rfl, rfl⟩, rfl⟩
  rename_i before ha
  simp only [bind_eq_ok, refuseIf_eq_ok, not_or] at hc
  obtain ⟨image, hi, _, ⟨hsnap, hrev, -⟩, model, hm, transient, ht, _, hs, hc⟩ := hc
  cases hc
  exact ⟨_, transient, .inr ⟨before, _, ha, ⟨image, model, hi, by simpa using hsnap, hrev, hm, rfl, ht, hs⟩, rfl⟩, rfl⟩

/-! ## Receipts -/

/-- The receipts a commit stores; `response` is what a keyed request is answered. -/
def Receipted (limits : RuntimeLimits) (request : Request) (response : Bytes) (old new : List EntityReceipt) : Prop :=
  (request.requestId = [] ∧ new = evictReceipts limits old) ∨
    (request.requestId ≠ [] ∧ ∃ receipt : EntityReceipt,
      receipt = ⟨request.requestId, request.route.text, request.payload, response⟩ ∧
        receipt.bytes ≤ limits.receiptBytes ∧ new = evictReceipts limits (old ++ [receipt]))

theorem recordReceipt_ok (hr : recordReceipt limits task = .ok task') :
    ∃ receipts, Receipted limits task.job.request task.job.output task.job.receipts receipts ∧
      task'.job = { task.job with receipts } := by
  unfold recordReceipt at hr
  dsimp only at hr
  split at hr
  · rename_i hk
    cases hr
    exact ⟨_, .inl ⟨hk, rfl⟩, rfl⟩
  rename_i hk
  simp only [bind_eq_ok, refuseIf_eq_ok] at hr
  obtain ⟨_, hb, hr⟩ := hr
  cases hr
  exact ⟨_, .inr ⟨hk, _, rfl, not_lt.1 hb, rfl⟩, rfl⟩

theorem reserveTransient_ok {slot : Option Slot} (hr : reserveTransient limits slot task = .ok task') :
    ∃ growth, task'.job = { task.job with cacheGrowth := growth } := by
  unfold reserveTransient at hr
  split at hr
  · cases hr
    exact ⟨_, rfl⟩
  split at hr
  · cases hr
  simp only [bind_eq_ok] at hr
  obtain ⟨_, -, hr⟩ := hr
  cases hr
  exact ⟨_, rfl⟩

/-! ## Delivery outcomes -/

/-- The inbox after the outcome of a delivery was written. -/
structure InboxWritten (hash : Bytes → Bytes) (e : DeliveryEnvelope) (outcome : Result) (d d' : EntityDeliveryState)
    (output : Bytes) : Prop where
  inbox : ∃ channel digest, deliveryChannel e.sourceType e.sourceId e.sourceEpoch = .ok channel ∧
    deliveryDigest hash e = .ok digest ∧
    d' = { d with inbox := d.inbox.insert channel ⟨e.message.sequence, digest, outcome⟩ }
  answer : encodeDeliveryAck e.message.ticket outcome = .ok output

/-- The delivery state and the answer of a commit. -/
def Delivered (hash : Bytes → Bytes) (request : Request) (outcome : Result) (d d' : EntityDeliveryState)
    (output output' : Bytes) : Prop :=
  match request.incoming with
  | none => d' = d ∧ output' = output
  | some e => InboxWritten hash e outcome d d' output'

theorem recordOutcome_ok (hr : recordOutcome hash task = .ok task') :
    ∃ delivery output,
      Delivered hash task.job.request (deliveryOutcome task.job) task.job.delivery delivery task.job.output output ∧
      task'.job = { task.job with delivery, output } := by
  unfold recordOutcome at hr
  unfold Delivered
  cases he : task.job.request.incoming with
  | none =>
    simp only [he] at hr
    cases hr
    exact ⟨_, _, ⟨rfl, rfl⟩, rfl⟩
  | some =>
    simp only [he, bind_eq_ok, orHalt_eq_ok] at hr
    obtain ⟨_, -, hr⟩ := hr
    unfold writeInbox at hr
    simp only [bind_eq_ok] at hr
    obtain ⟨channel, hch, digest, hd, _, ho, hr⟩ := hr
    cases hr
    exact ⟨_, _, ⟨⟨channel, digest, hch, hd, rfl⟩, ho⟩, rfl⟩

theorem retainCommit_ok (hr : retainCommit limits task = .ok task') :
    ∃ resident, task'.job = { task.job with resident } := by
  unfold retainCommit at hr
  simp only [bind_eq_ok] at hr
  obtain ⟨_, -, _, -, hr⟩ := hr
  cases hr
  exact ⟨_, rfl⟩

/-! ## The record -/

/-- The entry a commit arms. -/
def Job.armedEntry (job : Job) (k : EntityKey) : TimerIndex.Entry :=
  ⟨k.type, k.id, job.timers.token, job.version, job.fence, nextEntityTimer job.timers, true, job.target⟩

/-- Whether the commit touches the timer index, and with which entry. -/
structure Indexed (k : EntityKey) (job : Job) (dirty : Bool) (entry : Option TimerIndex.Entry) : Prop where
  mono : job.timerDirty = true → dirty = true
  moves : job.timers.token ≠ [] → job.request.route.isDestroy = true → dirty = true
  armed : dirty = true → entry = some (job.armedEntry k)
  untouched : dirty = false → entry = job.timerIndexEntry

theorem indexEntry_markTimers (k : EntityKey) (job : Job) :
    ∃ dirty entry, Indexed k job dirty entry ∧
      indexEntry k (markTimers job) = { job with timerDirty := dirty, timerIndexEntry := entry } := by
  unfold markTimers
  split
  · exact ⟨true, _, ⟨fun _ => rfl, fun _ _ => rfl, fun _ => rfl, by rintro ⟨⟩⟩, rfl⟩
  rename_i hmove
  have hmoves : job.timers.token ≠ [] → job.request.route.isDestroy = true → job.timerDirty = true :=
    fun ht hd => absurd ⟨ht, .inr (.inr hd)⟩ hmove
  unfold indexEntry
  split
  · rename_i hdirty
    exact ⟨job.timerDirty, some (job.armedEntry k),
      ⟨id, fun _ _ => hdirty, fun _ => rfl, fun hd => absurd (hdirty.symm.trans hd) (by decide)⟩, rfl⟩
  · rename_i hdirty
    exact ⟨job.timerDirty, job.timerIndexEntry, ⟨id, hmoves, fun hd => absurd hd hdirty, fun _ => rfl⟩, rfl⟩

/-- The record and the metadata of a commit. -/
structure Records (host : HostId) (metadata : Option EntityMetadata) (job : Job) (value : StoredRecord) : Prop where
  metadata : ∃ m m', metadata = some m ∧ committedMetadata job m = some m' ∧ job.metadata = some m' ∧
    value.val = committedRecord host job m'

theorem buildRecord_ok (hb : buildRecord host k task = .ok task') :
    ∃ metadata dirty entry output value, Indexed k task.job dirty entry ∧
      (task.job.request.handoffTarget = [] → output = task.job.output) ∧
      task'.job = { task.job with
        metadata, timerDirty := dirty, timerIndexEntry := entry, output, phase := .committing .submitted value } ∧
      Records host task.job.metadata task'.job value := by
  obtain ⟨dirty, entry, hindexed, hjob⟩ := indexEntry_markTimers k task.job
  unfold buildRecord at hb
  rw [hjob] at hb
  dsimp only at hb
  split at hb
  · cases hb
  rename_i m hm
  split at hb
  · cases hb
  rename_i m' hm'
  split at hb
  · cases hb
  rename_i value hv
  cases hb
  refine ⟨some m', dirty, entry, _, value, hindexed, fun ht => if_pos ht, rfl, m, m', hm, hm', rfl, ?_⟩
  exact EntityRecord.encoded_eq_some.1 hv

/-! ## The whole commit -/

/-- What the parts of a commit have made of the job. -/
structure Built (hash : Bytes → Bytes) (host : HostId) (limits : RuntimeLimits) (k : EntityKey) (now : Int)
    (job : Job) (result : Result) (job' : Job) (value : StoredRecord) : Prop where
  same : job' = { job with
    rollback := [], deliveryRollback := none, timerRollback := none, timers := job'.timers
    timerDirty := job'.timerDirty, timerCharge := job'.timerCharge, resident := job'.resident
    attributes := job'.attributes, transient := job'.transient, state := job'.state, output := job'.output
    receipts := job'.receipts, cacheGrowth := job'.cacheGrowth, delivery := job'.delivery
    timerIndexEntry := job'.timerIndexEntry, metadata := job'.metadata, phase := .committing .submitted value }
  timers : ∃ dirty, FiredTimers now job job'.timers dirty ∧
    Indexed k { job with timers := job'.timers, timerDirty := dirty } job'.timerDirty job'.timerIndexEntry
  attributes : ∃ returned payload, parseStateMessage result.data = some (returned, payload) ∧
    SplitAttributes job returned job'.attributes job'.transient job'.state
  outcome : ∃ response, Receipted limits job.request response job.receipts job'.receipts ∧
    ∃ output, Delivered hash job.request ((job.request.deliveryError.or job.deliveryResult).getD ⟨.ok, response⟩)
        job.delivery job'.delivery response output ∧
      (job.request.handoffTarget = [] → job'.output = output)
  quiet : job.request.route.isDestroy = true → pendingOutbox job'.delivery = false
  record : Records host job.metadata job' value

theorem deliveryOutcome_eq (job : Job) :
    deliveryOutcome job = (job.request.deliveryError.or job.deliveryResult).getD ⟨.ok, job.output⟩ := by
  unfold deliveryOutcome
  split
  · rename_i ho
    rw [ho]
    rfl
  · rename_i hn
    rw [hn]
    rfl

theorem buildCommit_ok {result : Result} (hb : buildCommit hash host h k env task result = .ok task') :
    ∃ value, Built hash host h.limits k env.now task.job result task'.job value := by
  unfold buildCommit at hb
  split at hb
  · cases hb
  rename_i returned payload hparse
  simp only [bind_eq_ok, orHalt_eq_ok, refuseIf_eq_ok] at hb
  obtain ⟨_, h2, _, -, ⟨_, _⟩, h3, t5, h5, t6, h6, t7, h7, _, h8, _, -, t9, h9, _, h10, _, -, hb⟩ := hb
  cases hb
  obtain ⟨_, dirty, _, _, htimers, e2⟩ := advanceFired_ok h2
  rw [e2] at h3
  obtain ⟨_, _, hattr, rfl⟩ := commitAttributes_ok h3
  obtain ⟨_, hrec, e5⟩ := recordReceipt_ok h5
  obtain ⟨_, e6⟩ := reserveTransient_ok h6
  obtain ⟨delivery, output, hdel, e7⟩ := recordOutcome_ok h7
  obtain ⟨_, e9⟩ := retainCommit_ok h9
  obtain ⟨_, _, _, _, value, hindex, hout, e10, hrecord⟩ := buildRecord_ok h10
  rw [deliveryOutcome_eq] at hdel
  have hquiet : task'.job.request.route.isDestroy = true → pendingOutbox task'.job.delivery = false := by
    simp only [checkDestroy, refuseIf_eq_ok, not_and, Bool.not_eq_true] at h8
    rw [e10, e9]
    exact h8
  obtain ⟨_, _⟩ := t5
  obtain ⟨_, _⟩ := t6
  obtain ⟨_, _⟩ := t7
  obtain ⟨_, _⟩ := t9
  obtain ⟨_, _⟩ := task'
  dsimp only at e5 e6 e7 e9 e10 hrec hdel hout hindex hrecord htimers hattr hquiet
  subst e5 e6 e7 e9 e10
  exact ⟨value, rfl, ⟨dirty, htimers, hindex.mono, hindex.moves, hindex.armed, hindex.untouched⟩,
    ⟨returned, payload, hparse, hattr⟩,
    ⟨_, hrec, output, hdel, hout⟩, hquiet, hrecord⟩

end Fsnet
