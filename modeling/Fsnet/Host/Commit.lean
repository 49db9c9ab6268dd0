import Fsnet.Host.Acquire
/-!
# Committing a job

What the host does with the result of script logic: it checks the caller once
more, advances the timer that fired, splits the attribute image, records the
receipt and the delivery outcome, and builds the record that replaces the one
the job acquired. The storage thread then arms the timer index, if the timers
changed, and swaps the record in.
-/

namespace Fsnet

open Lib

/-- A job together with the host's accounts, which its steps are charged to. -/
structure Task where
  job : Job
  counters : Counters

/-- The job ends with this result. -/
abbrev Halt := Result × Task

variable (limits : RuntimeLimits) (task : Task)

def halt (status : Status) : Halt := (⟨status, []⟩, task)

/-- An exception the caller turns into a status. -/
def orHalt {α : Type} (x : Except Failure α) (task : Task) (status : Status) : Except Halt α :=
  match x with
  | .ok a => .ok a
  | .error _ => .error (halt task status)

namespace Task

/-- Room left for resident state. -/
def room (limits : RuntimeLimits) (task : Task) : Nat := limits.residentBytes - task.counters.stateBytes

/-- Charge the job with `n` more bytes of resident state. -/
def grow (task : Task) (n : Nat) : Task :=
  { job := { task.job with resident := task.job.resident + n }
    counters := { task.counters with stateBytes := task.counters.stateBytes + n } }

/-- Replace the job's charge. -/
def recharge (task : Task) (retained : Nat) : Task :=
  { job := { task.job with resident := retained }
    counters := { task.counters with stateBytes := task.counters.stateBytes - task.job.resident + retained } }

end Task

/-! ## Timers -/

/-- `publish_timers`: the timers of the transaction, with a new sequence and token. -/
def publishTimers (next : EntityTimerState) : Except Failure Task := do
  refuseIf (next.sequence.toNat = 2 ^ 64 - 1) (.overflow "timer sequence exhausted")
  let sequence := next.sequence + 1
  let next := { next with sequence, token := timerStamp task.job.version sequence }
  let bytes ← entityTimersWireSize next
  refuseIf (next.entries.size > limits.timers ∨ bytes > limits.timerBytes) (.length "entity timer capacity")
  let growth := 4 * bytes - task.job.timerCharge
  refuseIf (growth > task.room limits) (.length "entity timer resident budget")
  let task := task.grow growth
  pure { task with job := { task.job with
    timerCharge := task.job.timerCharge + growth, timers := next, timerDirty := true } }

/-- The timers after the occurrence that fired, if it is still pending. -/
def advanceFired (now : Int) (task : Task) : Except Failure Task :=
  match task.job.timerEvent with
  | none => pure task
  | some event =>
    if task.job.metadataOnly then pure task
    else
      let fired := event.timer
      let timers := task.job.timers
      match timers.entries.find fired.key with
      | none => pure task
      | some pending =>
        if pending.generation = fired.generation ∧ pending.due = fired.due then do
          match ← advanceEntityTimer pending (max now fired.due) with
          | none => publishTimers limits task { timers with entries := timers.entries.erase fired.key }
          | some next => publishTimers limits task { timers with entries := timers.entries.insert fired.key next }
        else pure task

/-! ## Attributes -/

def Job.rebuildable (job : Job) : Bool := job.metadata.any (·.rebuildable)

def imageUpdate (revision : UInt64) (values : AttributeStruct) : AttributeUpdate := ⟨0, revision, true, values, []⟩

/-- The bytes of the cached image; nothing is cached of an empty one. -/
def encodeTransient (revision : UInt64) (values : AttributeStruct) : Except Failure Bytes :=
  if values.isEmpty then pure [] else encodeAttributes (imageUpdate revision values)

variable (job : Job)

/-- Split the image a script returned: the whole of it is the commit's, the
persistent part is stored, the rest is cached. -/
def commitAttributes (state : Bytes) : Except Failure (Job × Bytes) :=
  match job.attributes with
  | none => pure (job, state)
  | some attributes => do
    let image ← decodeAttributes state
    refuseIf (image.snapshot = false ∨ image.revision < attributes.previous.revision ∨
      (image.revision = attributes.previous.revision ∧
        AttributeValue.sameEntries image.values attributes.previous.values = false))
      (.runtime "invalid property revision")
    let model ← (EntityAttributes.new attributes.schema).restoreFull image.values image.revision
    let current := imageUpdate image.revision model.values
    let transient ← encodeTransient image.revision (model.select fun d => !d.persist || job.rebuildable)
    let stored ← encodeAttributes (imageUpdate image.revision model.persistent)
    pure ({ job with attributes := some { attributes with current }, transient }, stored)

/-! ## Receipts -/

def receiptBytes (receipts : List EntityReceipt) : Nat := (receipts.map EntityReceipt.bytes).sum

/-- The eviction loop: the oldest receipts go until both limits are met. -/
def evictReceipts (limits : RuntimeLimits) : List EntityReceipt → List EntityReceipt
  | [] => []
  | r :: rest =>
    if (r :: rest).length > limits.receipts ∨ receiptBytes (r :: rest) > limits.receiptBytes then
      evictReceipts limits rest
    else r :: rest

/-- The receipt of a keyed request is added, then old ones are evicted. -/
def recordReceipt : Except Halt Task := do
  let job := task.job
  if job.request.requestId = [] then
    pure { task with job := { job with receipts := evictReceipts limits job.receipts } }
  else do
    let receipt : EntityReceipt := ⟨job.request.requestId, job.request.route.text, job.request.payload, job.output⟩
    refuseIf (receipt.bytes > limits.receiptBytes) (halt task .overloaded)
    pure { task with job := { job with receipts := evictReceipts limits (job.receipts ++ [receipt]) } }

/-! ## Cached images and delivery outcomes -/

/-- Room for the cached image the commit leaves in the slot. -/
def reserveTransient (slot : Option Slot) (task : Task) : Except Halt Task :=
  match task.job.attributes with
  | none => pure task
  | some _ =>
    match slot with
    | none => throw (halt task .disconnected)
    | some slot => do
      let growth := task.job.transient.length - slot.transient.length
      refuseIf (growth > limits.residentBytes - task.counters.transientBytes) (halt task .overloaded)
      pure { job := { task.job with cacheGrowth := growth }
             counters := { task.counters with transientBytes := task.counters.transientBytes + growth } }

/-- The outcome a delivery leaves in the inbox. -/
def deliveryOutcome : Result :=
  match job.request.deliveryError.or job.deliveryResult with
  | some outcome => outcome
  | none => ⟨.ok, job.output⟩

section
variable (hash : Bytes → Bytes)

/-- The cursor of a delivery's channel moves to its sequence, with the outcome. -/
def writeInbox (task : Task) (incoming : DeliveryEnvelope) (value : Result) : Except Failure Task := do
  let channel ← deliveryChannel incoming.sourceType incoming.sourceId incoming.sourceEpoch
  let digest ← deliveryDigest hash incoming
  let output ← encodeDeliveryAck incoming.message.ticket value
  let delivery := task.job.delivery
  pure { task with job := { task.job with
    output
    delivery := { delivery with inbox := delivery.inbox.insert channel ⟨incoming.message.sequence, digest, value⟩ } } }

def recordOutcome (task : Task) : Except Halt Task :=
  match task.job.request.incoming with
  | none => pure task
  | some incoming => do
    let value := deliveryOutcome task.job
    refuseIf (value.data.length > deliveryPayloadLimit) (halt task .overloaded)
    orHalt (writeInbox hash task incoming value) task .internal

end

def checkDestroy : Except Halt Unit :=
  refuseIf (task.job.request.route.isDestroy = true ∧ pendingOutbox task.job.delivery = true) (halt task .overloaded)

def checkDelivery : Except Halt Unit :=
  let delivery := task.job.delivery
  if delivery.epoch = 0 then pure ()
  else do
    refuseIf (delivery.outbox.length > limits.deliveryMessages ∨ delivery.inbox.size > limits.deliveryChannels ∨
      delivery.sent.size > limits.deliveryChannels) (halt task .overloaded)
    let charge ← orHalt (deliveryCharge delivery) task .overloaded
    refuseIf (charge > limits.deliveryBytes) (halt task .overloaded)

/-- The bytes of the delivery state, none without an epoch. -/
def deliverySize (delivery : EntityDeliveryState) : Except Failure Nat :=
  if delivery.epoch = 0 then pure 0 else do pure (← encodeDeliveryState delivery).length

def timersCharge (timers : EntityTimerState) : Except Failure Nat :=
  if timers.token = [] then pure 0 else do pure (4 * (← entityTimersWireSize timers))

/-- What the job holds in memory until its commit is answered. -/
def retainedBytes : Except Failure Nat := do
  let delivery ← deliverySize job.delivery
  let timers ← timersCharge job.timers
  let images := match job.attributes with
    | some a => 4 * attributeImageBytes a.current.values + 4 * attributeImageBytes a.previous.values
    | none => 0
  pure (images + (if job.attributes.isSome then 5 else 1) * job.state.length + job.transient.length * 4 +
    job.output.length + receiptBytes job.receipts + 12 + 2 * delivery + timers)

def retainCommit : Except Halt Task := do
  let retained ← orHalt (retainedBytes task.job) task .internal
  refuseIf (retained > task.room limits + task.job.resident) (halt task .overloaded)
  pure (task.recharge retained)

/-! ## The record -/

/-- A transfer and a destruction change the index even if no timer changed. -/
def markTimers : Job :=
  if job.timers.token ≠ [] ∧ (job.request.handoffTarget ≠ [] ∨ job.request.acceptTransfer ≠ 0 ∨
      job.request.route.isDestroy) then { job with timerDirty := true }
  else job

def Job.target : Bytes :=
  if job.request.handoffTarget = [] then job.placement else job.request.handoffTarget

def indexEntry (k : EntityKey) (job : Job) : Job :=
  if job.timerDirty then
    { job with timerIndexEntry := some ⟨k.type, k.id, job.timers.token, job.version, job.fence,
                                        nextEntityTimer job.timers, true, job.target⟩ }
  else job

/-- The key of the new owner, none for a connection that is not valid. -/
def ownerKeyOf (connection : ConnectionRef) : Bytes := connection.key.getD []

/-- The metadata the commit stores; nothing when the owner's revision is exhausted. -/
def committedMetadata (metadata : EntityMetadata) : Option EntityMetadata :=
  match job.request.newOwner with
  | none => some metadata
  | some connection =>
    if metadata.ownerRevision.toNat = 2 ^ 64 - 1 then none
    else some { metadata with ownerConnection := ownerKeyOf connection, ownerRevision := metadata.ownerRevision + 1 }

/-- The record that replaces the acquired one. -/
def committedRecord (host : HostId) (job : Job) (metadata : EntityMetadata) : EntityRecord :=
  let release := job.request.route.isControl
  let destroy := job.request.route.isDestroy
  let snapshot : EntitySnapshot :=
    { state := if metadata.rebuildable then metadata.initialState else job.state
      receipts := job.receipts, delivery := job.delivery, timers := job.timers }
  { owner := if release then [] else host.owner
    expires := if release then 0 else job.expires
    fence := job.fence
    snapshot := if destroy then {} else snapshot
    initialized := if release then !job.created else true
    placement := job.target
    transferId := if job.request.handoffTarget = [] then job.transferId else job.version
    metadata := if destroy then { metadata with destroyed := true } else metadata }

def buildRecord (host : HostId) (k : EntityKey) (task : Task) : Except Halt Task :=
  let job := indexEntry k (markTimers task.job)
  match job.metadata with
  | none => throw (halt { task with job } .internal)
  | some metadata =>
    match committedMetadata job metadata with
    | none => throw (halt { task with job } .rejected)
    | some metadata =>
      let job := { job with metadata := some metadata }
      match (committedRecord host job metadata).encoded with
      | none => throw (halt { task with job } .internal)
      | some value =>
        let output := if job.request.handoffTarget = [] then job.output else integer job.version
        pure { task with job := { job with output, phase := .committing .submitted value } }

/-! ## From the script's result to the record -/

/-- A delivery that its handler refused is settled as such: the effects are
rolled back and the refusal becomes the outcome. Any other failure ends the job. -/
def settleResult (result : Result) : Except Halt (Task × Result) :=
  let job := task.job
  if result.status = .ok then pure (task, result)
  else if job.request.incoming.isSome ∧ job.logicStarted ∧ (result.status = .rejected ∨ result.status = .notFound) then
    pure ({ task with job := { job with
      deliveryResult := some result, metadataOnly := true, delivery := job.deliveryRollback.getD {},
      timers := job.timerRollback.getD {}, timerDirty := false } }, ⟨.ok, stateMessage job.rollback []⟩)
  else throw (result, task)

/-- The owner a policy compares the caller with. -/
def Host.ownerFor (h : Host) (k : EntityKey) (policy : RpcPolicy) : Bytes :=
  if policy.ownerOnly then h.ownerKey k else []

/-- The caller is checked again before anything is stored. -/
def authorizeCommit (h : Host) (k : EntityKey) (env : Ambient) (task : Task) : Except Halt Unit := do
  refuseIf (env.late = true) (halt task .timeout)
  refuseIf (task.job.request.guarded = true ∧ (task.job.metadata.isNone ∨ env.guard = false)) (halt task .rejected)
  match h.policyOf task.job.request with
  | none => pure ()
  | some policy =>
    refuseIf (task.job.metadataOnly = false ∧
      policy.allows task.job.request.identity env.live (h.ownerFor k policy) = false) (halt task .rejected)

/-- Everything between the two checks and the submission to the storage thread. -/
def buildCommit (hash : Bytes → Bytes) (host : HostId) (h : Host) (k : EntityKey) (env : Ambient) (task : Task)
    (result : Result) : Except Halt Task :=
  match parseStateMessage result.data with
  | none => throw (halt task .internal)
  | some (state, payload) => do
    let task := { task with job := { task.job with rollback := [], deliveryRollback := none, timerRollback := none } }
    let task ← orHalt (advanceFired h.limits env.now task) task .internal
    refuseIf (state.length > h.limits.stateBytes ∨ payload.length > h.limits.queuedBytes) (halt task .overloaded)
    let (job, state) ← orHalt (commitAttributes task.job state) task .internal
    let output := if job.timerEvent.isSome then ascii "1" else payload
    let task := { task with job := { job with state, output } }
    let task ← recordReceipt h.limits task
    let task ← reserveTransient h.limits (h.slots k) task
    let task ← recordOutcome hash task
    checkDestroy task
    checkDelivery h.limits task
    let task ← retainCommit h.limits task
    let task ← buildRecord host k task
    refuseIf (env.accepted = false) (halt task .overloaded)
    pure task

/-! ## The stages on the storage thread -/

namespace Job

variable (job : Job) (value : StoredRecord) (entry : TimerIndex.Entry) (attempt : Nat)

def commitStage (stage : CommitStage) : Job :=
  { job with phase := .committing stage value }

/-- The lease has run out or the record was replaced. -/
def loseOwner : Job :=
  { job with ownerLost := true, status := .rejected }.commitStage value (.finished false)

/-- The first look at the clock. -/
def resumeSubmitted (clock : Int) : Job :=
  if clock ≥ job.expires then job.loseOwner value
  else
    match job.timerIndexEntry with
    | some entry =>
      if job.timerDirty then
        if entry.valid then job.commitStage value (.arming entry 0 .record)
        else job.commitStage value (.finished true)
      else job.commitStage value .writing
    | none => job.commitStage value .writing

/-- The record was read for the producer's check. -/
def resumeArmRecord
    (stored : Option (Cell StoredRecord)) : Job :=
  if TimerIndex.armHolds entry stored then job.commitStage value (.arming entry attempt .bucket)
  else job.commitStage value (.finished true)

/-- The bucket was read. -/
def resumeArmBucket
    (stored : Option (Cell TimerIndex.Bucket)) : Job :=
  match TimerIndex.armBucket entry ((stored.map Cell.value).getD .empty) with
  | none => job.commitStage value (.finished true)
  | some bucket =>
    job.commitStage value (.arming entry attempt (.write ((stored.map Cell.version).getD 0) bucket))

/-- The bucket was swapped in, or another writer was faster. -/
def resumeArmWrite (swapped : Bool) :
    Job :=
  if swapped then job.commitStage value .writing
  else if attempt + 1 < 8 then job.commitStage value (.arming entry (attempt + 1) .record)
  else job.commitStage value (.finished true)

/-- The record was swapped in, or it was replaced by someone else. -/
def resumeWrite (swapped : Bool) : Job :=
  if swapped then job.commitStage value (.finished false) else job.loseOwner value

end Job

end Fsnet
