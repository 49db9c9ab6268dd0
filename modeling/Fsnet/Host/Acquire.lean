import Fsnet.Host.State
/-!
# Acquiring a record

The storage thread reads the entity's record, checks the request against it,
loads the job, and either reuses the lease the host already holds or swaps in a
renewed one. Up to four attempts are made when another writer gets in between.
What an attempt stored in the job stays there in the next one.
-/

namespace Fsnet

open Lib

/-- How an acquisition ends early: the job as it was left, by return or by an exception. -/
structure Refusal where
  job : Job
  threw : Bool

variable (host : HostId) (limits : RuntimeLimits) (job : Job) (current : EntityRecord)

def refuse (status : Status) : Refusal := ⟨{ job with status }, false⟩

def thrown : Refusal := ⟨job, true⟩

/-- The status for an entity that lives elsewhere. -/
def elsewhereStatus (request : Request) : Status :=
  if request.acceptTransfer = 0 ∧ request.route.method = snapshotMethod then .overloaded else .rejected

/-- The entity is owned or placed elsewhere: whatever the host has of it is stale. -/
def refuseElsewhere : Refusal :=
  refuse { job with ownerLost := true, wrongNode := true } (elsewhereStatus job.request)

def refuseKeeping (status : Status) : Refusal := refuse { job with preserveActivation := true } status

/-! ## The checks, in order -/

/-- The request against the record's metadata. -/
def checkMetadata : Except Refusal Job := do
  refuseIf (current.metadata.destroyed = true) (refuse job .notFound)
  refuseIf (current.metadata.type ≠ job.request.route.type) (refuse job .rejected)
  let job := { job with metadata := some current.metadata }
  have request := job.request
  refuseIf (request.expectedOwner.any (current.metadata.ownerConnection ≠ ·) = true) (refuse job .rejected)
  refuseIf (request.newOwner.isSome ∧ current.initialized = false) (refuse job .overloaded)
  refuseIf (request.timer.isSome ∧ (current.metadata.rebuildable = true ∨ current.initialized = false))
    (refuse job .rejected)
  refuseIf (current.metadata.rebuildable = true ∧ (request.incoming.isSome ∨ request.ack.isSome ∨
    request.handoffTarget ≠ [] ∨ request.acceptTransfer ≠ 0)) (refuse job .rejected)
  pure job

/-- The record's placement against this host. -/
def checkPlacement : Except Refusal Job := do
  let request := job.request
  refuseIf (current.placement ≠ [] ∧ entityNodeMatches host.owner current.placement = false) (refuseElsewhere job)
  refuseIf (request.acceptTransfer ≠ 0 ∧ (current.transferId ≠ request.acceptTransfer ∨ current.placement = []))
    (refuseKeeping job .rejected)
  pure { job with placement := current.placement, transferId := current.transferId, created := !current.initialized }

/-- The lease against the clock. -/
def checkLease (time : Int) :
    Except Refusal Unit := do
  refuseIf (time < 0 ∨ time > maxTime - limits.lease) (thrown job)
  refuseIf (current.owner ≠ host.owner ∧ current.expires > time) (refuseElsewhere job)

/-- The snapshot a job starts from. A rebuildable entity that is not resident
here starts again from its initial state, without receipts. -/
def resident (cachedFence : Nat) (current : EntityRecord) : EntitySnapshot :=
  if current.metadata.rebuildable ∧ (current.owner ≠ host.owner ∨ cachedFence ≠ current.fence) then
    { current.snapshot with state := current.metadata.initialState, receipts := [] }
  else current.snapshot

def checkTimers : Except Refusal Unit := do
  refuseIf (job.timers.entries.size > limits.timers) (refuse job .overloaded)
  if job.timers.token = [] then pure ()
  else
    match entityTimersWireSize job.timers with
    | .error _ => throw (thrown job)
    | .ok size => refuseIf (size > limits.timerBytes) (refuse job .overloaded)

/-- A fire request against the timers: it runs the callback only for the
occurrence it names, and only when that is due. -/
def loadTimer (time : Int) : Except Refusal Job :=
  match job.request.timer with
  | none => pure job
  | some fire =>
    match job.timers.entries.find fire.key with
    | none => pure { job with replay := true, metadataOnly := true }
    | some timer =>
      if timer.generation ≠ fire.generation ∨ timer.due ≠ fire.due ∨ fire.due > time then
        pure { job with replay := true, metadataOnly := true }
      else
        let event : EntityTimerEvent := ⟨timer, time⟩
        match encodeTimerEvent event with
        | .error _ => throw (thrown { job with timerEvent := some event })
        | .ok payload => pure { job with timerEvent := some event, request := { job.request with payload } }

section
variable (hash : Bytes → Bytes)

/-- The outcome of a sequence the inbox has passed. Only the last one is kept; an
older sequence was settled at its source before the next one was sent. -/
def replayResult (job : Job) (incoming : DeliveryEnvelope) (found : DeliveryCursor) : Except Refusal Result :=
  if incoming.message.sequence = found.sequence then
    match deliveryDigest hash incoming with
    | .error _ => throw (thrown job)
    | .ok digest => do
      refuseIf (found.digest ≠ digest) (refuseKeeping job .rejected)
      pure found.result
  else pure ⟨.ok, []⟩

/-- A delivery against the inbox, up to the point where the source has to be
read; that is the answer `true`. -/
def loadIncoming (limits : RuntimeLimits) (job : Job) (current : EntityRecord) : Except Refusal (Job × Bool) :=
  match job.request.incoming with
  | none => pure (job, false)
  | some incoming => do
    let m := incoming.message
    refuseIf (current.initialized = false ∨ job.delivery.epoch ≠ m.targetEpoch) (refuseKeeping job .notFound)
    match deliveryChannel incoming.sourceType incoming.sourceId incoming.sourceEpoch with
    | .error _ => throw (thrown job)
    | .ok channel =>
      match job.delivery.inbox.find channel with
      | some found =>
        if m.sequence ≤ found.sequence then do
          let result ← replayResult hash job incoming found
          let job := { job with replay := true, metadataOnly := true }
          match encodeDeliveryAck m.ticket result with
          | .error _ => throw (thrown job)
          | .ok output => pure ({ job with output }, false)
        else do
          refuseIf (m.sequence ≠ found.sequence + 1) (refuse job .overloaded)
          pure (job, true)
      | none => do
        refuseIf (m.sequence ≠ 1 ∨ job.delivery.inbox.size ≥ limits.deliveryChannels) (refuse job .overloaded)
        pure (job, true)

/-- The first part of an attempt: every check before the source of a delivery is read. -/
def loadRecord (host : HostId) (limits : RuntimeLimits) (job : Job) (current : EntityRecord) (time : Int) :
    Except Refusal (Job × Bool) := do
  let job ← checkMetadata job current
  let job ← checkPlacement host job current
  checkLease host limits job current time
  let snapshot := resident host job.cachedFence current
  let job := { job with delivery := snapshot.delivery, timers := snapshot.timers }
  checkTimers limits job
  let request := job.request
  let job := { job with
    metadataOnly := request.ack.isSome || request.deliveryError.isSome || request.newOwner.isSome }
  let job ← loadTimer job time
  loadIncoming hash limits job current

end

/-- The source's outbox against the delivery: the very message must be pending there. -/
def pendingAtSource (incoming : DeliveryEnvelope) (source : EntityRecord) (bytes : Bytes) : Bool :=
  source.initialized && source.snapshot.delivery.epoch = incoming.sourceEpoch &&
    source.snapshot.delivery.outbox.any fun pending =>
      !pending.done && pending.ticket = incoming.message.ticket &&
        encodeDelivery { incoming with message := pending } = .ok bytes

def checkSource (stored : Option (Cell StoredRecord)) : Except Refusal Job :=
  match job.request.incoming with
  | none => pure job
  | some incoming =>
    match stored with
    | none => throw (refuse job .rejected)
    | some cell =>
      match encodeDelivery incoming with
      | .error _ => throw (thrown job)
      | .ok bytes => do
        refuseIf (pendingAtSource incoming cell.value.val bytes = false) (refuse job .rejected)
        pure job

/-- The loop of an acknowledgement over the outbox: the first message with the
ticket is done with the result. Nothing when it is done with another result. -/
def acknowledgeOutbox (ticket : Bytes) (result : Result) : List DeliveryMessage → Option (List DeliveryMessage)
  | [] => some []
  | m :: rest =>
    if m.ticket = ticket then
      if m.done ∧ m.result ≠ result then none else some ({ m with done := true, result } :: rest)
    else (acknowledgeOutbox ticket result rest).map (m :: ·)

def loadAck : Except Refusal Job :=
  match job.request.ack with
  | none => pure job
  | some ack => do
    refuseIf (job.delivery.epoch ≠ ack.epoch) (refuse job .notFound)
    match acknowledgeOutbox ack.ticket ack.result job.delivery.outbox with
    | none => throw (refuse job .rejected)
    | some outbox => pure { job with delivery := { job.delivery with outbox } }

def pendingOutbox (delivery : EntityDeliveryState) : Bool := delivery.outbox.any (!·.done)

/-- A keyed request against the receipts: the stored response is replayed. -/
def loadReceipt : Except Refusal Job :=
  if job.request.requestId = [] then pure job
  else
    match job.receipts.find? (fun receipt => receipt.id = job.request.requestId) with
    | none => pure job
    | some receipt => do
      refuseIf (receipt.route ≠ job.request.route.text ∨ receipt.request ≠ job.request.payload) (refuse job .rejected)
      pure { job with replay := true, metadataOnly := true, output := receipt.response }

/-- How a loaded job goes on. -/
inductive Acquisition where
  /-- The host's lease is long enough. -/
  | reuse (job : Job)
  /-- The record with a renewed lease has to be swapped in. -/
  | grant (job : Job) (value : StoredRecord)

/-- The second part of an attempt, after the source of a delivery was read. -/
def finishLoad (cell : Cell StoredRecord) (time : Int) :
    Except Refusal Acquisition := do
  let current := cell.value.val
  let snapshot := resident host job.cachedFence current
  let job ← loadAck job
  refuseIf (job.request.route.isDestroy = true ∧ pendingOutbox job.delivery = true) (refuseKeeping job .overloaded)
  let job := { job with state := snapshot.state, receipts := snapshot.receipts,
                        previouslyOwned := current.owner = host.owner, previousFence := current.fence }
  let job ← loadReceipt job
  refuseIf (job.state.length > limits.stateBytes) (refuse job .overloaded)
  if current.owner = host.owner ∧ current.expires - time > limits.requestTimeout then
    pure (.reuse { job with version := cell.version, fence := current.fence, expires := current.expires })
  else do
    refuseIf (current.fence ≥ maxTime - 1) (thrown job)
    match { current with snapshot, owner := host.owner, expires := time + limits.lease,
                         fence := current.fence + 1 : EntityRecord }.encoded with
    | none => throw (thrown job)
    | some value => pure (.grant job value)

/-! ## The stages -/

namespace Job

def acquiring (job : Job) (stage : AcquireStage) : Job := { job with phase := .acquiring stage }

def refused (refusal : Refusal) : Job := refusal.job.acquiring (.finished refusal.threw)

/-- A loaded job goes on with the lease. -/
def lease (host : HostId) (limits : RuntimeLimits) (attempt : Nat) (job : Job) (cell : Cell StoredRecord)
    (time : Int) : Job :=
  match finishLoad host limits job cell time with
  | .error refusal => refused refusal
  | .ok (.reuse job) => job.acquiring (.finished false)
  | .ok (.grant job value) => job.acquiring (.granting attempt cell.version value)

/-- The record was read. -/
def resumeRead (hash : Bytes → Bytes) (host : HostId) (limits : RuntimeLimits) (attempt : Nat) (job : Job)
    (stored : Option (Cell StoredRecord)) (time : Int) : Job :=
  match stored with
  | none => refused (refuse job .notFound)
  | some cell =>
    match loadRecord hash host limits job cell.value.val time with
    | .error refusal => refused refusal
    | .ok (job, needsSource) =>
      if needsSource then job.acquiring (.sourcing attempt cell time) else job.lease host limits attempt cell time

/-- The source of a delivery was read. -/
def resumeSource (host : HostId) (limits : RuntimeLimits) (attempt : Nat) (job : Job) (cell : Cell StoredRecord)
    (time : Int) (source : Option (Cell StoredRecord)) : Job :=
  match checkSource job source with
  | .error refusal => refused refusal
  | .ok job => job.lease host limits attempt cell time

/-- The renewed lease was swapped in, or another writer was faster. -/
def resumeGrant (job : Job) (attempt : Nat) (value : StoredRecord) (swapped : Bool) : Job :=
  if swapped then job.acquiring (.confirming value)
  else if attempt + 1 < 4 then job.acquiring (.reading (attempt + 1))
  else refused (refuse job .rejected)

/-- The granted record was read back. -/
def resumeConfirm (job : Job) (value : StoredRecord) (granted : Option (Cell StoredRecord)) : Job :=
  match granted with
  | none => refused (refuse job .rejected)
  | some cell =>
    if cell.value = value then
      { job with version := cell.version, fence := value.val.fence,
                 expires := value.val.expires }.acquiring (.finished false)
    else refused (refuse job .rejected)

end Job

end Fsnet
