import Fsnet.Host.Commit
import Fsnet.Host.Complete
/-!
# Running a job

Back on the host's own thread an acquired job is authorized against the owner
in the record it acquired, a stored response is replayed, and otherwise the
attribute image is restored and script logic runs: first the lifecycle hooks
that are due, then the method. The answer of the last step goes to the commit.
-/

namespace Fsnet

open Lib

/-! ## The result of script logic -/

variable (h : Host) (k : EntityKey) (env : Ambient) (job : Job)

/-- The running step is the stand-in for a release hook. -/
def Job.isNoop : Bool :=
  match job.phase with
  | .executing (.noop :: _) _ => true
  | _ => false

/-- The answer of the running step: a script's, or the unchanged state from the stand-in. -/
def Job.answer (result : Result) : Result :=
  match job.phase with
  | .executing (.noop :: _) state => ⟨.ok, stateMessage state []⟩
  | _ => result

namespace Host

variable (hash : Bytes → Bytes) (host : HostId) (h : Host) (k : EntityKey) (job : Job)

/-- End the task's job. -/
def endTask (task : Task) (result : Result) : Turn :=
  { h with counters := task.counters }.complete k task.job result

/-- `done`: what follows the last step of script logic. -/
def finishScript (result : Result)
    (env : Ambient) : Turn :=
  match settleResult ⟨job, h.counters⟩ result with
  | .error (result, task) => h.endTask k task result
  | .ok (task, result) =>
    match authorizeCommit h k env task with
    | .error (result, task) => h.endTask k task result
    | .ok () =>
      let checks : List HostEvent :=
        if task.job.metadataOnly then [] else [.checked k task.job (h.policyOf task.job.request) env.live]
      match buildCommit hash host h k env task result with
      | .error (result, task) =>
        let turn := h.endTask k task result
        ⟨turn.host, checks ++ turn.events⟩
      | .ok task => ⟨{ h with counters := task.counters }.setJob k task.job, checks⟩

/-- `advance`: call the next step of script logic. -/
def advance (steps : List Hook)
    (state : Bytes) (env : Ambient) : Turn :=
  match steps with
  | [] => ⟨h, []⟩
  | hook :: rest =>
    if env.late then h.finishScript hash host k job ⟨.timeout, []⟩ env
    else if (h.slots k).isNone then h.finishScript hash host k job ⟨.disconnected, []⟩ env
    else
      let job := { job with
        phase := .executing (hook :: rest) state, logicStarted := job.logicStarted || rest.isEmpty }
      ⟨h.setJob k job, [.started k job hook]⟩

/-- The lifecycle hooks that are due, then the method. -/
def chain : List Hook :=
  let type := job.request.route.type
  if job.request.route.isControl then
    if (h.slots k).any (fun slot => !slot.activated) then [.noop] else [.method]
  else
    (if job.created && h.contains ⟨type, createMethod⟩ then [.create] else []) ++
      (if job.activating && h.contains ⟨type, activateMethod⟩ then [.activate] else []) ++ [.method]

/-- `execute`. -/
def execute (env : Ambient) : Turn :=
  if job.metadataOnly then h.finishScript hash host k job ⟨.ok, stateMessage job.state []⟩ env
  else h.advance hash host k job (h.chain k job) job.state env

/-- The running step answers. A hook hands its state on to the next step. -/
def scriptResult (result : Result)
    (env : Ambient) : Turn :=
  match job.phase with
  | .executing (_ :: rest) state =>
    if rest.isEmpty ∨ result.status ≠ .ok then h.finishScript hash host k job result env
    else
      match parseStateMessage result.data with
      | none => h.finishScript hash host k job ⟨.overloaded, []⟩ env
      | some (next, _) =>
        let task : Task := ⟨job, h.counters⟩
        let growth := 5 * (next.length - state.length)
        if next.length > h.limits.stateBytes ∨ growth > task.room h.limits then
          h.finishScript hash host k job ⟨.overloaded, []⟩ env
        else
          let task := task.grow growth
          { h with counters := task.counters }.advance hash host k task.job rest next env
  | _ => ⟨h, []⟩

end Host

/-! ## Authorization -/

/-- The checks that need no policy: the attribute guard and the deadline. -/
def admitAcquired (task : Task) : Except Halt Task := do
  let job := task.job
  refuseIf (job.request.guarded = true ∧ (job.metadata.isNone ∨ env.guard = false)) (halt task .rejected)
  let delivery :=
    if h.deliveryEnabled ∧ job.delivery.epoch = 0 then { job.delivery with epoch := job.version } else job.delivery
  let task := { task with job := { job with delivery } }
  refuseIf (env.expired = true) (halt task .timeout)
  pure task

/-- A delivery its caller may not make is settled as rejected, without running the method. -/
def authorizeDelivery : Job :=
  match h.policyOf job.request with
  | none => job
  | some policy =>
    if job.replay = false ∧ policy.allows job.request.identity env.live (h.ownerFor k policy) = false then
      { job with request := { job.request with deliveryError := some ⟨.rejected, []⟩ }, metadataOnly := true }
    else job

/-- Any other call needs its policy's consent, also for a replay. -/
def authorizeCall (task : Task) : Except Halt Unit :=
  match h.policyOf task.job.request with
  | none => pure ()
  | some policy => do
    refuseIf ((h.slots k).isNone = true) (halt task .disconnected)
    refuseIf (policy.allows task.job.request.identity env.live (h.ownerFor k policy) = false) (halt task .rejected)

def authorize (task : Task) : Except Halt Task :=
  if task.job.request.incoming.isSome then pure { task with job := authorizeDelivery h k env task.job }
  else do
    authorizeCall h k env task
    pure task

/-! ## Restoring the entity in memory -/

/-- The charge of the loaded job. -/
def chargeLoaded (limits : RuntimeLimits) (task : Task) : Except Halt Task := do
  let timers ← orHalt (timersCharge task.job.timers) task .internal
  let task := { task with job := { task.job with timerCharge := timers } }
  let delivery ← orHalt (deliverySize task.job.delivery) task .internal
  let retained := task.job.state.length + 2 * delivery + timers + receiptBytes task.job.receipts
  refuseIf (retained > task.room limits) (halt task .overloaded)
  pure { job := { task.job with resident := retained }
         counters := { task.counters with stateBytes := task.counters.stateBytes + retained } }

/-- The cached image belongs to the record that was acquired. -/
def cacheMatches (slot : Slot) (job : Job) (revision : UInt64) : Bool :=
  !slot.transient.isEmpty && job.previouslyOwned && slot.residentFence = job.previousFence &&
    (slot.transientRevision = revision || job.rebuildable)

/-- The stored part of the image. -/
def restoreStored (schema : EntitySchema) (job : Job) (image : AttributeUpdate) : Except Failure EntityAttributes :=
  if job.created || job.rebuildable then (EntityAttributes.new schema).restoreFull image.values image.revision
  else (EntityAttributes.new schema).restore image.values image.revision

/-- The cached part. -/
def restoreCached (slot : Slot) (job : Job) (image : AttributeUpdate) (model : EntityAttributes) :
    Except Failure EntityAttributes :=
  if cacheMatches slot job image.revision then do
    let transient ← decodeAttributes slot.transient
    model.restoreFull transient.values (if job.rebuildable then transient.revision else image.revision)
  else pure model

/-- The transient values a spawn asked for. -/
def spawnValues (schema : EntitySchema) : AttributeStruct → Except Failure AttributeStruct
  | [] => pure []
  | (name, value) :: rest =>
    match schema.attributes.find name with
    | none => throw .outOfRange
    | some d => do
      let tail ← spawnValues schema rest
      pure (if d.persist then tail else (name, value) :: tail)

def restoreSpawned (image : AttributeUpdate) (model : EntityAttributes) : Except Failure EntityAttributes :=
  if job.created ∧ job.request.route.method = spawnMethod then do
    let requested ← decodeAttributes job.request.payload
    let transient ← spawnValues model.schema requested.values
    model.restoreFull transient image.revision
  else pure model

/-- The whole image a method with a schema runs on. -/
def restoreImage (schema : EntitySchema) (slot : Slot) (job : Job) : Except Failure (AttributeUpdate × Bytes) := do
  let image ← decodeAttributes job.state
  refuseIf (image.snapshot = false) (.runtime "persistent properties require a snapshot")
  let model ← restoreStored schema job image
  let model ← restoreCached slot job image model
  let model ← restoreSpawned job image model
  let full := imageUpdate model.revision model.values
  let bytes ← encodeAttributes full
  pure (full, bytes)

def restoreAttributes (slot : Slot) (task : Task) : Except Halt Task :=
  match h.schemaOf task.job.request with
  | none => pure task
  | some schema =>
    if task.job.metadataOnly then pure task
    else do
      let (full, bytes) ← orHalt (restoreImage schema slot task.job) task .internal
      let retained := task.job.resident + 4 * bytes.length + 65536 + 4 * attributeImageBytes full.values
      refuseIf (retained > task.room h.limits + task.job.resident) (halt task .overloaded)
      let task := task.recharge retained
      pure { task with job := { task.job with
        state := bytes, attributes := some ⟨schema, full, imageUpdate 0 []⟩ } }

/-- A write has to be one its caller may make. -/
def checkProposal (task : Task) : Except Halt Unit :=
  refuseIf (task.job.attributes.isSome ∧ task.job.request.route.method = writeMethod ∧ env.stageable = false)
    (halt task .rejected)

/-- A delivery keeps what it has to go back to when its handler refuses. -/
def keepRollback (limits : RuntimeLimits) (task : Task) : Except Halt Task :=
  let job := task.job
  if job.request.incoming.isSome ∧ job.metadataOnly = false then do
    let delivery ← orHalt (deliverySize job.delivery) task .internal
    let retained := job.state.length + 2 * delivery + job.timerCharge
    refuseIf (retained > task.room limits) (halt task .overloaded)
    let task := task.grow retained
    pure { task with job := { task.job with
      rollback := job.state, deliveryRollback := some job.delivery, timerRollback := some job.timers } }
  else pure task

/-- Everything between authorization and script logic. -/
def restoreJob (task : Task) : Except Halt Task := do
  let task ← chargeLoaded h.limits task
  match h.slots k with
  | none => throw (halt task .disconnected)
  | some slot => do
    let task ← restoreAttributes h slot task
    checkProposal env task
    let activating := !slot.activated || !task.job.previouslyOwned || slot.activationFence ≠ task.job.previousFence
    keepRollback h.limits { task with job := { task.job with activating } }

/-! ## The completion of an acquisition -/

namespace Host

/-- The slot learns the owner in the acquired record. -/
def learnOwner (h : Host) (k : EntityKey) (job : Job) : Host :=
  match job.metadata, h.slots k with
  | some metadata, some slot => h.setSlot k { slot with ownerKey := metadata.ownerConnection }
  | _, _ => h

/-- The job could not be acquired. A delivery that is refused as not found
is answered for good. -/
def refuseAcquired (h : Host) (k : EntityKey) (job : Job) : Turn :=
  match job.request.incoming with
  | some incoming =>
    if job.status = .notFound then
      match encodeDeliveryAck incoming.message.ticket ⟨.notFound, []⟩ with
      | .ok output => h.complete k { job with metadataOnly := true } ⟨.ok, output⟩
      | .error _ => h.complete k { job with metadataOnly := true } ⟨.internal, []⟩
    else h.complete k job ⟨job.status, []⟩
  | none => h.complete k job ⟨job.status, []⟩

/-- A job with a record: it is authorized, replayed, or run. -/
def runAcquired (hash : Bytes → Bytes) (host : HostId) (h : Host) (k : EntityKey) (job : Job) (env : Ambient) : Turn :=
  let h := h.learnOwner k job
  match admitAcquired h env ⟨job, h.counters⟩ >>= authorize h k env with
  | .error (result, task) => h.endTask k task result
  | .ok task =>
    let check : HostEvent := .checked k task.job (h.policyOf task.job.request) env.live
    let turn :=
      if task.job.replay then h.endTask k task ⟨.ok, task.job.output⟩
      else
        match restoreJob h k env task with
        | .error (result, task) => h.endTask k task result
        | .ok task => { h with counters := task.counters }.execute hash host k task.job env
    ⟨turn.host, check :: turn.events⟩

/-- The completion of the storage operation that acquired the record. -/
def finishAcquire (hash : Bytes → Bytes) (host : HostId) (h : Host) (k : EntityKey) (job : Job) (threw : Bool)
    (env : Ambient) : Turn :=
  if threw then h.complete k job ⟨.internal, []⟩
  else if job.status ≠ .ok then h.refuseAcquired k job
  else h.runAcquired hash host k job env

/-- The completion of the storage operation that committed the record. -/
def finishCommit (h : Host) (k : EntityKey) (job : Job) (threw : Bool) : Turn :=
  if threw then h.complete k job ⟨.internal, []⟩ true
  else h.complete k job ⟨job.status, if job.status = .ok then job.output else []⟩

end Host

end Fsnet
