import Fsnet.Host.Script
/-!
# The hosts and the store they share

The whole system: the records, the timer index and the delivery registry in one
store, any number of hosts, the timer scans and the delivery workers. An action
is one atomic thing that can happen: a request arrives, a storage thread makes
its next access, a completion is polled, a script answers. The run of a list of
actions is one interleaving; an action that is not possible in a state leaves
the state unchanged.

`trace` records what happened, newest first. It is read by no definition.
-/

namespace Fsnet

open Lib Function

/-! ## Events and operations in flight -/

inductive Event where
  /-- The catalog created the record. -/
  | created (id : Bytes) (cell : Cell StoredRecord)
  /-- The job holds the cell's version. -/
  | acquired (host : HostId) (entity : EntityKey) (job : Job) (cell : Cell StoredRecord)
  /-- The job's lease was swapped in over `old`. -/
  | granted (host : HostId) (entity : EntityKey) (job : Job) (old new : Cell StoredRecord)
  /-- The job's record was swapped in over `old`. -/
  | committed (host : HostId) (entity : EntityKey) (job : Job) (old new : Cell StoredRecord)
  /-- The lease was released without a hook. -/
  | released (host : HostId) (entity : EntityKey) (old new : Cell StoredRecord)
  | host (host : HostId) (event : HostEvent)

/-- A timer scan that has read its bucket. -/
structure TimerScan where
  type : Bytes
  id : Bytes
  owner : Bytes
  time : Int
  expected : UInt64
  bucket : TimerIndex.Bucket
  observed : TimerIndex.Entry
  /-- The bucket to write, once the record was read. -/
  next : Option TimerIndex.Bucket := none

/-- A delivery worker that retires the registration of a destroyed source. -/
structure Retirement where
  source : Bytes × Bytes
  attempt : Nat := 0
  /-- The registry to write, once it was read. -/
  next : Option (UInt64 × DeliverySources) := none

structure World where
  entities : Store Bytes StoredRecord
  index : Store Nat TimerIndex.Bucket
  registry : Store Unit DeliverySources
  hosts : HostId → Host
  scans : Nat → Option TimerScan
  retirements : Nat → Option Retirement
  /-- Every envelope a delivery worker has read from an outbox. -/
  envelopes : List DeliveryEnvelope
  /-- Every answer a delivery worker got for an envelope. -/
  answers : List (DeliveryEnvelope × Result)
  trace : List Event

/-! ## What the environment decides -/

/-- One access of a storage thread: how it fails, the version a new cell gets,
and what the wall clock reads after it. -/
structure Access where
  fault : Store.Fault := .none
  version : UInt64 := 0
  time : Int := 0

def Access.fails (a : Access) : Bool := a.fault ≠ .none

structure EntityCreation where
  type : Bytes
  ownerConnection : Bytes := []
  state : Bytes := []
  targetNode : Bytes := []
  rebuildable : Bool := false
  /-- The digest of the other fields. -/
  fingerprint : Bytes

/-- The record the catalog creates. -/
def EntityCreation.record (c : EntityCreation) : EntityRecord :=
  { initialized := false, placement := c.targetNode, snapshot := { state := c.state }
    metadata := { type := c.type, ownerConnection := c.ownerConnection, creationDigest := c.fingerprint
                  rebuildable := c.rebuildable, initialState := if c.rebuildable then c.state else [] } }

/-- What can be asked of a host from outside. -/
inductive Ask where
  | call (route : Route) (id payload requestId : Bytes) (capacity : Nat) (identity : CallIdentity)
  | read (type id : Bytes)
  | readGuarded (type id owner : Bytes)
  | write (type id proposal requestId : Bytes) (identity : CallIdentity)
  | bindOwner (type id : Bytes) (connection : ConnectionRef)
  | fireTimer (type id : Bytes) (fire : TimerFire)
  | receive (identity : CallIdentity) (envelope : DeliveryEnvelope)
  | acknowledge (envelope : DeliveryEnvelope) (result : Result)
  | acceptHandoff (type id : Bytes) (ticket : UInt64)
  | handoff (k : EntityKey) (generation : UInt64) (target : Bytes)
  | destroy (k : EntityKey)
  | tick (k : EntityKey)

inductive Action where
  /-- A method is registered on a host. -/
  | bind (host : HostId) (route : Route) (method : Method)
  | unbind (host : HostId) (route : Route)
  | setPolicy (host : HostId) (route : Route) (policy : RpcPolicy)
  | enableDelivery (host : HostId) (enabled : Bool)
  | drain (host : HostId)
  | stop (host : HostId)
  | create (id : Bytes) (creation : EntityCreation) (a : Access)
  | ask (host : HostId) (ask : Ask) (live : Bool)
  /-- The front request of an entity becomes its job. -/
  | acquire (host : HostId) (k : EntityKey)
  | expireQueued (host : HostId) (k : EntityKey) (position : Nat)
  | expireJob (host : HostId) (k : EntityKey)
  | evict (host : HostId) (k : EntityKey)
  | deactivate (host : HostId) (k : EntityKey) (generation : UInt64) (accepted : Bool)
  /-- The storage thread makes the job's next access. -/
  | storage (host : HostId) (k : EntityKey) (a : Access)
  /-- The completion of the job's storage operation is polled. -/
  | finish (host : HostId) (k : EntityKey) (env : Ambient)
  | releaseStorage (host : HostId) (k : EntityKey) (a : Access)
  | finishRelease (host : HostId) (k : EntityKey)
  /-- The running step of script logic answers. -/
  | script (host : HostId) (k : EntityKey) (result : Result) (env : Ambient)
  | schedule (host : HostId) (k : EntityKey) (spec : EntityTimerSpec) (time : Int)
  | cancel (host : HostId) (k : EntityKey) (key : Bytes)
  | forget (host : HostId) (k : EntityKey) (ticket : Bytes)
  | startSend (host : HostId) (k : EntityKey) (n : Nat) (type id method payload : Bytes)
  | sendStorage (host : HostId) (n : Nat) (a : Access)
  | finishSend (host : HostId) (n : Nat)
  /-- A timer service reads a bucket for one of its entries. -/
  | scanBucket (n : Nat) (type id owner : Bytes) (time : Int)
  | scanRecord (n : Nat)
  | scanWrite (n : Nat) (a : Access)
  /-- A delivery worker reads the record of a registered source. -/
  | deliveryScan (source : Bytes × Bytes) (n : Nat)
  | retire (n : Nat) (a : Access)

/-- The envelope of a source's first pending message. -/
def firstPending (source : Bytes × Bytes) (delivery : EntityDeliveryState) : Option DeliveryEnvelope :=
  (delivery.outbox.find? (!·.done)).map fun m => ⟨source.1, source.2, delivery.epoch, m⟩

/-- The call an ask makes on a host; nothing when it is refused or was never made. -/
def Ask.toCall (hash : Bytes → Bytes) (host : HostId) (w : World) (h : Host) : Ask → Option Call
  | .call route id payload requestId capacity identity => Host.callEntity route id payload requestId capacity identity
  | .read type id => some (Host.readAttributes type id)
  | .readGuarded type id owner => some (Host.readGuarded type id owner)
  | .write type id proposal requestId identity => Host.writeAttributes type id proposal requestId identity
  | .bindOwner type id connection => Host.bindOwner type id connection
  | .fireTimer type id fire => Host.fireTimer type id fire
  | .receive identity envelope =>
    if envelope ∈ w.envelopes then h.receiveDelivery hash identity envelope else none
  | .acknowledge envelope result =>
    if (envelope, result) ∈ w.answers ∧ result.status = .ok then
      match decodeDeliveryAck result.data with
      | .error _ => none
      | .ok (ticket, value) =>
        if ticket = envelope.message.ticket then
          h.acknowledgeDelivery envelope.sourceType envelope.sourceId ⟨envelope.sourceEpoch, ticket, value⟩
        else none
    else none
  | .acceptHandoff type id ticket => Host.acceptHandoff type id ticket
  | .handoff k generation target => h.handoff host k generation target
  | .destroy k => h.destroy k
  | .tick k => h.tick k

/-! ## Steps -/

/-- The answers delivery workers get from a host's step. -/
def answersOf : List HostEvent → List (DeliveryEnvelope × Result)
  | [] => []
  | .replied _ job result :: rest =>
    match job.request.incoming with
    | some envelope => (envelope, result) :: answersOf rest
    | none => answersOf rest
  | _ :: rest => answersOf rest

/-- The event of an acquisition that ended well. -/
def acquiredNews (host : HostId) (k : EntityKey) (job : Job) (cell : Option (Cell StoredRecord)) : List Event :=
  match cell, job.phase, job.status with
  | some cell, .acquiring (.finished false), .ok => [.acquired host k job cell]
  | _, _, _ => []

/-- The event of a swap that took place over an existing record. -/
def swapNews (event : Cell StoredRecord → Event) (old : Option (Cell StoredRecord)) (swapped : Bool) : List Event :=
  match old with
  | some old => if swapped then [event old] else []
  | none => []

namespace World

variable (hash : Bytes → Bytes) (w : World) (host : HostId) (n : Nat) (k : EntityKey) (a : Access) (job : Job)

def setHost (h : Host) : World := { w with hosts := update w.hosts host h }

def setJob (w : World) (host : HostId) (k : EntityKey) (job : Job) : World :=
  w.setHost host ((w.hosts host).setJob k job)

def log (event : Event) : World := { w with trace := event :: w.trace }

/-- A host takes a turn on its own thread. -/
def play (turn : Turn) : World :=
  { w.setHost host turn.host with
    answers := answersOf turn.events ++ w.answers
    trace := (turn.events.map (Event.host host)).reverse ++ w.trace }

/-- The job holds a version once its acquisition ended well. -/
def noteAcquired (cell : Option (Cell StoredRecord)) : World :=
  { w with trace := acquiredNews host k job cell ++ w.trace }

/-- The storage thread reads for an acquisition and goes on with the answer. -/
def readFor (cell : Option (Cell StoredRecord))
    (next : Job) : World :=
  if a.fails then w.setJob host k (job.acquiring (.finished true))
  else (w.setJob host k next).noteAcquired host k next cell

/-- The renewed lease is swapped in. -/
def grant (attempt : Nat) (expected : UInt64)
    (value : StoredRecord) : World :=
  match w.entities.swap k.id expected value a.version a.fault with
  | none => w
  | some (entities, swapped, threw) =>
    let next := if threw then job.acquiring (.finished true) else job.resumeGrant attempt value swapped
    let news := swapNews (fun old => .granted host k job old ⟨a.version, value⟩) (w.entities k.id).get swapped
    { w with entities, trace := news ++ w.trace }.setJob host k next

/-- The committed record is swapped in, if the lease still holds. -/
def commit (value : StoredRecord) : World :=
  if a.time ≥ job.expires then w.setJob host k (job.loseOwner value)
  else
    match w.entities.swap k.id job.version value a.version a.fault with
    | none => w
    | some (entities, swapped, threw) =>
      let next := if threw then job.commitStage value (.finished true) else job.resumeWrite value swapped
      let news := swapNews (fun old => .committed host k job old ⟨a.version, value⟩) (w.entities k.id).get swapped
      { w with entities, trace := news ++ w.trace }.setJob host k next

/-- The producer's next access to the timer index. -/
def arm (value : StoredRecord)
    (entry : TimerIndex.Entry) (attempt : Nat) : ArmStage → World
  | .record =>
    w.setJob host k (if a.fails then job.commitStage value (.finished true)
      else job.resumeArmRecord value entry attempt (w.entities k.id).get)
  | .bucket =>
    w.setJob host k (if a.fails then job.commitStage value (.finished true)
      else job.resumeArmBucket value entry attempt (w.index (TimerIndex.shard k.id)).get)
  | .write expected bucket =>
    match w.index.swap (TimerIndex.shard k.id) expected bucket a.version a.fault with
    | none => w
    | some (index, swapped, threw) =>
      let next :=
        if threw then job.commitStage value (.finished true) else job.resumeArmWrite value entry attempt swapped
      { w with index }.setJob host k next

/-- The next access of a job's storage operation. -/
def storage : World :=
  let limits := (w.hosts host).limits
  match job.phase with
  | .acquiring (.reading attempt) =>
    let cell := (w.entities k.id).get
    w.readFor host k a job cell (job.resumeRead hash host limits attempt cell a.time)
  | .acquiring (.sourcing attempt cell time) =>
    let source := job.request.incoming.bind fun e => (w.entities e.sourceId).get
    w.readFor host k a job (some cell) (job.resumeSource host limits attempt cell time source)
  | .acquiring (.granting attempt expected value) => w.grant host k a job attempt expected value
  | .acquiring (.confirming value) =>
    let cell := (w.entities k.id).get
    w.readFor host k a job cell (job.resumeConfirm value cell)
  | .committing .submitted value => w.setJob host k (job.resumeSubmitted value a.time)
  | .committing (.arming entry attempt stage) value => w.arm host k a job value entry attempt stage
  | .committing .writing value => w.commit host k a job value
  | _ => w

/-- The completion of a job's storage operation. -/
def finish (env : Ambient) (job : Job) : World :=
  let h := w.hosts host
  if h.stopped then w
  else
    match job.phase with
    | .acquiring (.finished threw) => w.play host (h.finishAcquire hash host k job threw env)
    | .committing (.finished threw) _ => w.play host (h.finishCommit k job threw)
    | _ => w

/-- The next access of a release. -/
def releaseStorage : ReleaseStage → World
  | .reading =>
    w.setHost host ((w.hosts host).setRelease k
      (if a.fails then .finished .internal else Host.releaseRead host (w.entities k.id).get))
  | .writing expected value =>
    match w.entities.swap k.id expected value a.version a.fault with
    | none => w
    | some (entities, swapped, threw) =>
      let status : Status := if threw then .internal else if swapped then .ok else .rejected
      let news := swapNews (fun old => .released host k old ⟨a.version, value⟩) (w.entities k.id).get swapped
      { w with entities, trace := news ++ w.trace }.setHost host ((w.hosts host).setRelease k (.finished status))
  | .finished _ => w

/-- The next access of a send. -/
def sendStorage (send : Send) : World :=
  let h := w.hosts host
  match send.stage with
  | .target =>
    let next :=
      if a.fails ∨ validEntityId send.id = false then send.finish .internal
      else send.resumeTarget (w.entities send.id).get
    w.setHost host (h.setSend n next)
  | .registry attempt =>
    let next := if a.fails then send.finish .internal else send.resumeRegistry h.limits attempt (w.registry ()).get
    w.setHost host (h.setSend n next)
  | .register attempt expected sources =>
    match w.registry.swap () expected sources a.version a.fault with
    | none => w
    | some (registry, swapped, threw) =>
      let next := if threw then send.finish .internal else send.resumeRegister attempt swapped
      { w with registry }.setHost host (h.setSend n next)
  | .finished _ => w

/-! ## Services -/

def setScan (scan : Option TimerScan) : World :=
  { w with scans := update w.scans n scan }

/-- A timer service reads the bucket of an entry. -/
def scanBucket (type id owner : Bytes) (time : Int) : World :=
  if (w.scans n).isSome then w
  else
    let cell := (w.index (TimerIndex.shard id)).get
    let bucket := (cell.map Cell.value).getD .empty
    match bucket.find (TimerIndex.identity type id) with
    | none => w
    | some observed =>
      w.setScan n (some { type, id, owner, time, expected := (cell.map Cell.version).getD 0, bucket, observed })

/-- It reads the record and decides. -/
def scanRecord (w : World) (n : Nat) : World :=
  match w.scans n with
  | none => w
  | some scan =>
    if scan.next.isSome then w
    else
      match TimerIndex.scanRecord scan.type scan.id scan.owner scan.time scan.bucket scan.observed
          (w.entities scan.id).get with
      | .write next _ => w.setScan n (some { scan with next := some next })
      | _ => w.setScan n none

/-- It writes the bucket. -/
def scanWrite : World :=
  match w.scans n with
  | none => w
  | some scan =>
    match scan.next with
    | none => w
    | some next =>
      match w.index.swap (TimerIndex.shard scan.id) scan.expected next a.version a.fault with
      | none => w
      | some (index, _, _) => { w with index }.setScan n none

def setRetirement (retirement : Option Retirement) : World :=
  { w with retirements := update w.retirements n retirement }

/-- A delivery worker reads the record of a source that is or was registered. -/
def deliveryScan (source : Bytes × Bytes) (n : Nat) : World :=
  if !(w.registry ()).cells.any (·.value.contains source) then w
  else
    match (w.entities source.2).get with
    | none => w
    | some cell =>
      let record := cell.value.val
      let delivery := record.snapshot.delivery
      if record.metadata.destroyed then
        if record.metadata.type ≠ source.1 ∨ pendingOutbox delivery ∨ (w.retirements n).isSome then w
        else w.setRetirement n (some { source })
      else
        match firstPending source delivery with
        | none => w
        | some envelope => { w with envelopes := envelope :: w.envelopes }

/-- The next access of a retirement: up to eight attempts to write the registry without the source. -/
def retire : World :=
  match w.retirements n with
  | none => w
  | some retirement =>
    match retirement.next with
    | none =>
      match if a.fails then none else (w.registry ()).get with
      | none => w.setRetirement n none
      | some cell =>
        if cell.value.contains retirement.source then
          w.setRetirement n (some { retirement with next := some (cell.version, cell.value.erase retirement.source) })
        else w.setRetirement n none
    | some (expected, sources) =>
      match w.registry.swap () expected sources a.version a.fault with
      | none => w
      | some (registry, swapped, threw) =>
        let w := { w with registry }
        if swapped ∨ threw ∨ retirement.attempt + 1 ≥ 8 then w.setRetirement n none
        else w.setRetirement n (some { retirement with attempt := retirement.attempt + 1, next := none })

/-- The catalog creates a record under an id that has none. -/
def create (id : Bytes) (creation : EntityCreation) (a : Access) : World :=
  if validEntityId id = false then w
  else
    match creation.record.encoded with
    | none => w
    | some value =>
      match w.entities.swap id 0 value a.version a.fault with
      | none => w
      | some (entities, swapped, _) =>
        let w := { w with entities }
        if swapped then w.log (.created id ⟨a.version, value⟩) else w

/-! ## The step function -/

/-- A host changes on its own thread without an event. -/
def onHost (f : Host → Host) : World := w.setHost host (f (w.hosts host))

def bindMethod (route : Route) (method : Method) (h : Host) : Host :=
  if h.stopped ∨ h.contains route ∨ validRoutePart route.type = false ∨ route.method = [] then h
  else
    { h with
      methods := update h.methods route (some h.bound)
      objects := update h.objects h.bound method
      bound := h.bound + 1 }

/-- `rpc_policy`: a method that has a policy gets another one. -/
def setPolicy (route : Route) (policy : RpcPolicy) (h : Host) : Host :=
  match h.methods route with
  | none => h
  | some method =>
    if (h.objects method).policy.isNone then h
    else { h with objects := update h.objects method { h.objects method with policy := some policy } }

def step : Action → World
  | .bind host route method => w.onHost host (bindMethod route method)
  | .unbind host route => w.onHost host fun h => { h with methods := update h.methods route none }
  | .setPolicy host route policy => w.onHost host (setPolicy route policy)
  | .enableDelivery host enabled => w.onHost host fun h => { h with deliveryEnabled := enabled }
  | .drain host => w.onHost host fun h => { h with draining := true }
  | .stop host => w.onHost host Host.stop
  | .create id creation a => w.create id creation a
  | .ask host ask live =>
    match ask.toCall hash host w (w.hosts host) with
    | none => w
    | some call => w.onHost host fun h => h.enqueue hash host call live
  | .acquire host k => w.onHost host fun h => h.acquire k
  | .expireQueued host k position => w.onHost host fun h => h.expireQueued k position
  | .expireJob host k => w.play host ((w.hosts host).expireJob k)
  | .evict host k => w.onHost host fun h => h.evict hash host k
  | .deactivate host k generation accepted => w.onHost host fun h => h.deactivate hash host k generation accepted
  | .storage host k a =>
    match (w.hosts host).active k with
    | none => w
    | some job => w.storage hash host k a job
  | .finish host k env =>
    match (w.hosts host).active k with
    | none => w
    | some job => w.finish hash host k env job
  | .releaseStorage host k a =>
    match (w.hosts host).releases k with
    | none => w
    | some stage => w.releaseStorage host k a stage
  | .finishRelease host k =>
    match (w.hosts host).releases k with
    | some (.finished status) => w.onHost host fun h => h.finishRelease k status
    | _ => w
  | .script host k result env =>
    match (w.hosts host).running k with
    | none => w
    | some job => w.play host ((w.hosts host).scriptResult hash host k job (job.answer result) env)
  | .schedule host k spec time => w.play host ((w.hosts host).schedule k spec time)
  | .cancel host k key => w.onHost host fun h => h.cancel k key
  | .forget host k ticket => w.onHost host fun h => h.forget k ticket
  | .startSend host k n type id method payload => w.onHost host fun h => h.startSend k n type id method payload
  | .sendStorage host n a =>
    match (w.hosts host).sends n with
    | none => w
    | some send => w.sendStorage host n a send
  | .finishSend host n =>
    match (w.hosts host).sends n with
    | none => w
    | some send =>
      match send.stage with
      | .finished status => w.onHost host fun h => h.finishSend hash n send status
      | _ => w
  | .scanBucket n type id owner time => w.scanBucket n type id owner time
  | .scanRecord n => w.scanRecord n
  | .scanWrite n a => w.scanWrite n a
  | .deliveryScan source n => w.deliveryScan source n
  | .retire n a => w.retire n a

/-- An empty store, and hosts that have just been constructed. -/
def init (limits : HostId → RuntimeLimits) : World where
  entities := Store.empty
  index := Store.empty
  registry := Store.empty
  hosts := fun host => { limits := limits host }
  scans := fun _ => none
  retirements := fun _ => none
  envelopes := []
  answers := []
  trace := []

end World

end Fsnet
