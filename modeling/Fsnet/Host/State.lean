import Fsnet.Entity.Schema
import Fsnet.Timers.Index
/-!
# The state of an entity host

A host keeps a slot for every entity it has in memory, with the requests
waiting for it, and at most one job per entity: the request being worked on. A
job goes through three phases. It acquires the entity's record on the storage
thread, runs script logic, and commits the new record, again on the storage
thread. The stages of the two storage phases are the accesses to the store, one
stage each, so that anything may happen in between.

Deadlines and the steady clock are not part of the state: every check of a
deadline takes its answer as an argument.
-/

namespace Fsnet

open Lib Function

/-! ## Limits -/

structure EntityRuntimeLimits where
  entities : Nat := 4096
  requests : Nat := 1024
  queuedBytes : Nat := 16 * 1024 * 1024
  residentBytes : Nat := 32 * 1024 * 1024
  receipts : Nat := 64
  receiptBytes : Nat := 4 * 1024 * 1024
  deliveryMessages : Nat := 64
  deliveryChannels : Nat := 256
  deliverySources : Nat := 4096
  deliveryBytes : Nat := 2 * 1024 * 1024
  stateBytes : Nat := 1024 * 1024
  timers : Nat := 64
  timerBytes : Nat := 256 * 1024
  lease : Int := 60000
  requestTimeout : Int := 30000
  tickInterval : Nat := 100
  idleTimeout : Nat := 300000
  deriving DecidableEq

/-- The settings the constructor of a host does not refuse. -/
def EntityRuntimeLimits.accepted (l : EntityRuntimeLimits) : Bool :=
  l.entities ≠ 0 && l.requests ≠ 0 && l.queuedBytes ≠ 0 && l.stateBytes ≠ 0 && l.stateBytes ≤ 8 * 1024 * 1024 &&
    l.residentBytes ≠ 0 && l.receipts ≠ 0 && l.receipts ≤ 1024 && l.receiptBytes ≠ 0 &&
    l.receiptBytes ≤ 8 * 1024 * 1024 &&
    l.stateBytes + l.receiptBytes + l.deliveryBytes + l.timerBytes ≤ 16 * 1024 * 1024 - 512 &&
    l.timers ≠ 0 && l.timers ≤ 1024 && l.timerBytes ≠ 0 && l.timerBytes ≤ 2 * 1024 * 1024 &&
    l.deliveryMessages ≠ 0 && l.deliveryMessages ≤ 1024 && l.deliveryChannels ≠ 0 && l.deliveryChannels ≤ 4096 &&
    l.deliverySources ≠ 0 && l.deliverySources ≤ 65536 && l.deliveryBytes ≠ 0 &&
    l.deliveryBytes ≤ 8 * 1024 * 1024 && 0 < l.requestTimeout && l.requestTimeout < l.lease &&
    l.lease ≤ 24 * 3600 * 1000 && l.tickInterval ≠ 0 && l.idleTimeout ≠ 0

theorem EntityRuntimeLimits.accepted_default : EntityRuntimeLimits.accepted {} = true := by decide

/-- The limits a host runs with. -/
structure RuntimeLimits extends EntityRuntimeLimits where
  ok : toEntityRuntimeLimits.accepted = true

/-! ## Methods and requests -/

/-- A registered method, as far as the host reads it. What its script logic
answers is an input of the model. -/
structure Method where
  policy : Option RpcPolicy := none
  schema : Option EntitySchema := none

/-- Queued requests share the method object they were accepted for, so that a
new policy holds for them too: they refer to it. -/
abbrev MethodRef := Nat

structure TimerFire where
  key : Bytes
  generation : Bytes
  due : Int
  deriving DecidableEq

structure DeliveryAck where
  epoch : UInt64
  ticket : Bytes
  result : Result
  deriving DecidableEq

structure Request where
  method : MethodRef
  payload : Bytes
  route : Route
  requestId : Bytes
  bytes : Nat
  tick : Bool := false
  identity : CallIdentity := framework ""
  handoffTarget : Bytes := []
  acceptTransfer : UInt64 := 0
  incoming : Option DeliveryEnvelope := none
  ack : Option DeliveryAck := none
  deliveryError : Option Result := none
  newOwner : Option ConnectionRef := none
  timer : Option TimerFire := none
  /-- An attribute guard is attached. -/
  guarded : Bool := false
  expectedOwner : Option Bytes := none
  deriving DecidableEq

def snapshotMethod : Bytes := ascii "$snapshot"
def spawnMethod : Bytes := ascii "$spawn"
def writeMethod : Bytes := ascii "$write"
def createMethod : Bytes := ascii "$create"
def activateMethod : Bytes := ascii "$activate"
def deactivateMethod : Bytes := ascii "$deactivate"
def destroyMethod : Bytes := ascii "$destroy"
def tickMethod : Bytes := ascii "$tick"
def timerMethod : Bytes := ascii "$timer"

/-- `is_control`: the request releases the entity. -/
def Route.isControl (route : Route) : Bool := route.method = deactivateMethod || route.method = destroyMethod

def Route.isDestroy (route : Route) : Bool := route.method = destroyMethod

/-- `internal`: a framework method. -/
def Route.isInternal (route : Route) : Bool := route.method.head? = some 0x24

/-! ## Slots and jobs -/

structure Slot where
  generation : UInt64
  queue : List Request := []
  busy : Bool := false
  releasing : Bool := false
  activated : Bool := false
  activationFence : Nat := 0
  transient : Bytes := []
  residentFence : Nat := 0
  transientRevision : UInt64 := 0
  ownerKey : Bytes := []
  deriving DecidableEq

/-- The attribute images before and after a job. -/
structure AttributeCommit where
  schema : EntitySchema
  previous : AttributeUpdate
  current : AttributeUpdate

/-- Where the storage thread is while it acquires a record. -/
inductive AcquireStage where
  /-- It reads the record for the given attempt. -/
  | reading (attempt : Nat)
  /-- A delivery: it reads the record of the source. -/
  | sourcing (attempt : Nat) (cell : Cell StoredRecord) (time : Int)
  /-- It swaps in the record with the renewed lease. -/
  | granting (attempt : Nat) (expected : UInt64) (value : StoredRecord)
  /-- It reads back what it swapped in. -/
  | confirming (value : StoredRecord)
  /-- It is done, by return or by an exception. -/
  | finished (threw : Bool)

inductive ArmStage where
  | record
  | bucket
  | write (expected : UInt64) (bucket : TimerIndex.Bucket)

/-- Where the storage thread is while it commits a record. -/
inductive CommitStage where
  | submitted
  | arming (entry : TimerIndex.Entry) (attempt : Nat) (stage : ArmStage)
  | writing
  | finished (threw : Bool)

/-- A step of script logic: a lifecycle hook, the method itself, or the stand-in
for a release hook of an entity that was never activated. -/
inductive Hook where
  | create
  | activate
  | method
  | noop
  deriving DecidableEq, Repr

inductive Phase where
  | acquiring (stage : AcquireStage)
  /-- The first of `steps` runs on `state`. -/
  | executing (steps : List Hook) (state : Bytes)
  | committing (stage : CommitStage) (value : StoredRecord)

/-- The request a host works on for one entity. The source's flags `executing`,
`committing` and `responded` are the phase and the membership in the active jobs. -/
structure Job where
  /-- The identity of the job object: no two jobs of a host have the same. -/
  serial : Nat
  request : Request
  phase : Phase
  cachedFence : Nat
  preserveActivation : Bool
  state : Bytes := []
  output : Bytes := []
  receipts : List EntityReceipt := []
  replay : Bool := false
  created : Bool := false
  activating : Bool := false
  ownerLost : Bool := false
  wrongNode : Bool := false
  resident : Nat := 0
  fence : Nat := 0
  version : UInt64 := 0
  expires : Int := 0
  status : Status := .ok
  previouslyOwned : Bool := false
  previousFence : Nat := 0
  attributes : Option AttributeCommit := none
  transient : Bytes := []
  placement : Bytes := []
  transferId : UInt64 := 0
  cacheGrowth : Nat := 0
  delivery : EntityDeliveryState := {}
  deliveryRollback : Option EntityDeliveryState := none
  rollback : Bytes := []
  metadataOnly : Bool := false
  logicStarted : Bool := false
  deliveryResult : Option Result := none
  metadata : Option EntityMetadata := none
  timers : EntityTimerState := {}
  timerRollback : Option EntityTimerState := none
  timerEvent : Option EntityTimerEvent := none
  timerIndexEntry : Option TimerIndex.Entry := none
  timerDirty : Bool := false
  timerCharge : Nat := 0

/-- A release without a hook: the stages of its storage operation. -/
inductive ReleaseStage where
  | reading
  | writing (expected : UInt64) (value : StoredRecord)
  | finished (status : Status)

/-- A send on its way: it looks the target up and registers the source. -/
inductive SendStage where
  | target
  | registry (attempt : Nat)
  | register (attempt : Nat) (expected : UInt64) (sources : DeliverySources)
  | finished (status : Status)

structure Send where
  entity : EntityKey
  serial : Nat
  type : Bytes
  id : Bytes
  method : Bytes
  payload : Bytes
  targetEpoch : UInt64 := 0
  stage : SendStage := .target

structure Counters where
  pending : Nat := 0
  queuedBytes : Nat := 0
  stateBytes : Nat := 0
  transientBytes : Nat := 0
  deriving DecidableEq

structure Host where
  limits : RuntimeLimits
  methods : Route → Option MethodRef := fun _ => none
  objects : MethodRef → Method := fun _ => {}
  /-- The number of method objects made so far. -/
  bound : Nat := 0
  slots : EntityKey → Option Slot := fun _ => none
  /-- The number of slots. -/
  residents : Nat := 0
  active : EntityKey → Option Job := fun _ => none
  releases : EntityKey → Option ReleaseStage := fun _ => none
  sends : Nat → Option Send := fun _ => none
  counters : Counters := {}
  generation : UInt64 := 0
  serial : Nat := 0
  stopped : Bool := false
  draining : Bool := false
  deliveryEnabled : Bool := false

/-! ## What happens -/

/-- Answers of the environment that one step of a host may ask for. -/
structure Ambient where
  /-- The caller's liveness callbacks. -/
  live : Bool := true
  /-- The attribute guard. -/
  guard : Bool := true
  /-- The deadline has passed. -/
  expired : Bool := false
  /-- The deadline has passed when it is looked at again in the same step. -/
  late : Bool := false
  /-- The storage executor takes one more operation. -/
  accepted : Bool := true
  /-- The proposal of a write can be staged. -/
  stageable : Bool := true
  /-- The host's wall clock. -/
  now : Int := 0

/-- What a step of a host shows to the outside. -/
inductive HostEvent where
  /-- A check of the request's policy that let the job go on. -/
  | checked (entity : EntityKey) (job : Job) (policy : Option RpcPolicy) (live : Bool)
  /-- Script logic is called. -/
  | started (entity : EntityKey) (job : Job) (hook : Hook)
  /-- A timer is set by the running script. -/
  | scheduled (entity : EntityKey) (job : Job) (timer : EntityTimer)
  /-- The request is answered. -/
  | replied (entity : EntityKey) (job : Job) (result : Result)

/-- A host after one of its steps, with the events in the order they happened. -/
structure Turn where
  host : Host
  events : List HostEvent := []

namespace Host

variable (h : Host) (k : EntityKey)

def setSlot (slot : Slot) : Host := { h with slots := update h.slots k (some slot) }

def eraseSlot : Host :=
  { h with slots := update h.slots k none, residents := h.residents - 1 }

def setJob (job : Job) : Host := { h with active := update h.active k (some job) }

def eraseJob : Host := { h with active := update h.active k none }

/-- `owner_key`: the cached owner of a resident entity. -/
def ownerKey (h : Host) (k : EntityKey) : Bytes := ((h.slots k).map Slot.ownerKey).getD []

/-- The policy of a request's method, as it is now. -/
def policyOf (request : Request) : Option RpcPolicy := (h.objects request.method).policy

def schemaOf (request : Request) : Option EntitySchema := (h.objects request.method).schema

def contains (route : Route) : Bool := (h.methods route).isSome

end Host

end Fsnet
