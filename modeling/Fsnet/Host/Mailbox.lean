import Fsnet.Host.Execute
/-!
# The mailbox of an entity

How requests enter a host, how the front of a queue becomes a job, and how
entities leave the host again. Everything that reaches an entity goes through
`enqueue`; the functions after it are the callers of the source, with the
arguments they pass.
-/

namespace Fsnet

open Lib Function

/-- The arguments of `enqueue`. -/
structure Call where
  route : Route
  id : Bytes
  payload : Bytes
  requestId : Bytes := []
  /-- The bytes the message is charged with. -/
  size : Nat
  tick : Bool := false
  identity : CallIdentity := framework ""
  handoffTarget : Bytes := []
  acceptTransfer : UInt64 := 0
  incoming : Option DeliveryEnvelope := none
  ack : Option DeliveryAck := none
  newOwner : Option ConnectionRef := none
  timer : Option TimerFire := none
  guarded : Bool := false
  expectedOwner : Option Bytes := none

/-- The size of an entity message. -/
def messageSize (id payload requestId : Bytes) : Nat :=
  6 + id.length + payload.length + (if requestId = [] then 0 else 2 + requestId.length)

/-- A message of the framework. -/
def Call.framework (route : Route) (id payload : Bytes) (subject : String) : Call :=
  { route, id, payload, size := messageSize id payload [], identity := Fsnet.framework subject }

def Call.charged (call : Call) : Nat :=
  call.size + (call.incoming.elim 0 fun e => (encodeDelivery e).toOption.elim 0 List.length) +
    (call.ack.elim 0 fun ack => ack.result.data.length + 128) +
    (if call.timer.isSome then timerPayloadLimit + 1024 else 0)

/-- The principal a receipt is kept for. -/
def receiptSubject (host : HostId) (identity : CallIdentity) : Bytes :=
  let subject := identity.connection.key.getD identity.subject
  if subject = [] then ascii "anonymous:" ++ host.owner ++ 0x3a :: decimal identity.peer.toNat else subject

/-- The stored id of a keyed request: no caller learns another one's response. -/
def scopedRequestId (hash : Bytes → Bytes) (host : HostId) (identity : CallIdentity) (requestId : Bytes) : Bytes :=
  let subject := receiptSubject host identity
  let role := ascii (match identity.caller with | .server => "server:" | .client => "client:")
  let scope := role ++ decimal subject.length ++ 0x3a :: (subject ++ requestId)
  ascii "context:" ++ hex (hash (if identity.subject = [] then ascii "anonymous:" ++ scope else scope))

/-- The method a delivery runs, or that there is none. -/
def resolveDelivery (h : Host) (request : Request) : Request :=
  match request.incoming with
  | none => request
  | some incoming =>
    let route : Route := ⟨request.route.type, incoming.message.method⟩
    match h.methods route with
    | none => { request with deliveryError := some ⟨.notFound, []⟩ }
    | some method =>
      if route.isInternal then { request with deliveryError := some ⟨.notFound, []⟩ }
      else { request with method, route }

namespace Host

variable (hash : Bytes → Bytes) (host : HostId) (h : Host) (k : EntityKey)

/-- The slot of an entity, made if there is room. -/
def openSlot : Option (Host × Slot) :=
  match h.slots k with
  | some slot => some (h, slot)
  | none =>
    if h.residents ≥ h.limits.entities then none
    else
      let generation := h.generation + 1
      let slot : Slot := { generation }
      some ({ h with generation, residents := h.residents + 1 }.setSlot k slot, slot)

/-- Whether the policy lets the caller in. The owner is looked at later, in the acquired record. -/
def admitsCaller (method : MethodRef) (identity : CallIdentity) (live : Bool) : Bool :=
  (h.objects method).policy.all fun policy => { policy with ownerOnly := false }.allows identity live []

def request (method : MethodRef) (call : Call) : Request :=
  let requestId :=
    if call.requestId ≠ [] ∧ (h.objects method).policy.isSome then
      scopedRequestId hash host call.identity call.requestId
    else call.requestId
  resolveDelivery h
    { method, payload := call.payload, route := call.route, requestId, bytes := call.charged, tick := call.tick
      identity := call.identity, handoffTarget := call.handoffTarget, acceptTransfer := call.acceptTransfer
      incoming := call.incoming, ack := call.ack, newOwner := call.newOwner, timer := call.timer
      guarded := call.guarded, expectedOwner := call.expectedOwner }

/-- The request joins the queue. -/
def push (slot : Slot) (request : Request) : Host :=
  { h with counters := { h.counters with
             pending := h.counters.pending + 1, queuedBytes := h.counters.queuedBytes + request.bytes } }.setSlot k
    { slot with queue := slot.queue ++ [request], releasing := slot.releasing || request.route.isControl }

/-- The refusals of `enqueue` before it looks at the entity. -/
def refusesCall (call : Call) : Bool :=
  h.stopped || (h.draining && !call.route.isControl) || h.limits.requests ≤ h.counters.pending ||
    h.limits.queuedBytes - h.counters.queuedBytes < call.charged || !validEntityId call.id ||
    (call.requestId ≠ [] &&
      h.limits.receiptBytes < call.payload.length + call.route.size + call.requestId.length + 16)

def enqueue (call : Call) (live : Bool) : Host :=
  match h.methods call.route with
  | none => h
  | some method =>
    if h.refusesCall call || !h.admitsCaller method call.identity live then h
    else
      let k : EntityKey := ⟨call.route.type, call.id⟩
      match h.openSlot k with
      | none => h
      | some (h, slot) => if slot.releasing then h else h.push k slot (h.request hash host method call)

/-! ## The callers of `enqueue` -/

/-- A call that was routed here, after its entity's type was looked up. The
payload is charged with the capacity of its buffer. -/
def callEntity (route : Route) (id payload requestId : Bytes) (capacity : Nat) (identity : CallIdentity) :
    Option Call :=
  if validEntityMethod route.method ∧ requestId.length ≤ 128 then
    some { route, id, payload, requestId, identity, size := capacity + id.length + requestId.length + 16 }
  else none

def readAttributes (type id : Bytes) : Call := .framework ⟨type, snapshotMethod⟩ id [] "framework:snapshot"

/-- A guarded read that found `owner` in the record's metadata. -/
def readGuarded (type id owner : Bytes) : Call :=
  { Call.framework ⟨type, snapshotMethod⟩ id [] "framework:authorized-snapshot" with
    guarded := true, expectedOwner := some owner }

def writeAttributes (type id proposal requestId : Bytes) (identity : CallIdentity) : Option Call :=
  if requestId.length ≤ 128 then
    some { route := ⟨type, writeMethod⟩, id, payload := proposal, requestId, identity,
           size := messageSize id proposal requestId }
  else none

def bindOwner (type id : Bytes) (connection : ConnectionRef) : Option Call :=
  if (connection.id ≠ [] ∨ connection.generation ≠ 0) ∧ connection.valid = false then none
  else some { Call.framework ⟨type, snapshotMethod⟩ id [] "framework:bind-owner" with newOwner := some connection }

def fireTimer (type id : Bytes) (fire : TimerFire) : Option Call :=
  if fire.key = [] ∨ fire.key.length > 128 ∨ fire.generation = [] ∨ fire.generation.length > 64 ∨ fire.due < 0 then none
  else some { Call.framework ⟨type, timerMethod⟩ id [] "framework:timer" with timer := some fire }

/-- `receive_delivery`. -/
def receiveDelivery (identity : CallIdentity) (e : DeliveryEnvelope) : Option Call :=
  if identity.caller ≠ .server ∨ h.deliveryEnabled = false ∨ h.stopped then none
  else
    match encodeDelivery e >>= decodeDelivery hash with
    | .error _ => none
    | .ok _ =>
      some { route := ⟨e.message.type, snapshotMethod⟩, id := e.message.id, payload := e.message.payload, identity,
             size := messageSize e.message.id e.message.payload [], incoming := some e }

/-- `acknowledge_delivery`. -/
def acknowledgeDelivery (type id : Bytes) (ack : DeliveryAck) : Option Call :=
  if h.deliveryEnabled = false ∨ h.stopped ∨ ack.epoch = 0 ∨ ack.ticket.length ≠ 64 ∨
      ack.result.data.length > deliveryPayloadLimit then none
  else some { Call.framework ⟨type, snapshotMethod⟩ id [] "framework:delivery-ack" with ack := some ack }

def acceptHandoff (type id : Bytes) (ticket : UInt64) : Option Call :=
  if ticket = 0 then none
  else some { Call.framework ⟨type, snapshotMethod⟩ id [] "framework:handoff" with acceptTransfer := ticket }

/-- The slot a handle names, if nothing is going on there. -/
def idleSlot (generation : UInt64) : Bool :=
  (h.slots k).any fun slot => slot.generation = generation && !slot.busy && slot.queue.isEmpty

/-- `handoff`. -/
def handoff (host : HostId) (h : Host) (k : EntityKey) (generation : UInt64) (target : Bytes) : Option Call :=
  if h.stopped ∨ validEntityNode target = false ∨ entityNodeMatches host.owner target ∨
      h.idleSlot k generation = false ∨ (h.slots k).any Slot.releasing ∨
      h.contains ⟨k.type, deactivateMethod⟩ = false then none
  else some { Call.framework ⟨k.type, deactivateMethod⟩ k.id (ascii "transfer") "framework:handoff" with
    handoffTarget := target }

/-- `control_entity`, for a destruction. -/
def destroy (h : Host) (k : EntityKey) : Option Call :=
  match h.slots k with
  | none => none
  | some slot =>
    if h.stopped ∨ slot.busy ∨ slot.queue ≠ [] ∨ slot.releasing ∨ h.contains ⟨k.type, destroyMethod⟩ = false then none
    else some (.framework ⟨k.type, destroyMethod⟩ k.id (ascii "destroy") "")

/-- The tick of an activated entity. -/
def tick (h : Host) (k : EntityKey) : Option Call :=
  match h.slots k with
  | none => none
  | some slot =>
    if slot.busy ∨ slot.queue ≠ [] ∨ h.draining ∨ slot.activated = false ∨ h.contains ⟨k.type, tickMethod⟩ = false then
      none
    else some { Call.framework ⟨k.type, tickMethod⟩ k.id (decimal h.limits.tickInterval) "" with tick := true }

/-! ## Jobs -/

/-- `acquire`: the front request becomes the entity's job. -/
def acquire : Host :=
  match h.slots k with
  | none => h
  | some slot =>
    match slot.queue with
    | [] => h
    | request :: rest =>
      if h.stopped ∨ slot.busy ∨ (h.active k).isSome then h
      else
        let job : Job := {
          serial := h.serial, request, phase := .acquiring (.reading 0), cachedFence := slot.residentFence
          preserveActivation := request.incoming.isSome || request.ack.isSome || request.newOwner.isSome }
        ({ h with serial := h.serial + 1 }.setSlot k { slot with queue := rest, busy := true }).setJob k job

/-- The deadline of a queued request has passed. -/
def expireQueued (position : Nat) : Host :=
  match h.slots k with
  | none => h
  | some slot =>
    match slot.queue[position]? with
    | none => h
    | some request =>
      { h with counters := { h.counters with
                 pending := h.counters.pending - 1, queuedBytes := h.counters.queuedBytes - request.bytes } }.setSlot k
        { slot with queue := slot.queue.eraseIdx position,
                    releasing := if request.route.isControl then false else slot.releasing }

/-- The deadline of a running job has passed. -/
def expireJob : Turn :=
  match h.active k with
  | none => ⟨h, []⟩
  | some job =>
    match job.phase with
    | .executing _ _ => h.complete k job ⟨.timeout, []⟩
    | _ => ⟨h, []⟩

/-! ## Entities leaving the host -/

/-- An entity has been idle for long: its hook runs, or it is dropped. -/
def evict : Host :=
  match h.slots k with
  | none => h
  | some slot =>
    if h.stopped ∨ slot.busy ∨ slot.queue ≠ [] then h
    else if h.contains ⟨k.type, deactivateMethod⟩ then
      h.enqueue hash host (.framework ⟨k.type, deactivateMethod⟩ k.id (ascii "idle") "") true
    else h.dropSlot k

/-- `deactivate`: with a hook it is a request like any other, without one the
lease is released directly. -/
def deactivate (generation : UInt64)
    (accepted : Bool) : Host :=
  if h.stopped ∨ h.idleSlot k generation = false then h
  else if h.contains ⟨k.type, deactivateMethod⟩ then
    h.enqueue hash host (.framework ⟨k.type, deactivateMethod⟩ k.id (ascii "explicit") "") true
  else if accepted = false then h
  else
    match h.slots k with
    | none => h
    | some slot =>
      { h with releases := update h.releases k (some .reading) }.setSlot k
        { slot with busy := true, releasing := true }

/-- The release read the record. -/
def releaseRead (stored : Option (Cell StoredRecord)) : ReleaseStage :=
  match stored with
  | none => .finished .rejected
  | some cell =>
    if cell.value.val.owner ≠ host.owner then .finished .rejected
    else
      match { cell.value.val with owner := [], expires := 0 : EntityRecord }.encoded with
      | none => .finished .internal
      | some value => .writing cell.version value

def setRelease (stage : ReleaseStage) : Host :=
  { h with releases := update h.releases k (some stage) }

/-- The completion of a release. -/
def finishRelease (status : Status) : Host :=
  let h := { h with releases := update h.releases k none }
  if status = .ok then h.dropSlot k
  else
    match h.slots k with
    | none => h
    | some slot => h.setSlot k { slot with busy := false, releasing := false }

/-- `stop`: nothing of what the host has in memory survives. -/
def stop : Host :=
  { h with stopped := true, methods := fun _ => none, slots := fun _ => none, residents := 0
           active := fun _ => none, releases := fun _ => none, counters := {} }

end Host

end Fsnet
