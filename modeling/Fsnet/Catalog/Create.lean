import Fsnet.Catalog.Allocator
import Fsnet.Gateway.Packet
import Fsnet.World.State
/-!
# Creating entities

`EntityCatalog::create`: any number of processes create entities over one store,
next to the hosts that work on them. A call takes three swaps, each of which can
lose or fail: the block of ids, the claim of its creation key, and the record. A
process may end at any point and its caller may try again.
-/

namespace Fsnet

open Lib

/-! ## Keys and fingerprints -/

/-- `EntityCreation`. -/
structure CreationParameters where
  type : Bytes
  ownerConnection : Bytes
  state : Bytes
  targetNode : Bytes
  rebuildable : Bool
  deriving DecidableEq, Repr

structure CreateRequest where
  scope : Bytes
  key : Bytes
  creation : CreationParameters
  deriving DecidableEq, Repr

namespace CreateRequest

/-- What the operation key is the digest of. -/
def operationBytes (r : CreateRequest) : Except Failure Bytes := do
  refuseIf (r.scope = [] ∨ 256 < r.scope.length ∨ r.key = [] ∨ 128 < r.key.length) (.invalid "invalid creation key")
  let scope ← blob r.scope
  let key ← blob r.key
  pure (scope ++ key)

def operationKey (hash : Bytes → Digest) (r : CreateRequest) : Except Failure Bytes := do
  let bytes ← r.operationBytes
  pure (ascii "fsnet/creation/v1/" ++ (hash bytes).1)

end CreateRequest

namespace CreationParameters

/-- What the fingerprint is the digest of. -/
def bytes (c : CreationParameters) : Except Failure Bytes := do
  refuseIf (validRoutePart c.type = false ∨ (c.ownerConnection ≠ [] ∧ validConnectionKey c.ownerConnection = false) ∨
    8 * 1024 * 1024 < c.state.length ∨ (c.targetNode ≠ [] ∧ validEntityNode c.targetNode = false))
    (.invalid "invalid entity creation")
  let type ← blob c.type
  let ownerConnection ← blob c.ownerConnection
  let targetNode ← blob c.targetNode
  let state ← blob c.state
  pure (ascii "FEC1" ++ (type ++ (ownerConnection ++ (targetNode ++ ((if c.rebuildable then 1 else 0) :: state)))))

/-- `creation_digest`. -/
def fingerprint (hash : Bytes → Digest) (c : CreationParameters) : Except Failure Bytes := do
  let bytes ← c.bytes
  pure (hash bytes).1

def toCreation (c : CreationParameters) (fingerprint : Bytes) : EntityCreation :=
  { type := c.type, ownerConnection := c.ownerConnection, state := c.state, targetNode := c.targetNode
    rebuildable := c.rebuildable, fingerprint }

end CreationParameters

/-- The value of a claim. -/
def claimBytes (id : UInt64) (fingerprint : Bytes) : Bytes := ascii "FEC1" ++ (integer id ++ fingerprint)

/-! ## Calls -/

inductive CreateFailure where
  /-- A check of the catalog failed. -/
  | refused (e : Failure)
  /-- `EntityCreationConflict`. -/
  | conflict
  /-- The storage threw in an access of the call. -/
  | storage (fault : Store.Fault)
  /-- The allocator threw. -/
  | allocation (e : Failure)
  deriving DecidableEq, Repr

/-- What a call does next. -/
inductive CreateStage where
  | readClaim
  /-- It needs an id and waits for the allocator. -/
  | waiting
  /-- It has the allocator's mutex. -/
  | allocating
  | claim (candidate : UInt64)
  | rereadClaim
  | readRecord (id : UInt64)
  | writeRecord (id : UInt64)
  | rereadRecord (id : UInt64)
  deriving DecidableEq, Repr

structure CreateCall where
  /-- The catalog it is a call of. -/
  catalog : Nat
  request : CreateRequest
  operation : Bytes
  fingerprint : Bytes
  stage : CreateStage := .readClaim

inductive CreateEvent where
  | claimed (r : CreateRequest) (id : UInt64)
  | ended (r : CreateRequest) (outcome : Except CreateFailure UInt64)
  deriving DecidableEq

/-- The catalogs, by number, with their allocators, over the store of the hosts. -/
structure Catalogs where
  world : World
  allocation : Allocation
  claims : Store Bytes Bytes
  calls : Nat → Option CreateCall
  /-- Claims made and calls ended, newest first. -/
  trace : List CreateEvent

inductive CatalogAction where
  /-- A process starts, or ends with its calls and starts again. -/
  | start (n : Nat) (blockSize : BlockSize)
  | call (c n : Nat) (r : CreateRequest)
  /-- The call goes on to its next access of the store. -/
  | access (c : Nat) (a : Access)
  /-- Something happens on the hosts. -/
  | world (action : Action)

namespace Catalogs

variable (hash : Bytes → Digest)

variable (s : Catalogs) (c : Nat)

def setCall (call : CreateCall) : Catalogs :=
  { s with calls := Function.update s.calls c (some call) }

/-- A call ends. -/
def finish (r : CreateRequest) (outcome : Except CreateFailure UInt64) : Catalogs :=
  { s with calls := Function.update s.calls c none, trace := .ended r outcome :: s.trace }

def fail (call : CreateCall) (e : CreateFailure) : Catalogs :=
  s.finish c call.request (.error e)

/-- What a claim says: the id, if its fingerprint is the caller's. -/
def readClaim (value fingerprint : Bytes) : Except CreateFailure UInt64 :=
  if value.length ≠ 44 ∨ ¬(ascii "FEC1").isPrefixOf value then
    .error (.refused (.runtime "corrupt entity creation claim"))
  else
    match readInteger (value.drop 4) with
    | .error e => .error (.refused e)
    | .ok (number, rest) =>
      match entityId number with
      | .error e => .error (.refused e)
      | .ok id => if rest ≠ fingerprint then .error .conflict else .ok id

/-- The call goes on with a claim it read or made. -/
def checkClaim (call : CreateCall) (value : Bytes) : Catalogs :=
  match readClaim value call.fingerprint with
  | .error e => s.fail c call e
  | .ok id => s.setCall c { call with stage := .readRecord id }

/-- The call ends on the record it found. -/
def checkRecord (call : CreateCall) (id : UInt64) (record : EntityRecord) : Catalogs :=
  if record.metadata.type ≠ call.request.creation.type ∨ record.metadata.creationDigest ≠ call.fingerprint then
    s.fail c call (.refused (.runtime "entity identity collision"))
  else s.finish c call.request (.ok id)

/-- How a call of the allocator ended, if it did between two states. -/
def ended (before after : Allocation) : Option (Except Failure UInt64) :=
  if after.outcomes.length = before.outcomes.length then none else after.outcomes.head?.map Prod.snd

/-- The call goes on in the allocator, or with what the allocator returned. -/
def resumeAllocation (call : CreateCall) (allocation : Allocation) : Catalogs :=
  let next := { s with allocation }
  match ended s.allocation allocation with
  | none => next.setCall c { call with stage := .allocating }
  | some (.error e) => next.fail c call (.allocation e)
  | some (.ok id) => next.setCall c { call with stage := .claim id }

def makeClaim (call : CreateCall) (candidate : UInt64) (a : Access) : Catalogs :=
  match s.claims.swap call.operation 0 (claimBytes candidate call.fingerprint) a.version a.fault with
  | none => s
  | some (claims, swapped, threw) =>
    let trace := if swapped then .claimed call.request candidate :: s.trace else s.trace
    let next := { s with claims, trace }
    if threw then next.fail c call (.storage a.fault)
    else if swapped then next.checkClaim c call (claimBytes candidate call.fingerprint)
    else next.setCall c { call with stage := .rereadClaim }

def writeRecord (call : CreateCall) (id : UInt64) (a : Access) : Catalogs :=
  let creation := call.request.creation.toCreation call.fingerprint
  match creation.record.encoded with
  | none => s.fail c call (.refused (.invalid "invalid entity record"))
  | some value =>
    match s.world.entities.swap (entityIdText id) 0 value a.version a.fault with
    | none => s
    | some (_, swapped, threw) =>
      let next := { s with world := s.world.create (entityIdText id) creation a }
      if threw then next.fail c call (.storage a.fault)
      else if swapped then next.finish c call.request (.ok id)
      else next.setCall c { call with stage := .rereadRecord id }

def access (s : Catalogs) (c : Nat) (call : CreateCall) (a : Access) : Catalogs :=
  match call.stage with
  | .readClaim =>
    if a.fails then s.fail c call (.storage a.fault)
    else
      match (s.claims call.operation).get with
      | none => s.setCall c { call with stage := .waiting }
      | some cell => s.checkClaim c call cell.value
  | .waiting =>
    -- the mutex of the allocator
    match (s.allocation.allocators call.catalog).stage with
    | .idle => s.resumeAllocation c call (s.allocation.call call.catalog)
    | _ => s
  | .allocating => s.resumeAllocation c call (s.allocation.access call.catalog a.fault a.version)
  | .claim candidate => s.makeClaim c call candidate a
  | .rereadClaim =>
    if a.fails then s.fail c call (.storage a.fault)
    else
      match (s.claims call.operation).get with
      | none => s.fail c call (.refused (.runtime "corrupt entity creation claim"))
      | some cell => s.checkClaim c call cell.value
  | .readRecord id =>
    if a.fails then s.fail c call (.storage a.fault)
    else
      match (s.world.entities (entityIdText id)).get with
      | none => s.setCall c { call with stage := .writeRecord id }
      | some cell => s.checkRecord c call id cell.value.val
  | .writeRecord id => s.writeRecord c call id a
  | .rereadRecord id =>
    if a.fails then s.fail c call (.storage a.fault)
    else
      match (s.world.entities (entityIdText id)).get with
      | none => s.fail c call (.refused (.runtime "entity creation record disappeared"))
      | some cell => s.checkRecord c call id cell.value.val

/-- A call is made: its key and its fingerprint, before the store is touched. -/
def call (c n : Nat) (r : CreateRequest) : Catalogs :=
  match s.calls c with
  | some _ => s
  | none =>
    match r.operationKey hash, r.creation.fingerprint hash with
    | .error e, _ => s.finish c r (.error (.refused e))
    | .ok _, .error e => s.finish c r (.error (.refused e))
    | .ok operation, .ok fingerprint => s.setCall c { catalog := n, request := r, operation, fingerprint }

/-- The calls that do not end with the process. -/
def survive (n c : Nat) : Option CreateCall :=
  match s.calls c with
  | none => none
  | some call => if call.catalog = n then none else some call

def step (s : Catalogs) : CatalogAction → Catalogs
  | .start n blockSize => { s with allocation := s.allocation.step (.start n blockSize), calls := s.survive n }
  | .call c n r => s.call hash c n r
  | .access c a =>
    match s.calls c with
    | none => s
    | some call => s.access c call a
  -- records are created by the calls only
  | .world (.create _ _ _) => s
  | .world action => { s with world := s.world.step (fun bytes => (hash bytes).1) action }

def init (limits : HostId → RuntimeLimits) (sequence : Store Unit Bytes) (blockSizes : Nat → BlockSize) : Catalogs where
  world := World.init limits
  allocation := Allocation.init sequence blockSizes
  claims := Store.empty
  calls := fun _ => none
  trace := []

end Catalogs

end Fsnet
