import Fsnet.Delivery.State
import Fsnet.Timers.State
/-!
# Entity records

The one record an entity is stored as: its lease, its placement, its metadata
and its snapshot. The store of this model holds the record itself; the encoder
is modelled for the values it refuses, which no write can contain.
-/

namespace Fsnet

open Lib

/-- The stored response of a keyed request. -/
structure EntityReceipt where
  id : Bytes
  route : Bytes
  request : Bytes
  response : Bytes
  deriving DecidableEq

def EntityReceipt.bytes (r : EntityReceipt) : Nat :=
  16 + r.id.length + r.route.length + r.request.length + r.response.length

structure EntitySnapshot where
  state : Bytes := []
  receipts : List EntityReceipt := []
  delivery : EntityDeliveryState := {}
  timers : EntityTimerState := {}

structure EntityMetadata where
  type : Bytes
  ownerConnection : Bytes
  creationDigest : Bytes
  rebuildable : Bool := false
  destroyed : Bool := false
  initialState : Bytes := []
  ownerRevision : UInt64 := 1
  deriving DecidableEq

structure EntityRecord where
  owner : Bytes := []
  expires : Int := 0
  fence : Nat := 0
  snapshot : EntitySnapshot := {}
  initialized : Bool := true
  placement : Bytes := []
  transferId : UInt64 := 0
  metadata : EntityMetadata

deriving instance DecidableEq for EntityDeliveryState
deriving instance DecidableEq for EntityTimerState
deriving instance DecidableEq for EntitySnapshot
deriving instance DecidableEq for EntityRecord

def validEntityMetadata (m : EntityMetadata) : Bool :=
  validRoutePart m.type && (m.ownerConnection.isEmpty || validConnectionKey m.ownerConnection) &&
    m.ownerRevision ≠ 0 && m.creationDigest.length = 32 && m.initialState.length ≤ 8 * 1024 * 1024 &&
    (m.rebuildable || m.initialState.isEmpty)

def encodeReceipts : List EntityReceipt → Except Failure Bytes
  | [] => pure []
  | r :: rest => do
    let id ← blob r.id
    let route ← blob r.route
    let request ← blob r.request
    let response ← blob r.response
    let tail ← encodeReceipts rest
    pure (id ++ route ++ request ++ response ++ tail)

/-- The delivery part of a snapshot, absent without an epoch. -/
def encodeDeliveryPart (delivery : EntityDeliveryState) : Except Failure Bytes :=
  if delivery.epoch = 0 then pure [] else do blob (← encodeDeliveryState delivery)

def encodeTimersPart (present : Bool) (timers : EntityTimerState) : Except Failure Bytes :=
  if present then do blob (← encodeEntityTimers timers) else pure []

def encodeSnapshot (s : EntitySnapshot) : Except Failure Bytes := do
  refuseIf (s.delivery.epoch = 0 ∧ (s.delivery.sent.size ≠ 0 ∨ s.delivery.inbox.size ≠ 0 ∨ s.delivery.outbox ≠ []))
    (.invalid "delivery metadata requires an epoch")
  let timers := !s.timers.token.isEmpty || s.timers.sequence ≠ 0 || s.timers.entries.size ≠ 0
  let state ← blob s.state
  refuseIf (s.receipts.length > 1024) (.length "too many entity receipts")
  let receipts ← encodeReceipts s.receipts
  let delivery ← encodeDeliveryPart s.delivery
  let timerBytes ← encodeTimersPart timers s.timers
  let tag := ascii (if timers then "FSP3" else if s.delivery.epoch ≠ 0 then "FSP2" else "FSP1")
  let flag : Bytes := if timers then [if s.delivery.epoch ≠ 0 then 1 else 0] else []
  pure (tag ++ state ++ number s.receipts.length ++ receipts ++ flag ++ delivery ++ timerBytes)

def encodeEntityRecord (r : EntityRecord) : Except Failure Bytes := do
  refuseIf (r.owner.length > 256 ∨ r.expires < 0 ∨ r.fence ≥ maxTime) (.invalid "invalid entity record")
  refuseIf ((!r.placement.isEmpty ∧ validEntityNode r.placement = false) ∨ (r.placement.isEmpty ∧ r.transferId ≠ 0))
    (.invalid "invalid entity placement")
  refuseIf (validEntityMetadata r.metadata = false) (.invalid "global entity metadata required")
  let owner ← blob r.owner
  let placement ← blob r.placement
  let type ← blob r.metadata.type
  let ownerConnection ← blob r.metadata.ownerConnection
  let initialState ← blob r.metadata.initialState
  let flags : UInt8 := (if r.metadata.rebuildable then 1 else 0) + (if r.metadata.destroyed then 2 else 0)
  let snapshot ← encodeSnapshot r.snapshot
  pure (ascii "FER5" ++ owner ++ bigEndian 8 r.expires.toNat ++ bigEndian 8 r.fence ++
    [if r.initialized then 1 else 0] ++ placement ++ integer r.transferId ++ type ++ ownerConnection ++ [flags] ++
    initialState ++ r.metadata.creationDigest ++ integer r.metadata.ownerRevision ++ snapshot)

/-- A record the encoder accepts. -/
def EntityRecord.storable (r : EntityRecord) : Bool := (encodeEntityRecord r).isOk

/-- What the store holds: a record that was encoded. -/
abbrev StoredRecord := { r : EntityRecord // r.storable = true }

/-- The record as a write stores it; nothing when the encoder throws. -/
def EntityRecord.encoded (r : EntityRecord) : Option StoredRecord := if h : r.storable = true then some ⟨r, h⟩ else none

theorem EntityRecord.encoded_eq_some {r : EntityRecord} {s : StoredRecord} : r.encoded = some s ↔ s.val = r := by
  unfold encoded
  split
  · simp [Subtype.ext_iff, eq_comm]
  rename_i h
  simp only [reduceCtorEq, false_iff]
  rintro rfl
  exact h s.2

end Fsnet
