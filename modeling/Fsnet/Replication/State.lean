import Fsnet.Attributes.Follow
import Fsnet.Entity.Frame
import Fsnet.Entity.Schema
import Fsnet.Lib.Runs
/-!
# Attribute subscriptions

`AttributeReplication`: a subscriber gets a snapshot of the attributes it may
read and then, commit by commit, the difference to the image it was last sent.
The state has the subscriptions of a node and, beside them, what the host last
committed for each entity and what was sent to each subscriber. What the node,
the host and the observer callback answer while an event is handled is an
argument of the event.
-/

namespace Fsnet

open Lib

/-! ## Images and what of them may be seen -/

/-- The image of a commit: the values of a full snapshot, in order and finite as
every value that passed its schema is. It may be too large for a record. -/
structure CommittedImage where
  revision : UInt64
  values : AttributeStruct
  sorted : Entries.Sorted values
  ordered : ∀ e ∈ values, e.2.Ordered
  finite : ∀ e ∈ values, e.2.Finite

/-- The image has a value for each attribute of the schema and no other. -/
def CommittedImage.isOf (image : CommittedImage) (schema : EntitySchema) : Prop :=
  image.values.map Prod.fst = schema.attributes.entries.map Prod.fst

instance (image : CommittedImage) (schema : EntitySchema) : Decidable (image.isOf schema) :=
  inferInstanceAs (Decidable (_ = _))

/-- May a client read the attribute, owning the entity or observing it? -/
def AttributeDefinition.visible (d : AttributeDefinition) (owned observer : Bool) : Bool :=
  d.client.reads && ((d.visibility = .owner && owned) || (d.visibility = .observers && (owned || observer)))

/-- The loop of `filtered` over the schema. -/
def projectValues (owned observer : Bool) (values : AttributeStruct) :
    List (Bytes × AttributeDefinition) → Except Failure AttributeStruct
  | [] => pure []
  | (name, d) :: rest =>
    if d.visible owned observer then do
      let value ← lookup name values
      let others ← projectValues owned observer values rest
      pure ((name, value) :: others)
    else projectValues owned observer values rest

/-! ## Subscriptions -/

structure ReplicationLimits where
  subscriptions : Nat
  perPeer : Nat
  imageBytes : Nat

structure Subscription where
  identity : CallIdentity
  key : EntityKey
  automatic : Bool
  pending : Bool := true
  last : AttributeUpdate := { base := 0, revision := 0, snapshot := false, values := [] }
  bytes : Nat := 0
  permission : Bytes := []
  generation : UInt64 := 0

/-- What is known of a subscriber while one event is handled: that the node
still has the same live client on the connection, the owner the host has for the
entity, and the answer of the observer callback. -/
structure Standing where
  authenticated : Bool
  owner : Bytes
  observed : Bool

/-- What a subscriber may read by: who owns the entity, and that it observes it. -/
structure Permission where
  owner : Bytes
  observer : Bool

/-- `permission` compares by this key. -/
def Permission.key (permission : Permission) : Bytes :=
  decimal permission.owner.length ++ 0x3a :: (permission.owner ++ [if permission.observer then 0x31 else 0x30])

namespace Subscription

def owns (sub : Subscription) (owner : Bytes) : Bool := sub.identity.owns true owner

def permissionOf (sub : Subscription) (standing : Standing) : Except Failure Permission := do
  refuseIf (standing.authenticated = false) (.runtime "connection identity changed")
  let observes := standing.observed || sub.automatic
  refuseIf ((sub.owns standing.owner = false ∧ observes = false) ∨
    (sub.identity.connection.valid = false ∧ sub.identity.subject = [])) (.runtime "subscription denied")
  pure ⟨standing.owner, observes⟩

def filtered (sub : Subscription) (standing : Standing) (schema : EntitySchema) (revision : UInt64)
    (values : AttributeStruct) : Except Failure (AttributeUpdate × Permission) := do
  let view ← sub.permissionOf standing
  let visible ← projectValues (sub.owns view.owner) view.observer values schema.attributes.entries
  pure ({ base := 0, revision, snapshot := true, values := visible }, view)

end Subscription

/-! ## The state and its events -/

structure Replication where
  limits : ReplicationLimits
  /-- The schemas the host has; a type's schema is defined once. -/
  schemas : Bytes → Option EntitySchema
  subscriptions : OrdMap Nat Subscription := .empty
  serial : Nat := 0
  bytes : Nat := 0
  stopped : Bool := false
  /-- The host's last commit of an entity. -/
  images : EntityKey → Option CommittedImage := fun _ => none
  /-- The updates sent to a subscriber, the snapshot of the watch first. -/
  sent : Nat → List AttributeUpdate := fun _ => []
  /-- What was known of a subscriber when it was last visited. -/
  stood : Nat → Option Standing := fun _ => none

/-- The environment of one commit for one subscriber. -/
structure CommitStanding extends Standing where
  expired : Bool
  /-- The generation of the entity's handle, if the host has one. -/
  handle : Option UInt64
  /-- The answer of `notify`. -/
  notified : Bool

inductive ReplicationAction where
  | watch (identity : CallIdentity) (key : EntityKey) (automatic : Bool)
  /-- The host's answer to the read of a watch: its image, or a failure. -/
  | answered (id : Nat) (ok : Bool) (standing : Standing) (handle : Option UInt64)
  /-- A commit, with the order the subscribers of the entity are visited in. -/
  | committed (key : EntityKey) (image : CommittedImage) (order : List Nat) (standing : Nat → CommitStanding)
  /-- The end of a subscription: unwatched, expired, disconnected, hidden, its entity closed. -/
  | ended (id : Nat)
  | stop

namespace Replication

def init (limits : ReplicationLimits) (schemas : Bytes → Option EntitySchema) : Replication := { limits, schemas }

variable (s : Replication)

def remove (id : Nat) : Replication :=
  match s.subscriptions.find id with
  | none => s
  | some sub => { s with subscriptions := s.subscriptions.erase id, bytes := s.bytes - sub.bytes }

/-- The subscriptions of a connection. -/
def peerCount (peer : UInt64) : Nat :=
  (s.subscriptions.entries.filter fun e => e.2.identity.peer = peer).length

def watch (identity : CallIdentity) (key : EntityKey) (automatic : Bool) : Replication :=
  if validKeyPair key.type key.id = false ∨ (identity.connection.valid = false ∧ identity.subject = []) then s
  else if s.stopped ∨ s.subscriptions.size ≥ s.limits.subscriptions ∨ s.peerCount identity.peer ≥ s.limits.perPeer ∨
    s.serial = 2 ^ 64 - 1 then s
  else if (s.schemas key.type).isNone ∨ validEntityId key.id = false then s
  else
    { s with
      serial := s.serial + 1
      subscriptions := s.subscriptions.insert (s.serial + 1) { identity, key, automatic } }

def visit (id : Nat) (standing : Standing) : Replication :=
  { s with stood := fun i => if i = id then some standing else s.stood i }

/-- An image remembered for a subscriber, and sent. -/
def remember (id : Nat) (sub : Subscription) (update : AttributeUpdate) (standing : Standing) : Replication :=
  { s.visit id standing with
    subscriptions := s.subscriptions.insert id sub
    bytes := s.bytes - ((s.subscriptions.find id).map (·.bytes)).getD 0 + sub.bytes
    sent := fun i => if i = id then s.sent i ++ [update] else s.sent i }

/-- What is charged for an image. -/
def imageCount (image : AttributeUpdate) : Except Failure Nat := do
  let size ← attributeWireSize image
  pure (size + attributeImageBytes image.values)

/-- The body of the callback of `watch`; `none` stands for a removal. -/
def firstImage (sub : Subscription) (schema : EntitySchema) (image : CommittedImage)
    (standing : Standing) (handle : Option UInt64) : Except Failure (Option Subscription) := do
  let (next, view) ← sub.filtered standing schema image.revision image.values
  let count ← imageCount next
  if count > 512 * 1024 ∨ count > s.limits.imageBytes - s.bytes then pure none
  else do
    let _ ← encodeAttributes next
    match handle with
    | none => pure none
    | some generation =>
      pure (some { sub with pending := false, generation, permission := view.key, bytes := count, last := next })

def answered (id : Nat) (ok : Bool) (standing : Standing) (handle : Option UInt64) : Replication :=
  match s.subscriptions.find id with
  | none => s
  | some sub =>
    if sub.pending = false then s
    else match s.schemas sub.key.type, s.images sub.key with
      | some schema, some image =>
        if ok = false then s.remove id
        else match s.firstImage sub schema image standing handle with
          | .ok (some watched) => s.remember id watched watched.last standing
          | _ => s.remove id
      | _, _ => s.remove id

/-- What a commit does for a subscriber. -/
inductive Outcome where
  | skip
  | drop
  | send (sub : Subscription) (update : AttributeUpdate)

/-- The body of the loop of `committed`; what it throws ends the subscription. -/
def nextImage (sub : Subscription) (schema : EntitySchema) (image : CommittedImage)
    (standing : CommitStanding) : Except Failure Outcome := do
  if standing.handle ≠ some sub.generation then pure .drop
  else do
    let (next, view) ← sub.filtered standing.toStanding schema image.revision image.values
    if view.key ≠ sub.permission then pure .drop
    else do
      let update ← attributeDelta sub.last next
      if update.snapshot = false ∧ update.values.isEmpty ∧ update.patches.isEmpty ∧
          (next.revision = sub.last.revision ∨ sub.owns standing.owner = false) then pure .skip
      else do
        let count ← imageCount next
        if count > s.limits.imageBytes - s.bytes + sub.bytes then pure .drop
        else do
          let _ ← encodeAttributes update
          if standing.notified = false then pure .drop
          else pure (.send { sub with bytes := count, last := next, permission := view.key } update)

def commitOne (schema : EntitySchema) (image : CommittedImage) (standing : Nat → CommitStanding) (s : Replication)
    (id : Nat) : Replication :=
  match s.subscriptions.find id with
  | none => s
  | some sub =>
    if sub.pending then s
    else if (standing id).expired then s.remove id
    else match s.nextImage sub schema image (standing id) with
      | .ok .skip => s.visit id (standing id).toStanding
      | .ok (.send sub update) => s.remember id sub update (standing id).toStanding
      | _ => s.remove id

/-- The subscribers of an entity. -/
def interested (key : EntityKey) : List Nat :=
  (s.subscriptions.entries.filter fun e => e.2.key = key).map Prod.fst

/-- An image may follow the last one: its revision does not go back. -/
def follows (key : EntityKey) (image : CommittedImage) : Bool :=
  (s.images key).all fun before => before.revision ≤ image.revision

def committed (key : EntityKey) (image : CommittedImage) (order : List Nat)
    (standing : Nat → CommitStanding) : Replication :=
  match s.schemas key.type with
  | none => s
  | some schema =>
    if image.isOf schema ∧ s.follows key image ∧ order.isPerm (s.interested key) then
      order.foldl (commitOne schema image standing)
        { s with images := fun k => if k = key then some image else s.images k }
    else s

def step : ReplicationAction → Replication
  | .watch identity key automatic => s.watch identity key automatic
  | .answered id ok standing handle => s.answered id ok standing handle
  | .committed key image order standing => s.committed key image order standing
  | .ended id => s.remove id
  | .stop => { s with stopped := true, subscriptions := .empty, bytes := 0 }

end Replication

end Fsnet
