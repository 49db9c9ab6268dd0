import Fsnet.Lib.Cas
import Fsnet.Entity.Record
/-!
# The timer discovery index

The index lists, shard by shard, the entities that may have timers. A producer
arms its entry before it writes the entity; a scan of the index compares an
entry with the entity's record and confirms, keeps or prunes it. Both are cut
here where they touch the store: what is read, and what is written next.
-/

namespace Fsnet

open Lib

namespace TimerIndex

def shards : Nat := 64

def perShard : Nat := 4096

structure Entry where
  type : Bytes
  id : Bytes
  token : Bytes
  baseVersion : UInt64
  fence : Nat
  due : Int
  pending : Bool
  placement : Bytes
  deriving DecidableEq

abbrev Bucket := OrdMap Bytes Entry

def identity (type id : Bytes) : Bytes := type ++ 0 :: id

/-- FNV-1a over the id. -/
def shard (id : Bytes) : Nat :=
  (id.foldl (fun (hash : UInt64) (byte : UInt8) => (hash ^^^ byte.toUInt64) * 1099511628211)
    14695981039346656037).toNat % shards

def Entry.valid (entry : Entry) : Bool :=
  validRoutePart entry.type && validEntityId entry.id && !entry.token.isEmpty && entry.token.length ≤ 64 &&
    entry.baseVersion ≠ 0 && entry.fence ≠ 0 && 0 ≤ entry.due &&
    (entry.placement.isEmpty || validEntityNode entry.placement)

/-- The bytes of an entry in its bucket. -/
def Entry.size (entry : Entry) : Nat :=
  41 + entry.type.length + entry.id.length + entry.token.length + entry.placement.length

/-- The checks of `write` before it swaps the bucket in. -/
def writable (index : Nat) (bucket : Bucket) : Bool :=
  bucket.size ≤ perShard &&
    bucket.entries.all (fun e => e.2.valid && e.1 = identity e.2.type e.2.id && shard e.2.id = index) &&
    8 + (bucket.entries.map fun e => e.2.size).sum ≤ 1024 * 1024

/-! ## Arming -/

/-- The producer still holds the version and the fence it acquired. -/
def armHolds (entry : Entry) (stored : Option (Cell StoredRecord)) : Bool :=
  stored.any fun cell => cell.version = entry.baseVersion && cell.value.val.fence = entry.fence

/-- The bucket with the entry armed; nothing when the source throws. -/
def armBucket (entry : Entry) (bucket : Bucket) : Option Bucket :=
  let key := identity entry.type entry.id
  if (bucket.find key).any (fun found => found.fence > entry.fence) then none
  else
    let next := bucket.insert key entry
    if writable (shard entry.id) next then some next else none

/-! ## Scanning -/

inductive ScanAction where
  | none
  | wake
  | fire (timer : EntityTimer)
  deriving DecidableEq

/-- How a scan goes on once it has read the record: it ends, throws, or writes the bucket. -/
inductive ScanStep where
  | finish (action : ScanAction)
  | threw
  | write (bucket : Bucket) (action : ScanAction)

/-- The part of an owner id that names its node. -/
def nodeOf (owner : Bytes) : Bytes := owner.takeWhile (· ≠ 0x2f)

/-- The first timer with the earliest due time among those that have expired. -/
def earliest (time : Int) (timers : List (Bytes × EntityTimer)) : Option EntityTimer :=
  timers.foldl (fun found e =>
    if e.2.due ≤ time && found.all (fun t => e.2.due < t.due) then some e.2 else found) none

def prune (index : Nat) (key : Bytes) (bucket : Bucket) : ScanStep :=
  if writable index (bucket.erase key) then .write (bucket.erase key) .none else .threw

/-- The scan after its two reads: `bucket` holds `observed` under the entity's key. -/
def scanRecord (type id owner : Bytes) (time : Int) (bucket : Bucket) (observed : Entry)
    (stored : Option (Cell StoredRecord)) : ScanStep :=
  let key := identity type id
  let index := shard id
  match stored with
  | none => prune index key bucket
  | some cell =>
    let record := cell.value.val
    let timers := record.snapshot.timers
    if record.metadata.type ≠ type then .threw
    else if record.metadata.destroyed then prune index key bucket
    else if (!record.placement.isEmpty && record.placement ≠ nodeOf owner) ||
        (record.expires > time && record.owner ≠ owner) then .finish .none
    else if observed.pending && timers.token ≠ observed.token && cell.version = observed.baseVersion then .finish .wake
    else if timers.entries.size = 0 then prune index key bucket
    else
      let due := nextEntityTimer timers
      let confirmed : Entry := ⟨type, id, timers.token, cell.version, record.fence, due, false, record.placement⟩
      let action := if due > time then .none else (earliest time timers.entries.entries).elim .none .fire
      if observed = confirmed then .finish action
      else
        let next := bucket.insert key confirmed
        if writable index next then .write next action else .threw

end TimerIndex

end Fsnet
