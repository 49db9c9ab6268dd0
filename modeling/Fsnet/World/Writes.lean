import Fsnet.World.Moves
/-!
# What a step writes to the records

A record is written in four ways: the catalog creates it, a job renews its
lease, a job commits, a host releases its lease. Every write is in the trace
with the cell it replaced, and nothing else touches the records.
-/

namespace Fsnet

open Lib

/-- The cell an event wrote to the record `id`. -/
def Event.writeTo (id : Bytes) : Event → Option (Cell StoredRecord)
  | .created id' cell => if id' = id then some cell else none
  | .acquired _ _ _ _ => none
  | .granted _ k _ _ new => if k.id = id then some new else none
  | .committed _ k _ _ new => if k.id = id then some new else none
  | .released _ k _ new => if k.id = id then some new else none
  | .host _ _ => none

theorem written_iff {id id' : Bytes} {c c' : Cell StoredRecord} :
    (if id' = id then some c' else none) = some c ↔ id' = id ∧ c' = c := by
  simp

/-- One cell is pushed onto the register of `id`. -/
structure Pushes (w w' : World) (id : Bytes) (version : UInt64) (value : StoredRecord) : Prop where
  fresh : (w.entities id).Fresh version
  pushed : w'.entities = Function.update w.entities id ((w.entities id).push version value fresh)

/-- What a step does to the records, with the events it adds. -/
inductive StoreMove (w w' : World) : List Event → Prop
  | keep (news : List Event) (he : w'.entities = w.entities) (hn : ∀ e ∈ news, ∀ id, e.writeTo id = none) :
    StoreMove w w' news
  | create (id : Bytes) (creation : EntityCreation) (version : UInt64) (value : StoredRecord)
      (hid : validEntityId id = true) (hv : value.val = creation.record) (hget : (w.entities id).get = none)
      (hp : Pushes w w' id version value) : StoreMove w w' [.created id ⟨version, value⟩]
  | grant (host : HostId) (k : EntityKey) (j : Job) (attempt : Nat) (expected version : UInt64) (value : StoredRecord)
      (hj : (w.hosts host).active k = some j) (hph : j.phase = .acquiring (.granting attempt expected value))
      (hver : (w.entities k.id).version = expected) (hp : Pushes w w' k.id version value) :
    StoreMove w w' (swapNews (fun old => .granted host k j old ⟨version, value⟩) (w.entities k.id).get true)
  | commit (host : HostId) (k : EntityKey) (j : Job) (version : UInt64) (value : StoredRecord)
      (hj : (w.hosts host).active k = some j) (hph : j.phase = .committing .writing value)
      (hver : (w.entities k.id).version = j.version) (hp : Pushes w w' k.id version value) :
    StoreMove w w' (swapNews (fun old => .committed host k j old ⟨version, value⟩) (w.entities k.id).get true)
  | release (host : HostId) (k : EntityKey) (expected version : UInt64) (value : StoredRecord)
      (hr : (w.hosts host).releases k = some (.writing expected value))
      (hver : (w.entities k.id).version = expected) (hp : Pushes w w' k.id version value) :
    StoreMove w w' (swapNews (fun old => .released host k old ⟨version, value⟩) (w.entities k.id).get true)

/-- The new events of a step and what it does to the records. -/
def StoreView (w w' : World) : Prop := ∃ news, w'.trace = news ++ w.trace ∧ StoreMove w w' news

variable {hash : Bytes → Bytes} {w w' : World} {host : HostId} {k : EntityKey} {a : Access} {j : Job}

theorem storeView_keep (he : w'.entities = w.entities) (ht : w'.trace = w.trace) : StoreView w w' :=
  ⟨[], ht, .keep _ he fun _ h => nomatch h⟩

theorem storeView_play (turn : Turn) : StoreView w (w.play host turn) := by
  refine ⟨turn.news host, rfl, .keep _ rfl fun e he _ => ?_⟩
  obtain ⟨_, -, rfl⟩ := List.mem_map.1 (List.mem_reverse.1 he)
  rfl

theorem storeView_readFor (cell : Option (Cell StoredRecord)) (next : Job) :
    StoreView w (w.readFor host k a j cell next) := by
  unfold World.readFor
  split
  · exact storeView_keep rfl rfl
  refine ⟨acquiredNews host k next cell, rfl, .keep _ rfl fun e he _ => ?_⟩
  unfold acquiredNews at he
  split at he
  · rw [List.mem_singleton.1 he]
    rfl
  · cases he

/-- No event of a swap that did not take place. -/
theorem swapNews_false (event : Cell StoredRecord → Event) (old : Option (Cell StoredRecord)) :
    swapNews event old false = [] := by
  cases old <;> rfl

/-- A swap of the entity's record that its lineage explains, or that did not take place. -/
theorem storeView_swap {entities : Store Bytes StoredRecord} {event : Cell StoredRecord → Event} {expected : UInt64}
    {value : StoredRecord} {swapped threw : Bool}
    (hs : w.entities.swap k.id expected value a.version a.fault = some (entities, swapped, threw))
    (ht : w'.trace = swapNews event (w.entities k.id).get swapped ++ w.trace) (he : w'.entities = entities)
    (hm : (w.entities k.id).version = expected → Pushes w w' k.id a.version value →
      StoreMove w w' (swapNews event (w.entities k.id).get true)) : StoreView w w' := by
  refine ⟨_, ht, ?_⟩
  rcases Store.swap_cases hs with ⟨rfl, hver, hf, rfl⟩ | ⟨rfl, rfl⟩
  · exact hm hver ⟨hf, he⟩
  · rw [swapNews_false]
    exact .keep _ he fun _ h => nomatch h

theorem storeView_grant (hj : (w.hosts host).active k = some j) (attempt : Nat) (expected : UInt64)
    (value : StoredRecord) (hp : j.phase = .acquiring (.granting attempt expected value)) :
    StoreView w (w.grant host k a j attempt expected value) := by
  unfold World.grant
  split
  · exact storeView_keep rfl rfl
  rename_i hs
  exact storeView_swap hs rfl rfl (.grant host k j attempt expected a.version value hj hp)

theorem storeView_commit (hj : (w.hosts host).active k = some j) (value : StoredRecord)
    (hp : j.phase = .committing .writing value) : StoreView w (w.commit host k a j value) := by
  unfold World.commit
  split
  · exact storeView_keep rfl rfl
  split
  · exact storeView_keep rfl rfl
  rename_i hs
  exact storeView_swap hs rfl rfl (.commit host k j a.version value hj hp)

theorem storeView_arm (value : StoredRecord) (entry : TimerIndex.Entry) (attempt : Nat) (stage : ArmStage) :
    StoreView w (w.arm host k a j value entry attempt stage) := by
  unfold World.arm
  repeat' split
  all_goals exact storeView_keep rfl rfl

theorem storeView_storage (hj : (w.hosts host).active k = some j) : StoreView w (w.storage hash host k a j) := by
  unfold World.storage
  dsimp only
  split
  · exact storeView_readFor _ _
  · exact storeView_readFor _ _
  · rename_i attempt expected value hp
    exact storeView_grant hj attempt expected value hp
  · exact storeView_readFor _ _
  · exact storeView_keep rfl rfl
  · exact storeView_arm _ _ _ _
  · rename_i value hp
    exact storeView_commit hj value hp
  · exact storeView_keep rfl rfl

theorem storeView_finish {env : Ambient} : StoreView w (w.finish hash host k env j) := by
  unfold World.finish
  dsimp only
  split
  · exact storeView_keep rfl rfl
  split
  · exact storeView_play _
  · exact storeView_play _
  · exact storeView_keep rfl rfl

theorem storeView_release {stage : ReleaseStage} (hr : (w.hosts host).releases k = some stage) :
    StoreView w (w.releaseStorage host k a stage) := by
  unfold World.releaseStorage
  split
  · exact storeView_keep rfl rfl
  · rename_i expected value
    split
    · exact storeView_keep rfl rfl
    rename_i hs
    exact storeView_swap hs rfl rfl (.release host k expected a.version value hr)
  · exact storeView_keep rfl rfl

theorem storeView_create (id : Bytes) (creation : EntityCreation) : StoreView w (w.create id creation a) := by
  unfold World.create
  split
  · exact storeView_keep rfl rfl
  rename_i hid
  split
  · exact storeView_keep rfl rfl
  rename_i value hv
  split
  · exact storeView_keep rfl rfl
  rename_i hs
  rcases Store.swap_cases hs with ⟨rfl, hver, hf, rfl⟩ | ⟨rfl, rfl⟩
  · refine ⟨[.created id ⟨a.version, value⟩], rfl, ?_⟩
    exact .create id creation a.version value (by simpa using hid) (EntityRecord.encoded_eq_some.1 hv)
      (Register.get_of_version_eq_zero hver) ⟨hf, rfl⟩
  · exact storeView_keep rfl rfl

theorem storeView_sendStorage (n : Nat) (send : Send) : StoreView w (w.sendStorage host n a send) := by
  unfold World.sendStorage
  dsimp only
  repeat' split
  all_goals exact storeView_keep rfl rfl

theorem storeView_service (hs : SameRecords w w') : StoreView w w' := storeView_keep hs.entities hs.trace

/-- Every step writes the records one of the ways of `StoreMove`. -/
theorem step_store (hash : Bytes → Bytes) (w : World) (action : Action) : StoreView w (w.step hash action) := by
  cases action with
  | create id creation => exact storeView_create id creation
  | ask | finishRelease | finishSend =>
    simp only [World.step]
    repeat' split
    all_goals exact storeView_keep rfl rfl
  | expireJob | schedule => exact storeView_play _
  | storage host k a =>
    simp only [World.step]
    split
    · exact storeView_keep rfl rfl
    · rename_i hj
      exact storeView_storage hj
  | finish =>
    simp only [World.step]
    split
    · exact storeView_keep rfl rfl
    · exact storeView_finish
  | releaseStorage host k a =>
    simp only [World.step]
    split
    · exact storeView_keep rfl rfl
    · rename_i hr
      exact storeView_release hr
  | script =>
    simp only [World.step]
    split
    · exact storeView_keep rfl rfl
    · exact storeView_play _
  | sendStorage =>
    simp only [World.step]
    split
    · exact storeView_keep rfl rfl
    · exact storeView_sendStorage _ _
  | scanBucket n type id owner time => exact storeView_service (sameRecords_scanBucket n type id owner time)
  | scanRecord n => exact storeView_service (sameRecords_scanRecord n)
  | scanWrite n => exact storeView_service (sameRecords_scanWrite n)
  | deliveryScan source n => exact storeView_service (sameRecords_deliveryScan source n)
  | retire n => exact storeView_service (sameRecords_retire n)
  | bind | unbind | setPolicy | enableDelivery | drain | stop | acquire | expireQueued | evict | deactivate | cancel |
    forget | startSend => exact storeView_keep rfl rfl

end Fsnet
