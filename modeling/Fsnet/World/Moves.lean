import Fsnet.Lib.Runs
import Fsnet.World.Slots
/-!
# What a step does to a job

Seen from one entity of one host, a step of the whole system leaves the
entity's job alone, starts one, ends it, or moves it on. `JobMove` lists the
moves with everything the functions of the host guarantee about them, together
with the events the step adds to the trace. Every property of jobs is proved by
cases over these moves.
-/

namespace Fsnet

open Lib List Function

/-! ## The moves of a job -/

/-- The entity of a host whose job an event is about. -/
def Event.about : Event → Option (HostId × EntityKey)
  | .created _ _ => none
  | .acquired h k _ _ => some (h, k)
  | .granted h k _ _ _ => some (h, k)
  | .committed h k _ _ _ => some (h, k)
  | .released _ _ _ _ => none
  | .host h e => some (h, e.entity)

/-- One access of an acquisition. -/
inductive AcquireMove (hash : Bytes → Bytes) (w : World) (host : HostId) (k : EntityKey) (j : Job) :
    Job → List Event → Prop
  | fail (stage : AcquireStage) (hp : j.phase = .acquiring stage) :
    AcquireMove hash w host k j (j.acquiring (.finished true)) []
  | read (attempt : Nat) (time : Int) (hp : j.phase = .acquiring (.reading attempt)) (j' : Job)
      (he : j' = j.resumeRead hash host (w.hosts host).limits attempt (w.entities k.id).get time) :
    AcquireMove hash w host k j j' (acquiredNews host k j' (w.entities k.id).get)
  | source (attempt : Nat) (cell : Cell StoredRecord) (time : Int)
      (hp : j.phase = .acquiring (.sourcing attempt cell time))
      (j' : Job) (he : j' = j.resumeSource host (w.hosts host).limits attempt cell time
        (j.request.incoming.bind fun e => (w.entities e.sourceId).get)) :
    AcquireMove hash w host k j j' (acquiredNews host k j' (some cell))
  | grant (attempt : Nat) (expected : UInt64) (value : StoredRecord) (version : UInt64) (swapped threw : Bool)
      (hp : j.phase = .acquiring (.granting attempt expected value)) :
    AcquireMove hash w host k j (if threw then j.acquiring (.finished true) else j.resumeGrant attempt value swapped)
      (swapNews (fun old => .granted host k j old ⟨version, value⟩) (w.entities k.id).get swapped)
  | confirm (value : StoredRecord) (hp : j.phase = .acquiring (.confirming value)) (j' : Job)
      (he : j' = j.resumeConfirm value (w.entities k.id).get) :
    AcquireMove hash w host k j j' (acquiredNews host k j' (w.entities k.id).get)

/-- One access of a commit. `w'` is the world after it. -/
inductive CommitMove (w w' : World) (host : HostId) (k : EntityKey) (j : Job) : Job → List Event → Prop
  | submit (value : StoredRecord) (time : Int) (hp : j.phase = .committing .submitted value) :
    CommitMove w w' host k j (j.resumeSubmitted value time) []
  | armFail (value : StoredRecord) (entry : TimerIndex.Entry) (attempt : Nat) (stage : ArmStage)
      (hp : j.phase = .committing (.arming entry attempt stage) value) :
    CommitMove w w' host k j (j.commitStage value (.finished true)) []
  | armRecord (value : StoredRecord) (entry : TimerIndex.Entry) (attempt : Nat)
      (hp : j.phase = .committing (.arming entry attempt .record) value) :
    CommitMove w w' host k j (j.resumeArmRecord value entry attempt (w.entities k.id).get) []
  | armBucket (value : StoredRecord) (entry : TimerIndex.Entry) (attempt : Nat)
      (hp : j.phase = .committing (.arming entry attempt .bucket) value) :
    CommitMove w w' host k j (j.resumeArmBucket value entry attempt (w.index (TimerIndex.shard k.id)).get) []
  | armWrite (value : StoredRecord) (entry : TimerIndex.Entry) (attempt : Nat) (expected : UInt64)
      (bucket : TimerIndex.Bucket) (swapped : Bool)
      (hp : j.phase = .committing (.arming entry attempt (.write expected bucket)) value)
      (hs : swapped = true → ∃ cell, (w'.index (TimerIndex.shard k.id)).get = some cell ∧ cell.value = bucket) :
    CommitMove w w' host k j (j.resumeArmWrite value entry attempt swapped) []
  | late (value : StoredRecord) (hp : j.phase = .committing .writing value) :
    CommitMove w w' host k j (j.loseOwner value) []
  | write (value : StoredRecord) (version : UInt64) (swapped threw : Bool) (hp : j.phase = .committing .writing value)
      (hv : swapped = true → (w.entities k.id).version = j.version) :
    CommitMove w w' host k j (if threw then j.commitStage value (.finished true) else j.resumeWrite value swapped)
      (swapNews (fun old => .committed host k j old ⟨version, value⟩) (w.entities k.id).get swapped)

/-- The job a host makes of the front request of a slot. -/
def Host.newJob (h : Host) (slot : Slot) (request : Request) : Job :=
  { serial := h.serial, request, phase := .acquiring (.reading 0), cachedFence := slot.residentFence
    preserveActivation := request.incoming.isSome || request.ack.isSome || request.newOwner.isSome }

/-- The events of a host's turn, as the trace records them. -/
def Turn.news (turn : Turn) (host : HostId) : List Event := (turn.events.map (Event.host host)).reverse

/-- The slot of the entity stays as it is, and so does its release. -/
structure SameSlot (h h' : Host) (k : EntityKey) : Prop where
  slot : h'.slots k = h.slots k
  release : h'.releases k = h.releases k

/-- A send of the entity has registered its source. -/
def Host.Sent (h : Host) (k : EntityKey) : Prop :=
  ∃ n send, h.sends n = some send ∧ send.stage = .finished .ok ∧ send.entity = k

/-- What a step does to the job of one entity of one host, with the events it adds. -/
inductive JobMove (hash : Bytes → Bytes) (w w' : World) (host : HostId) (k : EntityKey) :
    Option Job → Option Job → List Event → Prop
  | same (o : Option Job) (news : List Event) (hn : ∀ e ∈ news, e.about ≠ some (host, k))
      (hs : SlotMove hash w host (w.hosts host) (w'.hosts host) k) : JobMove hash w w' host k o o news
  | stop (o : Option Job) (hs : (w'.hosts host).slots k = none) (hr : (w'.hosts host).releases k = none) :
    JobMove hash w w' host k o none []
  | begin (slot : Slot) (request : Request) (rest : List Request) (hslot : (w.hosts host).slots k = some slot)
      (hq : slot.queue = request :: rest) (hbusy : slot.busy = false)
      (hserial : (w'.hosts host).serial = (w.hosts host).serial + 1)
      (hs : (w'.hosts host).slots k = some { slot with queue := rest, busy := true })
      (hr : (w'.hosts host).releases k = (w.hosts host).releases k) :
    JobMove hash w w' host k none (some ((w.hosts host).newJob slot request)) []
  | acquire (j j' : Job) (news : List Event) (hm : AcquireMove hash w host k j j' news)
      (hs : SameSlot (w.hosts host) (w'.hosts host) k) : JobMove hash w w' host k (some j) (some j') news
  | commit (j j' : Job) (news : List Event) (hm : CommitMove w w' host k j j' news)
      (hs : SameSlot (w.hosts host) (w'.hosts host) k) : JobMove hash w w' host k (some j) (some j') news
  | threw (j : Job) (hp : j.phase = .acquiring (.finished true))
      (hh : w'.hosts host = ((w.hosts host).complete k j ⟨.internal, []⟩).host) :
    JobMove hash w w' host k (some j) none [.host host (.replied k j ⟨.internal, []⟩)]
  | refuse (j : Job) (hp : j.phase = .acquiring (.finished false)) (hs : j.status ≠ .ok) (metadataOnly : Bool)
      (result : Result) (hr : RefusedWith j metadataOnly result)
      (hh : w'.hosts host = ((w.hosts host).complete k { j with metadataOnly } result).host) :
    JobMove hash w w' host k (some j) none [.host host (.replied k { j with metadataOnly } result)]
  | run (j : Job) (env : Ambient) (turn : Turn) (hp : j.phase = .acquiring (.finished false)) (hs : j.status = .ok)
      (hr : Runs hash host ((w.hosts host).learnOwner k j) k env j turn) (hh : w'.hosts host = turn.host) :
    JobMove hash w w' host k (some j) (turn.host.active k) (turn.news host)
  | answer (j : Job) (steps : List Hook) (state : Bytes) (result : Result) (env : Ambient) (turn : Turn)
      (hp : j.phase = .executing steps state) (ha : Answers hash host (w.hosts host) k env j (j.answer result) turn)
      (hh : w'.hosts host = turn.host) (hw : w' = w.step hash (.script host k result env)) :
      JobMove hash w w' host k (some j) (turn.host.active k) (turn.news host)
  | timeOut (j : Job) (steps : List Hook) (state : Bytes) (hp : j.phase = .executing steps state)
      (hh : w'.hosts host = ((w.hosts host).complete k j ⟨.timeout, []⟩).host) :
    JobMove hash w w' host k (some j) none [.host host (.replied k j ⟨.timeout, []⟩)]
  | schedule (j j' : Job) (steps : List Hook) (state : Bytes) (timer : EntityTimer)
      (hp : j.phase = .executing steps state) (hsch : Schedules j timer j')
      (hs : SameSlot (w.hosts host) (w'.hosts host) k) (hnoop : j.isNoop = false) :
    JobMove hash w w' host k (some j) (some j') [.host host (.scheduled k j timer)]
  | amend (j j' : Job) (steps : List Hook) (state : Bytes) (hp : j.phase = .executing steps state)
      (ha : Amends hash (w.hosts host).limits k j j') (hs : SameSlot (w.hosts host) (w'.hosts host) k)
      (hnoop : j.isNoop = false) (hsent : j'.delivery.outbox ≠ [] → j.delivery.outbox ≠ [] ∨ (w.hosts host).Sent k) :
    JobMove hash w w' host k (some j) (some j') []
  | finish (j : Job) (threw : Bool) (value : StoredRecord) (hp : j.phase = .committing (.finished threw) value)
      (result : Result) (uncertain : Bool) (hf : FinishedWith j threw result uncertain)
      (hh : w'.hosts host = ((w.hosts host).complete k j result uncertain).host) :
    JobMove hash w w' host k (some j) none [.host host (.replied k j result)]

/-- What a host keeps in every step: its limits, and that it has made so many jobs. -/
structure Host.Grows (h h' : Host) : Prop where
  limits : h'.limits = h.limits
  serial : h.serial ≤ h'.serial

/-- At most one job of a host begins. -/
def OneBegins (w w' : World) : Prop :=
  ∀ host k k', (w.hosts host).active k = none → (w.hosts host).active k' = none →
    (w'.hosts host).active k ≠ none → (w'.hosts host).active k' ≠ none → k = k'

/-- The view of a whole step: the new events, and the move of every job. -/
def View (hash : Bytes → Bytes) (w w' : World) : Prop :=
  ∃ news, w'.trace = news ++ w.trace ∧ (∀ host, (w.hosts host).Grows (w'.hosts host)) ∧
    (∀ host k, JobMove hash w w' host k ((w.hosts host).active k) ((w'.hosts host).active k) news) ∧ OneBegins w w'

/-! ## The view of a step -/

variable {hash : Bytes → Bytes} {w w' : World} {host : HostId} {h : Host} {k : EntityKey} {env : Ambient} {a : Access}
  {j j' : Job} {T : List Event}

@[simp] theorem setHost_self (w : World) (host : HostId) (h : Host) : (w.setHost host h).hosts host = h :=
  update_self ..

/-- No host changed. -/
theorem view_idle (ht : w'.trace = T ++ w.trace) (hn : ∀ e ∈ T, e.about = none) (hh : w'.hosts = w.hosts) :
    View hash w w' := by
  refine ⟨T, ht, fun host => ?_, fun host k => ?_, fun host k _ hk _ hbegins => ?_⟩
  · rw [hh]
    exact ⟨rfl, le_refl _⟩
  · rw [hh]
    refine .same _ _ (fun e he => ?_) (by rw [hh]; exact .same rfl rfl)
    rw [hn e he]
    exact Option.some_ne_none _ ∘ Eq.symm
  · rw [hh] at hbegins
    exact absurd hk hbegins

theorem view_refl (w : World) : View hash w w :=
  view_idle (T := []) rfl (by simp) rfl

section

variable (ht : w'.trace = T ++ w.trace) (hh : w'.hosts = update w.hosts host h)
include ht hh

/-- One host changed; the moves of its jobs are given. -/
theorem view_host (hn : ∀ e ∈ T, ∀ p, e.about = some p → p.1 = host) (hg : (w.hosts host).Grows h)
    (hone : ∀ k k', (w.hosts host).active k = none → (w.hosts host).active k' = none → h.active k ≠ none →
      h.active k' ≠ none → k = k')
    (hm : ∀ k, JobMove hash w w' host k ((w.hosts host).active k) (h.active k) T) : View hash w w' := by
  have hself : w'.hosts host = h := by rw [hh, update_self]
  have hother : ∀ host', host' ≠ host → w'.hosts host' = w.hosts host' := by
    intro host' hne
    rw [hh, update_of_ne hne]
  refine ⟨T, ht, fun host' => ?_, fun host' k => ?_, fun host' k k' hk => ?_⟩
  all_goals by_cases hhost : host' = host
  · subst hhost
    rwa [hself]
  · rw [hother host' hhost]
    exact ⟨rfl, le_refl _⟩
  · subst hhost
    rw [hself]
    exact hm k
  · rw [hother host' hhost]
    refine .same _ _ (fun e he hab => hhost (hn e he _ hab)) ?_
    rw [hother host' hhost]
    exact .same rfl rfl
  · subst hhost
    rw [hself]
    exact hone k k' hk
  · rw [hother host' hhost]
    exact fun _ hbegins => absurd hk hbegins

/-- One host changed at the entity `k`; the move of that entity's job is given. -/
theorem view_at (hn : ∀ e ∈ T, ∀ p, e.about = some p → p = (host, k)) (he : Elsewhere (w.hosts host) h k)
    (hs : (w.hosts host).serial ≤ h.serial)
    (hm : JobMove hash w w' host k ((w.hosts host).active k) (h.active k) T) : View hash w w' := by
  have hbegins : ∀ k', (w.hosts host).active k' = none → h.active k' ≠ none → k' = k := by
    intro k' hnone hsome
    by_contra hk
    exact hsome ((he.active k' hk).trans hnone)
  refine view_host ht hh (fun e he p hab => congrArg Prod.fst (hn e he p hab)) ⟨he.limits, hs⟩ ?_ fun k' => ?_
  · intro k₁ k₂ h₁ h₂ h₁' h₂'
    rw [hbegins k₁ h₁ h₁', hbegins k₂ h₂ h₂']
  · by_cases hk : k' = k
    · subst hk
      exact hm
    rw [he.active k' hk]
    refine .same _ _ (fun e hmem hab => hk (Prod.mk.inj (hn e hmem _ hab)).2) ?_
    rw [hh, update_self]
    exact .same (he.slots k' hk) (he.releases k' hk)

/-- A step of one host that leaves its jobs alone. -/
theorem view_quiet (hn : ∀ e ∈ T, e.about = none) (hq : Quiet hash w host (w.hosts host) h k) : View hash w w' := by
  refine view_at ht hh (fun e he p hab => ?_) hq.elsewhere (le_of_eq hq.serial.symm) ?_
  · rw [hn e he] at hab
    cases hab
  · rw [hq.active]
    refine .same _ _ (fun e he => ?_) ?_
    · rw [hn e he]
      exact Option.some_ne_none _ ∘ Eq.symm
    · rw [hh, update_self]
      exact hq.slot

end

theorem view_onHost {f : Host → Host} (hq : Quiet hash w host (w.hosts host) (f (w.hosts host)) k) :
    View hash w (w.onHost host f) :=
  view_quiet (T := []) rfl rfl (by simp) hq

theorem view_same {f : Host → Host} (hf : f (w.hosts host) = w.hosts host) : View hash w (w.onHost host f) := by
  refine view_onHost (k := ⟨[], []⟩) ?_
  rw [hf]
  exact .refl _ _

section

variable (hj : (w.hosts host).active k = some j)
include hj

/-- The host stores another stage of the job. -/
theorem view_setJob (ht : w'.trace = T ++ w.trace)
    (hn : ∀ e ∈ T, e.about = some (host, k)) {c : Counters} {sends : Nat → Option Send}
    (hh : w'.hosts = update w.hosts host ({ w.hosts host with counters := c, sends := sends }.setJob k j'))
    (hm : SameSlot (w.hosts host) (w'.hosts host) k → JobMove hash w w' host k (some j) (some j') T) :
    View hash w w' := by
  refine view_at (k := k) ht hh (fun e he p hab => ?_) ?_ (le_refl _) ?_
  · rw [hn e he] at hab
    exact (Option.some.inj hab).symm
  · exact ⟨rfl, fun _ hk => update_of_ne hk _ _, fun _ _ => rfl, fun _ _ => rfl⟩
  · rw [hj]
    have hself : (Host.setJob { w.hosts host with counters := c, sends := sends } k j').active k = some j' :=
      update_self ..
    rw [hself]
    refine hm ?_
    rw [hh, update_self]
    exact ⟨rfl, rfl⟩

omit hj in
/-- A turn of a host on one of its jobs. -/
theorem view_play {turn : Turn} (hl : turn.Local (w.hosts host) k)
    (hm : (w.play host turn).hosts host = turn.host →
      JobMove hash w (w.play host turn) host k ((w.hosts host).active k) (turn.host.active k) (turn.news host)) :
    View hash w (w.play host turn) := by
  refine view_at rfl rfl (fun e he p hab => ?_) hl.elsewhere (le_of_eq hl.serial.symm) (hm (update_self ..))
  obtain ⟨e', he', rfl⟩ := mem_map.1 (mem_reverse.1 he)
  rw [Event.about, hl.events e' he'] at hab
  exact (Option.some.inj hab).symm

omit hj in
/-- A turn in which nothing happens. -/
theorem view_playIdle : View hash w (w.play host ⟨w.hosts host, []⟩) :=
  view_quiet (k := ⟨[], []⟩) (T := []) rfl rfl (by simp) (.refl _ _)

/-! ### Storage accesses -/

omit hj in
theorem acquiredNews_about (host : HostId) (k : EntityKey) (j : Job) (cell : Option (Cell StoredRecord)) :
    ∀ e ∈ acquiredNews host k j cell, e.about = some (host, k) := by
  unfold acquiredNews
  intro e he
  split at he
  · rw [mem_singleton.1 he]
    rfl
  · cases he

omit hj in
theorem swapNews_mem {event : Cell StoredRecord → Event} {old : Option (Cell StoredRecord)} {swapped : Bool} {e : Event}
    (he : e ∈ swapNews event old swapped) : ∃ c, e = event c := by
  unfold swapNews at he
  split at he
  · rename_i c
    split at he
    · exact ⟨c, mem_singleton.1 he⟩
    · cases he
  · cases he

theorem view_readFor (stage : AcquireStage)
    (hp : j.phase = .acquiring stage) (cell : Option (Cell StoredRecord)) (next : Job)
    (hm : AcquireMove hash w host k j next (acquiredNews host k next cell)) :
    View hash w (w.readFor host k a j cell next) := by
  unfold World.readFor
  split
  · exact view_setJob (T := []) hj rfl (by simp) rfl
      fun hs => .acquire _ _ _ (.fail stage hp) hs
  · exact view_setJob hj rfl (acquiredNews_about _ _ _ _) rfl fun hs => .acquire _ _ _ hm hs

theorem view_grant (attempt : Nat) (expected : UInt64) (value : StoredRecord)
    (hp : j.phase = .acquiring (.granting attempt expected value)) :
    View hash w (w.grant host k a j attempt expected value) := by
  unfold World.grant
  split
  · exact view_refl w
  rename_i swapped threw hs
  refine view_setJob hj rfl (fun e he => ?_) rfl
    fun hs => .acquire _ _ _ (.grant attempt expected value a.version swapped threw hp) hs
  obtain ⟨c, rfl⟩ := swapNews_mem he
  rfl

theorem view_commit (value : StoredRecord)
    (hp : j.phase = .committing .writing value) : View hash w (w.commit host k a j value) := by
  unfold World.commit
  split
  · exact view_setJob (T := []) hj rfl (by simp) rfl
      fun hs => .commit _ _ _ (.late value hp) hs
  split
  · exact view_refl w
  rename_i entities swapped threw hswap
  have hv : swapped = true → (w.entities k.id).version = j.version := by
    rintro rfl
    rcases Store.swap_cases hswap with ⟨-, hv, -⟩ | ⟨⟨⟩, -⟩
    exact hv
  refine view_setJob hj rfl (fun e he => ?_) rfl
    fun hs => .commit _ _ _ (.write value a.version swapped threw hp hv) hs
  obtain ⟨c, rfl⟩ := swapNews_mem he
  rfl

theorem view_arm (value : StoredRecord) (entry : TimerIndex.Entry)
    (attempt : Nat) (stage : ArmStage) (hp : j.phase = .committing (.arming entry attempt stage) value) :
    View hash w (w.arm host k a j value entry attempt stage) := by
  unfold World.arm
  split
  · refine view_setJob (T := []) hj rfl (by simp) rfl fun hs => .commit _ _ _ ?_ hs
    split
    · exact .armFail value entry attempt _ hp
    · exact .armRecord value entry attempt hp
  · refine view_setJob (T := []) hj rfl (by simp) rfl fun hs => .commit _ _ _ ?_ hs
    split
    · exact .armFail value entry attempt _ hp
    · exact .armBucket value entry attempt hp
  rename_i expected bucket
  split
  · exact view_refl w
  rename_i swapped threw hs
  refine view_setJob (T := []) hj rfl (by simp) rfl
    fun hslot => .commit _ _ _ ?_ hslot
  cases threw with
  | true => exact .armFail value entry attempt _ hp
  | false =>
    refine .armWrite value entry attempt expected bucket swapped hp fun hsw => ?_
    rcases Store.swap_cases hs with ⟨-, -, _, rfl⟩ | ⟨hsw', -⟩
    · exact ⟨⟨a.version, bucket⟩, by simp [World.setJob, World.setHost], rfl⟩
    · rw [hsw] at hsw'
      cases hsw'

theorem view_storage : View hash w (w.storage hash host k a j) := by
  unfold World.storage
  dsimp only
  split
  · rename_i attempt hp
    exact view_readFor hj _ hp _ _ (.read attempt a.time hp _ rfl)
  · rename_i attempt cell time hp
    exact view_readFor hj _ hp _ _ (.source attempt cell time hp _ rfl)
  · rename_i attempt expected value hp
    exact view_grant hj attempt expected value hp
  · rename_i value hp
    exact view_readFor hj _ hp _ _ (.confirm value hp _ rfl)
  · rename_i value hp
    exact view_setJob (T := []) hj rfl (by simp) rfl
      fun hs => .commit _ _ _ (.submit value a.time hp) hs
  · rename_i entry attempt stage value hp
    exact view_arm hj value entry attempt stage hp
  · rename_i value hp
    exact view_commit hj value hp
  · exact view_refl w

/-! ### Completions and script logic -/

theorem view_finishAcquire (threw : Bool) (hp : j.phase = .acquiring (.finished threw)) :
    View hash w (w.play host ((w.hosts host).finishAcquire hash host k j threw env)) := by
  unfold Host.finishAcquire
  split
  · rename_i ht
    subst ht
    refine view_play (complete_local _ _ _ _ _) fun hh => ?_
    rw [hj, Host.complete_active]
    exact .threw j hp hh
  rename_i ht
  have hp' : j.phase = .acquiring (.finished false) := by rw [hp, Bool.eq_false_iff.2 ht]
  split
  · rename_i hs
    obtain ⟨metadataOnly, result, hc, hr⟩ := refuseAcquired_complete (w.hosts host) k hs
    rw [hc]
    refine view_play (complete_local _ _ _ _ _) fun hh => ?_
    rw [hj, Host.complete_active]
    exact .refuse j hp' hs metadataOnly result hr hh
  · rename_i hs
    have hr := runAcquired_runs hash host (w.hosts host) k j env
    refine view_play (hr.isLocal (learnOwner_slotOnly _ _ _)) fun hh => ?_
    rw [hj]
    exact .run j env _ hp' (not_not.1 hs) hr hh

theorem view_finish : View hash w (w.finish hash host k env j) := by
  unfold World.finish
  dsimp only
  split
  · exact view_refl w
  split
  · rename_i threw hp
    exact view_finishAcquire hj threw hp
  · rename_i threw value hp
    obtain ⟨result, uncertain, hc, hf⟩ := finishCommit_complete (w.hosts host) k j threw
    rw [hc]
    refine view_play (complete_local _ _ _ _ _) fun hh => ?_
    rw [hj, Host.complete_active]
    exact .finish j threw value hp result uncertain hf hh
  · exact view_refl w

end

theorem running_eq_some (hr : h.running k = some j) :
    h.active k = some j ∧ ∃ steps state, j.phase = .executing steps state := by
  unfold Host.running at hr
  split at hr
  · cases hr
  rename_i hj
  split at hr
  · rename_i steps state hp
    split at hr
    · cases hr
    · cases hr
      exact ⟨hj, steps, state, hp⟩
  · cases hr

theorem scripting_eq_some (hr : h.scripting k = some j) :
    h.active k = some j ∧ (∃ steps state, j.phase = .executing steps state) ∧ j.isNoop = false := by
  unfold Host.scripting at hr
  split at hr
  · cases hr
  rename_i hj
  split at hr
  · cases hr
  rename_i hnoop
  cases hr
  obtain ⟨hactive, hp⟩ := running_eq_some hj
  exact ⟨hactive, hp, by simpa using hnoop⟩

/-- A change of a job on its own host while its script runs. -/
theorem view_amend {f : Host → Host} {c : Counters} {sends : Nat → Option Send}
    (hr : (w.hosts host).scripting k = some j)
    (hf : f (w.hosts host) = { w.hosts host with counters := c, sends := sends }.setJob k j')
    (ha : j' = j ∨ Amends hash (w.hosts host).limits k j j')
    (hsent : j'.delivery.outbox ≠ [] → j.delivery.outbox ≠ [] ∨ (w.hosts host).Sent k) :
    View hash w (w.onHost host f) := by
  obtain ⟨hj, ⟨steps, state, hp⟩, hnoop⟩ := scripting_eq_some hr
  have hh : (w.onHost host f).hosts =
      update w.hosts host ({ w.hosts host with counters := c, sends := sends }.setJob k j') := by
    rw [← hf]
    rfl
  refine view_setJob (T := []) hj rfl (by simp) hh fun hs => ?_
  rcases ha with rfl | ha
  · exact .same _ _ (fun _ he => nomatch he) (.same hs.slot hs.release)
  · exact .amend j j' steps state hp ha hs hnoop hsent

theorem view_cancel (key : Bytes) : View hash w (w.onHost host fun h => h.cancel k key) := by
  cases hr : (w.hosts host).scripting k with
  | none => exact view_same (by simp only [Host.cancel, hr])
  | some j =>
    cases hc : cancelTimer (w.hosts host) ⟨j, (w.hosts host).counters⟩ key with
    | error =>
      exact view_same (by simp only [Host.cancel, hr, hc])
    | ok task =>
      have hstep : (w.hosts host).cancel k key =
          { w.hosts host with counters := task.counters, sends := (w.hosts host).sends }.setJob k task.job := by
        unfold Host.cancel
        simp only [hr, hc]
        rfl
      refine view_amend hr hstep (cancelTimer_ok hc) fun hne => .inl ?_
      rw [cancelTimer_delivery hc] at hne
      exact hne

theorem view_forget (ticket : Bytes) : View hash w (w.onHost host fun h => h.forget k ticket) := by
  cases hr : (w.hosts host).scripting k with
  | none => exact view_same (by simp only [Host.forget, hr])
  | some j =>
    have hstep : (w.hosts host).forget k ticket =
        { w.hosts host with counters := (w.hosts host).counters, sends := (w.hosts host).sends }.setJob k
          (forgetDelivery j ticket) := by
      unfold Host.forget
      simp only [hr]
    refine view_amend hr hstep (.inr (.forget ticket)) fun hne => .inl fun hnil => hne ?_
    show forgetOutbox ticket j.delivery.outbox = []
    rw [hnil]
    rfl

theorem view_finishSend {n : Nat} {send : Send} {status : Status} (hsend : (w.hosts host).sends n = some send)
    (hstage : send.stage = .finished status) :
    View hash w (w.onHost host fun h => h.finishSend hash n send status) := by
  have hrun : Host.scripting { w.hosts host with sends := update (w.hosts host).sends n none } send.entity =
      (w.hosts host).scripting send.entity := rfl
  have hquiet : Quiet hash w host (w.hosts host)
      { w.hosts host with sends := update (w.hosts host).sends n none } send.entity := by
    refine .config ?_ ?_ ?_ ?_ ?_ _ <;> rfl
  cases hr : (w.hosts host).scripting send.entity with
  | none =>
    refine view_onHost (k := send.entity) ?_
    unfold Host.finishSend
    simp only [hrun, hr]
    exact hquiet
  | some j =>
    by_cases hs : j.serial ≠ send.serial ∨ status ≠ .ok
    · refine view_onHost (k := send.entity) ?_
      unfold Host.finishSend
      simp only [hrun, hr, if_pos hs]
      exact hquiet
    cases hc : takeSend hash (w.hosts host).limits ⟨j, (w.hosts host).counters⟩ send with
    | error =>
      refine view_onHost (k := send.entity) ?_
      unfold Host.finishSend
      simp only [hrun, hr, if_neg hs, hc]
      exact hquiet
    | ok task =>
      have hstep : (w.hosts host).finishSend hash n send status =
          { w.hosts host with
            counters := task.counters
            sends := update (w.hosts host).sends n none }.setJob send.entity task.job := by
        unfold Host.finishSend
        simp only [hrun, hr, if_neg hs, hc]
        rfl
      rw [not_or, not_not, not_not] at hs
      refine view_amend hr hstep (.inr (takeSend_ok hc)) fun _ => .inr ⟨n, send, hsend, ?_, rfl⟩
      rw [hstage, hs.2]

theorem view_schedule (spec : EntityTimerSpec) (time : Int) :
    View hash w (w.play host ((w.hosts host).schedule k spec time)) := by
  unfold Host.schedule
  split
  · exact view_playIdle
  rename_i j hr
  obtain ⟨hj, ⟨steps, state, hp⟩, hnoop⟩ := scripting_eq_some hr
  split
  · exact view_playIdle
  rename_i task timer hs
  refine view_setJob hj rfl ?_ rfl fun hslot => ?_
  · intro e he
    rw [mem_singleton.1 he]
    rfl
  · exact .schedule j task.job steps state timer hp (scheduleTimer_ok hs) hslot hnoop

theorem view_acquire : View hash w (w.onHost host fun h => h.acquire k) := by
  cases hslot : (w.hosts host).slots k with
  | none => exact view_same (by simp only [Host.acquire, hslot])
  | some slot =>
    cases hq : slot.queue with
    | nil => exact view_same (by simp only [Host.acquire, hslot, hq])
    | cons request rest =>
      by_cases hbusy : (w.hosts host).stopped ∨ slot.busy ∨ ((w.hosts host).active k).isSome
      · exact view_same (by simp only [Host.acquire, hslot, hq, if_pos hbusy])
      have hstep : (w.hosts host).acquire k =
          ({ w.hosts host with serial := (w.hosts host).serial + 1 }.setSlot k
            { slot with queue := rest, busy := true }).setJob k ((w.hosts host).newJob slot request) := by
        unfold Host.acquire
        simp only [hslot, hq, if_neg hbusy]
        rfl
      rw [not_or, not_or] at hbusy
      have hnone : (w.hosts host).active k = none := by simpa using hbusy.2.2
      have hself : (w.onHost host fun h => h.acquire k).hosts host = (w.hosts host).acquire k := setHost_self ..
      refine view_at (k := k) (h := (w.hosts host).acquire k) (T := []) rfl rfl (by simp) ?_ ?_ ?_
      · rw [hstep]
        exact ⟨rfl, fun _ hk => update_of_ne hk _ _, fun _ hk => update_of_ne hk _ _, fun _ _ => rfl⟩
      · rw [hstep]
        exact Nat.le_succ _
      · rw [hnone, hstep, show (Host.setJob _ k ((w.hosts host).newJob slot request)).active k =
          some ((w.hosts host).newJob slot request) from update_self ..]
        refine .begin slot request rest hslot hq (by simpa using hbusy.2.1) ?_ ?_ ?_
        · rw [hself, hstep]
          rfl
        · rw [hself, hstep]
          exact update_self ..
        · rw [hself, hstep]
          rfl

theorem view_expireJob : View hash w (w.play host ((w.hosts host).expireJob k)) := by
  unfold Host.expireJob
  split
  · exact view_playIdle
  rename_i j hj
  split
  · rename_i steps state hp
    refine view_play (complete_local _ _ _ _ _) fun hh => ?_
    rw [hj, Host.complete_active]
    exact .timeOut j steps state hp hh
  · exact view_playIdle

theorem view_script (hr : (w.hosts host).running k = some j) (result : Result) :
    View hash w (w.play host ((w.hosts host).scriptResult hash host k j (j.answer result) env)) := by
  obtain ⟨hj, steps, state, hp⟩ := running_eq_some hr
  cases steps with
  | nil =>
    have hidle : (w.hosts host).scriptResult hash host k j (j.answer result) env = ⟨w.hosts host, []⟩ := by
      unfold Host.scriptResult
      rw [hp]
    rw [hidle]
    exact view_playIdle
  | cons hook rest =>
    have ha := scriptResult_answers hash host (w.hosts host) k hp (cons_ne_nil hook rest) (j.answer result) env
    refine view_play ha.isLocal fun hh => ?_
    rw [hj]
    refine .answer j _ state result env _ hp ha hh ?_
    simp only [World.step, hr]

/-! ### Releases, sends and services -/

theorem view_releaseStorage {stage : ReleaseStage} (hr : (w.hosts host).releases k = some stage) :
    View hash w (w.releaseStorage host k a stage) := by
  unfold World.releaseStorage
  split
  · refine view_quiet (k := k) (T := []) rfl rfl (by simp) (.setRelease hr ?_)
    split
    · exact .fail
    · exact .read
  · split
    · exact view_refl w
    · refine view_quiet (k := k) rfl rfl (fun e he => ?_) (.setRelease hr (.write _ _ _))
      obtain ⟨_, rfl⟩ := swapNews_mem he
      rfl
  · exact view_refl w

theorem view_sendStorage (n : Nat) (send : Send) : View hash w (w.sendStorage host n a send) := by
  have hquiet : ∀ next, Quiet hash w host (w.hosts host) ((w.hosts host).setSend n next) send.entity := by
    intro next
    refine .config ?_ ?_ ?_ ?_ ?_ _ <;> rfl
  unfold World.sendStorage
  dsimp only
  split
  · exact view_quiet (T := []) rfl rfl (by simp) (hquiet _)
  · exact view_quiet (T := []) rfl rfl (by simp) (hquiet _)
  · split
    · exact view_refl w
    · exact view_quiet (T := []) rfl rfl (by simp) (hquiet _)
  · exact view_refl w

theorem view_create (id : Bytes) (creation : EntityCreation) : View hash w (w.create id creation a) := by
  unfold World.create
  split
  · exact view_refl w
  split
  · exact view_refl w
  rename_i value _
  split
  · exact view_refl w
  dsimp only
  split
  · refine view_idle (show _ = [.created id ⟨a.version, value⟩] ++ w.trace from rfl) (fun e he => ?_) rfl
    rw [mem_singleton.1 he]
    rfl
  · exact view_idle (T := []) rfl (by simp) rfl

theorem view_stop : View hash w (w.onHost host Host.stop) := by
  have hself : (w.onHost host Host.stop).hosts host = (w.hosts host).stop := setHost_self ..
  refine view_host (T := []) rfl rfl (by simp) ⟨rfl, le_refl _⟩ (fun k _ _ _ hbegins => absurd rfl hbegins) fun k => ?_
  exact .stop _ (by rw [hself]; rfl) (by rw [hself]; rfl)

/-- What the services leave alone. -/
structure SameRecords (w w' : World) : Prop where
  hosts : w'.hosts = w.hosts
  entities : w'.entities = w.entities
  trace : w'.trace = w.trace

theorem sameRecords_scanBucket (n : Nat) (type id owner : Bytes) (time : Int) :
    SameRecords w (w.scanBucket n type id owner time) := by
  unfold World.scanBucket
  split
  · exact ⟨rfl, rfl, rfl⟩
  · dsimp only
    split <;> exact ⟨rfl, rfl, rfl⟩

theorem sameRecords_scanRecord (n : Nat) : SameRecords w (w.scanRecord n) := by
  unfold World.scanRecord
  split
  · exact ⟨rfl, rfl, rfl⟩
  · split
    · exact ⟨rfl, rfl, rfl⟩
    · split <;> exact ⟨rfl, rfl, rfl⟩

theorem sameRecords_scanWrite (n : Nat) : SameRecords w (w.scanWrite n a) := by
  unfold World.scanWrite
  split
  · exact ⟨rfl, rfl, rfl⟩
  · split
    · exact ⟨rfl, rfl, rfl⟩
    · split <;> exact ⟨rfl, rfl, rfl⟩

theorem sameRecords_deliveryScan (source : Bytes × Bytes) (n : Nat) : SameRecords w (w.deliveryScan source n) := by
  unfold World.deliveryScan
  split
  · exact ⟨rfl, rfl, rfl⟩
  split
  · exact ⟨rfl, rfl, rfl⟩
  dsimp only
  split
  · split <;> exact ⟨rfl, rfl, rfl⟩
  · split <;> exact ⟨rfl, rfl, rfl⟩

theorem sameRecords_retire (n : Nat) : SameRecords w (w.retire n a) := by
  unfold World.retire
  split
  · exact ⟨rfl, rfl, rfl⟩
  split
  · split
    · exact ⟨rfl, rfl, rfl⟩
    · split <;> exact ⟨rfl, rfl, rfl⟩
  split
  · exact ⟨rfl, rfl, rfl⟩
  · dsimp only
    split <;> exact ⟨rfl, rfl, rfl⟩

theorem view_service (hs : SameRecords w w') : View hash w w' :=
  view_idle (T := []) hs.trace (by simp) hs.hosts

/-- Every step moves every job one of the ways of `JobMove`. -/
theorem step_view (hash : Bytes → Bytes) (w : World) (action : Action) : View hash w (w.step hash action) := by
  have hconfig : ∀ host (h' : Host), h'.limits = (w.hosts host).limits → h'.active = (w.hosts host).active →
      h'.slots = (w.hosts host).slots → h'.releases = (w.hosts host).releases →
      h'.serial = (w.hosts host).serial → Quiet hash w host (w.hosts host) h' ⟨[], []⟩ :=
    fun _ _ hl ha hs hr hn => .config hl ha hs hr hn _
  cases action with
  | bind _ route method => exact view_onHost (.bindMethod route method ⟨[], []⟩)
  | unbind | enableDelivery | drain => exact view_onHost (hconfig _ _ rfl rfl rfl rfl rfl)
  | setPolicy _ route policy => exact view_onHost (.setPolicy route policy ⟨[], []⟩)
  | stop => exact view_stop
  | create id creation => exact view_create id creation
  | ask host ask live =>
    simp only [World.step]
    split
    · exact view_refl w
    · rename_i call hc
      exact view_onHost (.enqueue (.asked ask call hc) live)
  | acquire => exact view_acquire
  | expireQueued _ k position => exact view_onHost (.expireQueued k position)
  | expireJob => exact view_expireJob
  | evict _ k => exact view_onHost (.evict k)
  | deactivate _ k generation accepted => exact view_onHost (.deactivate k generation accepted)
  | storage host k a =>
    simp only [World.step]
    split
    · exact view_refl w
    · rename_i hj
      exact view_storage hj
  | finish host k env =>
    simp only [World.step]
    split
    · exact view_refl w
    · rename_i hj
      exact view_finish hj
  | releaseStorage host k a =>
    simp only [World.step]
    split
    · exact view_refl w
    · rename_i hr
      exact view_releaseStorage hr
  | finishRelease host k =>
    simp only [World.step]
    split
    · rename_i hr
      exact view_onHost (.finishRelease hr)
    · exact view_refl w
  | script host k result env =>
    simp only [World.step]
    split
    · exact view_refl w
    · rename_i j hr
      exact view_script hr result
  | schedule _ _ spec time => exact view_schedule spec time
  | cancel _ _ key => exact view_cancel key
  | forget _ _ ticket => exact view_forget ticket
  | startSend _ k n type id method payload => exact view_onHost (.startSend k n type id method payload)
  | sendStorage =>
    simp only [World.step]
    split
    · exact view_refl w
    · exact view_sendStorage _ _
  | finishSend host n =>
    simp only [World.step]
    split
    · exact view_refl w
    rename_i hsend
    split
    · rename_i hstage
      exact view_finishSend hsend hstage
    · exact view_refl w
  | scanBucket n type id owner time => exact view_service (sameRecords_scanBucket n type id owner time)
  | scanRecord n => exact view_service (sameRecords_scanRecord n)
  | scanWrite n => exact view_service (sameRecords_scanWrite n)
  | deliveryScan source n => exact view_service (sameRecords_deliveryScan source n)
  | retire n => exact view_service (sameRecords_retire n)

theorem step_trace_subset (hash : Bytes → Bytes) (w : World) (action : Action) :
    w.trace ⊆ (w.step hash action).trace := by
  obtain ⟨_, htrace, -⟩ := step_view hash w action
  rw [htrace]
  exact subset_append_right _ _

end Fsnet
