import Mathlib.Data.List.Nodup
import Mathlib.Algebra.GroupWithZero.Nat
import Fsnet.Lib.Runs
import Fsnet.Lib.Schedules
/-!
# The storage executor

`AsyncDatabase`: one worker thread runs storage operations, and the thread that
polls runs their completions. Every step below is what one thread does between two
acquisitions of the mutex, so a list of actions is an interleaving of the threads.
`E` is the type of what an operation throws.
-/

namespace Fsnet.AsyncDatabase

open Lib List Function

variable {E : Type}

structure StorageLimits where
  jobs : Nat := 256
  bytes : Nat := 16 * 1024 * 1024
  jobs_pos : 0 < jobs := by decide
  bytes_pos : 0 < bytes := by decide

/-- What a completion is called with: what the operation threw, or that it was cancelled before execution. -/
inductive JobError (E : Type) where
  | thrown (e : E)
  | cancelled
  deriving DecidableEq, Repr

/-- A job by its place in the order of admission. -/
structure Job (E : Type) where
  id : Nat
  bytes : Nat
  error : Option (JobError E) := none

/-- Where the worker is: waiting, with an operation to run, with one that ran, or returned. -/
inductive Worker (E : Type) where
  | waiting
  | executing (job : Job E)
  | executed (job : Job E)
  | returned

/-- The job that is in none of the queues. -/
def Worker.active : Worker E → List (Job E)
  | .waiting => []
  | .executing job => [job]
  | .executed job => [job]
  | .returned => []

inductive StopMode where
  | drain
  | cancelQueued
  deriving DecidableEq, Repr

/-- Where `stop` is: not called, with the jobs it took still to be marked, waiting for the worker, or returned. -/
inductive Stopping (E : Type) where
  | idle
  | marking (abandoned : List (Job E))
  | joining (abandoned : List (Job E))
  | returned

def Stopping.abandoned : Stopping E → List (Job E)
  | .idle => []
  | .marking abandoned => abandoned
  | .joining abandoned => abandoned
  | .returned => []

/-- A completion that was called. -/
structure Delivery (E : Type) where
  id : Nat
  error : Option (JobError E)

structure Executor (E : Type) where
  limits : StorageLimits
  queued : List (Job E) := []
  completed : List (Job E) := []
  count : Nat := 0
  bytes : Nat := 0
  stopped : Bool := false
  /-- the work and the budget of the poll that runs -/
  polling : Option (Nat × Nat) := none
  worker : Worker E := .waiting
  stopping : Stopping E := .idle
  -- what happened: the sizes of the jobs that were accepted, the mode of the stop, the
  -- operations that were run and the completions that were called
  accepted : List Nat := []
  mode : Option StopMode := none
  ran : List Nat := []
  delivered : List (Delivery E) := []

inductive Action (E : Type) where
  | submit (bytes : Nat)
  | work (thrown : Option E)
  | poll (budget : Nat)
  | advancePoll (throws : Bool)
  | stop (mode : StopMode)
  | advanceStop

namespace Executor

variable (x : Executor E)

/-- `submit`. Says whether the job was accepted. -/
def submit (bytes : Nat) : Executor E × Bool :=
  if x.stopped ∨ x.count ≥ x.limits.jobs ∨ bytes > x.limits.bytes - x.bytes then (x, false)
  else
    ({ x with
      queued := x.queued ++ [⟨x.accepted.length, bytes, none⟩]
      count := x.count + 1
      bytes := x.bytes + bytes
      accepted := x.accepted ++ [bytes] }, true)

/-- The worker takes a job, runs its operation and hands it to the completions; it
returns when it is stopped and finds no job. -/
def work (thrown : Option E) : Executor E :=
  match x.worker with
  | .waiting =>
    match x.queued with
    | [] => if x.stopped then { x with worker := .returned } else x
    | job :: rest => { x with queued := rest, worker := .executing job }
  | .executing job =>
    { x with worker := .executed { job with error := thrown.map .thrown }, ran := x.ran ++ [job.id] }
  | .executed job => { x with completed := x.completed ++ [job], worker := .waiting }
  | .returned => x

/-- `poll` starts; a recursive poll throws. -/
def poll (budget : Nat) : Executor E :=
  match x.polling with
  | none => { x with polling := some (0, budget) }
  | some _ => x

/-- One turn of the loop of `poll`; a completion that throws ends it. -/
def advancePoll (throws : Bool) : Executor E :=
  match x.polling with
  | none => x
  | some (work, budget) =>
    if work < budget then
      match x.completed with
      | [] => { x with polling := none }
      | job :: rest =>
        { x with
          completed := rest
          count := x.count - 1
          bytes := x.bytes - job.bytes
          polling := if throws then none else some (work + 1, budget)
          delivered := x.delivered ++ [⟨job.id, job.error⟩] }
    else { x with polling := none }

/-- `stop` is called, once. -/
def stop (mode : StopMode) : Executor E :=
  match x.stopping with
  | .idle =>
    match mode with
    | .drain => { x with stopped := true, stopping := .marking [], mode := some mode }
    | .cancelQueued => { x with stopped := true, queued := [], stopping := .marking x.queued, mode := some mode }
  | _ => x

/-- `stop` goes on: the jobs it took are marked, and follow the last one of the worker. -/
def advanceStop : Executor E :=
  match x.stopping with
  | .idle => x
  | .marking abandoned =>
    { x with stopping := .joining (abandoned.map fun job => { job with error := some .cancelled }) }
  | .joining abandoned =>
    match x.worker with
    | .returned => { x with completed := x.completed ++ abandoned, stopping := .returned }
    | _ => x
  | .returned => x

def step : Action E → Executor E
  | .submit bytes => (x.submit bytes).1
  | .work thrown => x.work thrown
  | .poll budget => x.poll budget
  | .advancePoll throws => x.advancePoll throws
  | .stop mode => x.stop mode
  | .advanceStop => x.advanceStop

def init (limits : StorageLimits) : Executor E := { limits }

/-- The jobs whose completion was not called, in the order it will be. -/
def undelivered : List (Job E) :=
  x.completed ++ x.worker.active ++ x.stopping.abandoned ++ x.queued

end Executor

/-- What a step does. -/
inductive Effect (x : Executor E) : Action E → Executor E → Prop
  | refuse (bytes : Nat) : Effect x (.submit bytes) x
  | accept (bytes : Nat) (hs : x.stopped = false) (hc : x.count < x.limits.jobs)
      (hb : bytes ≤ x.limits.bytes - x.bytes) :
    Effect x (.submit bytes) { x with
      queued := x.queued ++ [⟨x.accepted.length, bytes, none⟩]
      count := x.count + 1
      bytes := x.bytes + bytes
      accepted := x.accepted ++ [bytes] }
  | wait (thrown : Option E) (hs : x.stopped = false ∨ x.worker = .returned) : Effect x (.work thrown) x
  | leave (thrown : Option E) (hw : x.worker = .waiting) (hq : x.queued = []) (hs : x.stopped = true) :
    Effect x (.work thrown) { x with worker := .returned }
  | take (thrown : Option E) {job : Job E} {rest : List (Job E)} (hw : x.worker = .waiting)
      (hq : x.queued = job :: rest) :
    Effect x (.work thrown) { x with queued := rest, worker := .executing job }
  | execute (thrown : Option E) {job : Job E} (hw : x.worker = .executing job) :
    Effect x (.work thrown)
      { x with worker := .executed { job with error := thrown.map .thrown }, ran := x.ran ++ [job.id] }
  | complete (thrown : Option E) {job : Job E} (hw : x.worker = .executed job) :
    Effect x (.work thrown) { x with completed := x.completed ++ [job], worker := .waiting }
  | recursive (budget : Nat) (hp : x.polling ≠ none) : Effect x (.poll budget) x
  | poll (budget : Nat) (hp : x.polling = none) : Effect x (.poll budget) { x with polling := some (0, budget) }
  | finish (throws : Bool) (hp : ∀ {work budget}, x.polling = some (work, budget) → work < budget → x.completed = []) :
    Effect x (.advancePoll throws) { x with polling := none }
  | deliver {throws : Bool} {polling : Option (Nat × Nat)} (job : Job E) (rest : List (Job E))
      (hc : x.completed = job :: rest) (hp : throws = true → polling = none) :
    Effect x (.advancePoll throws) { x with
      completed := rest
      count := x.count - 1
      bytes := x.bytes - job.bytes
      polling
      delivered := x.delivered ++ [⟨job.id, job.error⟩] }
  | again (mode : StopMode) (hs : x.stopping ≠ .idle) : Effect x (.stop mode) x
  | drain (hs : x.stopping = .idle) :
    Effect x (.stop .drain) { x with stopped := true, stopping := .marking [], mode := some .drain }
  | cancel (hs : x.stopping = .idle) :
    Effect x (.stop .cancelQueued)
      { x with stopped := true, queued := [], stopping := .marking x.queued, mode := some .cancelQueued }
  | mark {abandoned : List (Job E)} (hs : x.stopping = .marking abandoned) :
    Effect x .advanceStop
      { x with stopping := .joining (abandoned.map fun job => { job with error := some .cancelled }) }
  | join {abandoned : List (Job E)} (hs : x.stopping = .joining abandoned) (hw : x.worker = .returned) :
    Effect x .advanceStop { x with completed := x.completed ++ abandoned, stopping := .returned }
  | rest (hs : x.stopping = .idle ∨ x.stopping = .returned ∨ x.worker ≠ .returned) : Effect x .advanceStop x

theorem step_effect (x : Executor E) (a : Action E) : Effect x a (x.step a) := by
  cases a with
  | submit bytes =>
    dsimp only [Executor.step, Executor.submit]
    split
    · exact .refuse bytes
    · rename_i hfits
      push Not at hfits
      exact .accept bytes (by simpa using hfits.1) hfits.2.1 hfits.2.2
  | work thrown =>
    dsimp only [Executor.step, Executor.work]
    split
    · rename_i hw
      split
      · rename_i hq
        split
        · rename_i hs
          exact .leave thrown hw hq hs
        · rename_i hs
          exact .wait thrown (.inl (by simpa using hs))
      · rename_i hq
        exact .take thrown hw hq
    · rename_i hw
      exact .execute thrown hw
    · rename_i hw
      exact .complete thrown hw
    · rename_i hw
      exact .wait thrown (.inr hw)
  | poll budget =>
    dsimp only [Executor.step, Executor.poll]
    split
    · rename_i hp
      exact .poll budget hp
    · rename_i hp
      exact .recursive budget (by simp [hp])
  | advancePoll throws =>
    dsimp only [Executor.step, Executor.advancePoll]
    split
    · rename_i hp
      have heq : x = { x with polling := none } := by rw [← hp]
      nth_rewrite 2 [heq]
      exact .finish throws (by simp [hp])
    · rename_i hp
      split
      · split
        · rename_i hc
          exact .finish throws fun _ _ => hc
        · rename_i hc
          exact .deliver _ _ hc fun ht => if_pos ht
      · rename_i hmore
        refine .finish throws fun hp' hless => ?_
        rw [hp] at hp'
        cases hp'
        exact absurd hless hmore
  | stop mode =>
    dsimp only [Executor.step, Executor.stop]
    split
    · rename_i hs
      cases mode with
      | drain => exact .drain hs
      | cancelQueued => exact .cancel hs
    · rename_i hs
      exact .again mode hs
  | advanceStop =>
    dsimp only [Executor.step, Executor.advanceStop]
    split
    · rename_i hs
      exact .rest (.inl hs)
    · rename_i hs
      exact .mark hs
    · rename_i hs
      split
      · rename_i hw
        exact .join hs hw
      · rename_i hw
        exact .rest (.inr (.inr hw))
    · rename_i hs
      exact .rest (.inr (.inl hs))

/-! ## What is pending -/

/-- The jobs and their sizes are accounted for, in the order of admission. -/
structure Accounts (x : Executor E) : Prop where
  order : x.delivered.map Delivery.id ++ x.undelivered.map Job.id = List.range x.accepted.length
  sizes : x.undelivered.map Job.bytes = x.accepted.drop x.delivered.length
  count : x.count = x.undelivered.length
  bytes : x.bytes = (x.undelivered.map Job.bytes).sum
  jobs_le : x.count ≤ x.limits.jobs
  bytes_le : x.bytes ≤ x.limits.bytes

/-- How far the worker and `stop` can be. -/
structure Phases (x : Executor E) : Prop where
  idle : x.stopping = .idle ↔ x.stopped = false
  drain : x.mode ≠ some .cancelQueued → x.stopping.abandoned = []
  cancel : x.mode = some .cancelQueued → x.queued = []
  mode : x.mode.isSome = x.stopped
  worker : x.worker = .returned → x.stopped = true ∧ x.queued = []
  returned : x.stopping = .returned → x.worker = .returned

variable {x : Executor E}

theorem Phases.abandoned_eq_nil (h : Phases x) (hq : x.queued ≠ []) : x.stopping.abandoned = [] :=
  h.drain fun hm => hq (h.cancel hm)

namespace Accounts

section

variable (h : Accounts x)
include h

/-- A job changes its queue but not its place. -/
theorem of_eq {y : Executor E} (hu : y.undelivered.map (fun j => (j.id, j.bytes)) =
      x.undelivered.map fun j => (j.id, j.bytes))
    (hd : y.delivered = x.delivered) (ha : y.accepted = x.accepted) (hc : y.count = x.count) (hb : y.bytes = x.bytes)
    (hl : y.limits = x.limits) : Accounts y := by
  have hids : y.undelivered.map Job.id = x.undelivered.map Job.id := by
    simpa [map_map, comp_def] using congrArg (List.map Prod.fst) hu
  have hbytes : y.undelivered.map Job.bytes = x.undelivered.map Job.bytes := by
    simpa [map_map, comp_def] using congrArg (List.map Prod.snd) hu
  have hlength : y.undelivered.length = x.undelivered.length := by simpa using congrArg List.length hu
  exact ⟨by rw [hd, hids, ha, h.order], by rw [hbytes, ha, hd, h.sizes], by rw [hc, hlength, h.count],
    by rw [hb, hbytes, h.bytes], by rw [hc, hl]; exact h.jobs_le, by rw [hb, hl]; exact h.bytes_le⟩

theorem length_delivered_le : x.delivered.length + x.undelivered.length = x.accepted.length := by
  simpa using congrArg List.length h.order

theorem step (hp : Phases x) {a : Action E} {y : Executor E} (hs : Effect x a y) : Accounts y := by
  cases hs with
  | refuse | wait | recursive | again | rest => exact h
  | poll | finish => exact h.of_eq rfl rfl rfl rfl rfl rfl
  | accept bytes _ hc hb =>
    have hu : Executor.undelivered { x with
        queued := x.queued ++ [⟨x.accepted.length, bytes, none⟩], count := x.count + 1, bytes := x.bytes + bytes,
        accepted := x.accepted ++ [bytes] } = x.undelivered ++ [⟨x.accepted.length, bytes, none⟩] := by
      simp [Executor.undelivered]
    have hlength := h.length_delivered_le
    have hcount := h.count
    have hle := h.bytes_le
    refine ⟨?_, ?_, ?_, ?_, ?_, ?_⟩
    · rw [hu, map_append, ← append_assoc, h.order]
      simp [range_succ]
    · rw [hu, map_append, h.sizes]
      dsimp only
      rw [drop_append_of_le_length (by omega)]
      rfl
    · rw [hu]
      simp [hcount]
    · rw [hu]
      simp [h.bytes]
    · dsimp only
      omega
    · dsimp only
      omega
  | leave _ hw | execute _ hw | complete _ hw =>
    exact h.of_eq (by simp [Executor.undelivered, hw, Worker.active]) rfl rfl rfl rfl rfl
  | take _ hw hq =>
    -- there are no abandoned jobs between the completed ones and the queue
    have hnone := hp.abandoned_eq_nil (by simp [hq])
    exact h.of_eq (by simp [Executor.undelivered, hw, hq, hnone, Worker.active]) rfl rfl rfl rfl rfl
  | deliver job rest hc =>
    have hu : x.undelivered = job :: (rest ++ x.worker.active ++ x.stopping.abandoned ++ x.queued) := by
      simp [Executor.undelivered, hc]
    have horder := h.order
    have hsizes := h.sizes
    have hcount := h.count
    have hbytes := h.bytes
    have hjobs := h.jobs_le
    have hle := h.bytes_le
    rw [hu] at horder hsizes hcount hbytes
    simp only [map_cons, sum_cons, length_cons] at horder hsizes hcount hbytes
    refine ⟨?_, ?_, ?_, ?_, ?_, ?_⟩
    · simpa [Executor.undelivered] using horder
    · have htail := congrArg List.tail hsizes
      rw [tail_cons, tail_drop] at htail
      simpa [Executor.undelivered] using htail
    · simp only [Executor.undelivered]
      omega
    · simp only [Executor.undelivered]
      omega
    · dsimp only
      omega
    · dsimp only
      omega
  | drain hs | cancel hs => exact h.of_eq (by simp [Executor.undelivered, hs, Stopping.abandoned]) rfl rfl rfl rfl rfl
  | mark hs =>
    refine h.of_eq ?_ rfl rfl rfl rfl rfl
    simp [Executor.undelivered, hs, Stopping.abandoned, comp_def]
  | join hs hw =>
    exact h.of_eq (by simp [Executor.undelivered, hs, hw, Stopping.abandoned, Worker.active]) rfl rfl rfl rfl rfl

/-- The job the worker has is none of the others. -/
theorem active_ne {job : Job E} (hw : x.worker = .executing job) :
    (∀ d ∈ x.delivered, d.id ≠ job.id) ∧ (∀ j ∈ x.completed, j.id ≠ job.id) ∧
      ∀ j ∈ x.stopping.abandoned ++ x.queued, j.id ≠ job.id := by
  have hnodup : (x.delivered.map Delivery.id ++ x.undelivered.map Job.id).Nodup := h.order ▸ nodup_range
  have hsplit : x.delivered.map Delivery.id ++ x.undelivered.map Job.id =
      (x.delivered.map Delivery.id ++ x.completed.map Job.id) ++
        job.id :: (x.stopping.abandoned ++ x.queued).map Job.id := by
    simp [Executor.undelivered, hw, Worker.active]
  rw [hsplit, nodup_middle, nodup_cons] at hnodup
  have hnot := hnodup.1
  simp only [mem_append, mem_map, not_or, not_exists, not_and] at hnot ⊢
  exact ⟨hnot.1.1, hnot.1.2, fun j hj => hnot.2 j hj⟩

end

end Accounts

theorem Phases.step (h : Phases x) {a : Action E} {y : Executor E} (hs : Effect x a y) : Phases y := by
  have hidle : ∀ s : Stopping E, x.stopping ≠ .idle → s ≠ .idle → (s = .idle ↔ x.stopped = false) := by
    intro s hs hs'
    rw [← h.idle]
    exact ⟨fun he => absurd he hs', fun he => absurd he hs⟩
  -- a worker that has not returned holds `stop` back
  have hwaits : ∀ w : Worker E, x.worker ≠ .returned → x.stopping = .returned → w = .returned :=
    fun _ hw hr => absurd (h.returned hr) hw
  cases hs with
  | accept _ hs =>
    refine { h with cancel := fun hm => ?_, worker := fun hw => ?_ }
    · have := h.mode
      rw [hm, hs] at this
      cases this
    · have := (h.worker hw).1
      rw [hs] at this
      cases this
  | leave _ _ hq hs => exact { h with worker := fun _ => ⟨hs, hq⟩, returned := fun _ => rfl }
  | take _ hw hq =>
    refine { h with cancel := fun hm => ?_, worker := fun hr => (nomatch hr), returned := hwaits _ (by simp [hw]) }
    have := h.cancel hm
    rw [hq] at this
    cases this
  | execute _ hw | complete _ hw =>
    exact { h with worker := fun hr => (nomatch hr), returned := hwaits _ (by simp [hw]) }
  | drain =>
    exact { h with
      idle := by simp
      drain := fun _ => rfl
      cancel := fun hm => (nomatch hm)
      mode := rfl
      worker := fun hw => ⟨rfl, (h.worker hw).2⟩
      returned := fun hr => (nomatch hr) }
  | cancel =>
    exact { h with
      idle := by simp
      drain := fun hm => absurd rfl hm
      cancel := fun _ => rfl
      mode := rfl
      worker := fun _ => ⟨rfl, rfl⟩
      returned := fun hr => (nomatch hr) }
  | mark hs =>
    refine { h with
      idle := hidle _ (by simp [hs]) (by simp), drain := fun hm => ?_, returned := fun hr => (nomatch hr) }
    have := h.drain hm
    rw [hs] at this
    cases this
    rfl
  | join hs hw =>
    exact { h with idle := hidle _ (by simp [hs]) (by simp), drain := fun _ => rfl, returned := fun _ => hw }
  | _ => exact { h with }

/-! ## What becomes of an operation -/

/-- The job is marked as cancelled if, and only if, its operation was not run. -/
def Settled (ran : List Nat) (id : Nat) (error : Option (JobError E)) : Prop := id ∉ ran ↔ error = some .cancelled

theorem Settled.run {ran : List Nat} {id : Nat} {error : Option (JobError E)} (h : Settled ran id error) {other : Nat}
    (hne : id ≠ other) : Settled (ran ++ [other]) id error := by
  unfold Settled at h ⊢
  rw [← h, mem_append, mem_singleton]
  simp [hne]

structure Fates (x : Executor E) : Prop where
  nodup : x.ran.Nodup
  known : ∀ id ∈ x.ran, id < x.accepted.length
  waiting : ∀ job ∈ x.stopping.abandoned ++ x.queued, job.id ∉ x.ran
  executing : ∀ {job}, x.worker = .executing job → job.id ∉ x.ran
  executed : ∀ {job}, x.worker = .executed job → job.id ∈ x.ran ∧ job.error ≠ some .cancelled
  marked : ∀ {abandoned}, x.stopping = .joining abandoned → ∀ job ∈ abandoned, job.error = some .cancelled
  completed : ∀ job ∈ x.completed, Settled x.ran job.id job.error
  delivered : ∀ d ∈ x.delivered, Settled x.ran d.id d.error
  drain : x.mode ≠ some .cancelQueued →
    (∀ job ∈ x.completed, job.error ≠ some .cancelled) ∧ ∀ d ∈ x.delivered, d.error ≠ some .cancelled

theorem Fates.step (h : Fates x) (ha : Accounts x) (hp : Phases x) {a : Action E} {y : Executor E} (hs : Effect x a y) :
    Fates y := by
  cases hs with
  | accept bytes =>
    refine { h with known := ?_, waiting := ?_ }
    · intro id hid
      have := h.known id hid
      simp only [length_append, length_singleton]
      omega
    · intro job hj
      rw [← append_assoc, mem_append, mem_singleton] at hj
      rcases hj with hj | rfl
      · exact h.waiting job hj
      · intro hmem
        exact absurd (h.known _ hmem) (Nat.lt_irrefl _)
  | leave => exact { h with executing := fun he => (nomatch he), executed := fun he => (nomatch he) }
  | take _ _ hq =>
    refine { h with waiting := ?_, executing := ?_, executed := fun he => (nomatch he) }
    · intro j hj
      refine h.waiting j ?_
      rw [hq]
      rcases mem_append.1 hj with hj | hj
      · exact mem_append_left _ hj
      · exact mem_append_right _ (mem_cons_of_mem _ hj)
    · rintro j hj
      cases hj
      exact h.waiting _ (by simp [hq])
  | execute thrown hw =>
    rename_i job
    obtain ⟨hdelivered, hcompleted, hwaiting⟩ := ha.active_ne hw
    have hnot := h.executing hw
    have hlt : job.id < x.accepted.length := by
      have hmem : job.id ∈ x.delivered.map Delivery.id ++ x.undelivered.map Job.id := by
        simp [Executor.undelivered, hw, Worker.active]
      rw [ha.order] at hmem
      exact mem_range.1 hmem
    refine { h with
      nodup := ?_, known := ?_, waiting := ?_, executing := fun he => (nomatch he), executed := ?_
      completed := ?_, delivered := ?_ }
    · exact nodup_append'.2 ⟨h.nodup, nodup_singleton _, by simpa using hnot⟩
    · intro id hid
      rcases mem_append.1 hid with hid | hid
      · exact h.known id hid
      · rw [mem_singleton.1 hid]
        exact hlt
    · intro j hj hmem
      rcases mem_append.1 hmem with hmem | hmem
      · exact h.waiting j hj hmem
      · exact hwaiting j hj (mem_singleton.1 hmem)
    · intro j hj
      cases hj
      exact ⟨by simp, by cases thrown <;> simp⟩
    · intro j hj
      exact (h.completed j hj).run (hcompleted j hj)
    · intro d hd
      exact (h.delivered d hd).run (hdelivered d hd)
  | complete _ hw =>
    obtain ⟨hran, herror⟩ := h.executed hw
    refine { h with
      executing := fun he => (nomatch he), executed := fun he => (nomatch he), completed := ?_, drain := ?_ }
    · intro j hj
      rcases mem_append.1 hj with hj | hj
      · exact h.completed j hj
      · rw [mem_singleton.1 hj]
        exact ⟨fun hnot => absurd hran hnot, fun he => absurd he herror⟩
    · intro hm
      refine ⟨fun j hj => ?_, (h.drain hm).2⟩
      rcases mem_append.1 hj with hj | hj
      · exact (h.drain hm).1 j hj
      · rw [mem_singleton.1 hj]
        exact herror
  | deliver job rest hc =>
    have hjob : job ∈ x.completed := hc ▸ mem_cons_self
    have hrest : ∀ j ∈ rest, j ∈ x.completed := fun j hj => hc ▸ mem_cons_of_mem _ hj
    refine { h with completed := fun j hj => h.completed j (hrest j hj), delivered := ?_, drain := ?_ }
    · intro d hd
      rcases mem_append.1 hd with hd | hd
      · exact h.delivered d hd
      · rw [mem_singleton.1 hd]
        exact h.completed job hjob
    · intro hm
      refine ⟨fun j hj => (h.drain hm).1 j (hrest j hj), fun d hd => ?_⟩
      rcases mem_append.1 hd with hd | hd
      · exact (h.drain hm).2 d hd
      · rw [mem_singleton.1 hd]
        exact (h.drain hm).1 job hjob
  | drain hs =>
    have hmode : x.mode ≠ some .cancelQueued := by
      intro hm
      have := hp.mode
      rw [hm, hp.idle.1 hs] at this
      cases this
    exact { h with
      waiting := fun job hj => h.waiting job (mem_append_right _ hj)
      marked := fun he => (nomatch he)
      drain := fun _ => h.drain hmode }
  | cancel =>
    refine { h with waiting := ?_, marked := fun he => (nomatch he), drain := fun hm => absurd rfl hm }
    intro job hj
    exact h.waiting job (mem_append_right _ (by simpa [Stopping.abandoned] using hj))
  | mark hs =>
    have hwaiting := h.waiting
    rw [hs] at hwaiting
    refine { h with waiting := ?_, marked := ?_ }
    · intro job hj
      rcases mem_append.1 hj with hj | hj
      · obtain ⟨job', hj', rfl⟩ := mem_map.1 hj
        exact hwaiting job' (mem_append_left _ hj')
      · exact hwaiting job (mem_append_right _ hj)
    · intro l hl job hj
      cases hl
      obtain ⟨_, -, rfl⟩ := mem_map.1 hj
      rfl
  | join hs =>
    have hwaiting := h.waiting
    rw [hs] at hwaiting
    refine { h with waiting := ?_, marked := fun he => (nomatch he), completed := ?_, drain := ?_ }
    · intro job hj
      exact hwaiting job (mem_append_right _ hj)
    · intro job hj
      rcases mem_append.1 hj with hj | hj
      · exact h.completed job hj
      · have herror := h.marked hs job hj
        exact ⟨fun _ => herror, fun _ => hwaiting job (mem_append_left _ hj)⟩
    · intro hm
      have hnone := hp.drain hm
      rw [hs] at hnone
      cases hnone
      simpa using h.drain hm
  | _ => exact { h with }

end Fsnet.AsyncDatabase
