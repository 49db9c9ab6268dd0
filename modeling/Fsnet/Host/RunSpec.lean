import Fsnet.Host.Execute
import Fsnet.Host.CommitSpec
/-!
# What a host's turn does with a job

A turn of script logic ends the job, starts the next step, or sends the job to
the storage thread with a record. The relations below say so with the changes
to the job written out; the events of the turn come with them.
-/

namespace Fsnet

open Lib

variable {hash : Bytes → Bytes} {host : HostId} {limits : RuntimeLimits} {h : Host} {k : EntityKey} {env : Ambient}
  {task task' : Task}

/-! ## What every step keeps -/

/-- What a job keeps from its acquisition to its end. -/
structure Kept (j j' : Job) : Prop where
  serial : j'.serial = j.serial
  request : ∃ deliveryError, j'.request = { j.request with deliveryError } ∧
    (j.request.incoming = none → deliveryError = j.request.deliveryError)
  fence : j'.fence = j.fence

/-- A job whose other fields are set. -/
theorem Kept.set {j j' : Job} (h : (j'.serial, j'.request, j'.fence) = (j.serial, j.request, j.fence)) : Kept j j' := by
  simp only [Prod.mk.injEq] at h
  obtain ⟨hserial, hrequest, hfence⟩ := h
  exact ⟨hserial, ⟨_, hrequest, fun _ => rfl⟩, hfence⟩

theorem Kept.refl (j : Job) : Kept j j := .set rfl

theorem Kept.trans {a b c : Job} (h : Kept a b) (h' : Kept b c) : Kept a c := by
  obtain ⟨e, he, hnone⟩ := h.request
  obtain ⟨e', he', hnone'⟩ := h'.request
  have hsame : a.request.incoming = none → e' = a.request.deliveryError := by
    intro hin
    rw [he] at hnone'
    exact (hnone' hin).trans (hnone hin)
  exact ⟨h'.serial.trans h.serial, ⟨e', by rw [he', he], hsame⟩, h'.fence.trans h.fence⟩

/-- A job is ended early, without success. -/
structure Halts (j : Job) (e : Halt) : Prop where
  kept : Kept j e.2.job
  status : e.1.status ≠ .ok

variable {j j' : Job} {status : Status}

theorem halts_halt (hk : Kept j task.job) (hs : status ≠ .ok) : Halts j (halt task status) := ⟨hk, hs⟩

theorem Halts.of_kept {e : Halt} (h : Halts j' e) (hk : Kept j j') : Halts j e :=
  ⟨hk.trans h.kept, h.status⟩

/-- Whatever ends a part of the job's turn early ends the job. -/
abbrev MayHalt {α : Type} (j : Job) (x : Except Halt α) : Prop := Throws (Halts j) x

theorem MayHalt.of_kept {α : Type} {x : Except Halt α} (h : MayHalt j' x) (hk : Kept j j') : MayHalt j x :=
  h.mono fun _ he => he.of_kept hk

theorem orHalt_mayHalt {α : Type} {x : Except Failure α} (hk : Kept j task.job)
    (hs : status ≠ .ok) : MayHalt j (orHalt x task status) := by
  intro e h
  obtain ⟨-, rfl⟩ := orHalt_eq_error.1 h
  exact halts_halt hk hs

theorem refuseIf_mayHalt {c : Prop} [Decidable c] (hk : Kept j task.job) (hs : status ≠ .ok) :
    MayHalt j (refuseIf c (halt task status)) := .refuseIf fun _ => halts_halt hk hs

theorem recordReceipt_mayHalt : MayHalt task.job (recordReceipt limits task) := by
  unfold recordReceipt
  dsimp only
  split
  · exact .ok _
  · exact .bind (refuseIf_mayHalt (.refl _) (by decide)) fun _ _ => .ok _

theorem reserveTransient_mayHalt (slot : Option Slot) : MayHalt task.job (reserveTransient limits slot task) := by
  unfold reserveTransient
  split
  · exact .ok _
  · split
    · exact .error (halts_halt (.refl _) (by decide))
    · exact .bind (refuseIf_mayHalt (.refl _) (by decide)) fun _ _ => .ok _

theorem recordOutcome_mayHalt : MayHalt task.job (recordOutcome hash task) := by
  unfold recordOutcome
  split
  · exact .ok _
  · exact .bind (refuseIf_mayHalt (.refl _) (by decide)) fun _ _ => orHalt_mayHalt (.refl _) (by decide)

theorem checkDelivery_mayHalt : MayHalt task.job (checkDelivery limits task) := by
  unfold checkDelivery
  dsimp only
  split
  · exact .ok _
  · refine .bind (refuseIf_mayHalt (.refl _) (by decide)) fun _ _ => ?_
    exact .bind (orHalt_mayHalt (.refl _) (by decide)) fun _ _ => refuseIf_mayHalt (.refl _) (by decide)

theorem retainCommit_mayHalt : MayHalt task.job (retainCommit limits task) := by
  unfold retainCommit
  refine .bind (orHalt_mayHalt (.refl _) (by decide)) fun _ _ => ?_
  exact .bind (refuseIf_mayHalt (.refl _) (by decide)) fun _ _ => .ok _

theorem buildRecord_mayHalt : MayHalt task.job (buildRecord host k task) := by
  obtain ⟨_, _, -, hjob⟩ := indexEntry_markTimers k task.job
  unfold buildRecord
  rw [hjob]
  dsimp only
  split
  · exact .error (halts_halt (.set rfl) (by decide))
  split
  · exact .error (halts_halt (.set rfl) (by decide))
  · split
    · exact .error (halts_halt (.set rfl) (by decide))
    · exact .ok _

/-- A commit that is not built ends the job. -/
theorem buildCommit_mayHalt (result : Result) : MayHalt task.job (buildCommit hash host h k env task result) := by
  unfold buildCommit
  split
  · exact .error (halts_halt (.refl _) (by decide))
  -- each step either ends the job here or hands a kept job on
  have k1 : Kept task.job { task.job with rollback := [], deliveryRollback := none, timerRollback := none } := .set rfl
  refine .bind (orHalt_mayHalt k1 (by decide)) fun t2 h2 => ?_
  obtain ⟨_, _, _, _, -, e2⟩ := advanceFired_ok (orHalt_eq_ok.1 h2)
  have k2 : Kept task.job t2.job := .set (by rw [e2])
  refine .bind (refuseIf_mayHalt k2 (by decide)) fun _ _ => ?_
  refine .bind (orHalt_mayHalt k2 (by decide)) fun ⟨j3, st⟩ h3 => ?_
  obtain ⟨_, _, -, e3⟩ := commitAttributes_ok (orHalt_eq_ok.1 h3)
  have k4 : ∀ output, Kept task.job { j3 with state := st, output } := by
    rw [e3]
    exact fun _ => k2.trans (.set rfl)
  refine .bind (recordReceipt_mayHalt.of_kept (k4 _)) fun t5 h5 => ?_
  obtain ⟨_, -, e5⟩ := recordReceipt_ok h5
  have k5 : Kept task.job t5.job := (k4 []).trans (.set (by rw [e5]))
  refine .bind ((reserveTransient_mayHalt _).of_kept k5) fun t6 h6 => ?_
  obtain ⟨_, e6⟩ := reserveTransient_ok h6
  have k6 : Kept task.job t6.job := k5.trans (.set (by rw [e6]))
  refine .bind (recordOutcome_mayHalt.of_kept k6) fun t7 h7 => ?_
  obtain ⟨_, _, -, e7⟩ := recordOutcome_ok h7
  have k7 : Kept task.job t7.job := k6.trans (.set (by rw [e7]))
  refine .bind (refuseIf_mayHalt k7 (by decide)) fun _ _ => ?_
  refine .bind (checkDelivery_mayHalt.of_kept k7) fun _ _ => ?_
  refine .bind (retainCommit_mayHalt.of_kept k7) fun t9 h9 => ?_
  obtain ⟨_, e9⟩ := retainCommit_ok h9
  have k9 : Kept task.job t9.job := k7.trans (.set (by rw [e9]))
  refine .bind (buildRecord_mayHalt.of_kept k9) fun t10 h10 => ?_
  obtain ⟨_, _, _, _, _, -, -, e10, -⟩ := buildRecord_ok h10
  have k10 : Kept task.job t10.job := k9.trans (.set (by rw [e10]))
  exact .bind (refuseIf_mayHalt k10 (by decide)) fun _ _ => .ok _

/-! ## The end of script logic -/

/-- The job and the result after a handler's refusal of a delivery was settled. -/
inductive Settles (j : Job) (result : Result) : Job → Result → Prop
  | ok (hs : result.status = .ok) : Settles j result j result
  | declined (hi : j.request.incoming.isSome = true) (hl : j.logicStarted = true)
      (hs : result.status = .rejected ∨ result.status = .notFound) :
    Settles j result
      { j with deliveryResult := some result, metadataOnly := true, delivery := j.deliveryRollback.getD {}
               timers := j.timerRollback.getD {}, timerDirty := false }
      ⟨.ok, stateMessage j.rollback []⟩

theorem Settles.kept {r r' : Result} (h : Settles j r j' r') : Kept j j' := by
  cases h with
  | ok => exact .refl _
  | declined => exact .set rfl

theorem settleResult_ok {result result' : Result} (hs : settleResult task result = .ok (task', result')) :
    Settles task.job result task'.job result' := by
  unfold settleResult at hs
  dsimp only at hs
  split at hs
  · rename_i hok
    cases hs
    exact .ok hok
  split at hs
  · rename_i hd
    cases hs
    exact .declined hd.1 hd.2.1 hd.2.2
  · cases hs

theorem settleResult_mayHalt (result : Result) : MayHalt task.job (settleResult task result) := by
  unfold settleResult
  dsimp only
  split
  · exact .ok _
  rename_i hok
  split
  · exact .ok _
  · exact .error ⟨.refl _, hok⟩

/-- The policy of the job's method, if it has one, lets the caller through. -/
def Allowed (h : Host) (k : EntityKey) (live : Bool) (request : Request) : Prop :=
  ∀ policy, h.policyOf request = some policy → policy.allows request.identity live (h.ownerFor k policy) = true

theorem authorizeCommit_ok {u : Unit} (ha : authorizeCommit h k env task = .ok u) :
    task.job.metadataOnly = false → Allowed h k env.live task.job.request := by
  unfold authorizeCommit at ha
  simp only [bind_eq_ok, refuseIf_eq_ok] at ha
  obtain ⟨_, -, _, -, ha⟩ := ha
  intro hm _ hp
  rw [hp] at ha
  simp only [refuseIf_eq_ok, not_and, Bool.not_eq_false] at ha
  exact ha hm

theorem authorizeCommit_mayHalt : MayHalt task.job (authorizeCommit h k env task) := by
  unfold authorizeCommit
  refine .bind (refuseIf_mayHalt (.refl _) (by decide)) fun _ _ => ?_
  refine .bind (refuseIf_mayHalt (.refl _) (by decide)) fun _ _ => ?_
  split
  · exact .ok _
  · exact refuseIf_mayHalt (.refl _) (by decide)

/-- The check events of a turn: each is of this job, and a call other than a delivery was allowed there. -/
def CheckEvents (h : Host) (k : EntityKey) (live : Bool) (j : Job) (checks : List HostEvent) : Prop :=
  ∀ e ∈ checks, ∃ j', e = .checked k j' (h.policyOf j'.request) live ∧ Kept j j' ∧
    (j.request.incoming = none → Allowed h k live j'.request)

/-- The check before a commit. -/
def CommitChecks (h : Host) (k : EntityKey) (live : Bool) (j : Job) (checks : List HostEvent) : Prop :=
  (j.metadataOnly = true ∧ checks = []) ∨
    (j.metadataOnly = false ∧ Allowed h k live j.request ∧ checks = [.checked k j (h.policyOf j.request) live])

theorem CommitChecks.events {live : Bool} {checks : List HostEvent} (hc : CommitChecks h k live j' checks)
    (hk : Kept j j') : CheckEvents h k live j checks := by
  rcases hc with ⟨-, rfl⟩ | ⟨-, ha, rfl⟩
  · exact fun e he => nomatch he
  · intro e he
    rw [List.mem_singleton] at he
    exact ⟨j', he, hk, fun _ => ha⟩

/-- How the end of script logic goes on: the job is ended, or committed. -/
inductive Concludes (hash : Bytes → Bytes) (host : HostId) (h : Host) (k : EntityKey) (env : Ambient) (j : Job)
    (result : Result) : Turn → Prop
  | ended (c : Counters) (j' : Job) (r : Result) (checks : List HostEvent) (hk : Kept j j') (hs : r.status ≠ .ok)
      (hc : CheckEvents h k env.live j checks) :
    Concludes hash host h k env j result
      ⟨({ h with counters := c }.complete k j' r).host, checks ++ [.replied k j' r]⟩
  | commits (c : Counters) (j₁ : Job) (r₁ : Result) (j' : Job) (value : StoredRecord) (checks : List HostEvent)
      (hs : Settles j result j₁ r₁) (hb : Built hash host h.limits k env.now j₁ r₁ j' value)
      (hc : CommitChecks h k env.live j₁ checks) :
    Concludes hash host h k env j result ⟨{ h with counters := c }.setJob k j', checks⟩

theorem finishScript_concludes (hash : Bytes → Bytes) (host : HostId) (h : Host) (k : EntityKey) (j : Job)
    (result : Result) (env : Ambient) :
    Concludes hash host h k env j result (h.finishScript hash host k j result env) := by
  have hnone : CheckEvents h k env.live j [] := fun e he => nomatch he
  unfold Host.finishScript
  split
  · rename_i r t hs
    have hh := settleResult_mayHalt _ _ hs
    exact .ended t.counters t.job r [] hh.kept hh.status hnone
  rename_i t r hs
  have hset := settleResult_ok hs
  split
  · rename_i r' t' ha
    have hh := authorizeCommit_mayHalt _ ha
    exact .ended t'.counters t'.job r' [] (hset.kept.trans hh.kept) hh.status hnone
  rename_i ha
  have hcheck : CommitChecks h k env.live t.job
      (if t.job.metadataOnly then [] else [.checked k t.job (h.policyOf t.job.request) env.live]) := by
    cases hm : t.job.metadataOnly with
    | true => exact .inl ⟨hm, rfl⟩
    | false => exact .inr ⟨hm, authorizeCommit_ok ha hm, rfl⟩
  dsimp only
  split
  · rename_i r' t' hb
    have hh := buildCommit_mayHalt _ _ hb
    exact .ended t'.counters t'.job r' _ (hset.kept.trans hh.kept) hh.status (hcheck.events hset.kept)
  · rename_i t' hb
    obtain ⟨value, hbuilt⟩ := buildCommit_ok hb
    exact .commits t'.counters t.job r t'.job value _ hset hbuilt hcheck

/-! ## Steps of script logic -/

/-- The job while a step of script logic runs. -/
def Job.starting (j : Job) (resident : Nat) (hook : Hook) (rest : List Hook) (state : Bytes) : Job :=
  { j with resident, phase := .executing (hook :: rest) state, logicStarted := j.logicStarted || rest.isEmpty }

/-- How a restored job, or one whose hook has ended, goes on. -/
inductive Proceeds (hash : Bytes → Bytes) (host : HostId) (h : Host) (k : EntityKey) (env : Ambient) (j : Job) :
    List Hook → Bytes → Turn → Prop
  | concludes (steps : List Hook) (state : Bytes) (result : Result) (turn : Turn)
      (hc : Concludes hash host h k env j result turn) (hr : result.status = .ok → steps = []) :
    Proceeds hash host h k env j steps state turn
  | starts (c : Counters) (resident : Nat) (hook : Hook) (rest : List Hook) (state : Bytes) :
    Proceeds hash host h k env j (hook :: rest) state
      ⟨{ h with counters := c }.setJob k (j.starting resident hook rest state),
        [.started k (j.starting resident hook rest state) hook]⟩

theorem advance_proceeds (hash : Bytes → Bytes) (host : HostId) (h : Host) (k : EntityKey) (j : Job)
    {steps : List Hook} (state : Bytes) (env : Ambient) (hs : steps ≠ []) :
    Proceeds hash host h k env j steps state (h.advance hash host k j steps state env) := by
  unfold Host.advance
  split
  · exact absurd rfl hs
  rename_i hook rest
  split
  · exact .concludes _ _ _ _ (finishScript_concludes ..) (by rintro ⟨⟩)
  · split
    · exact .concludes _ _ _ _ (finishScript_concludes ..) (by rintro ⟨⟩)
    · exact .starts h.counters j.resident hook rest state

/-- The accounts of a host do not matter for how a job goes on. -/
theorem Concludes.of_counters {c : Counters} {result : Result} {turn : Turn}
    (hc : Concludes hash host { h with counters := c } k env j result turn) :
    Concludes hash host h k env j result turn := by
  cases hc with
  | ended c' j' r checks hk hs hc => exact .ended c' j' r checks hk hs hc
  | commits c' j₁ r₁ j' value checks hs hb hc => exact .commits c' j₁ r₁ j' value checks hs hb hc

theorem chain_ne_nil (h : Host) (k : EntityKey) (j : Job) : h.chain k j ≠ [] := by
  unfold Host.chain
  split
  · split <;> exact List.cons_ne_nil _ _
  · simp

/-- What a step's answer leads to. -/
inductive Answers (hash : Bytes → Bytes) (host : HostId) (h : Host) (k : EntityKey) (env : Ambient) (j : Job)
    (result : Result) : Turn → Prop
  | concludes (resident : Nat) (result' : Result) (turn : Turn)
      (hc : Concludes hash host h k env { j with resident } result' turn)
      (hl : result'.status = .ok → result.status = .ok ∧ ∃ last before, j.phase = .executing [last] before) :
    Answers hash host h k env j result turn
  | starts (c : Counters) (resident : Nat) (done hook : Hook) (rest : List Hook) (before state : Bytes)
      (hp : j.phase = .executing (done :: hook :: rest) before) (hok : result.status = .ok) :
    Answers hash host h k env j result
      ⟨{ h with counters := c }.setJob k (j.starting resident hook rest state),
        [.started k (j.starting resident hook rest state) hook]⟩

theorem scriptResult_answers {steps : List Hook} {before : Bytes} (hash : Bytes → Bytes) (host : HostId)
    (h : Host) (k : EntityKey) (hp : j.phase = .executing steps before) (hne : steps ≠ []) (result : Result)
    (env : Ambient) : Answers hash host h k env j result (h.scriptResult hash host k j result env) := by
  unfold Host.scriptResult
  rw [hp]
  obtain ⟨done, rest, rfl⟩ := List.exists_cons_of_ne_nil hne
  dsimp only
  split
  · rename_i hstop
    refine .concludes j.resident _ _ (finishScript_concludes ..) fun hok => ⟨hok, done, before, ?_⟩
    rw [hp, List.isEmpty_iff.1 (hstop.resolve_right (not_not.2 hok))]
  rename_i hcont
  split
  · exact .concludes j.resident _ _ (finishScript_concludes ..) (by rintro ⟨⟩)
  rename_i next _ _
  split
  · exact .concludes j.resident _ _ (finishScript_concludes ..) (by rintro ⟨⟩)
  rw [not_or, not_not, List.isEmpty_iff] at hcont
  obtain ⟨hrest, hok⟩ := hcont
  obtain ⟨c, r, ht⟩ : ∃ c r, Task.grow ⟨j, h.counters⟩ (5 * (next.length - before.length)) =
      ⟨{ j with resident := r }, c⟩ := ⟨_, _, rfl⟩
  rw [ht]
  have hadv := advance_proceeds hash host { h with counters := c } k { j with resident := r } next env hrest
  generalize Host.advance hash host { h with counters := c } k { j with resident := r } rest next env = turn at hadv ⊢
  cases hadv with
  | concludes _ _ result' _ hc hr =>
    exact .concludes r result' turn hc.of_counters fun hok => absurd (hr hok) hrest
  | starts c' r' hook rest' => exact .starts c' r' done hook rest' before next hp hok

/-! ## From the record to script logic -/

/-- A job that was let through to its record. -/
structure Admitted (h : Host) (k : EntityKey) (env : Ambient) (j j' : Job) : Prop where
  same : j' = { j with delivery := j'.delivery, request := j'.request, metadataOnly := j'.metadataOnly }
  delivery : j'.delivery = j.delivery ∨ (j.delivery.epoch = 0 ∧ j'.delivery = { j.delivery with epoch := j.version })
  request : (j'.request = j.request ∧ j'.metadataOnly = j.metadataOnly) ∨
    (j.request.incoming.isSome = true ∧ j.replay = false ∧ j'.metadataOnly = true ∧
      j'.request = { j.request with deliveryError := some ⟨.rejected, []⟩ })
  allowed : j.request.incoming = none → Allowed h k env.live j'.request

theorem Admitted.kept (ha : Admitted h k env j j') : Kept j j' := by
  have hreq : ∃ deliveryError, j'.request = { j.request with deliveryError } ∧
      (j.request.incoming = none → deliveryError = j.request.deliveryError) := by
    rcases ha.request with ⟨hr, -⟩ | ⟨hin, -, -, hr⟩
    · exact ⟨_, hr, fun _ => rfl⟩
    · refine ⟨_, hr, fun hn => ?_⟩
      rw [hn] at hin
      cases hin
  rw [ha.same] at hreq ⊢
  exact ⟨rfl, hreq, rfl⟩

theorem admitAcquired_ok (ha : admitAcquired h env task = .ok task') :
    ∃ delivery, task'.job = { task.job with delivery } ∧ (delivery = task.job.delivery ∨
      (task.job.delivery.epoch = 0 ∧ delivery = { task.job.delivery with epoch := task.job.version })) := by
  unfold admitAcquired at ha
  simp only [bind_eq_ok, refuseIf_eq_ok] at ha
  obtain ⟨_, -, _, -, ha⟩ := ha
  cases ha
  refine ⟨_, rfl, ?_⟩
  split
  · rename_i he
    exact .inr ⟨he.2, rfl⟩
  · exact .inl rfl

theorem admitAcquired_mayHalt : MayHalt task.job (admitAcquired h env task) := by
  unfold admitAcquired
  refine .bind (refuseIf_mayHalt (.refl _) (by decide)) fun _ _ => ?_
  exact .bind (refuseIf_mayHalt (.set rfl) (by decide)) fun _ _ => .ok _

theorem authorizeCall_ok {u : Unit} (ha : authorizeCall h k env task = .ok u) :
    Allowed h k env.live task.job.request := by
  unfold authorizeCall at ha
  intro _ hp
  rw [hp] at ha
  simp only [bind_eq_ok, refuseIf_eq_ok, Bool.not_eq_false] at ha
  obtain ⟨_, -, ha⟩ := ha
  exact ha

theorem authorizeDelivery_cases (h : Host) (k : EntityKey) (env : Ambient) (j : Job) :
    authorizeDelivery h k env j = j ∨ (j.replay = false ∧ authorizeDelivery h k env j =
      { j with request := { j.request with deliveryError := some ⟨.rejected, []⟩ }, metadataOnly := true }) := by
  unfold authorizeDelivery
  split
  · exact .inl rfl
  split
  · rename_i hr
    exact .inr ⟨hr.1, rfl⟩
  · exact .inl rfl

theorem admit_ok (ha : (admitAcquired h env task >>= authorize h k env) = .ok task') :
    Admitted h k env task.job task'.job := by
  obtain ⟨t, h1, h2⟩ := bind_eq_ok.1 ha
  obtain ⟨delivery, hjob, hdel⟩ := admitAcquired_ok h1
  unfold authorize at h2
  split at h2
  · rename_i hin
    cases h2
    dsimp only
    rw [hjob] at hin ⊢
    have hin' : task.job.request.incoming.isSome = true := hin
    have hcall : task.job.request.incoming = none → ∀ r, Allowed h k env.live r := by
      intro hn
      rw [hn] at hin'
      cases hin'
    rcases authorizeDelivery_cases h k env { task.job with delivery } with hsame | ⟨hr, hrej⟩
    · rw [hsame]
      exact ⟨rfl, hdel, .inl ⟨rfl, rfl⟩, fun hn => hcall hn _⟩
    · rw [hrej]
      exact ⟨rfl, hdel, .inr ⟨hin', hr, rfl, rfl⟩, fun hn => hcall hn _⟩
  · obtain ⟨_, h3, h4⟩ := bind_eq_ok.1 h2
    cases h4
    have hall := authorizeCall_ok h3
    rw [hjob] at hall ⊢
    exact ⟨rfl, hdel, .inl ⟨rfl, rfl⟩, fun _ => hall⟩

theorem admit_mayHalt : MayHalt task.job (admitAcquired h env task >>= authorize h k env) := by
  refine .bind admitAcquired_mayHalt fun t h1 => ?_
  obtain ⟨_, hjob, -⟩ := admitAcquired_ok h1
  have hk : Kept task.job t.job := .set (by rw [hjob])
  unfold authorize
  split
  · exact .ok _
  refine .bind ?_ fun _ _ => .ok _
  unfold authorizeCall
  split
  · exact .ok _
  · exact .bind (refuseIf_mayHalt hk (by decide)) fun _ _ => refuseIf_mayHalt hk (by decide)

/-- The state a job runs on. -/
def RestoredState (h : Host) (slot : Slot) (j : Job) (state : Bytes) (attributes : Option AttributeCommit) : Prop :=
  ((h.schemaOf j.request = none ∨ j.metadataOnly = true) ∧ state = j.state ∧ attributes = j.attributes) ∨
    ∃ schema full, h.schemaOf j.request = some schema ∧ j.metadataOnly = false ∧
      restoreImage schema slot j = .ok (full, state) ∧ attributes = some ⟨schema, full, imageUpdate 0 []⟩

/-- What a delivery has to go back to. -/
def KeepsRollback (j : Job) (rollback : Bytes) (delivery : Option EntityDeliveryState)
    (timers : Option EntityTimerState) : Prop :=
  (j.request.incoming.isSome = true ∧ j.metadataOnly = false ∧ rollback = j.state ∧ delivery = some j.delivery ∧
      timers = some j.timers) ∨
    ((j.request.incoming = none ∨ j.metadataOnly = true) ∧ rollback = j.rollback ∧ delivery = j.deliveryRollback ∧
      timers = j.timerRollback)

/-- Whether the activation hook is due. -/
def dueActivation (slot : Slot) (j : Job) : Bool :=
  !slot.activated || !j.previouslyOwned || slot.activationFence ≠ j.previousFence

/-- A job that is ready to run, over the slot of its entity. -/
structure Restored (h : Host) (slot : Slot) (j j' : Job) : Prop where
  same : j' = { j with
    timerCharge := j'.timerCharge, resident := j'.resident, state := j'.state, attributes := j'.attributes
    activating := dueActivation slot j, rollback := j'.rollback, deliveryRollback := j'.deliveryRollback
    timerRollback := j'.timerRollback }
  state : ∃ charge resident, RestoredState h slot { j with timerCharge := charge, resident } j'.state j'.attributes
  rollback : KeepsRollback { j with state := j'.state } j'.rollback j'.deliveryRollback j'.timerRollback

theorem Restored.kept {slot : Slot} (hr : Restored h slot j j') : Kept j j' := by
  rw [hr.same]
  exact .set rfl

theorem chargeLoaded_ok (hc : chargeLoaded limits task = .ok task') :
    ∃ charge resident, task'.job = { task.job with timerCharge := charge, resident } := by
  unfold chargeLoaded at hc
  simp only [bind_eq_ok] at hc
  obtain ⟨_, -, _, -, _, -, hc⟩ := hc
  cases hc
  exact ⟨_, _, rfl⟩

theorem chargeLoaded_mayHalt : MayHalt task.job (chargeLoaded limits task) := by
  unfold chargeLoaded
  refine .bind (orHalt_mayHalt (.refl _) (by decide)) fun _ _ => ?_
  refine .bind (orHalt_mayHalt (.set rfl) (by decide)) fun _ _ => ?_
  exact .bind (refuseIf_mayHalt (.set rfl) (by decide)) fun _ _ => .ok _

theorem restoreAttributes_ok {slot : Slot} (hr : restoreAttributes h slot task = .ok task') :
    ∃ resident state attributes, task'.job = { task.job with resident, state, attributes } ∧
      RestoredState h slot task.job state attributes := by
  unfold restoreAttributes at hr
  split at hr
  · rename_i hn
    cases hr
    exact ⟨_, _, _, rfl, .inl ⟨.inl hn, rfl, rfl⟩⟩
  rename_i schema hs
  split at hr
  · rename_i hm
    cases hr
    exact ⟨_, _, _, rfl, .inl ⟨.inr hm, rfl, rfl⟩⟩
  rename_i hm
  simp only [bind_eq_ok, orHalt_eq_ok] at hr
  obtain ⟨⟨full, _⟩, himage, _, -, hr⟩ := hr
  cases hr
  exact ⟨_, _, _, rfl, .inr ⟨schema, full, hs, by simpa using hm, himage, rfl⟩⟩

theorem restoreAttributes_mayHalt (slot : Slot) : MayHalt task.job (restoreAttributes h slot task) := by
  unfold restoreAttributes
  split
  · exact .ok _
  split
  · exact .ok _
  · refine .bind (orHalt_mayHalt (.refl _) (by decide)) fun _ _ => ?_
    exact .bind (refuseIf_mayHalt (.refl _) (by decide)) fun _ _ => .ok _

theorem keepRollback_ok (hk : keepRollback limits task = .ok task') :
    ∃ resident rollback delivery timers,
      task'.job = { task.job with resident, rollback, deliveryRollback := delivery, timerRollback := timers } ∧
      KeepsRollback task.job rollback delivery timers := by
  unfold keepRollback at hk
  dsimp only at hk
  split at hk
  · rename_i hin
    simp only [bind_eq_ok] at hk
    obtain ⟨_, -, _, -, hk⟩ := hk
    cases hk
    exact ⟨_, _, _, _, rfl, .inl ⟨hin.1, hin.2, rfl, rfl, rfl⟩⟩
  rename_i hin
  cases hk
  refine ⟨_, _, _, _, rfl, .inr ⟨?_, rfl, rfl, rfl⟩⟩
  cases hi : task.job.request.incoming with
  | none => exact .inl rfl
  | some =>
    right
    by_contra hm
    exact hin ⟨by rw [hi]; rfl, by simpa using hm⟩

theorem keepRollback_mayHalt : MayHalt task.job (keepRollback limits task) := by
  unfold keepRollback
  dsimp only
  split
  · refine .bind (orHalt_mayHalt (.refl _) (by decide)) fun _ _ => ?_
    exact .bind (refuseIf_mayHalt (.refl _) (by decide)) fun _ _ => .ok _
  · exact .ok _

theorem restoreJob_ok (hr : restoreJob h k env task = .ok task') :
    ∃ slot, h.slots k = some slot ∧ Restored h slot task.job task'.job := by
  unfold restoreJob at hr
  obtain ⟨t1, h1, hr⟩ := bind_eq_ok.1 hr
  split at hr
  · cases hr
  rename_i slot hslot
  simp only [bind_eq_ok] at hr
  obtain ⟨_, h2, _, -, h3⟩ := hr
  obtain ⟨charge, r1, e1⟩ := chargeLoaded_ok h1
  obtain ⟨_, _, _, e2, hstate⟩ := restoreAttributes_ok h2
  obtain ⟨_, _, _, _, e3, hroll⟩ := keepRollback_ok h3
  rw [e1] at hstate e2
  rw [e2] at hroll e3
  refine ⟨slot, hslot, ?_⟩
  rw [e3]
  exact ⟨rfl, ⟨charge, r1, hstate⟩, hroll⟩

theorem restoreJob_mayHalt : MayHalt task.job (restoreJob h k env task) := by
  unfold restoreJob
  refine .bind chargeLoaded_mayHalt fun t1 h1 => ?_
  obtain ⟨_, _, e1⟩ := chargeLoaded_ok h1
  have k1 : Kept task.job t1.job := .set (by rw [e1])
  split
  · exact .error (halts_halt k1 (by decide))
  refine .bind ((restoreAttributes_mayHalt _).of_kept k1) fun t2 h2 => ?_
  obtain ⟨_, _, _, e2, -⟩ := restoreAttributes_ok h2
  have k2 : Kept task.job t2.job := k1.trans (.set (by rw [e2]))
  refine .bind (refuseIf_mayHalt k2 (by decide)) fun _ _ => ?_
  exact keepRollback_mayHalt.of_kept (k2.trans (.set rfl))

/-- How the turn of an acquired job goes; `h` has learned the record's owner. -/
inductive Runs (hash : Bytes → Bytes) (host : HostId) (h : Host) (k : EntityKey) (env : Ambient) (j : Job) :
    Turn → Prop
  | refused (c : Counters) (j' : Job) (r : Result) (hk : Kept j j') (hs : r.status ≠ .ok) :
    Runs hash host h k env j ⟨({ h with counters := c }.complete k j' r).host, [.replied k j' r]⟩
  | failed (c : Counters) (j₁ j' : Job) (r : Result) (ha : Admitted h k env j j₁) (hk : Kept j j')
      (hs : r.status ≠ .ok) :
    Runs hash host h k env j ⟨({ h with counters := c }.complete k j' r).host,
      [.checked k j₁ (h.policyOf j₁.request) env.live, .replied k j' r]⟩
  | replayed (c : Counters) (j₁ : Job) (ha : Admitted h k env j j₁) (hr : j.replay = true) :
    Runs hash host h k env j ⟨({ h with counters := c }.complete k j₁ ⟨.ok, j.output⟩).host,
      [.checked k j₁ (h.policyOf j₁.request) env.live, .replied k j₁ ⟨.ok, j.output⟩]⟩
  | concludes (j₁ j₂ : Job) (slot : Slot) (turn : Turn) (ha : Admitted h k env j j₁) (hr : j.replay = false)
      (hslot : h.slots k = some slot) (hres : Restored h slot j₁ j₂) (result : Result)
      (hm : result.status = .ok → j₂.metadataOnly = true)
      (hres' : j₂.metadataOnly = true → result = ⟨.ok, stateMessage j₂.state []⟩)
      (hc : Concludes hash host h k env j₂ result turn) :
    Runs hash host h k env j ⟨turn.host, .checked k j₁ (h.policyOf j₁.request) env.live :: turn.events⟩
  | starts (c : Counters) (j₁ j₂ : Job) (slot : Slot) (ha : Admitted h k env j j₁) (hr : j.replay = false)
      (hslot : h.slots k = some slot) (hres : Restored h slot j₁ j₂) (hm : j₂.metadataOnly = false) (resident : Nat)
      (hook : Hook) (rest : List Hook) (hchain : h.chain k j₂ = hook :: rest) :
    Runs hash host h k env j ⟨{ h with counters := c }.setJob k (j₂.starting resident hook rest j₂.state),
      [.checked k j₁ (h.policyOf j₁.request) env.live,
        .started k (j₂.starting resident hook rest j₂.state) hook]⟩

theorem runAcquired_runs (hash : Bytes → Bytes) (host : HostId) (h : Host) (k : EntityKey) (j : Job) (env : Ambient) :
    Runs hash host (h.learnOwner k j) k env j (h.runAcquired hash host k j env) := by
  unfold Host.runAcquired
  generalize h.learnOwner k j = h
  dsimp only
  split
  · rename_i r t ha
    have hh := admit_mayHalt _ ha
    exact .refused t.counters t.job r hh.kept hh.status
  rename_i t ha
  have hadm := admit_ok ha
  have hreplay : t.job.replay = j.replay := by rw [hadm.same]
  have hout : t.job.output = j.output := by rw [hadm.same]
  split
  · rename_i hr
    rw [hout]
    exact .replayed t.counters t.job hadm (hreplay ▸ hr)
  rename_i hr
  have hr' : j.replay = false := by
    rw [← hreplay]
    simpa using hr
  split
  · rename_i r t' hres
    have hh := restoreJob_mayHalt _ hres
    exact .failed t'.counters t.job t'.job r hadm (hadm.kept.trans hh.kept) hh.status
  rename_i t' hres
  obtain ⟨slot, hslot, hrest⟩ := restoreJob_ok hres
  unfold Host.execute
  split
  · rename_i hm
    refine .concludes t.job t'.job slot _ hadm hr' hslot hrest ⟨.ok, stateMessage t'.job.state []⟩
      (fun _ => hm) (fun _ => rfl) ?_
    exact Concludes.of_counters (finishScript_concludes ..)
  rename_i hm
  have hadv := advance_proceeds hash host { h with counters := t'.counters } k t'.job t'.job.state env
    (chain_ne_nil { h with counters := t'.counters } k t'.job)
  generalize hchain : Host.chain { h with counters := t'.counters } k t'.job = steps at hadv ⊢
  generalize Host.advance hash host { h with counters := t'.counters } k t'.job steps t'.job.state env = turn at hadv ⊢
  cases hadv with
  | concludes _ _ result _ hc hok =>
    refine .concludes t.job t'.job slot turn hadm hr' hslot hrest result (fun h => ?_) (fun h => absurd h hm)
      hc.of_counters
    exact absurd (hchain.trans (hok h)) (chain_ne_nil _ _ _)
  | starts c resident hook rest =>
    exact .starts c t.job t'.job slot hadm hr' hslot hrest (by simpa using hm) resident hook rest hchain

end Fsnet
