import Fsnet.Storage.Executor
/-!
# Completions

What the storage executor guarantees about the jobs it accepted: their completions
are called once and in the order of admission, they are called for all of them if
polling goes on after a stop, and what is pending stays within the limits.
-/

namespace Fsnet.AsyncDatabase

open Lib

variable {E : Type} {x : Executor E}

structure Holds (limits : StorageLimits) (x : Executor E) : Prop where
  accounts : Accounts x
  phases : Phases x
  fates : Fates x
  limits : x.limits = limits

theorem Holds.init (limits : StorageLimits) : Holds limits (Executor.init limits : Executor E) where
  accounts := ⟨rfl, rfl, rfl, rfl, Nat.zero_le _, Nat.zero_le _⟩
  phases := by constructor <;> simp [Executor.init, Stopping.abandoned]
  fates := by constructor <;> simp [Executor.init, Stopping.abandoned]
  limits := rfl

/-- The limits stay, and after a stop so do the stop and the jobs that were accepted. -/
theorem Effect.keeps {a : Action E} {y : Executor E} (h : Effect x a y) :
    y.limits = x.limits ∧ (x.stopped = true → y.stopped = true ∧ y.accepted = x.accepted) := by
  cases h with
  | accept _ hs => exact ⟨rfl, fun hstopped => absurd (hs.symm.trans hstopped) (by simp)⟩
  | drain | cancel => exact ⟨rfl, fun _ => ⟨rfl, rfl⟩⟩
  | _ => exact ⟨rfl, fun hs => ⟨hs, rfl⟩⟩

theorem Holds.step {limits : StorageLimits} (h : Holds limits x) (a : Action E) : Holds limits (x.step a) := by
  have he := step_effect x a
  exact ⟨h.accounts.step h.phases he, h.phases.step he, h.fates.step h.accounts h.phases he, he.keeps.1.trans h.limits⟩

/-! ## After a stop -/

def Worker.weight : Worker E → Nat
  | .waiting => 1
  | .executing _ => 4
  | .executed _ => 3
  | .returned => 0

def Stopping.weight : Stopping E → Nat
  | .idle => 0
  | .marking _ => 2
  | .joining _ => 1
  | .returned => 0

/-- The steps that are still needed, once no more jobs are accepted. -/
def Executor.left (x : Executor E) : Nat :=
  x.completed.length + x.stopping.abandoned.length + 4 * x.queued.length + x.worker.weight + x.stopping.weight

/-- A poll is running that may still call a completion. -/
def Executor.Polling (x : Executor E) : Prop := ∃ work budget, x.polling = some (work, budget) ∧ work < budget

/-- The action finds nothing to do. -/
def Executor.Stuck (x : Executor E) : Action E → Prop
  | .work _ => x.worker = .returned
  | .advancePoll _ => x.Polling → x.completed = []
  | .advanceStop => x.worker = .returned → x.stopping = .returned
  | _ => True

/-- After a stop, every step brings the end nearer, or finds nothing to do and only starts or ends a poll. -/
theorem Effect.left {a : Action E} {y : Executor E} (he : Effect x a y) (hs : x.stopped = true)
    (hi : x.stopping ≠ .idle) :
    y.left < x.left ∨ (∃ polling, y = { x with polling }) ∧ x.Stuck a := by
  cases he with
  | accept _ hs' => exact absurd (hs'.symm.trans hs) (by simp)
  | drain hs | cancel hs => exact absurd hs hi
  | refuse | recursive | again => exact .inr ⟨⟨x.polling, rfl⟩, trivial⟩
  | poll => exact .inr ⟨⟨_, rfl⟩, trivial⟩
  | wait _ hw => exact .inr ⟨⟨x.polling, rfl⟩, hw.resolve_left (by simp [hs])⟩
  | finish _ hp => exact .inr ⟨⟨_, rfl⟩, fun ⟨_, _, hpolling, hless⟩ => hp hpolling hless⟩
  | rest hr => exact .inr ⟨⟨x.polling, rfl⟩, fun hw => (hr.resolve_left hi).resolve_right (absurd hw)⟩
  | leave _ hw => simp [Executor.left, hw, Worker.weight]
  | take _ hw hq =>
    simp only [Executor.left, hw, hq, Worker.weight, List.length_cons]
    omega
  | execute _ hw =>
    simp only [Executor.left, hw, Worker.weight]
    omega
  | complete _ hw =>
    simp only [Executor.left, hw, Worker.weight, List.length_append, List.length_singleton]
    omega
  | deliver _ _ hc =>
    simp only [Executor.left, hc, List.length_cons]
    omega
  | mark hs =>
    simp only [Executor.left, hs, Stopping.abandoned, Stopping.weight, List.length_map]
    omega
  | join hs =>
    simp only [Executor.left, hs, Stopping.abandoned, Stopping.weight, List.length_append, List.length_nil]
    omega

/-- Only a poll itself ends it. -/
theorem Effect.polling {a : Action E} {y : Executor E} (he : Effect x a y) {p : Nat × Nat} (hp : x.polling = some p)
    (ha : ∀ throws, a ≠ .advancePoll throws) : y.polling = some p := by
  cases he with
  | poll _ hnone => exact absurd (hnone.symm.trans hp) (by simp)
  | finish throws | deliver => exact absurd rfl (ha _)
  | _ => exact hp

/-- All threads go on, and polls that may call completions start again and again. -/
structure Fair (x : Executor E) (σ : Nat → Action E) : Prop where
  works : Recurs Executor.step x σ fun _ a => ∃ thrown, a = .work thrown
  stops : Recurs Executor.step x σ fun _ a => a = .advanceStop
  polls : Recurs Executor.step x σ fun _ a => ∃ throws, a = .advancePoll throws
  starts : Recurs Executor.step x σ fun y a => y.polling = none ∧ ∃ budget, 0 < budget ∧ a = .poll budget

/-- The states after a stop in which so much is left to do. -/
structure Pending (limits : StorageLimits) (n : Nat) (x : Executor E) : Prop where
  holds : Holds limits x
  stopped : x.stopped = true
  left : x.left = n

namespace Pending

variable {limits : StorageLimits} {n : Nat} {σ : Nat → Action E}

theorem not_idle (h : Pending limits n x) : x.stopping ≠ .idle := by
  intro he
  have := h.holds.phases.idle.1 he
  rw [h.stopped] at this
  cases this

theorem step (h : Pending limits n x) (a : Action E) :
    (x.step a).left < n ∨ Pending limits n (x.step a) ∧ (∃ polling, x.step a = { x with polling }) ∧ x.Stuck a := by
  rcases (step_effect x a).left h.stopped h.not_idle with hless | ⟨⟨polling, heq⟩, hstuck⟩
  · exact .inl (h.left ▸ hless)
  refine .inr ⟨⟨h.holds.step a, ?_, ?_⟩, ⟨polling, heq⟩, hstuck⟩
  · rw [heq]
    exact h.stopped
  · rw [heq]
    exact h.left

section

variable (hf : Fair x σ) {k : Nat} (h : Pending limits n (after Executor.step x σ k))
include hf h

omit hf in
/-- An action that comes again and again, and does not get stuck, lowers what is left. -/
theorem of_recurs {P : Executor E → Prop} {A : Action E → Prop} (hr : Recurs Executor.step x σ fun _ a => A a)
    (hP : ∀ y polling, P y → P { y with polling }) (hA : ∀ y a, P y → y.Stuck a → ¬A a)
    (hp : P (after Executor.step x σ k)) : ∃ m, (after Executor.step x σ m).left < n := by
  refine eventually_of_recurs (R := fun y => y.left < n) (Q := fun y => Pending limits n y ∧ P y) ?_ hr ⟨h, hp⟩
  rintro y a ⟨hy, hp⟩
  rcases hy.step a with hless | ⟨hy', ⟨polling, heq⟩, hstuck⟩
  · exact .inl hless
  refine .inr ⟨⟨hy', ?_⟩, hA y a hp hstuck⟩
  rw [heq]
  exact hP y polling hp

theorem of_worker (hw : (after Executor.step x σ k).worker ≠ .returned) :
    ∃ m, (after Executor.step x σ m).left < n := by
  refine of_recurs h (P := fun y => y.worker ≠ .returned) hf.works (fun _ _ => id) ?_ hw
  rintro _ _ hw hstuck ⟨_, rfl⟩
  exact hw hstuck

theorem of_stopping (hw : (after Executor.step x σ k).worker = .returned)
    (hs : (after Executor.step x σ k).stopping ≠ .returned) : ∃ m, (after Executor.step x σ m).left < n := by
  refine of_recurs h (P := fun y => y.worker = .returned ∧ y.stopping ≠ .returned) hf.stops (fun _ _ => id) ?_ ⟨hw, hs⟩
  rintro _ _ ⟨hw, hs⟩ hstuck rfl
  exact hs (hstuck hw)

theorem of_polling (hc : (after Executor.step x σ k).completed ≠ []) (hp : (after Executor.step x σ k).Polling) :
    ∃ m, (after Executor.step x σ m).left < n := by
  refine eventually_of_recurs (R := fun y => y.left < n)
    (Q := fun y => Pending limits n y ∧ y.completed ≠ [] ∧ y.Polling) ?_ hf.polls ⟨h, hc, hp⟩
  rintro y a ⟨hy, hc, hp⟩
  rcases hy.step a with hless | ⟨hy', ⟨polling, heq⟩, hstuck⟩
  · exact .inl hless
  have ha : ∀ throws, a ≠ .advancePoll throws := by
    rintro throws rfl
    exact hc (hstuck hp)
  obtain ⟨work, budget, hpolling, hless⟩ := hp
  refine .inr ⟨⟨hy', ?_, work, budget, (step_effect y a).polling hpolling ha, hless⟩,
    fun ⟨throws, heq⟩ => ha throws heq⟩
  rw [heq]
  exact hc

theorem of_completed (hc : (after Executor.step x σ k).completed ≠ []) :
    ∃ m, (after Executor.step x σ m).left < n := by
  -- a poll with a budget starts, unless a completion was called before that
  have hstart := eventually_of_recurs
    (R := fun y => y.left < n ∨ Pending limits n y ∧ y.completed ≠ [] ∧ y.Polling)
    (Q := fun y => Pending limits n y ∧ y.completed ≠ []) ?_ hf.starts ⟨h, hc⟩
  · obtain ⟨m, hless | ⟨hy, hc, hp⟩⟩ := hstart
    · exact ⟨m, hless⟩
    · exact of_polling hf hy hc hp
  · rintro y a ⟨hy, hc⟩
    rcases hy.step a with hless | ⟨hy', ⟨polling, heq⟩, -⟩
    · exact .inl (.inl hless)
    have hc' : (y.step a).completed ≠ [] := by
      rw [heq]
      exact hc
    by_cases ha : y.polling = none ∧ ∃ budget, 0 < budget ∧ a = .poll budget
    · obtain ⟨hnone, budget, hpos, rfl⟩ := ha
      refine .inl (.inr ⟨hy', hc', 0, budget, ?_, hpos⟩)
      dsimp only [Executor.step]
      unfold Executor.poll
      rw [hnone]
    · exact .inr ⟨⟨hy', hc'⟩, ha⟩

/-- Something is left to do, and it is done sooner or later. -/
theorem lowers (hu : (after Executor.step x σ k).undelivered ≠ []) :
    ∃ m, (after Executor.step x σ m).left < n := by
  by_cases hw : (after Executor.step x σ k).worker = .returned
  · by_cases hs : (after Executor.step x σ k).stopping = .returned
    · refine of_completed hf h ?_
      have hq := (h.holds.phases.worker hw).2
      simpa [Executor.undelivered, hw, hs, hq, Worker.active, Stopping.abandoned] using hu
    · exact of_stopping hf h hw hs
  · exact of_worker hf h hw

end

end Pending

/-! ## The guarantees -/

structure Orderly (limits : StorageLimits) (x : Executor E) : Prop where
  /-- completions are called in the order of admission, each once -/
  order : x.delivered.map Delivery.id = List.range x.delivered.length
  delivered_le : x.delivered.length ≤ x.accepted.length
  /-- what is pending are the accepted jobs whose completion was not called -/
  count : x.count = (x.accepted.drop x.delivered.length).length
  bytes : x.bytes = (x.accepted.drop x.delivered.length).sum
  count_le : x.count ≤ limits.jobs
  bytes_le : x.bytes ≤ limits.bytes
  /-- an operation is run at most once, and its completion says whether it was -/
  once : x.ran.Nodup
  cancelled : ∀ d ∈ x.delivered, d.id ∉ x.ran ↔ d.error = some .cancelled
  /-- a stop that drains has run every accepted operation when it returns -/
  drained : x.mode = some .drain → x.stopping = .returned → ∀ id < x.accepted.length, id ∈ x.ran

theorem Holds.orderly {limits : StorageLimits} (h : Holds limits x) : Orderly limits x := by
  have hlength := h.accounts.length_delivered_le
  have hids : x.delivered.map Delivery.id = List.range x.delivered.length := by
    have hle : x.delivered.length ≤ x.accepted.length := by omega
    have htake := congrArg (List.take x.delivered.length) h.accounts.order
    rwa [List.take_left' (by simp), List.take_range, Nat.min_eq_left hle] at htake
  refine ⟨hids, by omega, ?_, ?_, ?_, ?_, h.fates.nodup, h.fates.delivered, ?_⟩
  · rw [← h.accounts.sizes, List.length_map, h.accounts.count]
  · rw [← h.accounts.sizes, h.accounts.bytes]
  · exact h.limits ▸ h.accounts.jobs_le
  · exact h.limits ▸ h.accounts.bytes_le
  · intro hm hr id hid
    have hw := h.phases.returned hr
    have hu : x.undelivered = x.completed := by
      simp [Executor.undelivered, hw, hr, (h.phases.worker hw).2, Worker.active, Stopping.abandoned]
    have hdrain := h.fates.drain (by simp [hm])
    have hmem : id ∈ x.delivered.map Delivery.id ++ x.undelivered.map Job.id := by
      rw [h.accounts.order]
      exact List.mem_range.2 hid
    rw [hu, List.mem_append, List.mem_map, List.mem_map] at hmem
    by_contra hnot
    rcases hmem with ⟨d, hd, rfl⟩ | ⟨job, hj, rfl⟩
    · exact hdrain.2 d hd ((h.fates.delivered d hd).1 hnot)
    · exact hdrain.1 job hj ((h.fates.completed job hj).1 hnot)

/-- After a stop, if the threads and polling go on, the completion of every accepted job is called. -/
theorem Holds.delivers {limits : StorageLimits} (h : Holds limits x) (hs : x.stopped = true) {σ : Nat → Action E}
    (hf : Fair x σ) : ∃ n, (after Executor.step x σ n).delivered.map Delivery.id = List.range x.accepted.length := by
  have hkeep : ∀ n, Holds limits (after Executor.step x σ n) ∧ (after Executor.step x σ n).stopped = true ∧
      (after Executor.step x σ n).accepted = x.accepted := by
    intro n
    induction n with
    | zero => exact ⟨h, hs, rfl⟩
    | succ n ih =>
      obtain ⟨hx, hstopped, haccepted⟩ := ih
      obtain ⟨hstopped', haccepted'⟩ := (step_effect (after Executor.step x σ n) (σ n)).keeps.2 hstopped
      exact ⟨hx.step (σ n), hstopped', haccepted'.trans haccepted⟩
  obtain ⟨m, hm⟩ := eventually_of_measure (Q := fun y : Executor E => y.undelivered = []) Executor.left
    (fun n hgoal => Pending.lowers hf ⟨(hkeep n).1, (hkeep n).2.1, rfl⟩ hgoal) 0
  refine ⟨m, ?_⟩
  have horder := (hkeep m).1.accounts.order
  rw [hm, (hkeep m).2.2] at horder
  simpa using horder

/-- For every interleaving of the threads: the jobs are orderly in every state, and once
a stop was called all of them are delivered. -/
theorem async_database_delivers (limits : StorageLimits) (actions : List (Action E)) :
    Orderly limits (run Executor.step (Executor.init limits) actions) ∧
      ((run Executor.step (Executor.init limits) actions).stopped = true →
        ∀ σ, Fair (run Executor.step (Executor.init limits) actions) σ →
          ∃ n, (after Executor.step (run Executor.step (Executor.init limits) actions) σ n).delivered.map Delivery.id =
            List.range (run Executor.step (Executor.init limits) actions).accepted.length) := by
  have h : Holds limits (run Executor.step (Executor.init limits) actions) :=
    run_inv (fun _ a hx => hx.step a) (Holds.init limits) actions
  exact ⟨h.orderly, fun hs σ hf => h.delivers hs hf⟩

/-- The threads take turns, and every poll ends after one completion. -/
def turns (n : Nat) : Action Empty :=
  match n % 4 with
  | 0 => .work none
  | 1 => .advanceStop
  | 2 => .poll 1
  | _ => .advancePoll true

theorem turns_add (k i : Nat) (hi : i < 4) : turns (4 * k + i) = turns i := by
  unfold turns
  rw [Nat.mul_add_mod, Nat.mod_eq_of_lt hi]

theorem turns_polling (x : Executor Empty) (k : Nat) : (after Executor.step x turns (4 * k + 6)).polling = none := by
  have hend : ∀ {y z : Executor Empty}, Effect y (.advancePoll true) z → z.polling = none := by
    intro y z h
    cases h with
    | finish => rfl
    | deliver _ _ _ hp => exact hp rfl
  have hwork : ∀ {y z : Executor Empty}, Effect y (.work none) z → y.polling = none → z.polling = none := by
    intro y z h hy
    cases h <;> exact hy
  have hstop : ∀ {y z : Executor Empty}, Effect y .advanceStop z → y.polling = none → z.polling = none := by
    intro y z h hy
    cases h <;> exact hy
  have h3 : turns (4 * k + 3) = .advancePoll true := turns_add k 3 (by omega)
  have h4 : turns (4 * k + 4) = .work none := turns_add (k + 1) 0 (by omega)
  have h5 : turns (4 * k + 5) = .advanceStop := turns_add (k + 1) 1 (by omega)
  dsimp only [after]
  rw [h3, h4, h5]
  exact hstop (step_effect _ _) (hwork (step_effect _ _) (hend (step_effect _ _)))

theorem fair_turns (x : Executor Empty) : Fair x turns where
  works n := ⟨4 * n, by omega, none, turns_add n 0 (by omega)⟩
  stops n := ⟨4 * n + 1, by omega, turns_add n 1 (by omega)⟩
  polls n := ⟨4 * n + 3, by omega, true, turns_add n 3 (by omega)⟩
  starts n := ⟨4 * n + 6, by omega, turns_polling x n, 1, by omega, turns_add (n + 1) 2 (by omega)⟩

/-- Two jobs, and a stop that cancels the one the worker has not taken. -/
def cancelling : List (Action Empty) := [.submit 5, .submit 7, .work none, .stop .cancelQueued]

theorem async_database_delivers_cancelling :
    (run Executor.step (Executor.init {}) cancelling).stopped = true ∧
      ∃ n, (after Executor.step (run Executor.step (Executor.init {}) cancelling) turns n).delivered.map Delivery.id =
        [0, 1] := by
  refine ⟨by decide, ?_⟩
  exact (async_database_delivers {} cancelling).2 (by decide) turns (fair_turns _)

end Fsnet.AsyncDatabase
