import Fsnet.Lua.Scheduler
import Mathlib.Logic.Relation
/-!
# What a step of the scheduler can do

A step is made of the moves below and, at its end, perhaps of a stop. The
invariants are proved for the moves.
-/

namespace Fsnet.LuaEngine.Engine

open Lib

/-- A task that has not run. -/
structure Fresh (task : Task) : Prop where
  idle : task.waiting = false
  unanswered : task.completionQueued = false
  awake : task.wake = none

inductive Move : Engine → Engine → Prop
  /-- What only `poll` and the limits look at changes. -/
  | turn (s : Engine) (phase : Phase) (queuedBytes completedBytes : Nat) (stopRequested : Bool) :
    Move s { s with phase, queuedBytes, completedBytes, stopRequested }
  | enqueue (s : Engine) (task : Task) (hfresh : Fresh task) : Move s (s.enqueue task)
  /-- A task is answered in the queue. -/
  | drop (s : Engine) (before after : List Task) (task : Task) (result : Result)
    (hqueue : s.queue = before ++ task :: after) :
    Move s { s with queue := before ++ after, trace := .replied task.number result :: s.trace }
  | start (s : Engine) (before after : List Task) (task : Task) (hqueue : s.queue = before ++ task :: after)
    (hfree : s.eligible task = true) (hfirst : ∀ t ∈ before, s.eligible t = false) :
    Move s
      { s with
        queue := before ++ after
        serial := s.serial + 1
        busy := if task.mailbox = [] then s.busy else Function.update s.busy task.mailbox true
        tasks := s.tasks.insert (s.serial + 1) { task with data := [] }
        trace := .started task.number task.mailbox :: s.trace }
  | sleep (s : Engine) (id : Nat) (task : Task) (env : Env) (timeout : Nat) (hfind : s.tasks.find id = some task)
    (hrunning : task.waiting = false) :
    Move s
      { s with
        tasks := s.tasks.insert id { suspend s.limits task env with wake := some (env.time + timeout) }
        trace := .awaited id (task.generation + 1) (.sleep timeout) :: s.trace }
  | issue (s : Engine) (id : Nat) (task : Task) (env : Env) (hfind : s.tasks.find id = some task)
    (hrunning : task.waiting = false) :
    Move s
      { s with
        tasks := s.tasks.insert id (suspend s.limits task env)
        issued := (id, task.generation + 1) :: s.issued
        trace := .awaited id (task.generation + 1) .host :: s.trace }
  | wake (s : Engine) (id : Nat) (task : Task) (hfind : s.tasks.find id = some task) (hwake : task.wake ≠ none) :
    Move s (s.pushResume id { task with wake := none } ⟨.ok, []⟩)
  /-- A completion that nothing waits for. -/
  | late (s : Engine) (id generation : Nat) (result : Result) : Move s (s.log (.completed id generation result))
  | answer (s : Engine) (id : Nat) (task : Task) (given result : Result)
    (hissued : (id, task.generation) ∈ s.issued) (hfind : s.tasks.find id = some task) (hwaiting : task.waiting = true)
    (hfirst : task.completionQueued = false) (hresult : result = given ∨ result = ⟨.overloaded, []⟩) :
    Move s ((s.log (.completed id task.generation given)).pushResume id task result)
  /-- The completion of a task that has ended, or that does not wait. -/
  | skip (s : Engine) (r : Resume) (rest : List Resume) (hresumes : s.resumes = r :: rest)
    (hrunning : ∀ task, s.tasks.find r.id = some task → task.waiting = false) : Move s { s with resumes := rest }
  | resume (s : Engine) (r : Resume) (rest : List Resume) (task : Task) (hresumes : s.resumes = r :: rest)
    (hfind : s.tasks.find r.id = some task) (hwaiting : task.waiting = true) :
    Move s
      { s with
        resumes := rest
        tasks := s.tasks.insert r.id { task with waiting := false, completionQueued := false }
        trace := .resumed r.id task.generation r.result :: s.trace }
  | finish (s : Engine) (id : Nat) (task : Task) (result : Result) (hfind : s.tasks.find id = some task) :
    Move s (s.finish id result)

/-- A number of moves. -/
abbrev Moves : Engine → Engine → Prop := Relation.ReflTransGen Move

/-! ## The functions in terms of moves -/

variable {s s' : Engine}

theorem Move.stopped (h : Move s s') : s'.stopped = s.stopped := by
  cases h with
  | finish _ _ _ hfind => simp only [Engine.finish, hfind]
  | _ => rfl

theorem Moves.stopped (h : Moves s s') : s'.stopped = s.stopped := by
  induction h with
  | refl => rfl
  | tail _ hmove ih => rw [hmove.stopped, ih]

theorem Moves.turn {m : Engine} (h : Moves s m) (phase : Phase) : Moves s { m with phase } :=
  h.tail (.turn m phase m.queuedBytes m.completedBytes m.stopRequested)

theorem moves_finish (s : Engine) (id : Nat) (result : Result) : Moves s (s.finish id result) := by
  cases hfind : s.tasks.find id with
  | none =>
    rw [finish, hfind]
  | some task => exact .single (.finish s id task result hfind)

/-- A running coroutine ends or suspends. -/
theorem moves_advance {id : Nat} (left : Nat) (env : Env)
    (h : ∀ task, s.tasks.find id = some task → task.waiting = false) : Moves s (s.advance id left env) := by
  rw [advance]
  cases hfind : s.tasks.find id with
  | none => exact Moves.turn .refl _
  | some task =>
    have hrunning := h task hfind
    simp only
    split_ifs with hlive
    · exact (moves_finish s id _).turn _
    cases outcome s.limits task env with
    | error result => exact (moves_finish s id result).turn _
    | ok await =>
      cases await with
      | sleep timeout => exact Moves.turn (.single (.sleep s id task env timeout hfind hrunning)) _
      | host => exact Moves.turn (.single (.issue s id task env hfind hrunning)) _

theorem moves_resumeFirst {r : Resume} {rest : List Resume} (left : Nat) (env : Env)
    (h : s.resumes = r :: rest) : Moves s (s.resumeFirst r rest left env) := by
  have hcount : ∀ m : Engine, Moves m { m with completedBytes := s.completedBytes - r.result.data.length } :=
    fun m => .single (.turn m m.phase m.queuedBytes _ m.stopRequested)
  simp only [resumeFirst]
  cases hfind : s.tasks.find r.id with
  | none => exact .head (.skip s r rest h fun task ht => by rw [hfind] at ht; cases ht) (hcount _)
  | some task =>
    simp only
    split_ifs with hwaiting hprepared
    · exact .head (.skip s r rest h fun t ht => by rw [hfind] at ht; cases ht; exact hwaiting) (hcount _)
    · refine .head (.resume s r rest task h hfind (by simpa using hwaiting)) (.trans (hcount _) ?_)
      refine moves_advance _ env fun t ht => ?_
      simp only [OrdMap.find_insert_self, Option.some.injEq] at ht
      rw [← ht]
    · refine .head (.resume s r rest task h hfind (by simpa using hwaiting)) (.trans (hcount _) ?_)
      exact (moves_finish _ r.id _).turn _

/-- The part of the queue before the first task that may start. -/
theorem exists_first {p : Task → Bool} {queue : List Task} {task : Task} (h : queue.find? p = some task) :
    ∃ before after, queue = before ++ task :: after ∧ queue.eraseP p = before ++ after ∧ p task = true ∧
      ∀ t ∈ before, p t = false := by
  obtain ⟨hp, before, after, rfl, hbefore⟩ := List.find?_eq_some_iff_append.1 h
  have hnot : ∀ t ∈ before, p t = false := fun t ht => by simpa using hbefore t ht
  refine ⟨before, after, rfl, ?_, hp, hnot⟩
  rw [List.eraseP_append_right _ fun t ht => by simp [hnot t ht], List.eraseP_cons_of_pos hp]

/-- What ends a step: nothing, or the engine stops. -/
def Ends (s s' : Engine) : Prop := ∃ m, Moves s m ∧ (s' = m ∨ ∃ order, s' = m.stopNow order)

theorem Moves.ends (h : Moves s s') : Ends s s' := ⟨s', h, .inl rfl⟩

theorem ends_leave (s : Engine) (order : List Nat) : Ends s (s.leave order) := by
  refine ⟨{ s with phase := .idle }, Moves.turn .refl _, ?_⟩
  rw [leave]
  split_ifs
  · exact .inr ⟨order, rfl⟩
  · exact .inl rfl

/-- The first task that may start leaves the queue. -/
theorem moves_start {task : Task} (left queuedBytes : Nat) (env : Env)
    (h : s.queue.find? s.eligible = some task) (hfresh : Fresh task) :
    Moves s (start { s with queue := s.queue.eraseP s.eligible, queuedBytes } task left env) := by
  obtain ⟨before, after, hqueue, hrest, hfree, hfirst⟩ := exists_first h
  have hcount : ∀ m : Engine, Moves m { m with queuedBytes } :=
    fun m => .single (.turn m m.phase _ m.completedBytes m.stopRequested)
  rw [hrest]
  rw [start]
  by_cases hprepared : env.prepared = false
  · rw [if_pos hprepared]
    exact Moves.turn (.head (.drop s before after task _ hqueue) (hcount _)) _
  rw [if_neg hprepared]
  refine .head (.start s before after task hqueue hfree hfirst) (.trans (hcount _) ?_)
  refine moves_advance _ env fun t ht => ?_
  simp only [OrdMap.find_insert_self, Option.some.injEq] at ht
  rw [← ht]
  exact hfresh.idle

theorem ends_work (left : Nat) (env : Env) (hfresh : ∀ task ∈ s.queue, Fresh task) : Ends s (s.work left env) := by
  rw [work]
  by_cases hend : s.stopRequested = true ∨ left = 0
  · rw [if_pos hend]
    exact ends_leave s _
  rw [if_neg hend]
  split
  · rename_i hresumes
    exact (moves_resumeFirst left env hresumes).ends
  by_cases hroom : s.tasks.size < s.limits.activeCoroutines
  · rw [if_pos hroom]
    cases hfind : s.queue.find? s.eligible with
    | none => exact ends_leave s _
    | some task => exact (moves_start left _ env hfind (hfresh task (List.mem_of_find?_eq_some hfind))).ends
  · rw [if_neg hroom]
    exact ends_leave s _

theorem moves_wake (now : Nat) (s : Engine) (id : Nat) : Moves s (wake now s id) := by
  rw [wake]
  cases hfind : s.tasks.find id with
  | none => exact .refl
  | some task =>
    simp only
    split_ifs with hover
    · refine .single (.wake s id task hfind fun hnone => ?_)
      rw [hnone] at hover
      cases hover
    · exact .refl

theorem moves_run_wake (now : Nat) (s : Engine) (ids : List Nat) : Moves s (run (wake now) s ids) := by
  induction ids generalizing s with
  | nil => exact .refl
  | cons id _ ih => exact (moves_wake now s id).trans (ih _)

theorem ends_tick (env : Env) (hfresh : ∀ task ∈ s.queue, Fresh task) : Ends s (s.tick env) := by
  have hexpire : ∀ now limit, Moves s (s.expire now limit env.order) := fun now limit => Moves.turn .refl _
  unfold tick
  split
  · exact Moves.ends .refl
  · exact ((moves_finish s _ _).turn _).ends
  · exact ((moves_run_wake _ s _).turn _).ends
  · split
    · rename_i task queue hqueue
      split_ifs
      · have hdrop := Move.drop s [] queue task ⟨.timeout, []⟩ hqueue
        exact Moves.ends (.head hdrop (.single (.turn _ s.phase _ s.completedBytes s.stopRequested)))
      · exact (hexpire _ _).ends
    · exact (hexpire _ _).ends
  · exact ((moves_finish s _ _).turn _).ends
  · exact (Moves.turn .refl _).ends
  · exact ends_work _ env hfresh
  · split_ifs
    · exact (Moves.turn .refl _).ends
    · exact ((moves_finish s _ _).turn _).ends

theorem moves_call (s : Engine) (kind data : Bytes) (now : Nat) : Moves s (s.call kind data now) := by
  rw [call]
  split
  · exact .refl
  · exact .single (.enqueue s _ ⟨rfl, rfl, rfl⟩)

theorem moves_complete (s : Engine) (id generation : Nat) (result : Result) :
    Moves s (s.complete id generation result) := by
  rw [complete]
  split_ifs with hrefused
  · exact .refl
  obtain ⟨hissued, -⟩ := not_or.1 hrefused
  rw [not_not] at hissued
  have hlate := Move.late s id generation result
  simp only [log] at hlate ⊢
  cases hfind : s.tasks.find id with
  | none => exact .single hlate
  | some task =>
    simp only
    by_cases hignored : task.waiting = false ∨ task.generation ≠ generation ∨ task.completionQueued = true
    · rw [if_pos hignored]
      exact .single hlate
    rw [if_neg hignored]
    simp only [not_or, Bool.not_eq_false, not_not, Bool.not_eq_true] at hignored
    obtain ⟨hwaiting, rfl, hfirst⟩ := hignored
    refine .single (.answer s id task result _ hissued hfind hwaiting hfirst ?_)
    by_cases hlarge : s.limits.queuedBytes - s.completedBytes < result.data.length
    · exact .inr (if_pos hlarge)
    · exact .inl (if_neg hlarge)

/-- A step of an engine that has not stopped. -/
theorem ends_step (a : Action) (hfresh : ∀ task ∈ s.queue, Fresh task) : Ends s (s.step a) := by
  cases a with
  | call kind data now => exact (moves_call s kind data now).ends
  | complete id generation result => exact (moves_complete s id generation result).ends
  | poll =>
    simp only [step, poll]
    split_ifs
    · exact Moves.ends .refl
    · exact (Moves.turn .refl _).ends
  | tick env => exact ends_tick env hfresh
  | abort => exact (Moves.turn .refl _).ends
  | stop order =>
    simp only [step, stop]
    split_ifs
    · exact ⟨s, .refl, .inr ⟨order, rfl⟩⟩
    · exact Moves.ends (.single (.turn s s.phase s.queuedBytes s.completedBytes true))

/-- A stopped engine does nothing more. -/
theorem step_of_stopped (a : Action) (h : s.stopped = true) (hidle : s.phase = .idle) : s.step a = s := by
  cases a with
  | call => simp [step, call, admission, h]
  | complete => simp [step, complete, h]
  | poll => simp [step, poll, h]
  | tick => simp [step, tick, hidle]
  | abort => simp [step, ← hidle]
  | stop => simp [step, stop, stopNow, h, hidle]

end Fsnet.LuaEngine.Engine
