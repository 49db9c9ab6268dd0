import Fsnet.Lua.Moves
/-!
# What the Lua scheduler guarantees

One task per mailbox, in the order of arrival; each await answered once, by what
it awaits; one reply per task.
-/

namespace Fsnet.LuaEngine

open Lib List Function

/-! ## Reading the trace -/

/-- The tasks that were replied to. -/
def replies (trace : List Event) : List Nat :=
  trace.filterMap fun e => match e with
    | .replied number _ => some number
    | _ => none

/-- The tasks of a mailbox that were started. -/
def starts (mailbox : Bytes) (trace : List Event) : List Nat :=
  trace.filterMap fun e => match e with
    | .started number m => if m = mailbox then some number else none
    | _ => none

/-- The awaits of a task from which it was resumed. -/
def resumptions (id : Nat) (trace : List Event) : List Nat :=
  trace.filterMap fun e => match e with
    | .resumed i generation _ => if i = id then some generation else none
    | _ => none

/-- The await a task is suspended in, with the completions the host called for it. -/
structure Pending where
  generation : Nat
  await : Await
  results : List Result

namespace Pending

variable (p : Pending) (generation : Nat) (result : Result)

def complete : Pending :=
  if p.generation = generation then { p with results := result :: p.results } else p

/-- May the await return the result? A sleep returns nothing. A call of the host
returns what it was completed with, unless that is too large. -/
def Answers : Prop :=
  match p.await with
  | .sleep _ => result = ⟨.ok, []⟩
  | .host => ∃ given ∈ p.results, result = given ∨ result = ⟨.overloaded, []⟩

@[simp] theorem complete_generation :
    (p.complete generation result).generation = p.generation := by
  rw [complete]
  split_ifs <;> rfl

@[simp] theorem complete_await :
    (p.complete generation result).await = p.await := by
  rw [complete]
  split_ifs <;> rfl

theorem results_subset_complete :
    p.results ⊆ (p.complete generation result).results := by
  rw [complete]
  split_ifs
  · exact subset_cons_self _ _
  · exact List.Subset.refl _

/-- Further completions take no answer away. -/
theorem Answers.complete {p : Pending} {result : Result} (h : p.Answers result) (generation : Nat) (given : Result) :
    (p.complete generation given).Answers result := by
  rw [Answers] at h ⊢
  rw [complete_await]
  cases hawait : p.await with
  | sleep =>
    rw [hawait] at h
    exact h
  | host =>
    rw [hawait] at h
    obtain ⟨r, hr, hresult⟩ := h
    exact ⟨r, results_subset_complete p generation given hr, hresult⟩

end Pending

def Event.pending (id : Nat) : Event → Option Pending → Option Pending
  | .awaited i generation await, p => if i = id then some ⟨generation, await, []⟩ else p
  | .completed i generation result, p => if i = id then p.map (·.complete generation result) else p
  | .resumed i _ _, p => if i = id then none else p
  | _, p => p

/-- The await that a task is suspended in. -/
def pending (id : Nat) (trace : List Event) : Option Pending := trace.foldr (Event.pending id) none

namespace Engine

/-- What the scheduler guarantees of a state it is in. -/
structure Scheduled (s : Engine) : Prop where
  /-- At most one task of an entity is running or suspended. -/
  single : ∀ id id' task task', s.tasks.find id = some task → s.tasks.find id' = some task' →
    task.mailbox = task'.mailbox → task.mailbox ≠ [] → id = id'
  /-- The tasks of a mailbox were started in the order they came in. -/
  ordered : ∀ mailbox, (starts mailbox s.trace).Pairwise (· > ·)
  /-- An await is resumed once. -/
  once : ∀ id, (resumptions id s.trace).Nodup
  /-- A task is resumed from the await it is suspended in, with what that returns. -/
  own : ∀ id generation result earlier, .resumed id generation result :: earlier <:+ s.trace →
    ∃ p, pending id earlier = some p ∧ p.generation = generation ∧ p.Answers result
  /-- No task is replied to twice, and none that was not accepted. -/
  atMostOnce : (replies s.trace).Nodup ∧ ∀ number ∈ replies s.trace, number < s.accepted
  /-- Once the engine has stopped each accepted task was replied to. -/
  exactlyOnce : s.stopped = true → (replies s.trace).Perm (List.range s.accepted)
  /-- Told to stop outside of `poll`, it stops. -/
  stops : ∀ order, s.phase = .idle → (s.step (.stop order)).stopped = true

/-! ## Numbers -/

/-- The numbers of the tasks that run or are suspended. -/
def numbers (tasks : OrdMap Nat Task) : List Nat := tasks.entries.map fun e => e.2.number

variable {id : Nat} {task : Task} {tasks : OrdMap Nat Task}

theorem numbers_erase (h : tasks.find id = some task) :
    (numbers tasks).Perm (task.number :: numbers (tasks.erase id)) :=
  (Entries.perm_erase tasks.sorted h).map _

theorem numbers_insert_new (task : Task) (h : tasks.find id = none) :
    (numbers (tasks.insert id task)).Perm (task.number :: numbers tasks) :=
  (Entries.insert_perm task h).map _

theorem numbers_insert {task' : Task} (h : tasks.find id = some task)
    (hnumber : task'.number = task.number) : (numbers (tasks.insert id task')).Perm (numbers tasks) := by
  have herase : (tasks.insert id task').erase id = tasks.erase id := by
    ext1 k
    by_cases hk : k = id
    · rw [hk, OrdMap.find_erase_self, OrdMap.find_erase_self]
    · rw [OrdMap.find_erase_ne _ hk, OrdMap.find_erase_ne _ hk, OrdMap.find_insert_ne _ _ hk]
  have hnew := numbers_erase (OrdMap.find_insert_self tasks id task')
  rw [herase, hnumber] at hnew
  exact hnew.trans (numbers_erase h).symm

/-- Each accepted task is in one place, and the queue keeps the order. -/
structure Counted (s : Engine) : Prop where
  places : (s.queue.map Task.number ++ (numbers s.tasks ++ replies s.trace)).Perm (List.range s.accepted)
  increasing : (s.queue.map Task.number).Pairwise (· < ·)
  ordered : ∀ mailbox, (starts mailbox s.trace).Pairwise (· > ·)
  started : ∀ mailbox, ∀ number ∈ starts mailbox s.trace, number < s.accepted
  ahead : ∀ mailbox, ∀ number ∈ starts mailbox s.trace, ∀ task ∈ s.queue, task.mailbox = mailbox →
    number < task.number

namespace Counted

variable {s s' : Engine}

theorem frame (h : Counted s) (hqueue : s'.queue = s.queue) (haccepted : s'.accepted = s.accepted)
    (hnumbers : (numbers s'.tasks).Perm (numbers s.tasks)) (hreplies : replies s'.trace = replies s.trace)
    (hstarts : ∀ mailbox, starts mailbox s'.trace = starts mailbox s.trace) : Counted s' where
  places := by
    rw [hqueue, haccepted, hreplies]
    exact ((hnumbers.append_right _).append_left _).trans h.places
  increasing := by rw [hqueue]; exact h.increasing
  ordered mailbox := by rw [hstarts]; exact h.ordered mailbox
  started mailbox := by rw [hstarts, haccepted]; exact h.started mailbox
  ahead mailbox := by rw [hstarts, hqueue]; exact h.ahead mailbox

theorem number_lt (h : Counted s) (ht : task ∈ s.queue) : task.number < s.accepted :=
  mem_range.1 (h.places.subset (mem_append_left _ (mem_map_of_mem ht)))

theorem enqueue (h : Counted s) (task : Task) : Counted (s.enqueue task) where
  places := by
    have hlast : (List.range (s.accepted + 1)) = List.range s.accepted ++ [s.accepted] := range_succ
    simp only [Engine.enqueue, map_append, map_cons, map_nil]
    rw [hlast, append_assoc]
    exact (perm_middle.trans (h.places.cons _)).trans (perm_append_singleton _ _).symm
  increasing := by
    simp only [Engine.enqueue, map_append, map_cons, map_nil]
    refine pairwise_append.2 ⟨h.increasing, pairwise_singleton _ _, fun n hn m hm => ?_⟩
    obtain ⟨t, ht, rfl⟩ := mem_map.1 hn
    rw [mem_singleton.1 hm]
    exact h.number_lt ht
  ordered := h.ordered
  started mailbox number hn := Nat.lt_succ_of_lt (h.started mailbox number hn)
  ahead mailbox number hn t ht hmailbox := by
    obtain ht | ht := mem_append.1 ht
    · exact h.ahead mailbox number hn t ht hmailbox
    · rw [mem_singleton.1 ht]
      exact h.started mailbox number hn

/-- A task leaves the queue. -/
theorem leave (h : Counted s) {before after : List Task} (hqueue : s.queue = before ++ task :: after)
    (hq : s'.queue = before ++ after) (haccepted : s'.accepted = s.accepted)
    (hnumbers : (numbers s'.tasks ++ replies s'.trace).Perm (task.number :: (numbers s.tasks ++ replies s.trace)))
    (hordered : ∀ mailbox, (starts mailbox s'.trace).Pairwise (· > ·))
    (hstarts : ∀ mailbox, ∀ n ∈ starts mailbox s'.trace, n ∈ starts mailbox s.trace ∨
      n = task.number ∧ task.mailbox = mailbox ∧ ∀ t ∈ before, t.mailbox ≠ mailbox) : Counted s' where
  places := by
    rw [hq, haccepted]
    refine .trans ?_ h.places
    rw [hqueue, map_append, map_append, map_cons, append_assoc, append_assoc]
    refine .append_left _ ?_
    exact (hnumbers.append_left _).trans perm_middle
  increasing := by
    rw [hq]
    refine h.increasing.sublist (List.Sublist.map _ ?_)
    rw [hqueue]
    exact (sublist_cons_self task after).append_left before
  ordered := hordered
  started mailbox n hn := by
    rw [haccepted]
    obtain hn | ⟨rfl, -⟩ := hstarts mailbox n hn
    · exact h.started mailbox n hn
    · exact h.number_lt (by rw [hqueue]; simp)
  ahead mailbox n hn t ht hmailbox := by
    rw [hq, mem_append] at ht
    obtain hn | ⟨rfl, -, hbefore⟩ := hstarts mailbox n hn
    · refine h.ahead mailbox n hn t ?_ hmailbox
      rw [hqueue, mem_append, mem_cons]
      exact ht.imp id .inr
    -- What is before it in the queue is not of its mailbox, what is behind it came later.
    obtain ht | ht := ht
    · exact absurd hmailbox (hbefore t ht)
    · have hinc := h.increasing
      rw [hqueue, map_append, map_cons] at hinc
      exact rel_of_pairwise_cons (pairwise_append.1 hinc).2.1 (mem_map_of_mem ht)

theorem move (h : Counted s) (hids : s.tasks.find (s.serial + 1) = none) (hmove : Move s s') : Counted s' := by
  cases hmove with
  | turn | late | skip => exact h.frame rfl rfl (.refl _) rfl fun _ => rfl
  | enqueue task => exact h.enqueue task
  | drop _ _ _ _ hqueue =>
    exact h.leave hqueue rfl rfl perm_middle h.ordered fun _ _ hn => .inl hn
  | start before _ task hqueue hfree hfirst =>
    have hmem : task ∈ s.queue := by rw [hqueue]; simp
    have hbefore : ∀ t ∈ before, t.mailbox ≠ task.mailbox := fun t ht heq => by
      have hnot := hfirst t ht
      simp only [eligible, heq] at hnot hfree
      rw [hnot] at hfree
      cases hfree
    refine h.leave hqueue rfl rfl ((numbers_insert_new _ hids).append_right _)
      (fun mailbox => ?_) fun mailbox n hn => ?_
    · simp only [starts, filterMap_cons]
      split_ifs with hmailbox
      · exact pairwise_cons.2 ⟨fun n hn => h.ahead _ n hn task hmem hmailbox, h.ordered mailbox⟩
      · exact h.ordered mailbox
    · simp only [starts, filterMap_cons] at hn
      split_ifs at hn with hmailbox
      · obtain rfl | hn := mem_cons.1 hn
        · exact .inr ⟨rfl, hmailbox, fun t ht => hmailbox ▸ hbefore t ht⟩
        · exact .inl hn
      · exact .inl hn
  | sleep _ _ _ _ hfind | issue _ _ _ hfind | wake _ _ hfind | answer _ _ _ _ _ hfind | resume _ _ _ _ hfind =>
    exact h.frame rfl rfl (numbers_insert hfind rfl) rfl fun _ => rfl
  | finish _ _ _ hfind =>
    simp only [Engine.finish, hfind]
    refine { h with places := .trans (.append_left _ ?_) h.places }
    exact perm_middle.trans ((numbers_erase hfind).symm.append_right _)

theorem replies_replied {α : Type} (number : α → Nat) (result : Result) (l : List α) (trace : List Event) :
    replies ((l.map fun x => Event.replied (number x) result).reverse ++ trace) =
      (l.map number).reverse ++ replies trace := by
  rw [replies, filterMap_append, ← map_reverse, ← map_reverse, filterMap_map]
  exact congrArg (· ++ _) (congrFun filterMap_eq_map _)

theorem starts_replied {α : Type} (mailbox : Bytes) (number : α → Nat) (result : Result) (l : List α)
    (trace : List Event) :
    starts mailbox ((l.map fun x => Event.replied (number x) result).reverse ++ trace) = starts mailbox trace := by
  rw [starts, filterMap_append, ← map_reverse, filterMap_map]
  exact congrArg (· ++ _) (filterMap_eq_nil_iff.2 fun _ _ => rfl)

theorem stopNow (h : Counted s) (order : List Nat) : Counted (s.stopNow order) := by
  rw [Engine.stopNow]
  split_ifs
  · exact h
  have hstarts : ∀ mailbox, starts mailbox
      (((s.walk order).map fun e => Event.replied e.2.number ⟨.disconnected, []⟩).reverse ++
      ((s.queue.map fun t => Event.replied t.number ⟨.disconnected, []⟩).reverse ++ s.trace)) =
        starts mailbox s.trace :=
    fun mailbox => (starts_replied ..).trans (starts_replied ..)
  refine ⟨?_, .nil, fun mailbox => ?_, fun mailbox => ?_, fun _ _ _ _ ht => by cases ht⟩
  · simp only [replies_replied]
    refine .trans ?_ h.places
    have hnumbers : ((s.walk order).map fun e => e.2.number).reverse.Perm (numbers s.tasks) :=
      (reverse_perm _).trans (arrange_perm.map _)
    refine (hnumbers.append ((reverse_perm _).append_right _)).trans ?_
    rw [← append_assoc, ← append_assoc]
    exact perm_append_comm.append_right _
  · simp only [hstarts]
    exact h.ordered mailbox
  · simp only [hstarts]
    exact h.started mailbox

end Counted

/-! ## Mailboxes -/

/-- The mailbox of a task that runs or is suspended. -/
def mailboxOf (tasks : OrdMap Nat Task) (id : Nat) : Option Bytes := (tasks.find id).map Task.mailbox

theorem mailboxOf_insert {task' : Task} (h : tasks.find id = some task)
    (hmailbox : task'.mailbox = task.mailbox) : mailboxOf (tasks.insert id task') = mailboxOf tasks := by
  funext k
  rw [mailboxOf, mailboxOf, OrdMap.find_insert]
  split_ifs with hk
  · rw [hk, h, Option.map_some, Option.map_some, hmailbox]
  · rfl

theorem mark_of_ne {busy : Bytes → Bool} {mailbox m : Bytes} {b : Bool} (h : m ≠ mailbox) :
    (if mailbox = [] then busy else update busy mailbox b) m = busy m := by
  split_ifs
  · rfl
  · exact update_of_ne h _ _

/-- A mailbox is busy as long as one of its tasks is there, and there is one at most. -/
structure Exclusive (s : Engine) : Prop where
  busy : ∀ mailbox ≠ [], s.busy mailbox = true ↔ ∃ id, mailboxOf s.tasks id = some mailbox
  single : ∀ mailbox ≠ [], ∀ id id', mailboxOf s.tasks id = some mailbox → mailboxOf s.tasks id' = some mailbox →
    id = id'

namespace Exclusive

variable {s s' : Engine}

theorem frame (h : Exclusive s) (hbusy : s'.busy = s.busy) (htasks : mailboxOf s'.tasks = mailboxOf s.tasks) :
    Exclusive s' where
  busy := by rw [hbusy, htasks]; exact h.busy
  single := by rw [htasks]; exact h.single

/-- The one task of a mailbox comes or goes. -/
theorem mark (h : Exclusive s) (id : Nat) {mailbox : Bytes} {now : Option Bytes}
    (hnow : now = none ∨ now = some mailbox)
    (hbusy : s'.busy = if mailbox = [] then s.busy else update s.busy mailbox now.isSome)
    (htasks : ∀ k, mailboxOf s'.tasks k = if k = id then now else mailboxOf s.tasks k)
    (hid : ∀ m ≠ mailbox, mailboxOf s.tasks id ≠ some m)
    (hothers : mailbox ≠ [] → ∀ k ≠ id, mailboxOf s.tasks k ≠ some mailbox) : Exclusive s' := by
  have hown : ∀ {m}, now = some m → m = mailbox := fun hm => by
    obtain rfl | rfl := hnow
    · cases hm
    · exact (Option.some.inj hm).symm
  constructor
  · intro m hne
    simp only [hbusy, htasks]
    by_cases hm : m = mailbox
    · subst hm
      rw [if_neg hne, update_self, Option.isSome_iff_exists]
      refine ⟨fun ⟨m', hm'⟩ => ⟨id, by rw [if_pos rfl, hm', hown hm']⟩, fun ⟨k, hk⟩ => ?_⟩
      split_ifs at hk with heq
      · exact ⟨_, hk⟩
      · exact absurd hk (hothers hne k heq)
    · rw [mark_of_ne hm, h.busy m hne]
      refine ⟨fun ⟨k, hk⟩ => ⟨k, ?_⟩, fun ⟨k, hk⟩ => ⟨k, ?_⟩⟩
      · rw [if_neg (fun heq : k = id => hid m hm (heq ▸ hk)), hk]
      · split_ifs at hk with heq
        · exact absurd (hown hk) hm
        · exact hk
  · intro m hne k k' hk hk'
    rw [htasks] at hk hk'
    split_ifs at hk hk' with heq heq' heq'
    · rw [heq, heq']
    · obtain rfl := hown hk
      exact absurd hk' (hothers hne k' heq')
    · obtain rfl := hown hk'
      exact absurd hk (hothers hne k heq)
    · exact h.single m hne k k' hk hk'

theorem move (h : Exclusive s) (hids : s.tasks.find (s.serial + 1) = none) (hmove : Move s s') : Exclusive s' := by
  cases hmove with
  | turn | enqueue | drop | late | skip => exact h.frame rfl rfl
  | start _ _ task _ hfree =>
    refine h.mark (s.serial + 1) (.inr rfl) rfl (fun k => ?_) (fun m _ => ?_) fun hne k _ hk => ?_
    · rw [mailboxOf, OrdMap.find_insert]
      split_ifs <;> rfl
    · simp [mailboxOf, hids]
    · have htrue := (h.busy task.mailbox hne).2 ⟨k, hk⟩
      simp [eligible, hne, htrue] at hfree
  | sleep _ _ _ _ hfind | issue _ _ _ hfind | wake _ _ hfind | answer _ _ _ _ _ hfind | resume _ _ _ _ hfind =>
    exact h.frame rfl (mailboxOf_insert hfind rfl)
  | finish id task _ hfind =>
    simp only [Engine.finish, hfind]
    have hold : mailboxOf s.tasks id = some task.mailbox := by rw [mailboxOf, hfind, Option.map_some]
    refine h.mark id (.inl rfl) rfl (fun k => ?_) (fun m hm => ?_) fun hne k hk hsame =>
      hk (h.single _ hne k id hsame hold)
    · simp only [mailboxOf, OrdMap.find_erase]
      split_ifs <;> rfl
    · rw [hold]
      exact fun heq => hm (Option.some.inj heq).symm

theorem empty (hbusy : s.busy = fun _ => false) (htasks : s.tasks = OrdMap.empty) : Exclusive s where
  busy mailbox _ := by simp [hbusy, htasks, mailboxOf]
  single mailbox _ id id' hid _ := by simp [htasks, mailboxOf] at hid

end Exclusive

/-! ## Awaits -/

/-- What concerns one task: the await it is suspended in, the results it is to be
resumed with, the completions the host holds and the awaits it was resumed from. -/
structure History where
  pending : Option Pending := none
  results : List Result := []
  issued : List Nat := []
  resumed : List Nat := []

/-- The results a task is to be resumed with. -/
def resultsOf (id : Nat) (resumes : List Resume) : List Result :=
  resumes.filterMap fun r => if r.id = id then some r.result else none

/-- The completions of a task that the host holds. -/
def issuedOf (id : Nat) (issued : List (Nat × Nat)) : List Nat :=
  issued.filterMap fun p => if p.1 = id then some p.2 else none

def history (s : Engine) (id : Nat) : History :=
  ⟨LuaEngine.pending id s.trace, resultsOf id s.resumes, issuedOf id s.issued, resumptions id s.trace⟩

/-- Where a task is between an await and the resumption from it. -/
inductive Stage (task : Task) (h : History) : Prop
  | running (hrunning : task.waiting = false) (hpending : h.pending = none) (hresults : h.results = [])
    (hqueued : task.completionQueued = false) (hwake : task.wake = none)
  | sleeping (p : Pending) (timeout : Nat) (hwaiting : task.waiting = true) (hpending : h.pending = some p)
    (hgeneration : p.generation = task.generation) (hawait : p.await = .sleep timeout) (hresults : h.results = [])
    (hqueued : task.completionQueued = false) (hissued : task.generation ∉ h.issued)
  | calling (p : Pending) (hwaiting : task.waiting = true) (hpending : h.pending = some p)
    (hgeneration : p.generation = task.generation) (hawait : p.await = .host) (hresults : h.results = [])
    (hqueued : task.completionQueued = false) (hwake : task.wake = none)
  | answered (p : Pending) (result : Result) (hwaiting : task.waiting = true) (hpending : h.pending = some p)
    (hgeneration : p.generation = task.generation) (hanswers : p.Answers result) (hresults : h.results = [result])
    (hqueued : task.completionQueued = true) (hwake : task.wake = none)

structure Tracked (task : Task) (h : History) : Prop where
  stage : Stage task h
  issued : ∀ generation ∈ h.issued, generation ≤ task.generation
  resumed : ∀ generation ∈ h.resumed, generation ≤ task.generation
  open_ : task.waiting = true → task.generation ∉ h.resumed

namespace Tracked

variable {task : Task} {h : History}

theorem of_fresh (hfresh : Fresh task) : Tracked { task with data := [] } {} where
  stage := .running hfresh.idle rfl rfl hfresh.unanswered hfresh.awake
  issued _ hg := (nomatch hg)
  resumed _ hg := (nomatch hg)
  open_ _ hg := (nomatch hg)

section

variable (ht : Tracked task h)
include ht

theorem not_pending (hrunning : task.waiting = false) :
    h.pending = none ∧ h.results = [] ∧ task.completionQueued = false ∧ task.wake = none := by
  cases ht.stage with
  | running _ hpending hresults hqueued hwake => exact ⟨hpending, hresults, hqueued, hwake⟩
  | sleeping _ _ hwaiting | calling _ hwaiting | answered _ _ hwaiting => rw [hrunning] at hwaiting; cases hwaiting

/-- The task suspends; the generation of the await is new. -/
theorem sleep (hrunning : task.waiting = false) (limits : ScriptLimits) (env : Env)
    (timeout : Nat) (wake : Option Nat) :
    Tracked { suspend limits task env with wake }
      { h with pending := some ⟨task.generation + 1, .sleep timeout, []⟩ } := by
  obtain ⟨-, hresults, hqueued, -⟩ := ht.not_pending hrunning
  have hnew : ∀ {l : List Nat}, (∀ g ∈ l, g ≤ task.generation) → task.generation + 1 ∉ l :=
    fun hle hmem => Nat.not_succ_le_self _ (hle _ hmem)
  refine ⟨.sleeping _ timeout rfl rfl rfl rfl hresults hqueued (hnew ht.issued), fun g hg => ?_, fun g hg => ?_, ?_⟩
  · exact Nat.le_succ_of_le (ht.issued g hg)
  · exact Nat.le_succ_of_le (ht.resumed g hg)
  · exact fun _ => hnew ht.resumed

theorem issue (hrunning : task.waiting = false) (limits : ScriptLimits) (env : Env) :
    Tracked (suspend limits task env)
      { h with
        pending := some ⟨task.generation + 1, .host, []⟩
        issued := (task.generation + 1) :: h.issued } := by
  obtain ⟨-, hresults, hqueued, hwake⟩ := ht.not_pending hrunning
  refine ⟨.calling _ rfl rfl rfl rfl hresults hqueued hwake, fun g hg => ?_, fun g hg => ?_, fun _ hmem => ?_⟩
  · obtain rfl | hg := mem_cons.1 hg
    · exact Nat.le_refl _
    · exact Nat.le_succ_of_le (ht.issued g hg)
  · exact Nat.le_succ_of_le (ht.resumed g hg)
  · exact Nat.not_succ_le_self _ (ht.resumed _ hmem)

/-- Only a sleep wakes. -/
theorem wake (hwake : task.wake ≠ none) :
    Tracked { task with wake := none, completionQueued := true } { h with results := h.results ++ [⟨.ok, []⟩] } := by
  refine ⟨?_, ht.issued, ht.resumed, ht.open_⟩
  cases ht.stage with
  | sleeping p _ hwaiting hpending hgeneration hawait hresults =>
    refine .answered p ⟨.ok, []⟩ hwaiting hpending hgeneration ?_ (by rw [hresults]; rfl) rfl rfl
    rw [Pending.Answers, hawait]
  | running _ _ _ _ hnone | calling _ _ _ _ _ _ _ hnone | answered _ _ _ _ _ _ _ _ hnone => exact absurd hnone hwake

/-- A completion that is not taken leaves the task as it is. -/
theorem late (generation : Nat) (result : Result) :
    Tracked task { h with pending := h.pending.map (·.complete generation result) } := by
  refine ⟨?_, ht.issued, ht.resumed, ht.open_⟩
  cases ht.stage with
  | running hrunning hpending hresults hqueued hwake =>
    exact .running hrunning (by simp [hpending]) hresults hqueued hwake
  | sleeping p timeout hwaiting hpending hgeneration hawait hresults hqueued hissued =>
    exact .sleeping (p.complete generation result) timeout hwaiting (by simp [hpending]) (by simpa using hgeneration)
      (by simpa using hawait) hresults hqueued hissued
  | calling p hwaiting hpending hgeneration hawait hresults hqueued hwake =>
    exact .calling (p.complete generation result) hwaiting (by simp [hpending]) (by simpa using hgeneration)
      (by simpa using hawait) hresults hqueued hwake
  | answered p r hwaiting hpending hgeneration hanswers hresults hqueued hwake =>
    exact .answered (p.complete generation result) r hwaiting (by simp [hpending]) (by simpa using hgeneration)
      (hanswers.complete generation result) hresults hqueued hwake

/-- The first completion of a call is taken. A completion of a sleep was never issued. -/
theorem answer {given result : Result} (hissued : task.generation ∈ h.issued)
    (hwaiting : task.waiting = true) (hfirst : task.completionQueued = false)
    (hresult : result = given ∨ result = ⟨.overloaded, []⟩) :
    Tracked { task with completionQueued := true }
      { h with
        pending := h.pending.map (·.complete task.generation given)
        results := h.results ++ [result] } := by
  refine ⟨?_, ht.issued, ht.resumed, ht.open_⟩
  cases ht.stage with
  | running hrunning => rw [hrunning] at hwaiting; cases hwaiting
  | sleeping _ _ _ _ _ _ _ _ hnot => exact absurd hissued hnot
  | answered _ _ _ _ _ _ _ hqueued => rw [hfirst] at hqueued; cases hqueued
  | calling p _ hpending hgeneration hawait hresults _ hwake =>
    refine .answered (p.complete task.generation given) result hwaiting (by simp [hpending])
      (by simpa using hgeneration)
      ?_ (by simp [hresults]) rfl hwake
    rw [Pending.Answers, Pending.complete_await, hawait, Pending.complete, if_pos hgeneration]
    exact ⟨given, mem_cons_self, hresult⟩

/-- A task that is resumed was suspended in an await that the result answers. -/
theorem answered_of_results {result : Result} {rest : List Result} (hresults : h.results = result :: rest) :
    rest = [] ∧ task.wake = none ∧
      ∃ p, h.pending = some p ∧ p.generation = task.generation ∧ p.Answers result := by
  cases ht.stage with
  | running _ _ hnil | sleeping _ _ _ _ _ _ hnil | calling _ _ _ _ _ hnil => rw [hnil] at hresults; cases hresults
  | answered p _ _ hpending hgeneration hanswers hone _ hwake =>
    rw [hone] at hresults
    cases hresults
    exact ⟨rfl, hwake, p, hpending, hgeneration, hanswers⟩

theorem resume {result : Result} {rest : List Result} (hresults : h.results = result :: rest) :
    Tracked { task with waiting := false, completionQueued := false }
      { h with pending := none, results := rest, resumed := task.generation :: h.resumed } := by
  obtain ⟨hrest, hwake, -⟩ := ht.answered_of_results hresults
  refine ⟨.running rfl rfl hrest rfl hwake, ht.issued, fun g hg => ?_, fun hwaiting => (nomatch hwaiting)⟩
  obtain rfl | hg := mem_cons.1 hg
  · exact Nat.le_refl _
  · exact ht.resumed g hg

end

end Tracked

/-- The resumptions of a trace are those of awaits. -/
structure Lawful (trace : List Event) : Prop where
  once : ∀ id, (resumptions id trace).Nodup
  own : ∀ id generation result earlier, .resumed id generation result :: earlier <:+ trace →
    ∃ p, LuaEngine.pending id earlier = some p ∧ p.generation = generation ∧ p.Answers result

namespace Lawful

variable {trace : List Event}

theorem nil : Lawful [] where
  once _ := .nil
  own _ _ _ _ h := absurd (suffix_nil.1 h) (cons_ne_nil _ _)

theorem cons (h : Lawful trace) (e : Event) (honce : ∀ id, (resumptions id (e :: trace)).Nodup)
    (hown : ∀ id generation result, e = .resumed id generation result →
      ∃ p, LuaEngine.pending id trace = some p ∧ p.generation = generation ∧ p.Answers result) :
    Lawful (e :: trace) where
  once := honce
  own id generation result earlier hsuffix := by
    obtain heq | hsuffix := suffix_cons_iff.1 hsuffix
    · injection heq with he htrace
      rw [htrace]
      exact hown id generation result he.symm
    · exact h.own id generation result earlier hsuffix

theorem replied (h : Lawful trace) (number : Nat) (result : Result) : Lawful (.replied number result :: trace) :=
  h.cons _ h.once fun _ _ _ he => (nomatch he)

theorem append_replied (h : Lawful trace) {events : List Event}
    (hevents : ∀ e ∈ events, ∃ number result, e = .replied number result) : Lawful (events ++ trace) := by
  induction events with
  | nil => exact h
  | cons _ _ ih =>
    rw [forall_mem_cons] at hevents
    obtain ⟨⟨number, result, rfl⟩, hevents⟩ := hevents
    exact (ih hevents).replied number result

end Lawful

/-- The tasks and what the trace says of them. -/
structure Awaiting (s : Engine) : Prop where
  fresh : ∀ task ∈ s.queue, Fresh task
  tracked : ∀ id task, s.tasks.find id = some task → Tracked task (s.history id)
  unused : ∀ id, s.serial < id → s.tasks.find id = none ∧ s.history id = {}
  lawful : Lawful s.trace

namespace Awaiting

variable {s s' : Engine}

section

variable (h : Awaiting s)
include h

/-- The tasks are as before. -/
theorem frame (hfresh : ∀ task ∈ s'.queue, Fresh task) (hserial : s'.serial = s.serial)
    (htasks : s'.tasks = s.tasks) (hhistory : ∀ id, s'.history id = s.history id) (hlawful : Lawful s'.trace) :
    Awaiting s' where
  fresh := hfresh
  tracked id task hfind := by
    rw [hhistory]
    exact h.tracked id task (htasks ▸ hfind)
  unused id hid := by
    rw [htasks, hhistory]
    exact h.unused id (hserial ▸ hid)
  lawful := hlawful

/-- One task changes. -/
theorem change (hqueue : s'.queue = s.queue) (hserial : s'.serial = s.serial)
    (hid : id ≤ s.serial) (hother : ∀ k ≠ id, s'.tasks.find k = s.tasks.find k ∧ s'.history k = s.history k)
    (htracked : ∀ task, s'.tasks.find id = some task → Tracked task (s'.history id)) (hlawful : Lawful s'.trace) :
    Awaiting s' where
  fresh := hqueue ▸ h.fresh
  tracked k task hfind := by
    by_cases hk : k = id
    · subst hk
      exact htracked task hfind
    · rw [(hother k hk).1] at hfind
      rw [(hother k hk).2]
      exact h.tracked k task hfind
  unused k hk := by
    have hne : k ≠ id := fun heq => by omega
    rw [(hother k hne).1, (hother k hne).2]
    exact h.unused k (hserial ▸ hk)
  lawful := hlawful

theorem id_le (hfind : s.tasks.find id = some task) : id ≤ s.serial := by
  by_contra hlt
  have hnone := (h.unused id (Nat.not_le.1 hlt)).1
  rw [hfind] at hnone
  cases hnone

/-- The same with the changed task in the table. -/
theorem insert {task' : Task} (hfind : s.tasks.find id = some task)
    (hqueue : s'.queue = s.queue) (hserial : s'.serial = s.serial) (htasks : s'.tasks = s.tasks.insert id task')
    (hother : ∀ k ≠ id, s'.history k = s.history k) (htracked : Tracked task' (s'.history id))
    (hlawful : Lawful s'.trace) : Awaiting s' := by
  refine h.change hqueue hserial (h.id_le hfind) (fun k hk => ⟨?_, hother k hk⟩) (fun t ht => ?_) hlawful
  · rw [htasks, OrdMap.find_insert_ne _ _ hk]
  · rw [htasks, OrdMap.find_insert_self, Option.some.injEq] at ht
    rw [← ht]
    exact htracked

theorem start {before after : List Task} (hqueue : s.queue = before ++ task :: after)
    (hq : s'.queue = before ++ after) (hserial : s'.serial = s.serial + 1)
    (htasks : s'.tasks = s.tasks.insert (s.serial + 1) { task with data := [] })
    (hhistory : ∀ id, s'.history id = s.history id) (hlawful : Lawful s'.trace) : Awaiting s' where
  fresh t ht := by
    refine h.fresh t ?_
    rw [hq, mem_append] at ht
    rw [hqueue, mem_append, mem_cons]
    exact ht.imp id .inr
  tracked id t ht := by
    rw [hhistory]
    rw [htasks, OrdMap.find_insert] at ht
    split_ifs at ht with hid
    · cases ht
      rw [hid, (h.unused _ (Nat.lt_succ_self _)).2]
      exact .of_fresh (h.fresh task (by rw [hqueue]; simp))
    · exact h.tracked id t ht
  unused id hid := by
    have hlt : s.serial + 1 < id := hserial ▸ hid
    rw [htasks, OrdMap.find_insert_ne _ _ (Nat.ne_of_gt hlt), hhistory]
    exact h.unused id (Nat.lt_of_succ_lt hlt)
  lawful := hlawful

theorem log_completed (id generation : Nat) (result : Result) :
    Awaiting (s.log (.completed id generation result)) := by
  have hlawful : Lawful (.completed id generation result :: s.trace) :=
    h.lawful.cons _ h.lawful.once fun _ _ _ he => (nomatch he)
  have hhistory : (s.log (.completed id generation result)).history id =
      { s.history id with pending := (s.history id).pending.map (·.complete generation result) } := by
    simp [history, log, LuaEngine.pending, Event.pending, resumptions]
  have hother : ∀ k ≠ id, (s.log (.completed id generation result)).history k = s.history k := fun k hk => by
    simp [history, log, LuaEngine.pending, Event.pending, resumptions, Ne.symm hk]
  by_cases hid : id ≤ s.serial
  · refine h.change rfl rfl hid (fun k hk => ⟨rfl, hother k hk⟩) (fun task hfind => ?_) hlawful
    rw [hhistory]
    exact (h.tracked id task hfind).late generation result
  -- A completion that belongs to no task yet.
  refine h.frame h.fresh rfl rfl (fun k => ?_) hlawful
  by_cases hk : k = id
  · rw [hk, hhistory, (h.unused id (Nat.not_le.1 hid)).2]
    rfl
  · exact hother k hk

theorem resume {r : Resume} {rest : List Resume} (hresumes : s.resumes = r :: rest)
    (hfind : s.tasks.find r.id = some task) (hwaiting : task.waiting = true) :
    Awaiting
      { s with
        resumes := rest
        tasks := s.tasks.insert r.id { task with waiting := false, completionQueued := false }
        trace := .resumed r.id task.generation r.result :: s.trace } := by
  have ht := h.tracked r.id task hfind
  have hresults : (s.history r.id).results = r.result :: resultsOf r.id rest := by
    simp [history, hresumes, resultsOf]
  refine h.insert hfind rfl rfl rfl (fun k hk => ?_) ?_ ?_
  · simp [history, LuaEngine.pending, Event.pending, resumptions, resultsOf, hresumes, Ne.symm hk]
  · have hhistory := ht.resume hresults
    simpa [history, LuaEngine.pending, Event.pending, resumptions] using hhistory
  · obtain ⟨-, -, p, hpending, hgeneration, hanswers⟩ := ht.answered_of_results hresults
    refine h.lawful.cons _ (fun id => ?_) fun id _ result he => ?_
    · simp only [resumptions, filterMap_cons]
      split_ifs with hid
      · exact nodup_cons.2 ⟨hid ▸ ht.open_ hwaiting, h.lawful.once id⟩
      · exact h.lawful.once id
    · cases he
      exact ⟨p, hpending, hgeneration, hanswers⟩

/-- A completion with no task is dropped. -/
theorem skip {r : Resume} {rest : List Resume} (hresumes : s.resumes = r :: rest)
    (hrunning : ∀ task, s.tasks.find r.id = some task → task.waiting = false) :
    Awaiting { s with resumes := rest } := by
  have hresults : (s.history r.id).results = r.result :: resultsOf r.id rest := by
    simp [history, hresumes, resultsOf]
  have hid : r.id ≤ s.serial := by
    by_contra hlt
    rw [(h.unused r.id (Nat.not_le.1 hlt)).2] at hresults
    cases hresults
  refine h.change rfl rfl hid (fun k hk => ⟨rfl, ?_⟩) (fun task hfind => ?_) h.lawful
  · simp [history, resultsOf, hresumes, Ne.symm hk]
  · -- A task that runs has no result to be resumed with.
    have hnil := ((h.tracked r.id task hfind).not_pending (hrunning task hfind)).2.1
    rw [hresults] at hnil
    cases hnil

theorem move (hmove : Move s s') : Awaiting s' := by
  cases hmove with
  | turn => exact h.frame h.fresh rfl rfl (fun _ => rfl) h.lawful
  | enqueue _ hfresh =>
    refine h.frame (fun t ht => ?_) rfl rfl (fun _ => rfl) (h.lawful.cons _ h.lawful.once fun _ _ _ he => (nomatch he))
    obtain ht | ht := mem_append.1 ht
    · exact h.fresh t ht
    · rw [mem_singleton.1 ht]
      exact ⟨hfresh.idle, hfresh.unanswered, hfresh.awake⟩
  | drop _ _ _ _ hqueue =>
    refine h.frame (fun t ht => h.fresh t ?_) rfl rfl (fun _ => rfl) (h.lawful.replied _ _)
    rw [hqueue, mem_append, mem_cons]
    exact (mem_append.1 ht).imp id .inr
  | start _ _ _ hqueue =>
    exact h.start hqueue rfl rfl rfl (fun _ => rfl) (h.lawful.cons _ h.lawful.once fun _ _ _ he => (nomatch he))
  | sleep id task env timeout hfind hrunning =>
    refine h.insert hfind rfl rfl rfl (fun k hk => ?_) ?_ (h.lawful.cons _ h.lawful.once fun _ _ _ he => (nomatch he))
    · simp [history, LuaEngine.pending, Event.pending, resumptions, Ne.symm hk]
    · have hsleep := (h.tracked id task hfind).sleep hrunning s.limits env timeout (some (env.time + timeout))
      simpa [history, LuaEngine.pending, Event.pending, resumptions] using hsleep
  | issue id task env hfind hrunning =>
    refine h.insert hfind rfl rfl rfl (fun k hk => ?_) ?_ (h.lawful.cons _ h.lawful.once fun _ _ _ he => (nomatch he))
    · simp [history, LuaEngine.pending, Event.pending, resumptions, issuedOf, Ne.symm hk]
    · have hissue := (h.tracked id task hfind).issue hrunning s.limits env
      simpa [history, LuaEngine.pending, Event.pending, resumptions, issuedOf] using hissue
  | wake id task hfind hwake =>
    refine h.insert hfind rfl rfl rfl (fun k hk => ?_) ?_ h.lawful
    · simp [history, pushResume, resultsOf, Ne.symm hk]
    · have hover := (h.tracked id task hfind).wake hwake
      simpa [history, pushResume, resultsOf] using hover
  | late id generation result => exact h.log_completed id generation result
  | answer id task given _ hissued hfind hwaiting hfirst hresult =>
    have hlog := h.log_completed id task.generation given
    refine hlog.insert hfind rfl rfl rfl (fun k hk => ?_) ?_ hlog.lawful
    · simp [history, pushResume, resultsOf, Ne.symm hk]
    · have hmem : task.generation ∈ (s.history id).issued := mem_filterMap.2 ⟨_, hissued, if_pos rfl⟩
      have hanswer := (h.tracked id task hfind).answer hmem hwaiting hfirst hresult
      simpa [history, pushResume, log, LuaEngine.pending, Event.pending, resumptions, resultsOf] using hanswer
  | skip _ _ hresumes hrunning => exact h.skip hresumes hrunning
  | resume _ _ _ hresumes hfind hwaiting => exact h.resume hresumes hfind hwaiting
  | finish _ _ _ hfind =>
    simp only [Engine.finish, hfind]
    refine h.change rfl rfl (h.id_le hfind) (fun k hk => ⟨OrdMap.find_erase_ne _ hk, rfl⟩) (fun t ht => ?_)
      (h.lawful.replied _ _)
    rw [OrdMap.find_erase_self] at ht
    cases ht

end

end Awaiting

/-! ## Runs -/

/-- What holds while the engine runs. -/
structure Sound (s : Engine) : Prop where
  counted : Counted s
  exclusive : Exclusive s
  awaiting : Awaiting s

/-- What holds when it has stopped. -/
structure Halted (s : Engine) : Prop where
  stopped : s.stopped = true
  idle : s.phase = .idle
  empty : s.queue = [] ∧ s.tasks = OrdMap.empty
  counted : Counted s
  lawful : Lawful s.trace

namespace Sound

variable {s s' : Engine}

theorem move (h : Sound s) (hmove : Move s s') : Sound s' :=
  have hids := (h.awaiting.unused _ (Nat.lt_succ_self _)).1
  ⟨h.counted.move hids hmove, h.exclusive.move hids hmove, h.awaiting.move hmove⟩

theorem moves (h : Sound s) (hmoves : Moves s s') : Sound s' := by
  induction hmoves with
  | refl => exact h
  | tail _ hmove ih => exact ih.move hmove

theorem halted (h : Sound s) (hrunning : s.stopped = false) (order : List Nat) : Halted (s.stopNow order) := by
  refine ⟨?_, ?_, ?_, h.counted.stopNow order, ?_⟩
  · simp [stopNow, hrunning]
  · simp [stopNow, hrunning]
  · simp [stopNow, hrunning]
  · simp only [stopNow, hrunning, Bool.false_eq_true, if_false]
    refine Lawful.append_replied (Lawful.append_replied h.awaiting.lawful fun e he => ?_) fun e he => ?_
    · obtain ⟨t, -, rfl⟩ := mem_map.1 (mem_reverse.1 he)
      exact ⟨_, _, rfl⟩
    · obtain ⟨t, -, rfl⟩ := mem_map.1 (mem_reverse.1 he)
      exact ⟨_, _, rfl⟩

end Sound

/-- The engine runs or has stopped. -/
def Valid (s : Engine) : Prop := s.stopped = false ∧ Sound s ∨ Halted s

theorem valid_load (limits : ScriptLimits) (starts : List Start) (now : Nat) : Valid (load limits starts now) := by
  have hinit : Sound ({ limits } : Engine) :=
    { counted := ⟨.refl _, .nil, fun _ => .nil, fun _ _ hn => (nomatch hn), fun _ _ hn => (nomatch hn)⟩
      exclusive := .empty rfl rfl
      awaiting := ⟨fun _ ht => (nomatch ht), fun _ _ hfind => (nomatch hfind), fun _ _ => ⟨rfl, rfl⟩, .nil⟩ }
  have hmoves : ∀ (tasks : List Task), (∀ task ∈ tasks, Fresh task) → ∀ s, Moves s (run enqueue s tasks) := by
    intro tasks
    induction tasks with
    | nil => exact fun _ s => .refl
    | cons task _ ih =>
      intro hfresh s
      rw [forall_mem_cons] at hfresh
      exact .head (.enqueue s task hfresh.1) (ih hfresh.2 _)
  have hload : Moves ({ limits } : Engine) (load limits starts now) := by
    refine hmoves _ (fun task ht => ?_) _
    obtain ⟨_, -, rfl⟩ := mem_map.1 ht
    exact ⟨rfl, rfl, rfl⟩
  exact .inl ⟨hload.stopped, hinit.moves hload⟩

theorem valid_step (s : Engine) (a : Action) (h : Valid s) : Valid (s.step a) := by
  obtain ⟨hrunning, h⟩ | h := h
  · obtain ⟨m, hmoves, heq⟩ := ends_step a h.awaiting.fresh
    have hm : m.stopped = false := by rw [hmoves.stopped, hrunning]
    obtain heq | ⟨order, heq⟩ := heq
    · rw [heq]
      exact .inl ⟨hm, h.moves hmoves⟩
    · rw [heq]
      exact .inr ((h.moves hmoves).halted hm order)
  · rw [step_of_stopped a h.stopped h.idle]
    exact .inr h

theorem Counted.replies_accepted {s : Engine} (h : Counted s) :
    (replies s.trace).Nodup ∧ ∀ number ∈ replies s.trace, number < s.accepted := by
  have hsub : (replies s.trace).Sublist (s.queue.map Task.number ++ (numbers s.tasks ++ replies s.trace)) :=
    (sublist_append_right _ _).trans (sublist_append_right _ _)
  refine ⟨(h.places.nodup_iff.2 nodup_range).sublist hsub, fun number hn => ?_⟩
  exact mem_range.1 (h.places.subset (hsub.subset hn))

theorem Valid.scheduled {s : Engine} (h : Valid s) : Scheduled s := by
  have hstops : ∀ order, s.phase = .idle → (s.step (.stop order)).stopped = true := fun order hidle => by
    simp only [step, stop, if_pos hidle, stopNow]
    split_ifs with hstopped
    · exact hstopped
    · rfl
  obtain ⟨hrunning, h⟩ | h := h
  · refine ⟨fun id id' task task' hfind hfind' hmailbox hne => ?_, h.counted.ordered, h.awaiting.lawful.once,
      h.awaiting.lawful.own, h.counted.replies_accepted, fun hstopped => ?_, hstops⟩
    · refine h.exclusive.single task.mailbox hne id id' ?_ ?_
      · rw [mailboxOf, hfind, Option.map_some]
      · rw [mailboxOf, hfind', Option.map_some, hmailbox]
    · rw [hrunning] at hstopped
      cases hstopped
  · obtain ⟨hqueue, htasks⟩ := h.empty
    refine ⟨fun id id' task task' hfind => ?_, h.counted.ordered, h.lawful.once, h.lawful.own,
      h.counted.replies_accepted, fun _ => ?_, hstops⟩
    · rw [htasks] at hfind
      cases hfind
    · have hplaces := h.counted.places
      rw [hqueue, htasks] at hplaces
      exact hplaces

/-- No task is lost, and no mailbox stays locked. -/
structure Conserved (s : Engine) : Prop where
  /-- Every accepted task is in one place: it waits, it is live, or it was replied to. -/
  places : (s.queue.map Task.number ++ (numbers s.tasks ++ replies s.trace)).Perm (List.range s.accepted)
  busy : s.stopped = false → ∀ mailbox ≠ [], s.busy mailbox = true ↔ ∃ id, mailboxOf s.tasks id = some mailbox

theorem tasks_conserved (limits : ScriptLimits) (starts : List Start) (now : Nat) (actions : List Action) :
    Conserved (run step (load limits starts now) actions) := by
  obtain ⟨-, h⟩ | h := run_inv valid_step (valid_load limits starts now) actions
  · exact ⟨h.counted.places, fun _ => h.exclusive.busy⟩
  · refine ⟨h.counted.places, fun hrunning => ?_⟩
    cases hrunning.symm.trans h.stopped

end Engine

end Fsnet.LuaEngine
