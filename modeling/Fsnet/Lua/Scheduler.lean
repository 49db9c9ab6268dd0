import Fsnet.Entity.Identity
import Fsnet.Lib.OrdMap
import Fsnet.Lib.Runs
/-!
# The Lua task scheduler

`LuaEngine`: calls wait in a queue, run as coroutines that suspend at awaits, and
are resumed by what the host completes or when a sleep is over. `poll` does the
work in steps, and between two of them, wherever a reply or a call of the host
runs foreign code, calls, completions and a request to stop may come in. A list
of actions is one such run; what the script does in a resume is an input.
-/

namespace Fsnet.LuaEngine

open Lib

/-! ## Tasks -/

structure ScriptLimits where
  queuedRequests : Nat := 128
  queuedBytes : Nat := 4 * 1024 * 1024
  activeCoroutines : Nat := 128
  taskTimeout : Nat := 30000

structure Task where
  /-- How many tasks were accepted before it. No definition reads it. -/
  number : Nat
  mailbox : Bytes := []
  data : Bytes := []
  background : Bool := false
  initialization : Bool := false
  deadline : Nat
  waiting : Bool := false
  completionQueued : Bool := false
  wake : Option Nat := none
  generation : Nat := 0

/-- What a task is resumed with. -/
structure Resume where
  id : Nat
  result : Result

/-- What a script awaits: the end of a sleep, or a completion from the host. -/
inductive Await where
  | sleep (timeout : Nat)
  | host
  deriving DecidableEq, Repr

/-- What `lua_resume` returned. -/
inductive LuaStatus where
  /-- The handler returned, one string if it did as it should. -/
  | ok (data : Option Bytes)
  | error (memory : Bool)
  | yield (await : Option Await)
  deriving DecidableEq, Repr

/-- What a resume of a coroutine leaves behind. -/
structure Resumption where
  timedOut : Bool := false
  memoryExhausted : Bool := false
  rejected : Bool := false
  exhausted : Bool := false
  status : LuaStatus

/-- What the engine meets in a step of `poll`: the clock, whether the caller's
identity is live, whether the values for the coroutine could be pushed, what the
coroutine did, whether the call of the host returned, and the order the table of
tasks is walked in. -/
structure Env where
  time : Nat := 0
  live : Bool := true
  prepared : Bool := true
  resumption : Resumption := { status := .ok (some []) }
  issued : Bool := true
  order : List Nat := []

/-- Where `poll` is. -/
inductive Phase where
  | idle
  /-- It ends the tasks whose identity is no longer live. -/
  | revoking (ids : List Nat) (now limit : Nat)
  /-- It answers the calls at the front of the queue whose time is over. -/
  | draining (now limit : Nat)
  /-- It ends the tasks whose time is over. -/
  | expiring (ids : List Nat) (limit : Nat)
  /-- It has the given number of tasks left to resume or start. -/
  | working (left : Nat)
  /-- It is in the call of the host that an await makes. -/
  | issuing (id left : Nat)
  deriving DecidableEq, Repr

inductive Event where
  | accepted (number : Nat)
  | started (number : Nat) (mailbox : Bytes)
  | awaited (id generation : Nat) (await : Await)
  | completed (id generation : Nat) (result : Result)
  | resumed (id generation : Nat) (result : Result)
  | replied (number : Nat) (result : Result)
  deriving DecidableEq

structure Engine where
  limits : ScriptLimits
  queue : List Task := []
  queuedBytes : Nat := 0
  tasks : OrdMap Nat Task := OrdMap.empty
  busy : Bytes → Bool := fun _ => false
  resumes : List Resume := []
  completedBytes : Nat := 0
  serial : Nat := 0
  stopped : Bool := false
  stopRequested : Bool := false
  phase : Phase := .idle
  /-- The completions the host has been given, by task and generation. -/
  issued : List (Nat × Nat) := []
  /-- How many tasks were accepted. -/
  accepted : Nat := 0
  /-- What happened, newest first. -/
  trace : List Event := []

namespace Engine

variable (s : Engine) (task : Task)

def log (e : Event) : Engine := { s with trace := e :: s.trace }

/-! ## Calls from the host -/

/-- Mailbox and data of a call, or the status it is refused with. -/
def admission (kind data : Bytes) : Except Status (Bytes × Bytes) :=
  if s.stopped then .error .disconnected
  else if s.limits.queuedRequests ≤ s.queue.length ∨ s.limits.queuedBytes - s.queuedBytes < data.length then
    .error .overloaded
  else if kind = [] then .ok ([], data)
  else if data.length < 6 ∨ ¬(ascii "FSE1").isPrefixOf data then .error .rejected
  else
    let length := ofBigEndian ((data.drop 4).take 2)
    if length = 0 ∨ 256 < length ∨ data.length < 6 + length then .error .rejected
    else .ok (kind ++ 0 :: (data.drop 6).take length, data.drop (6 + length))

/-- The task at the end of the queue. -/
def enqueue : Engine :=
  { s with
    queue := s.queue ++ [{ task with number := s.accepted }]
    queuedBytes := s.queuedBytes + task.data.length
    accepted := s.accepted + 1
    trace := .accepted s.accepted :: s.trace }

/-- The handler of a route. A call that is refused is answered at once. -/
def call (kind data : Bytes) (now : Nat) : Engine :=
  match s.admission kind data with
  | .error _ => s
  | .ok (mailbox, data) => s.enqueue { number := 0, mailbox, data, deadline := now + s.limits.taskTimeout }

/-- The task is to be resumed with the result. -/
def pushResume (id : Nat) (task : Task) (result : Result) : Engine :=
  { s with
    tasks := s.tasks.insert id { task with completionQueued := true }
    resumes := s.resumes ++ [⟨id, result⟩]
    completedBytes := s.completedBytes + result.data.length }

/-- The host calls a completion that it was given. -/
def complete (id generation : Nat) (result : Result) : Engine :=
  if (id, generation) ∉ s.issued ∨ s.stopped = true then s
  else
    let s := s.log (.completed id generation result)
    match s.tasks.find id with
    | none => s
    | some task =>
      if task.waiting = false ∨ task.generation ≠ generation ∨ task.completionQueued = true then s
      else
        s.pushResume id task
          (if s.limits.queuedBytes - s.completedBytes < result.data.length then ⟨.overloaded, []⟩ else result)

/-! ## The end of a task -/

def finish (id : Nat) (result : Result) : Engine :=
  match s.tasks.find id with
  | none => s
  | some task =>
    { s with
      tasks := s.tasks.erase id
      busy := if task.mailbox = [] then s.busy else Function.update s.busy task.mailbox false
      trace := .replied task.number result :: s.trace }

/-- The tasks in the order the table is walked. -/
def walk (order : List Nat) : List (Nat × Task) := arrange order Prod.fst s.tasks.entries

/-- Everything that is left is answered; the order of the replies is that of the tables. -/
def stopNow (order : List Nat) : Engine :=
  if s.stopped then s
  else
    { s with
      stopped := true, queue := [], queuedBytes := 0, tasks := OrdMap.empty, busy := fun _ => false, resumes := []
      completedBytes := 0, phase := .idle
      trace := ((s.walk order).map fun e => Event.replied e.2.number ⟨.disconnected, []⟩).reverse ++
        ((s.queue.map fun t => Event.replied t.number ⟨.disconnected, []⟩).reverse ++ s.trace) }

/-- `LuaEngine::stop`. -/
def stop (order : List Nat) : Engine :=
  if s.phase = .idle then s.stopNow order else { s with stopRequested := true }

/-! ## Running a task -/

/-- A coroutine that ended, with the result for its caller; nothing when it awaits. -/
def outcome (limits : ScriptLimits) (task : Task) (env : Env) : Except Result Await :=
  let r := env.resumption
  if r.timedOut ∨ task.deadline ≤ env.time then .error ⟨.timeout, []⟩
  else if r.memoryExhausted then .error ⟨.overloaded, []⟩
  else if r.rejected then .error ⟨.rejected, []⟩
  else if r.exhausted then .error ⟨.overloaded, []⟩
  else
    match r.status with
    | .ok none => .error ⟨.internal, []⟩
    | .ok (some data) => if limits.queuedBytes < data.length then .error ⟨.overloaded, []⟩ else .error ⟨.ok, data⟩
    | .error memory => .error ⟨if memory then .overloaded else .internal, []⟩
    | .yield none => .error ⟨.internal, []⟩
    | .yield (some await) => .ok await

/-- The task suspended at an await. -/
def suspend (limits : ScriptLimits) (task : Task) (env : Env) : Task :=
  { task with
    waiting := true
    generation := task.generation + 1
    deadline :=
      if task.background ∧ task.initialization = false then env.time + limits.taskTimeout else task.deadline }

/-- `advance`: the coroutine runs to its end or to its next await. -/
def advance (id left : Nat) (env : Env) : Engine :=
  match s.tasks.find id with
  | none => { s with phase := .working left }
  | some task =>
    if env.live = false then { s.finish id ⟨.rejected, []⟩ with phase := .working left }
    else
      match outcome s.limits task env with
      | .error result => { s.finish id result with phase := .working left }
      | .ok (.sleep timeout) =>
        let task := suspend s.limits task env
        { s with
          tasks := s.tasks.insert id { task with wake := some (env.time + timeout) }
          trace := .awaited id task.generation (.sleep timeout) :: s.trace
          phase := .working left }
      | .ok .host =>
        let task := suspend s.limits task env
        { s with
          tasks := s.tasks.insert id task
          issued := (id, task.generation) :: s.issued
          trace := .awaited id task.generation .host :: s.trace
          phase := .issuing id left }

/-- The first completion is taken. -/
def resumeFirst (r : Resume) (rest : List Resume) (left : Nat) (env : Env) : Engine :=
  let s := { s with resumes := rest, completedBytes := s.completedBytes - r.result.data.length }
  match s.tasks.find r.id with
  | none => s
  | some task =>
    if task.waiting = false then s
    else
      let s :=
        { s with
          tasks := s.tasks.insert r.id { task with waiting := false, completionQueued := false }
          trace := .resumed r.id task.generation r.result :: s.trace }
      if env.prepared then s.advance r.id (left - 1) env
      else { s.finish r.id ⟨.overloaded, []⟩ with phase := .working (left - 1) }

/-- May the task start? -/
def eligible : Bool := task.mailbox = [] || !s.busy task.mailbox

/-- A task that left the queue starts. -/
def start (left : Nat) (env : Env) : Engine :=
  if env.prepared = false then
    { s.log (.replied task.number ⟨.overloaded, []⟩) with phase := .working (left - 1) }
  else
    let id := s.serial + 1
    let s :=
      { s with
        serial := id
        busy := if task.mailbox = [] then s.busy else Function.update s.busy task.mailbox true
        tasks := s.tasks.insert id { task with data := [] }
        trace := .started task.number task.mailbox :: s.trace }
    s.advance id (left - 1) env

/-- `poll` returns. -/
def leave (order : List Nat) : Engine :=
  let s := { s with phase := .idle }
  if s.stopRequested then s.stopNow order else s

/-- One turn of the loop. -/
def work (left : Nat) (env : Env) : Engine :=
  if s.stopRequested ∨ left = 0 then s.leave env.order
  else
    match s.resumes with
    | r :: rest => s.resumeFirst r rest left env
    | [] =>
      if s.tasks.size < s.limits.activeCoroutines then
        match s.queue.find? s.eligible with
        | none => s.leave env.order
        | some task =>
          { s with
            queue := s.queue.eraseP s.eligible
            queuedBytes := s.queuedBytes - task.data.length }.start task left env
      else s.leave env.order

/-! ## Polling -/

/-- The task is resumed if its sleep is over. -/
def wake (now : Nat) (s : Engine) (id : Nat) : Engine :=
  match s.tasks.find id with
  | none => s
  | some task => if task.wake.any (· ≤ now) then s.pushResume id { task with wake := none } ⟨.ok, []⟩ else s

/-- `poll` begins. -/
def poll (now limit : Nat) (live : Nat → Bool) (order : List Nat) : Engine :=
  if s.stopped ∨ s.phase ≠ .idle then s
  else { s with phase := .revoking (((s.walk order).map Prod.fst).filter fun id => !live id) now limit }

/-- The calls in time, the tasks whose time is over are next. -/
def expire (now limit : Nat) (order : List Nat) : Engine :=
  { s with phase := .expiring (((s.walk order).filter fun e => e.2.deadline ≤ now).map Prod.fst) limit }

/-- The next step of `poll`. -/
def tick (env : Env) : Engine :=
  match s.phase with
  | .idle => s
  | .revoking (id :: ids) now limit => { s.finish id ⟨.rejected, []⟩ with phase := .revoking ids now limit }
  | .revoking [] now limit =>
    { run (wake now) s ((s.walk env.order).map Prod.fst) with phase := .draining now limit }
  | .draining now limit =>
    match s.queue with
    | task :: queue =>
      if task.deadline ≤ now then
        { s with
          queue, queuedBytes := s.queuedBytes - task.data.length
          trace := .replied task.number ⟨.timeout, []⟩ :: s.trace }
      else s.expire now limit env.order
    | [] => s.expire now limit env.order
  | .expiring (id :: ids) limit => { s.finish id ⟨.timeout, []⟩ with phase := .expiring ids limit }
  | .expiring [] limit => { s with phase := .working limit }
  | .working left => s.work left env
  | .issuing id left =>
    if env.issued then { s with phase := .working left }
    else { s.finish id ⟨.internal, []⟩ with phase := .working left }

end Engine

inductive Action where
  | call (kind data : Bytes) (now : Nat)
  | complete (id generation : Nat) (result : Result)
  | poll (now limit : Nat) (live : Nat → Bool) (order : List Nat)
  | tick (env : Env)
  /-- Foreign code throws out of `poll`. -/
  | abort
  | stop (order : List Nat)

namespace Engine

def step (s : Engine) : Action → Engine
  | .call kind data now => s.call kind data now
  | .complete id generation result => s.complete id generation result
  | .poll now limit live order => s.poll now limit live order
  | .tick env => s.tick env
  | .abort => { s with phase := .idle }
  | .stop order => s.stop order

/-- A background task a script starts with. -/
structure Start where
  critical : Bool

/-- The engine when its script has been loaded. -/
def load (limits : ScriptLimits) (starts : List Start) (now : Nat) : Engine :=
  run enqueue { limits } (starts.map fun start =>
    { number := 0, background := true, initialization := start.critical, deadline := now + limits.taskTimeout })

end Engine

end Fsnet.LuaEngine
