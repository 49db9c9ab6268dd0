import Fsnet.Host.Mailbox
/-!
# What a running script may ask for

Timers and deliveries belong to the transaction of the running job: they are
kept in the job and reach the store only with its commit. A send first looks
its target up and registers the source on the storage thread; it is taken into
the outbox only if the job that asked for it is still running.
-/

namespace Fsnet

open Lib Function

/-! ## Timers -/

structure EntityTimerSpec where
  key : Bytes := []
  method : Bytes
  payload : Bytes := []
  delay : Int := 0
  atMs : Int := -1
  interval : Int := 0
  count : Nat := 1
  missed : TimerMissed := .coalesce
  fixedDelay : Bool := false

def EntityTimerSpec.refused (spec : EntityTimerSpec) (time : Int) : Bool :=
  time < 0 || spec.delay < 0 || spec.atMs < -1 || spec.interval < 0 || (0 ≤ spec.atMs && spec.delay ≠ 0) ||
    (spec.atMs < 0 && maxTime - time < spec.delay)

/-- The timer a schedule makes; its generation is the record version the job acquired and the next sequence. -/
def EntityTimerSpec.timer (spec : EntityTimerSpec) (time : Int) (generation : Bytes) : EntityTimer :=
  { key := if spec.key = [] then ascii "timer:" ++ generation else spec.key
    method := spec.method, payload := spec.payload, generation
    due := if 0 ≤ spec.atMs then spec.atMs else time + spec.delay
    interval := spec.interval, remaining := spec.count, missed := spec.missed, fixedDelay := spec.fixedDelay }

def nextGeneration (job : Job) : Bytes := timerStamp job.version (job.timers.sequence + 1)

/-- `timer_job`: timers belong to a durable entity. -/
def timerJob (task : Task) : Except Failure Unit :=
  refuseIf (task.job.metadata.all (·.rebuildable) = true)
    (.logic "persistent timers require an active durable entity transaction")

def scheduleTimer (h : Host) (task : Task) (spec : EntityTimerSpec) (time : Int) :
    Except Failure (Task × EntityTimer) := do
  timerJob task
  refuseIf (spec.refused time = true) (.invalid "invalid timer time")
  refuseIf (h.contains ⟨task.job.request.route.type, timerMethod⟩ = false) (.logic "entity has no timer dispatcher")
  let timers := task.job.timers
  refuseIf (timers.sequence.toNat = 2 ^ 64 - 1) (.overflow "timer sequence exhausted")
  let timer := spec.timer time (nextGeneration task.job)
  let task ← publishTimers h.limits task { timers with entries := timers.entries.insert timer.key timer }
  pure (task, timer)

def cancelTimer (h : Host) (task : Task) (key : Bytes) : Except Failure Task := do
  timerJob task
  let timers := task.job.timers
  if (timers.entries.find key).isNone then pure task
  else publishTimers h.limits task { timers with entries := timers.entries.erase key }

/-! ## Deliveries -/

/-- `forget_delivery`: the first message with the ticket that is done goes. -/
def forgetOutbox (ticket : Bytes) : List DeliveryMessage → List DeliveryMessage
  | [] => []
  | m :: rest => if m.ticket = ticket ∧ m.done then rest else m :: forgetOutbox ticket rest

def forgetDelivery (job : Job) (ticket : Bytes) : Job :=
  { job with delivery := { job.delivery with outbox := forgetOutbox ticket job.delivery.outbox } }

/-- The refusals of `send_entity` before it is submitted. -/
def refusesSend (h : Host) (job : Job) (type id method payload : Bytes) : Bool :=
  h.stopped || !h.deliveryEnabled || job.rebuildable || !validRoutePart method ||
    !(validRoutePart type || (type.isEmpty && validEntityId id)) || id.isEmpty || 256 < id.length ||
    method.head? = some 0x24 || deliveryPayloadLimit < payload.length ||
    h.limits.deliveryMessages ≤ job.delivery.outbox.length

namespace Send

def finish (send : Send) (status : Status) : Send := { send with stage := .finished status }

/-- The target's record was read. -/
def resumeTarget (send : Send) (stored : Option (Cell StoredRecord)) : Send :=
  match stored with
  | none => send.finish .notFound
  | some cell =>
    let value := cell.value.val
    if value.metadata.destroyed ∨ value.metadata.rebuildable ∨ (send.type ≠ [] ∧ value.metadata.type ≠ send.type) then
      send.finish .rejected
    else
      let send := { send with type := value.metadata.type }
      if value.initialized = false ∨ value.snapshot.delivery.epoch = 0 then send.finish .overloaded
      else { send with targetEpoch := value.snapshot.delivery.epoch, stage := .registry 0 }

/-- The registry was read. -/
def resumeRegistry (limits : RuntimeLimits) (send : Send) (attempt : Nat) (stored : Option (Cell DeliverySources)) :
    Send :=
  let sources := (stored.map Cell.value).getD []
  let source := (send.entity.type, send.entity.id)
  if source ∈ sources then send.finish .ok
  else if sources.length ≥ limits.deliverySources then send.finish .overloaded
  else
    match encodeDeliverySources (sources ++ [source]) with
    | .error _ => send.finish .internal
    | .ok _ => { send with stage := .register attempt ((stored.map Cell.version).getD 0) (sources ++ [source]) }

/-- The registry was swapped in, or another writer was faster. -/
def resumeRegister (send : Send) (attempt : Nat) (swapped : Bool) : Send :=
  if swapped then send.finish .ok
  else if attempt + 1 < 8 then { send with stage := .registry (attempt + 1) }
  else send.finish .overloaded

end Send

/-- The message a send adds to the outbox. -/
def sentMessage (send : Send) (sequence : UInt64) : DeliveryMessage :=
  { ticket := [], type := send.type, id := send.id, method := send.method, payload := send.payload
    targetEpoch := send.targetEpoch, sequence }

/-- What throws while a send is taken is answered as overload. -/
def orOverloaded {α : Type} (x : Except Failure α) : Except Status α :=
  match x with
  | .ok a => .ok a
  | .error _ => .error .overloaded

/-- The delivery state with the message of a send: the next of its channel, at the end of the outbox. -/
def appendSend (hash : Bytes → Bytes) (limits : RuntimeLimits) (delivery : EntityDeliveryState) (send : Send) :
    Except Status EntityDeliveryState := do
  let channel ← orOverloaded (deliveryChannel send.type send.id send.targetEpoch)
  let last := (delivery.sent.find channel).getD 0
  refuseIf (delivery.sent.find channel = none ∧ delivery.sent.size ≥ limits.deliveryChannels) .overloaded
  refuseIf (last.toNat = 2 ^ 64 - 1) .overloaded
  let message := sentMessage send (last + 1)
  let ticket ← orOverloaded (deliveryTicket hash ⟨send.entity.type, send.entity.id, delivery.epoch, message⟩)
  pure { delivery with
    sent := delivery.sent.insert channel (last + 1), outbox := delivery.outbox ++ [{ message with ticket }] }

/-- The completion of a send in the job that asked for it. -/
def takeSend (hash : Bytes → Bytes) (limits : RuntimeLimits) (task : Task) (send : Send) : Except Status Task := do
  let next ← appendSend hash limits task.job.delivery send
  let charge ← orOverloaded (deliveryCharge next)
  refuseIf (charge > limits.deliveryBytes ∨ next.outbox.length > limits.deliveryMessages) .overloaded
  let previous ← orOverloaded (encodeDeliveryState task.job.delivery)
  let bytes ← orOverloaded (encodeDeliveryState next)
  let growth := 2 * (bytes.length - previous.length)
  refuseIf (growth > task.room limits) .overloaded
  let task := task.grow growth
  pure { task with job := { task.job with delivery := next } }

namespace Host

variable (h : Host) (k : EntityKey)

/-- The job of an entity, while a step of its chain runs. -/
def running : Option Job :=
  match h.active k with
  | none => none
  | some job =>
    match job.phase with
    | .executing _ _ => if h.stopped then none else some job
    | _ => none

/-- The job of an entity, while its script runs. The host itself answers the empty step of a release. -/
def scripting : Option Job :=
  match h.running k with
  | none => none
  | some job => if job.isNoop then none else some job

def withTask (task : Task) : Host := { h with counters := task.counters }.setJob k task.job

/-- The script sets a timer. -/
def schedule (spec : EntityTimerSpec) (time : Int) : Turn :=
  match h.scripting k with
  | none => ⟨h, []⟩
  | some job =>
    match scheduleTimer h ⟨job, h.counters⟩ spec time with
    | .error _ => ⟨h, []⟩
    | .ok (task, timer) => ⟨h.withTask k task, [.scheduled k job timer]⟩

/-- The script cancels a timer. -/
def cancel (key : Bytes) : Host :=
  match h.scripting k with
  | none => h
  | some job =>
    match cancelTimer h ⟨job, h.counters⟩ key with
    | .error _ => h
    | .ok task => h.withTask k task

/-- The script forgets a message that is done. -/
def forget (ticket : Bytes) : Host :=
  match h.scripting k with
  | none => h
  | some job => h.setJob k (forgetDelivery job ticket)

/-- The script sends a message; `n` is the number of the new send. -/
def startSend (n : Nat) (type id method payload : Bytes) : Host :=
  match h.scripting k with
  | none => h
  | some job =>
    if (h.sends n).isSome ∨ refusesSend h job type id method payload then h
    else
      let send : Send := { entity := k, serial := job.serial, type, id, method, payload }
      { h with sends := update h.sends n (some send) }

def setSend (n : Nat) (send : Send) : Host := { h with sends := update h.sends n (some send) }

/-- The completion of a send. -/
def finishSend (hash : Bytes → Bytes) (h : Host) (n : Nat) (send : Send) (status : Status) : Host :=
  let h := { h with sends := update h.sends n none }
  match h.scripting send.entity with
  | none => h
  | some job =>
    if job.serial ≠ send.serial ∨ status ≠ .ok then h
    else
      match takeSend hash h.limits ⟨job, h.counters⟩ send with
      | .error _ => h
      | .ok task => h.withTask send.entity task

end Host

end Fsnet
