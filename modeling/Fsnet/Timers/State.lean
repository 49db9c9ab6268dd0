import Fsnet.Entity.Frame
/-!
# Entity timers

The timers an entity keeps in its record. A timer is known by its key; the
`generation` tells apart the timers that were scheduled under one key, and the
due time the occurrences of one generation. Times are milliseconds since the
epoch, at most `maxTime`.
-/

namespace Fsnet

open Lib

/-- `INT64_MAX`. -/
def maxTime : Int := 2 ^ 63 - 1

def timerPayloadLimit : Nat := 65536

inductive TimerMissed where
  | coalesce
  | catchUp
  deriving DecidableEq, Repr

structure EntityTimer where
  key : Bytes
  method : Bytes
  payload : Bytes
  generation : Bytes
  due : Int
  interval : Int
  remaining : Nat
  missed : TimerMissed
  fixedDelay : Bool
  deriving DecidableEq, Repr

structure EntityTimerState where
  sequence : UInt64 := 0
  token : Bytes := []
  entries : OrdMap Bytes EntityTimer := .empty

structure EntityTimerEvent where
  timer : EntityTimer
  fired : Int
  deriving DecidableEq, Repr

/-- The string `version.sequence` tokens and generations are made of. -/
def timerStamp (version sequence : UInt64) : Bytes := decimal version.toNat ++ 0x2e :: decimal sequence.toNat

variable (state : EntityTimerState) (timer : EntityTimer)

def EntityTimer.valid : Bool :=
  !timer.key.isEmpty && timer.key.length ≤ 128 && !timer.generation.isEmpty && timer.generation.length ≤ 64 &&
    validEntityMethod timer.method && timer.payload.length ≤ timerPayloadLimit && 0 ≤ timer.due &&
    0 ≤ timer.interval && timer.remaining ≤ maxTime && !(timer.interval = 0 && timer.remaining ≠ 1) &&
    !(timer.fixedDelay && timer.missed = .catchUp)

def checkTimer : Except Failure Unit :=
  refuseIf (timer.valid = false) (.invalid "invalid entity timer")

/-! ## Advancing a timer -/

/-- What the next due time counts from. -/
def EntityTimer.base (now : Int) : Int := if timer.fixedDelay then now else timer.due

/-- How many intervals a fired timer moves on from its base. -/
def EntityTimer.steps (now : Int) : Int :=
  if timer.fixedDelay || timer.missed = .catchUp then 1 else (now - timer.due) / timer.interval + 1

/-- `advance_entity_timer`: the timer's next occurrence, or nothing when it has none. -/
def advanceEntityTimer (now : Int) : Except Failure (Option EntityTimer) := do
  checkTimer timer
  refuseIf (now < timer.due) (.invalid "timer has not expired")
  let remaining := timer.remaining - 1
  if timer.interval = 0 ∨ (timer.remaining ≠ 0 ∧ remaining = 0) then
    pure none
  else
    if timer.steps now > (maxTime - timer.base now) / timer.interval then
      pure none
    else
      pure (some { timer with remaining, due := timer.base now + timer.steps now * timer.interval })

theorem EntityTimer.due_le_base {timer : EntityTimer} {now : Int} (hn : timer.due ≤ now) :
    timer.due ≤ timer.base now := by
  unfold EntityTimer.base
  split_ifs <;> omega

theorem EntityTimer.one_le_steps {timer : EntityTimer} {now : Int} (hi : 0 ≤ timer.interval) (hn : timer.due ≤ now) :
    1 ≤ timer.steps now := by
  unfold EntityTimer.steps
  split_ifs
  · exact le_refl 1
  · have : 0 ≤ (now - timer.due) / timer.interval := Int.ediv_nonneg (by omega) hi
    omega

/-- `next_entity_timer`: the earliest due time. -/
def nextEntityTimer : Int :=
  state.entries.entries.foldl (fun due entry => if entry.2.due < due then entry.2.due else due) maxTime

/-! ## Timers on the wire -/

def timerInteger (n : Int) : Bytes := bigEndian 8 n.toNat

def timerBlob (value : Bytes) : Except Failure Bytes := do
  refuseIf (value.length > timerPayloadLimit) (.invalid "timer field limit")
  pure (bigEndian 8 value.length ++ value)

def timerFlags : UInt8 :=
  (if timer.missed = .catchUp then 1 else 0) + (if timer.fixedDelay then 2 else 0)

def putTimer : Except Failure Bytes := do
  checkTimer timer
  let key ← timerBlob timer.key
  let method ← timerBlob timer.method
  let payload ← timerBlob timer.payload
  let generation ← timerBlob timer.generation
  pure (key ++ method ++ payload ++ generation ++ timerInteger timer.due ++ timerInteger timer.interval ++
    bigEndian 8 timer.remaining ++ [timerFlags timer])

/-- The loop of `entity_timers_wire_size`. -/
def timersSize : List (Bytes × EntityTimer) → Nat → Except Failure Nat
  | [], size => pure size
  | (key, timer) :: rest, size => do
    refuseIf (key ≠ timer.key) (.invalid "timer key mismatch")
    checkTimer timer
    timersSize rest (size + 57 + timer.key.length + timer.method.length + timer.payload.length +
      timer.generation.length)

def entityTimersWireSize : Except Failure Nat := do
  refuseIf (state.entries.size > 1024 ∨ state.token.length > 64 ∨ decide (state.sequence = 0) ≠ state.token.isEmpty ∨
    (state.entries.size ≠ 0 ∧ state.sequence = 0)) (.invalid "invalid timer state")
  let size ← timersSize state.entries.entries (28 + state.token.length)
  refuseIf (size > 2 * 1024 * 1024) (.length "timer state budget")
  pure size

def putTimers : List (Bytes × EntityTimer) → Except Failure Bytes
  | [] => pure []
  | (key, timer) :: rest => do
    refuseIf (key ≠ timer.key) (.invalid "timer key mismatch")
    let bytes ← putTimer timer
    let tail ← putTimers rest
    pure (bytes ++ tail)

def encodeEntityTimers : Except Failure Bytes := do
  let _ ← entityTimersWireSize state
  let token ← timerBlob state.token
  let timers ← putTimers state.entries.entries
  let out := ascii "FST1" ++ integer state.sequence ++ token ++ bigEndian 8 state.entries.size ++ timers
  refuseIf (out.length > 2 * 1024 * 1024) (.length "timer state budget")
  pure out

def encodeTimerEvent (event : EntityTimerEvent) : Except Failure Bytes := do
  refuseIf (event.fired < event.timer.due) (.invalid "early timer event")
  let timer ← putTimer event.timer
  pure (ascii "FTE1" ++ timer ++ timerInteger event.fired)

end Fsnet
