import Fsnet.Timers.State
import Fsnet.Lib.Frames
/-!
# Reading timers

`decode_entity_timers` and what it gives back. Times are 64-bit signed numbers
in the source; `EntityTimer.InRange` is the upper end of that range, which the
writer has no need to check.
-/

namespace Fsnet

open Lib List

def readTimerInteger (input : Bytes) : Except Failure (Nat × Bytes) :=
  readUint (.runtime "truncated timer integer") input 8

def readTimerBlob (input : Bytes) (maximum : Nat) : Except Failure (Bytes × Bytes) := do
  let (n, input) ← readTimerInteger input
  refuseIf (n > maximum ∨ n > input.length) (.runtime "invalid timer field")
  pure (input.take n, input.drop n)

def readTimerFlags (input : Bytes) : Except Failure (TimerMissed × Bool × Bytes) :=
  match input with
  | [] => throw (.runtime "invalid timer flags")
  | flags :: rest => do
    refuseIf (flags.toNat > 3) (.runtime "invalid timer flags")
    pure (if flags &&& 1 = 0 then .coalesce else .catchUp, flags &&& 2 ≠ 0, rest)

def getTimer (input : Bytes) : Except Failure (EntityTimer × Bytes) := do
  let (key, input) ← readTimerBlob input 128
  let (method, input) ← readTimerBlob input 127
  let (payload, input) ← readTimerBlob input timerPayloadLimit
  let (generation, input) ← readTimerBlob input 64
  let (due, input) ← readTimerInteger input
  let (interval, input) ← readTimerInteger input
  refuseIf ((due : Int) > maxTime ∨ (interval : Int) > maxTime) (.runtime "timer time overflow")
  let (remaining, input) ← readTimerInteger input
  let (missed, fixedDelay, input) ← readTimerFlags input
  let timer : EntityTimer := { key, method, payload, generation, due, interval, remaining, missed, fixedDelay }
  checkTimer timer
  pure (timer, input)

/-- A timer of the state, under its key. -/
def readTimerEntry (input : Bytes) : Except Failure ((Bytes × EntityTimer) × Bytes) := do
  let (timer, input) ← getTimer input
  pure ((timer.key, timer), input)

def decodeEntityTimers (input : Bytes) : Except Failure EntityTimerState := do
  refuseIf (¬(ascii "FST1").isPrefixOf input ∨ input.length > 2 * 1024 * 1024) (.runtime "invalid timer state")
  let (sequence, input) ← readTimerInteger (input.drop 4)
  let sequence := UInt64.ofNat sequence
  let (token, input) ← readTimerBlob input 64
  let (count, input) ← readTimerInteger input
  refuseIf (count > 1024 ∨ decide (sequence = 0) ≠ token.isEmpty ∨ (count ≠ 0 ∧ sequence = 0))
    (.runtime "invalid timer count/token")
  let (entries, input) ← readEntries readTimerEntry (.runtime "duplicate timer") count .empty input
  refuseIf (input ≠ []) (.runtime "trailing timer bytes")
  pure { sequence, token, entries }

/-! ## Fields -/

/-- The times of a timer are 64-bit numbers. -/
def EntityTimer.InRange (timer : EntityTimer) : Prop := timer.due ≤ maxTime ∧ timer.interval ≤ maxTime

theorem readTimerInteger_wire {n : Nat} (h : n < 2 ^ 64) (rest : Bytes) :
    readTimerInteger (bigEndian 8 n ++ rest) = .ok (n, rest) :=
  readUint_wire _ (by simpa using h) rest

theorem timerBlob_eq_ok {value out : Bytes} (h : timerBlob value = .ok out) :
    value.length ≤ timerPayloadLimit ∧ out = bigEndian 8 value.length ++ value := by
  unfold timerBlob at h
  rw [refuseIf_bind_eq_ok] at h
  exact ⟨by omega, (Except.ok.inj h.2).symm⟩

theorem readTimerBlob_wire {value out : Bytes} {maximum : Nat} (h : timerBlob value = .ok out)
    (hm : value.length ≤ maximum) (rest : Bytes) : readTimerBlob (out ++ rest) maximum = .ok (value, rest) := by
  obtain ⟨hl, rfl⟩ := timerBlob_eq_ok h
  unfold timerPayloadLimit at hl
  unfold readTimerBlob
  rw [append_assoc, readTimerInteger_wire (by omega)]
  simp only [ok_bind]
  rw [refuseIf_of_not _ (by simp [hm]), ok_bind, take_left' rfl, drop_left' rfl]
  rfl

theorem readTimerFlags_wire (timer : EntityTimer) (rest : Bytes) :
    readTimerFlags ([timerFlags timer] ++ rest) = .ok (timer.missed, timer.fixedDelay, rest) := by
  unfold timerFlags
  cases timer.missed <;> cases timer.fixedDelay <;> rfl

/-! ## Timers -/

structure EntityTimer.Bounds (timer : EntityTimer) : Prop where
  key : timer.key.length ≤ 128
  method : timer.method.length ≤ 127
  payload : timer.payload.length ≤ timerPayloadLimit
  generation : timer.generation.length ≤ 64
  due : 0 ≤ timer.due
  interval : 0 ≤ timer.interval
  remaining : (timer.remaining : Int) ≤ maxTime

theorem EntityTimer.bounds {timer : EntityTimer} (h : timer.valid = true) : timer.Bounds := by
  simp only [EntityTimer.valid, validEntityMethod, validRoutePart, Bool.and_eq_true, decide_eq_true_eq] at h
  obtain ⟨⟨⟨⟨⟨⟨⟨⟨⟨⟨-, hk⟩, -⟩, hg⟩, hm⟩, hp⟩, hd⟩, hi⟩, hr⟩, -⟩, -⟩ := h
  exact ⟨hk, hm.1.1.1.2, hp, hg, hd, hi, hr⟩

theorem getTimer_wire {timer : EntityTimer} {out : Bytes} (h : putTimer timer = .ok out) (hr : timer.InRange)
    (rest : Bytes) : getTimer (out ++ rest) = .ok (timer, rest) := by
  unfold putTimer at h
  simp only [bind_eq_ok] at h
  obtain ⟨_, hv, key, hk, method, hm, payload, hp, generation, hg, ho⟩ := h
  obtain ⟨bk, bm, bp, bg, bd, bi, br⟩ := EntityTimer.bounds (by simpa [checkTimer] using hv)
  -- a nonnegative time goes through its natural number
  have hdue : ((timer.due.toNat : Nat) : Int) = timer.due := Int.toNat_of_nonneg bd
  have hinterval : ((timer.interval.toNat : Nat) : Int) = timer.interval := Int.toNat_of_nonneg bi
  obtain ⟨rd, ri⟩ := hr
  have hmax : maxTime < 2 ^ 64 := by decide
  rw [← Except.ok.inj ho]
  unfold getTimer timerInteger
  simp only [append_assoc]
  rw [readTimerBlob_wire hk bk]
  simp only [ok_bind]
  rw [readTimerBlob_wire hm bm]
  simp only [ok_bind]
  rw [readTimerBlob_wire hp bp]
  simp only [ok_bind]
  rw [readTimerBlob_wire hg bg]
  simp only [ok_bind]
  rw [readTimerInteger_wire (by omega)]
  simp only [ok_bind]
  rw [readTimerInteger_wire (by omega)]
  simp only [ok_bind, hdue, hinterval]
  rw [refuseIf_of_not _ (by omega), ok_bind, readTimerInteger_wire (by omega)]
  simp only [ok_bind, readTimerFlags_wire]
  rw [hv]
  rfl

/-- Of the entries written under their own keys, those in range are read back. -/
theorem frames_timers : Frames (fun entry => entry.2.InRange) putTimers readTimerEntry := by
  constructor
  · rfl
  · intro entry _ _ h hr
    obtain ⟨_, _⟩ := entry
    simp only [putTimers, bind_eq_ok, refuseIf_eq_ok, ne_eq, not_not] at h
    obtain ⟨_, rfl, bytes, hb, tail, ht, ho⟩ := h
    refine ⟨bytes, tail, ht, (Except.ok.inj ho).symm, ?_⟩
    intro _
    unfold readTimerEntry
    rw [getTimer_wire hb hr]
    rfl

/-! ## The whole state -/

theorem decodeEntityTimers_wire {s : EntityTimerState} {out : Bytes} (h : encodeEntityTimers s = .ok out)
    (hr : ∀ entry ∈ s.entries.entries, entry.2.InRange) : decodeEntityTimers out = .ok s := by
  unfold encodeEntityTimers entityTimersWireSize at h
  simp only [bind_eq_ok, refuseIf_eq_ok, not_or] at h
  obtain ⟨_, ⟨_, ⟨hcount, htoken, hpair, hnone⟩, -⟩, token, hk, timers, ht, _, hsize, ho⟩ := h
  obtain rfl := Except.ok.inj ho
  have hdrop : ∀ body : Bytes, (ascii "FST1" ++ body).drop 4 = body := by
    intro body
    rfl
  have hentries := frames_timers.readEntries_wire (.runtime "duplicate timer") ht hr []
  rw [append_nil] at hentries
  simp only [append_assoc] at hsize
  unfold decodeEntityTimers
  simp only [append_assoc]
  rw [refuseIf_of_not _ (by simpa only [isPrefixOf_tag, not_true, false_or] using hsize), ok_bind, hdrop, integer,
    readTimerInteger_wire s.sequence.toNat_lt]
  simp only [ok_bind, UInt64.ofNat_toNat]
  rw [readTimerBlob_wire hk (by omega)]
  simp only [ok_bind]
  rw [readTimerInteger_wire (by omega)]
  simp only [ok_bind]
  rw [refuseIf_of_not _ (by simp only [not_or]; exact ⟨hcount, hpair, hnone⟩), ok_bind, hentries]
  simp only [ok_bind]
  rw [refuseIf_of_not _ (by simp)]
  rfl

end Fsnet
