import Mathlib.Order.Bounds.Basic
import Fsnet.Lib.Words
import Fsnet.Timers.State
/-!
# Advancing a timer in machine words

`advance_entity_timer` as it is compiled: times are signed and counts unsigned
64-bit words, and every operation and conversion fails unless its result is
exact. For a valid timer that has expired nothing fails, and the outcome is the
one `advanceEntityTimer` computes over the integers.
-/

namespace Fsnet

open Lib

/-- An `EntityTimer` in the words the source keeps it in. -/
structure MachineTimer where
  key : Bytes
  method : Bytes
  payload : Bytes
  generation : Bytes
  due : Int64
  interval : Int64
  remaining : UInt64
  missed : TimerMissed
  fixedDelay : Bool
  deriving DecidableEq

/-- The numbers in the words. -/
def MachineTimer.timer (t : MachineTimer) : EntityTimer where
  key := t.key
  method := t.method
  payload := t.payload
  generation := t.generation
  due := t.due.toInt
  interval := t.interval.toInt
  remaining := t.remaining.toNat
  missed := t.missed
  fixedDelay := t.fixedDelay

/-- Why the machine stops: the source throws, or an operation is not exact. -/
inductive Trap where
  | thrown (failure : Failure)
  | inexact
  deriving DecidableEq

def exactly {α : Type} (word : Option α) : Except Trap α :=
  match word with
  | none => .error .inexact
  | some a => .ok a

theorem exactly_of_some {α : Type} {word : Option α} {a : α} (h : word = some a) : exactly word = .ok a := by
  rw [h, exactly]

namespace MachineTimer

variable (t : MachineTimer) (now : Int64)

/-- How many intervals are due since the timer's due time. -/
def elapsed : Except Trap UInt64 := do
  let late ← exactly (signed (now.toInt - t.due.toInt))
  let whole ← exactly (signed (late.toInt.tdiv t.interval.toInt))
  let missed ← exactly (unsigned whole.toInt)
  exactly (unsigned (missed.toNat + 1))

/-- How many intervals the timer moves on: one, or past everything it has missed. -/
def steps : Except Trap UInt64 :=
  if t.fixedDelay ∨ t.missed = .catchUp then pure 1 else t.elapsed now

/-- `--remaining`, for a timer that counts its occurrences. -/
def countDown : Except Trap UInt64 :=
  if t.remaining = 0 then pure 0 else exactly (unsigned (t.remaining.toNat - 1))

/-- The due time that lies so many intervals after the base, unless it is too late for a word. -/
def moveOn (base : Int64) (steps : UInt64) : Except Trap (Bool × MachineTimer) := do
  let left ← exactly (signed (maxTime - base.toInt))
  let room ← exactly (unsigned left.toInt)
  let interval ← exactly (unsigned t.interval.toInt)
  if steps > room / interval then
    pure (false, t)
  else
    let distance ← exactly (unsigned (steps.toNat * interval.toNat))
    let offset ← exactly (signed distance.toNat)
    let due ← exactly (signed (base.toInt + offset.toInt))
    pure (true, { t with due })

/-- `advance_entity_timer`: whether the timer goes on, and what is left in it. -/
def advance : Except Trap (Bool × MachineTimer) := do
  refuseIf (t.timer.valid = false) (.thrown (.invalid "invalid entity timer"))
  refuseIf (now < t.due) (.thrown (.invalid "timer has not expired"))
  if t.interval = 0 then
    pure (false, t)
  else
    -- the count is lowered before the timer is known to go on
    let remaining ← t.countDown
    if t.remaining ≠ 0 ∧ remaining = 0 then
      pure (false, { t with remaining })
    else
      let steps ← t.steps now
      ({ t with remaining } : MachineTimer).moveOn (if t.fixedDelay then now else t.due) steps

/-! ## Nothing fails -/

variable {t : MachineTimer} {now base : Int64}

theorem elapsed_eq (hi : 0 < t.interval.toInt) (hd : 0 ≤ t.due.toInt) (hn : t.due.toInt ≤ now.toInt) :
    ∃ n, t.elapsed now = .ok n ∧ (n.toNat : Int) = (now.toInt - t.due.toInt) / t.interval.toInt + 1 := by
  have hmax := (toInt_bounds now).2
  have hnonneg : 0 ≤ (now.toInt - t.due.toInt) / t.interval.toInt := Int.ediv_nonneg (by omega) (by omega)
  have hle : (now.toInt - t.due.toInt) / t.interval.toInt ≤ now.toInt - t.due.toInt :=
    Int.ediv_le_self _ (by omega)
  obtain ⟨late, hlate, hlate'⟩ := signed_of_bounds (n := now.toInt - t.due.toInt) (by omega) (by omega)
  -- the division truncates, which is the same for numbers that are not negative
  have htdiv : late.toInt.tdiv t.interval.toInt = (now.toInt - t.due.toInt) / t.interval.toInt := by
    rw [hlate', Int.tdiv_eq_ediv_of_nonneg (by omega)]
  obtain ⟨whole, hwhole, hwhole'⟩ := signed_of_bounds (n := late.toInt.tdiv t.interval.toInt) (by omega) (by omega)
  obtain ⟨missed, hmissed, hmissed'⟩ := unsigned_of_bounds (n := whole.toInt) (by omega) (by omega)
  obtain ⟨n, hn, hn'⟩ := unsigned_of_bounds (n := missed.toNat + 1) (by omega) (by omega)
  refine ⟨n, ?_, by omega⟩
  exact bind_eq_ok.2 ⟨late, exactly_of_some hlate, bind_eq_ok.2 ⟨whole, exactly_of_some hwhole,
    bind_eq_ok.2 ⟨missed, exactly_of_some hmissed, exactly_of_some hn⟩⟩⟩

/-- The bound is checked before the multiplication, which is then exact. -/
theorem moveOn_eq (steps : UInt64) (hi : 0 < t.interval.toInt) (hb : 0 ≤ base.toInt) :
    (base.toInt + steps.toNat * t.interval.toInt > maxTime ∧ t.moveOn base steps = .ok (false, t)) ∨
      ∃ due : Int64, due.toInt = base.toInt + steps.toNat * t.interval.toInt ∧
        t.moveOn base steps = .ok (true, { t with due }) := by
  have hmax := (toInt_bounds base).2
  have hmax' := (toInt_bounds t.interval).2
  have hmaxTime : maxTime = 9223372036854775807 := rfl
  obtain ⟨left, hleft, hleft'⟩ := signed_of_bounds (n := maxTime - base.toInt) (by omega) (by omega)
  obtain ⟨room, hroom, hroom'⟩ := unsigned_of_bounds (n := left.toInt) (by omega) (by omega)
  obtain ⟨interval, hinterval, hinterval'⟩ := unsigned_of_bounds (n := t.interval.toInt) (by omega) (by omega)
  have hle : steps ≤ room / interval ↔ steps.toNat * interval.toNat ≤ room.toNat := by
    rw [UInt64.le_iff_toNat_le, UInt64.toNat_div, Nat.le_div_iff_mul_le (by omega)]
  have hproduct : ((steps.toNat * interval.toNat : Nat) : Int) = steps.toNat * t.interval.toInt := by
    rw [← hinterval', Int.natCast_mul]
  by_cases hsteps : steps ≤ room / interval
  · have hfits := hle.1 hsteps
    obtain ⟨distance, hdistance, hdistance'⟩ := unsigned_of_bounds (n := steps.toNat * interval.toNat) (by omega)
      (by omega)
    obtain ⟨offset, hoffset, hoffset'⟩ := signed_of_bounds (n := distance.toNat) (by omega) (by omega)
    obtain ⟨due, hdue, hdue'⟩ := signed_of_bounds (n := base.toInt + offset.toInt) (by omega) (by omega)
    refine .inr ⟨due, by omega, ?_⟩
    refine bind_eq_ok.2 ⟨left, exactly_of_some hleft, bind_eq_ok.2 ⟨room, exactly_of_some hroom,
      bind_eq_ok.2 ⟨interval, exactly_of_some hinterval, ?_⟩⟩⟩
    rw [if_neg (show ¬steps > room / interval from UInt64.not_lt.2 hsteps)]
    exact bind_eq_ok.2 ⟨distance, exactly_of_some hdistance, bind_eq_ok.2 ⟨offset, exactly_of_some hoffset,
      bind_eq_ok.2 ⟨due, exactly_of_some hdue, rfl⟩⟩⟩
  · have hlate : ¬steps.toNat * interval.toNat ≤ room.toNat := fun h => hsteps (hle.2 h)
    refine .inl ⟨by omega, ?_⟩
    refine bind_eq_ok.2 ⟨left, exactly_of_some hleft, bind_eq_ok.2 ⟨room, exactly_of_some hroom,
      bind_eq_ok.2 ⟨interval, exactly_of_some hinterval, ?_⟩⟩⟩
    rw [if_pos (show steps > room / interval from UInt64.not_le.1 hsteps)]
    rfl

/-- The count of the occurrences after the one that fired. -/
def lowered (t : MachineTimer) : UInt64 := if t.remaining = 0 then 0 else t.remaining - 1

theorem toNat_lowered (t : MachineTimer) : t.lowered.toNat = t.remaining.toNat - 1 := by
  unfold lowered
  split_ifs with h
  · rw [h]
    rfl
  have hpos : 1 ≤ t.remaining := by
    rw [UInt64.le_iff_toNat_le]
    exact Nat.pos_of_ne_zero fun hz => h (UInt64.toNat_inj.1 hz)
  rw [UInt64.toNat_sub_of_le _ _ hpos]
  rfl

theorem lowered_eq_zero (h : t.remaining ≠ 0) : t.lowered = 0 ↔ t.remaining = 1 := by
  have hpos : t.remaining.toNat ≠ 0 := fun hz => h (UInt64.toNat_inj.1 hz)
  rw [← UInt64.toNat_inj, ← UInt64.toNat_inj, toNat_lowered]
  show t.remaining.toNat - 1 = 0 ↔ t.remaining.toNat = 1
  omega

theorem unsigned_lowered (h : t.remaining ≠ 0) : unsigned (t.remaining.toNat - 1) = some t.lowered := by
  have hpos : t.remaining.toNat ≠ 0 := fun hz => h (UInt64.toNat_inj.1 hz)
  have hmax := t.remaining.toNat_lt
  obtain ⟨n, hn, hn'⟩ := unsigned_of_bounds (n := t.remaining.toNat - 1) (by omega) (by omega)
  rw [hn, Option.some.injEq, ← UInt64.toNat_inj, toNat_lowered]
  omega

theorem countDown_eq (t : MachineTimer) : t.countDown = .ok t.lowered := by
  unfold countDown
  split_ifs with hr
  · rw [lowered, if_pos hr]
    rfl
  · exact exactly_of_some (unsigned_lowered hr)

theorem steps_eq (hi : 0 < t.interval.toInt) (hd : 0 ≤ t.due.toInt) (hn : t.due.toInt ≤ now.toInt) :
    ∃ n, t.steps now = .ok n ∧ (n.toNat : Int) = t.timer.steps now.toInt := by
  have hsame : (t.timer.fixedDelay || decide (t.timer.missed = .catchUp)) = true ↔
      t.fixedDelay ∨ t.missed = .catchUp := by
    rw [Bool.or_eq_true, decide_eq_true_eq]
    rfl
  unfold steps EntityTimer.steps
  by_cases hsingle : t.fixedDelay ∨ t.missed = .catchUp
  · rw [if_pos hsingle, if_pos (hsame.2 hsingle)]
    exact ⟨1, rfl, rfl⟩
  · rw [if_neg hsingle, if_neg fun h => hsingle (hsame.1 h)]
    exact elapsed_eq hi hd hn

theorem toInt_base (t : MachineTimer) (now : Int64) :
    (if t.fixedDelay then now else t.due).toInt = t.timer.base now.toInt := by
  unfold EntityTimer.base timer
  dsimp only
  split_ifs <;> rfl

/-- What a valid timer is, as far as its next due time depends on it. -/
theorem numbers_of_valid (hv : t.timer.valid = true) : 0 ≤ t.due.toInt ∧ 0 ≤ t.interval.toInt := by
  simp only [EntityTimer.valid, Bool.and_eq_true, decide_eq_true_eq] at hv
  exact ⟨hv.1.1.1.1.2, hv.1.1.1.2⟩

/-- An advance ends the timer, or moves on by the steps the integers give. -/
theorem advance_cases (hv : t.timer.valid = true) (hn : t.due ≤ now) :
    (t.interval = 0 ∧ t.advance now = .ok (false, t)) ∨
      (t.interval ≠ 0 ∧ t.remaining = 1 ∧ t.advance now = .ok (false, { t with remaining := 0 })) ∨
      (t.interval ≠ 0 ∧ t.remaining ≠ 1 ∧ ∃ steps : UInt64, (steps.toNat : Int) = t.timer.steps now.toInt ∧
        t.advance now = ({ t with remaining := t.lowered } : MachineTimer).moveOn
          (if t.fixedDelay then now else t.due) steps) := by
  obtain ⟨hdue, hinterval⟩ := numbers_of_valid hv
  have hvalid : ¬t.timer.valid = false := by
    rw [hv]
    decide
  unfold advance
  rw [refuseIf_of_not _ hvalid, refuseIf_of_not _ (Int64.not_lt.2 hn), ok_bind, ok_bind]
  by_cases hzero : t.interval = 0
  · rw [if_pos hzero]
    exact .inl ⟨hzero, rfl⟩
  rw [if_neg hzero, countDown_eq, ok_bind]
  by_cases hone : t.remaining = 1
  · have hne : t.remaining ≠ 0 := by
      rw [hone]
      decide
    have hlast := (lowered_eq_zero hne).2 hone
    rw [if_pos ⟨hne, hlast⟩, hlast]
    exact .inr (.inl ⟨hzero, hone, rfl⟩)
  · have hpos : 0 < t.interval.toInt := lt_of_le_of_ne hinterval fun hz => hzero (Int64.toInt_inj.1 hz.symm)
    obtain ⟨steps, hsteps, hsteps'⟩ := steps_eq hpos hdue (Int64.le_iff_toInt_le.1 hn)
    rw [if_neg fun h => hone ((lowered_eq_zero h.1).1 h.2), hsteps, ok_bind]
    exact .inr (.inr ⟨hzero, hone, steps, hsteps', rfl⟩)

/-- The words hold what the integers compute. -/
theorem advance_refines (hv : t.timer.valid = true) (hn : t.due ≤ now) :
    ∃ again next, t.advance now = .ok (again, next) ∧
      advanceEntityTimer t.timer now.toInt = .ok (if again then some next.timer else none) := by
  obtain ⟨hdue, hinterval⟩ := numbers_of_valid hv
  have hn' : t.due.toInt ≤ now.toInt := Int64.le_iff_toInt_le.1 hn
  have hvalid : checkTimer t.timer = .ok () := refuseIf_of_not _ (by rw [hv]; decide)
  unfold advanceEntityTimer
  rw [hvalid, refuseIf_of_not _ (show ¬now.toInt < t.timer.due from not_lt.2 hn'), ok_bind, ok_bind]
  dsimp only
  rcases advance_cases hv hn with ⟨hzero, ha⟩ | ⟨hzero, hone, ha⟩ | ⟨hzero, hone, steps, hsteps, ha⟩
  · have hzero' : t.timer.interval = 0 := by
      show t.interval.toInt = 0
      rw [hzero]
      rfl
    exact ⟨false, _, ha, if_pos (.inl hzero')⟩
  · have hone' : t.timer.remaining = 1 := by
      show t.remaining.toNat = 1
      rw [hone]
      rfl
    exact ⟨false, _, ha, if_pos (.inr (by rw [hone']; decide))⟩
  have hzero' : t.timer.interval ≠ 0 := fun hz => hzero (Int64.toInt_inj.1 hz)
  have hone' : t.timer.remaining ≠ 1 := fun h => hone (UInt64.toNat_inj.1 h)
  have hpos : 0 < t.timer.interval := lt_of_le_of_ne hinterval (Ne.symm hzero')
  have hbase := toInt_base t now
  have hmove := moveOn_eq (t := { t with remaining := t.lowered }) steps hpos
    (hbase ▸ le_trans hdue (EntityTimer.due_le_base (show t.timer.due ≤ now.toInt from hn')))
  rw [if_neg fun h => h.elim hzero' fun h => hone' (by omega)]
  have hroom : t.timer.steps now.toInt > (maxTime - t.timer.base now.toInt) / t.timer.interval ↔
      maxTime < t.timer.base now.toInt + t.timer.steps now.toInt * t.timer.interval := by
    rw [gt_iff_lt, Int.ediv_lt_iff_lt_mul hpos]
    omega
  rw [hbase, hsteps, ← ha] at hmove
  rcases hmove with ⟨hlate, hmove⟩ | ⟨due, hdue', hmove⟩
  · exact ⟨false, _, hmove, if_pos (hroom.2 hlate)⟩
  have hdue' : due.toInt = t.timer.base now.toInt + t.timer.steps now.toInt * t.timer.interval := hdue'
  refine ⟨true, _, hmove, ?_⟩
  have hmax := (toInt_bounds due).2
  rw [if_neg, if_pos rfl, ← hdue']
  · unfold timer
    rw [toNat_lowered]
    rfl
  · rw [hroom, ← hdue', show maxTime = 9223372036854775807 from rfl]
    omega

end MachineTimer

/-! ## The next due time -/

/-- The due time of the occurrence that follows the one that fired at `now`. -/
def NextDue (timer : EntityTimer) (now d : Int) : Prop :=
  if timer.fixedDelay then d = now + timer.interval
  else if timer.missed = .catchUp then d = timer.due + timer.interval
  else IsLeast {d | now < d ∧ ∃ k : Nat, 1 ≤ k ∧ d = timer.due + k * timer.interval} d

theorem NextDue.unique {timer : EntityTimer} {now d d' : Int} (h : NextDue timer now d) (h' : NextDue timer now d') :
    d = d' := by
  unfold NextDue at h h'
  split_ifs at h h'
  · rw [h, h']
  · rw [h, h']
  · exact h.unique h'

/-- Dividing the time that has passed by the interval finds the least due time after it. -/
theorem nextDue_steps {timer : EntityTimer} {now : Int} (hi : 0 < timer.interval) (hn : timer.due ≤ now) :
    NextDue timer now (timer.base now + timer.steps now * timer.interval) := by
  unfold NextDue EntityTimer.base EntityTimer.steps
  by_cases hfixed : timer.fixedDelay = true
  · simp [hfixed]
  by_cases hcatch : timer.missed = .catchUp
  · simp [hfixed, hcatch]
  rw [if_neg hfixed, if_neg hcatch, if_neg hfixed, if_neg (by simp [hfixed, hcatch])]
  have hnonneg : 0 ≤ (now - timer.due) / timer.interval := Int.ediv_nonneg (by omega) (by omega)
  have hdiv := Int.emod_add_mul_ediv (now - timer.due) timer.interval
  have hmod := Int.emod_lt_of_pos (now - timer.due) hi
  refine ⟨⟨by nlinarith, ((now - timer.due) / timer.interval + 1).toNat, by omega, ?_⟩, ?_⟩
  · rw [Int.toNat_of_nonneg (by omega)]
  · rintro d ⟨hlate, k, -, rfl⟩
    -- one interval less would not be after now
    have hk : (now - timer.due) / timer.interval < k := by
      rw [Int.ediv_lt_iff_lt_mul hi]
      omega
    nlinarith

theorem EntityTimer.valid_moved {timer : EntityTimer} (hv : timer.valid = true) (hi : timer.interval ≠ 0) {due : Int}
    {remaining : Nat} (hd : 0 ≤ due) (hr : remaining ≤ timer.remaining) :
    ({ timer with due, remaining } : EntityTimer).valid = true := by
  simp only [EntityTimer.valid, Bool.and_eq_true, decide_eq_true_eq, Bool.not_eq_true', Bool.and_eq_false_iff,
    decide_eq_false_iff_not] at hv ⊢
  obtain ⟨⟨⟨⟨⟨hhead, -⟩, hinterval⟩, hremaining⟩, -⟩, hfixed⟩ := hv
  exact ⟨⟨⟨⟨⟨hhead, hd⟩, hinterval⟩, le_trans (Int.ofNat_le.2 hr) hremaining⟩, .inl hi⟩, hfixed⟩

/-- A timer that has expired ends, or goes on to its next due time. -/
theorem advanceEntityTimer_cases {timer : EntityTimer} {now : Int} (hv : timer.valid = true) (hn : timer.due ≤ now) :
    ((timer.interval = 0 ∨ timer.remaining = 1 ∨ ∃ d, NextDue timer now d ∧ maxTime < d) ∧
        advanceEntityTimer timer now = .ok none) ∨
      (timer.interval ≠ 0 ∧ timer.remaining ≠ 1 ∧ ∃ due, NextDue timer now due ∧ due ≤ maxTime ∧ timer.due < due ∧
        advanceEntityTimer timer now = .ok (some { timer with remaining := timer.remaining - 1, due })) := by
  have hinterval : 0 ≤ timer.interval := by
    simp only [EntityTimer.valid, Bool.and_eq_true, decide_eq_true_eq] at hv
    exact hv.1.1.1.2
  have hvalid : checkTimer timer = .ok () := refuseIf_of_not _ (by rw [hv]; decide)
  unfold advanceEntityTimer
  rw [hvalid, refuseIf_of_not _ (not_lt.2 hn), ok_bind, ok_bind]
  dsimp only
  by_cases hzero : timer.interval = 0
  · exact .inl ⟨.inl hzero, if_pos (.inl hzero)⟩
  by_cases hone : timer.remaining = 1
  · exact .inl ⟨.inr (.inl hone), if_pos (.inr (by rw [hone]; decide))⟩
  rw [if_neg fun h => h.elim hzero fun h => hone (by omega)]
  have hpos : 0 < timer.interval := lt_of_le_of_ne hinterval (Ne.symm hzero)
  have hnext := nextDue_steps hpos hn
  have hlater := EntityTimer.due_le_base hn
  have hsome := EntityTimer.one_le_steps hinterval hn
  have hroom : timer.steps now > (maxTime - timer.base now) / timer.interval ↔
      maxTime < timer.base now + timer.steps now * timer.interval := by
    rw [gt_iff_lt, Int.ediv_lt_iff_lt_mul hpos]
    omega
  by_cases hlate : maxTime < timer.base now + timer.steps now * timer.interval
  · exact .inl ⟨.inr (.inr ⟨_, hnext, hlate⟩), if_pos (hroom.2 hlate)⟩
  · refine .inr ⟨hzero, hone, _, hnext, not_lt.1 hlate, by nlinarith, if_neg fun h => hlate (hroom.1 h)⟩

/-- What an advance of an expired timer does. -/
structure AdvancesExactly (t : MachineTimer) (now : Int64) : Prop where
  outcome : ∃ again next, t.advance now = .ok (again, next) ∧
    (again = false ↔ t.interval = 0 ∨ t.remaining = 1 ∨ ∃ d, NextDue t.timer now.toInt d ∧ maxTime < d) ∧
    (again = true → next.timer.valid = true ∧ t.due < next.due ∧ NextDue t.timer now.toInt next.due.toInt ∧
      next.timer = { t.timer with due := next.due.toInt, remaining := t.remaining.toNat - 1 })

/-- Over the whole range of the words, an expired timer that is valid advances without overflow, to
its next due time. -/
theorem advance_entity_timer_exact (t : MachineTimer) (now : Int64) (hv : t.timer.valid = true) (hn : t.due ≤ now) :
    AdvancesExactly t now := by
  have hn' : t.timer.due ≤ now.toInt := Int64.le_iff_toInt_le.1 hn
  have hzero : t.interval = 0 ↔ t.timer.interval = 0 := by rw [← Int64.toInt_inj]; rfl
  have hone : t.remaining = 1 ↔ t.timer.remaining = 1 := by rw [← UInt64.toNat_inj]; rfl
  obtain ⟨again, next, ha, hi⟩ := MachineTimer.advance_refines hv hn
  refine ⟨again, next, ha, ?_⟩
  rw [hzero, hone]
  rcases advanceEntityTimer_cases hv hn' with ⟨hends, he⟩ | ⟨hz, ho, due, hnext, hmax, hless, he⟩
  · rw [he, Except.ok.injEq] at hi
    cases again with
    | false => exact ⟨⟨fun _ => hends, fun _ => rfl⟩, fun h => (nomatch h)⟩
    | true => cases hi
  rw [he, Except.ok.injEq] at hi
  cases again with
  | false => cases hi
  | true =>
    have hnextTimer : next.timer = { t.timer with remaining := t.timer.remaining - 1, due } := (Option.some.inj hi).symm
    have hdue : next.due.toInt = due := congrArg EntityTimer.due hnextTimer
    refine ⟨⟨fun h => (nomatch h), fun h => ?_⟩, fun _ => ⟨?_, ?_, ?_, ?_⟩⟩
    · rcases h with h | h | ⟨d, hd, hlate⟩
      · exact absurd h hz
      · exact absurd h ho
      · rw [hd.unique hnext] at hlate
        omega
    · rw [hnextTimer]
      have hpositive : 0 ≤ t.timer.due := (MachineTimer.numbers_of_valid hv).1
      exact EntityTimer.valid_moved hv hz (by omega) (Nat.sub_le _ _)
    · rw [Int64.lt_iff_toInt_lt, hdue]
      exact hless
    · rw [hdue]
      exact hnext
    · rw [hnextTimer, hdue]
      rfl

/-- A timer at the end of time has no next occurrence. -/
theorem advance_entity_timer_exact_last :
    let t : MachineTimer := ⟨[0x6b], [0x6d], [], [0x67], 0, Int64.maxValue, 0, .coalesce, false⟩
    t.timer.valid = true ∧ t.due ≤ Int64.maxValue ∧ AdvancesExactly t Int64.maxValue :=
  ⟨by decide, by decide, advance_entity_timer_exact _ _ (by decide) (by decide)⟩

end Fsnet
