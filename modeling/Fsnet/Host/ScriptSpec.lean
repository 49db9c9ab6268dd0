import Fsnet.Host.RunSpec
import Fsnet.Host.Script
/-!
# What a running script changes

Every request of a running script changes the timers or the delivery state of
its job, one of the ways below, and nothing else but its charge.
-/

namespace Fsnet

open Lib

variable {hash : Bytes → Bytes} {limits : RuntimeLimits} {h : Host} {k : EntityKey} {task task' : Task}

/-- The job after a timer was set: it has the next generation and replaces whatever had its key. -/
structure Schedules (j : Job) (timer : EntityTimer) (j' : Job) : Prop where
  same : j' = { j with timers := j'.timers, timerDirty := true, timerCharge := j'.timerCharge, resident := j'.resident }
  durable : j.rebuildable = false
  generation : timer.generation = nextGeneration j
  published : Published j.version { j.timers with entries := j.timers.entries.insert timer.key timer } j'.timers

/-- One change a running script makes to its job. -/
inductive Amends (hash : Bytes → Bytes) (limits : RuntimeLimits) (k : EntityKey) (j : Job) : Job → Prop
  | schedule (timer : EntityTimer) (j' : Job) (hs : Schedules j timer j') : Amends hash limits k j j'
  | cancel (key : Bytes) (timers : EntityTimerState) (charge resident : Nat)
      (hp : Published j.version { j.timers with entries := j.timers.entries.erase key } timers) :
    Amends hash limits k j { j with timers, timerDirty := true, timerCharge := charge, resident }
  | forget (ticket : Bytes) : Amends hash limits k j (forgetDelivery j ticket)
  | send (send : Send) (delivery : EntityDeliveryState) (resident : Nat) (he : send.entity = k)
      (ha : appendSend hash limits j.delivery send = .ok delivery) :
    Amends hash limits k j { j with delivery, resident }

theorem Schedules.kept {j j' : Job} {timer : EntityTimer} (hs : Schedules j timer j') : Kept j j' := by
  rw [hs.same]
  exact .set rfl

theorem Amends.kept {j j' : Job} (ha : Amends hash limits k j j') : Kept j j' := by
  cases ha with
  | schedule _ _ hs => exact hs.kept
  | cancel | forget | send => exact .set rfl

theorem scheduleTimer_ok {spec : EntityTimerSpec} {time : Int} {timer : EntityTimer}
    (hs : scheduleTimer h task spec time = .ok (task', timer)) : Schedules task.job timer task'.job := by
  unfold scheduleTimer timerJob at hs
  simp only [bind_eq_ok, refuseIf_eq_ok] at hs
  obtain ⟨_, hdur, _, -, _, -, _, -, t, hp, hs⟩ := hs
  cases hs
  obtain ⟨_, _, _, hpub, hjob⟩ := publishTimers_ok hp
  have hd : task.job.rebuildable = false := by
    unfold Job.rebuildable
    cases hm : task.job.metadata with
    | none => rfl
    | some =>
      rw [hm] at hdur
      simpa using hdur
  rw [hjob]
  exact ⟨rfl, hd, rfl, hpub⟩

theorem cancelTimer_ok {key : Bytes} (hc : cancelTimer h task key = .ok task') :
    task'.job = task.job ∨ Amends hash limits k task.job task'.job := by
  unfold cancelTimer at hc
  obtain ⟨_, -, hc⟩ := bind_eq_ok.1 hc
  dsimp only at hc
  split at hc
  · cases hc
    exact .inl rfl
  · obtain ⟨timers, charge, resident, hpub, hjob⟩ := publishTimers_ok hc
    rw [hjob]
    exact .inr (.cancel key timers charge resident hpub)

theorem cancelTimer_delivery {key : Bytes} (hc : cancelTimer h task key = .ok task') :
    task'.job.delivery = task.job.delivery := by
  unfold cancelTimer at hc
  obtain ⟨_, -, hc⟩ := bind_eq_ok.1 hc
  dsimp only at hc
  split at hc
  · cases hc
    rfl
  · obtain ⟨_, _, _, _, hjob⟩ := publishTimers_ok hc
    rw [hjob]

theorem takeSend_ok {send : Send} (hs : takeSend hash limits task send = .ok task') :
    Amends hash limits send.entity task.job task'.job := by
  unfold takeSend at hs
  simp only [bind_eq_ok] at hs
  obtain ⟨delivery, ha, _, -, _, -, _, -, _, -, _, -, hs⟩ := hs
  cases hs
  exact .send send delivery _ rfl ha

end Fsnet
