import Fsnet.World.Chain
/-!
# What answers and commits rest on

A request is retried, a message sent again and an occurrence of a timer asked
for twice, by hosts that know nothing of each other. What each may still do is
decided by the record it replaces.
-/

namespace Fsnet

open Lib List

variable {hash : Bytes → Bytes} {limits : HostId → RuntimeLimits} {host : HostId} {k : EntityKey} {j : Job}
  {T : List Event} {old new : Cell StoredRecord}

/-- `P` holds of every commit's job, the record it replaced and the one it stored. -/
def EveryCommit (w : World) (P : Job → EntityRecord → EntityRecord → Prop) : Prop :=
  ∀ host k j old new, .committed host k j old new ∈ w.trace → P j old.value.val new.value.val

section

variable (hp : Past hash limits T) (he : .committed host k j old new ∈ T)
include hp he

theorem Past.commits : ∃ earlier ⊆ T, Commits hash earlier host (limits host) k old new.value j := by
  obtain ⟨newer, earlier, rfl⟩ := append_of_mem he
  have hl : Event.Lawful hash limits earlier (.committed host k j old new) := hp _ earlier ⟨newer, rfl⟩
  exact ⟨earlier, fun _ h => mem_append_right _ (mem_cons_of_mem _ h), hl.2⟩

/-- The attempt a commit goes back to. It loaded the record that is replaced, up to the lease. -/
theorem Past.attempted : ∃ j₀ r time x deliveryError, Attempted (history T) host k j₀ r time x ∧
    x.replay = false ∧ j.request = { j₀.request with payload := x.payload, deliveryError } ∧
      j.timerEvent = x.timerEvent ∧
    (old.value.val = r ∨ old.value.val = r.leased host (limits host) j₀.cachedFence time) := by
  obtain ⟨_, hsub, hc⟩ := hp.commits he
  obtain ⟨_, _, hacq, hr, hs, _, _, _, rfl⟩ := hc.acquired
  obtain ⟨j₀, r, time, x, hat, rfl, hold⟩ := (hp.acquired (hsub hacq)).loaded
  obtain ⟨deliveryError, hreq, -⟩ := hs.kept.request
  exact ⟨j₀, r, time, x, deliveryError, hat, hr, hreq, hs.timerEvent, hold.imp_left And.left⟩

/-- The inbox a commit stores, unless it destroys the entity. -/
theorem Past.stores : (new.value.val.metadata.destroyed = true ∨ new.value.val.snapshot.delivery = j.delivery) ∧
    ∃ outcome d output output', Delivered hash j.request outcome d j.delivery output output' := by
  obtain ⟨_, -, hc⟩ := hp.commits he
  obtain ⟨_, hv⟩ := hc.record
  obtain ⟨_, j₄, j₅, _, _, _, -, -, hb, -, _, _, _, rfl⟩ := hc.past
  obtain ⟨_, -, _, hd, -⟩ := hb.outcome
  have hreq : j₅.request = j₄.request := by rw [hb.same]
  refine ⟨?_, _, _, _, _, hreq ▸ hd⟩
  rw [hv, committedRecord]
  dsimp only
  split
  · exact .inl rfl
  · exact .inr rfl

end

/-- What a lease leaves as it was. -/
theorem leased_same {c r : EntityRecord} {l : RuntimeLimits} {fence : Nat} {time : Int}
    (h : c = r ∨ c = r.leased host l fence time) : c.snapshot.delivery = r.snapshot.delivery ∧
      c.snapshot.timers = r.snapshot.timers ∧ c.initialized = r.initialized := by
  rcases h with rfl | rfl
  · exact ⟨rfl, rfl, rfl⟩
  · exact ⟨resident_delivery .., resident_timers .., rfl⟩

/-- A committed delivery was pending at its source. It is the next of its channel for the record that is replaced
and the last for the one that is stored. -/
def TakesInTurn (w : World) (j : Job) (old new : EntityRecord) : Prop :=
  ∀ e, j.request.incoming = some e → (∃ c ∈ (w.entities e.sourceId).cells, PendingIn c.value.val e) ∧
    ∃ channel, Arrives old.snapshot.delivery old.initialized e channel ∧
      e.message.sequence = nextSequence old.snapshot.delivery channel ∧ (new.metadata.destroyed = true ∨
        ∃ found, new.snapshot.delivery.inbox.find channel = some found ∧ found.sequence = e.message.sequence)

/-- Why an answer is one of success. -/
inductive Rests (w : World) (host : HostId) (k : EntityKey) (j : Job) (data : Bytes) : Prop
  /-- A delivery whose job was refused as not found is acknowledged as such. -/
  | missing (e : DeliveryEnvelope) (hi : j.request.incoming = some e) (hs : j.status = .notFound)
    (hd : encodeDeliveryAck e.message.ticket ⟨.notFound, []⟩ = .ok data)
  | found (hr : Replays (history w.trace) k j) (hd : data = j.output)
  | stored (j' : Job) (old new : Cell StoredRecord) (he : .committed host k j' old new ∈ w.trace)
    (hc : new ∈ (w.entities k.id).cells) (hj : ∃ phase, j = { j' with phase }) (hd : data = j.output)

/-- Nothing is answered with success that a crash could still undo. -/
def Durable (w : World) : Prop :=
  ∀ host k j result, .host host (.replied k j result) ∈ w.trace → result.status = .ok → Rests w host k j result.data

section

variable (hash : Bytes → Bytes) (limits : HostId → RuntimeLimits) (actions : List Action)

theorem success_durable : Durable (run (World.step hash) (World.init limits) actions) := by
  have ht := traced_run hash limits actions
  intro host k j result he hok
  obtain ⟨newer, earlier, htrace⟩ := append_of_mem he
  have hs : .host host (.replied k j result) :: earlier <:+ _ := ⟨newer, htrace.symm⟩
  cases (ht.past _ earlier hs hok).mono fun _ h => hs.subset (mem_cons_of_mem _ h) with
  | missing e hi hst hd => exact .missing e hi hst hd
  | replayed _ _ j₀ _ hc hr ha hd =>
    -- a job that is answered from a record is admitted as it is
    have hreq : j.request = j₀.request := by
      rcases ha.request with ⟨h, -⟩ | ⟨-, h, -⟩
      · exact h
      · cases hr.symm.trans h
    have hout : j.output = j₀.output := by rw [ha.same]
    refine .found ?_ (hd.trans hout.symm)
    obtain ⟨_, _, _, _, hat, rfl, -⟩ := (ht.past.acquired hc).loaded
    rw [Replays, hreq, hout]
    exact hat.replays hr
  | committed _ hc hd =>
    obtain ⟨j', old, new, hmem, -, _, rfl⟩ := hc
    refine .stored j' old new hmem ?_ ⟨_, rfl⟩ hd
    rw [ht.cells]
    exact mem_filterMap.2 ⟨_, hmem, if_pos rfl⟩

/-- A keyed request is not committed while a durable entity still has its receipt. -/
theorem keyed_once : EveryCommit (run (World.step hash) (World.init limits) actions) fun j old _ =>
    j.request.requestId ≠ [] → old.metadata.rebuildable = false →
      ∀ receipt ∈ old.snapshot.receipts, receipt.id ≠ j.request.requestId := by
  intro host k j old new he hkey hdurable
  obtain ⟨j₀, r, _, _, _, hat, hr, hreq, -, hold⟩ := (traced_run hash limits actions).past.attempted he
  have hresident : resident host j₀.cachedFence r = old.value.val.snapshot := by
    rcases hold with rfl | hold
    · simp [resident, hdurable]
    · rw [hold]
      rfl
  rw [hreq] at hkey ⊢
  rw [← hresident]
  exact hat.found.unrecorded hr hkey

/-- A job for a timer was given the occurrence it asked for, from the record it replaces, when it was due. -/
theorem timers_fire_in_time : EveryCommit (run (World.step hash) (World.init limits) actions) fun j old _ =>
    j.request.timer.isSome = true →
      ∃ event, j.timerEvent = some event ∧ Fires j.request old.snapshot.timers event.fired event := by
  intro host k j old new he htimer
  obtain ⟨_, r, _, _, _, hat, hr, hreq, hevent, hold⟩ := (traced_run hash limits actions).past.attempted he
  rw [hreq] at htimer ⊢
  obtain ⟨event, hx, hfires⟩ := hat.found.fires htimer hr
  have ⟨_, _, _, _, _, _, hfired⟩ := hfires
  subst hfired
  rw [(leased_same hold).2.1]
  exact ⟨event, hevent.trans hx, hfires⟩

end

end Fsnet
