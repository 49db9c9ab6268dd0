import Fsnet.World.Placement
import Fsnet.World.Serials
/-!
# The records of an entity form one chain

A commit replaces the very version its job acquired, so the records of an entity
are one chain in which each is computed from the one before it. Any other write
in between takes the record away from a job for good.
-/

namespace Fsnet

open Lib List

variable {hash : Bytes → Bytes} {limits : HostId → RuntimeLimits} {host : HostId} {k : EntityKey} {j : Job}
  {T T' : List Event} {e : Event} {id : Bytes} {old new c : Cell StoredRecord} {value : StoredRecord} {w : World}

/-- The job starts from what the cell holds. A rebuildable entity starts from its
initial state on a host that does not have its lease in memory. -/
structure Loads (host : HostId) (c : Cell StoredRecord) (j : Job) : Prop where
  version : j.version = c.version
  timers : j.timers = c.value.val.snapshot.timers
  delivery : Acknowledges j.request.ack c.value.val.snapshot.delivery j.delivery
  snapshot : ∃ cachedFence, j.state = (resident host cachedFence c.value.val).state ∧
    j.receipts = (resident host cachedFence c.value.val).receipts

/-- How a record is computed from the one it replaces. -/
inductive Derived (hash : Bytes → Bytes) (limits : HostId → RuntimeLimits) (T : List Event) (id : Bytes)
    (old new : Cell StoredRecord) : Prop
  | granted (host : HostId) (k : EntityKey) (job : Job) (hid : k.id = id) (he : .granted host k job old new ∈ T)
    (cachedFence : Nat) (time : Int) (hv : new.value.val = old.value.val.leased host (limits host) cachedFence time)
  | released (host : HostId) (k : EntityKey) (hid : k.id = id) (he : .released host k old new ∈ T)
    (hv : new.value.val = { old.value.val with owner := [], expires := 0 })
  | committed (host : HostId) (k : EntityKey) (job job₀ : Job) (hid : k.id = id)
    (he : .committed host k job old new ∈ T) (ha : .acquired host k job₀ old ∈ T) (hs : job₀.serial = job.serial)
    (hl : Loads host old job₀) (hc : Commits hash T host (limits host) k old new.value job)

/-- What the writes of an entity come down to, over all hosts. -/
structure OneChain (hash : Bytes → Bytes) (limits : HostId → RuntimeLimits) (w : World) : Prop where
  /-- The store holds what the writes of the trace have written. -/
  stored : ∀ id, (w.entities id).cells = history w.trace id
  /-- A commit replaces the version its job acquired. -/
  replaces : ∀ newer host k job old new earlier, w.trace = newer ++ .committed host k job old new :: earlier →
    (history earlier k.id).head? = some old ∧ ∃ job₀, .acquired host k job₀ old ∈ earlier ∧
      job₀.serial = job.serial ∧ job₀.version = old.version
  /-- Each record is computed from its immediate predecessor. -/
  chain : ∀ id newer new old older, (w.entities id).cells = newer ++ new :: old :: older →
    Derived hash limits w.trace id old new
  fences : ∀ id, (w.entities id).cells.Pairwise fun new old => old.value.val.fence ≤ new.value.val.fence
  grants : ∀ host k job old new, .granted host k job old new ∈ w.trace → old.value.val.fence < new.value.val.fence
  /-- Between the acquisition of a job and its commit nobody writes. -/
  undisturbed : ∀ newer between earlier host k job₀ c job old new,
    w.trace = newer ++ .committed host k job old new :: (between ++ .acquired host k job₀ c :: earlier) →
    job₀.serial = job.serial → ∀ e ∈ between, e.writeTo k.id = none

/-! ## What a job loads -/

/-- A host that has the lease in memory starts from the record itself. -/
theorem resident_of_lease {r : EntityRecord} (ho : r.owner = host.owner) : resident host r.fence r = r.snapshot := by
  refine if_neg fun h => ?_
  rcases h.2 with hne | hne
  · exact hne ho
  · exact hne rfl

theorem Acquired.loads {H : History} {l : RuntimeLimits} (ha : Acquired H host l k c j) : Loads host c j := by
  obtain ⟨j₀, r, _, x, hat, rfl, hc⟩ := ha.loaded
  rcases hc with ⟨rfl, -⟩ | hc
  · exact ⟨rfl, rfl, hat.found.ack, j₀.cachedFence, rfl, rfl⟩
  -- the grant wrote what the job holds
  have hsnapshot : c.value.val.snapshot = resident host j₀.cachedFence r := by
    rw [hc]
    rfl
  have hlease : resident host c.value.val.fence c.value.val = resident host j₀.cachedFence r := by
    rw [resident_of_lease (by rw [hc]; rfl), hsnapshot]
  refine ⟨rfl, ?_, ?_, c.value.val.fence, ?_, ?_⟩
  · rw [hsnapshot, resident_timers]
    rfl
  · rw [hsnapshot, resident_delivery]
    exact hat.found.ack
  all_goals
    rw [hlease]
    rfl

/-- The acquisition a commit goes back to. -/
theorem Commits.acquired {l : RuntimeLimits} (hc : Commits hash T host l k c value j) :
    ∃ job₀ j', .acquired host k job₀ c ∈ T ∧ job₀.replay = false ∧ Steady job₀ j' ∧
      ∃ phase ownerLost status, j = { j' with phase, ownerLost, status } := by
  obtain ⟨_, _, j₅, _, _, _, hexec, hs, hb, -, _, ownerLost, status, heq⟩ := hc.past
  obtain ⟨j₀, hacq, hreplay, hsteady⟩ := hexec.acquired
  exact ⟨j₀, j₅, hacq, hreplay, hsteady.trans (hs.steady.trans hb.steady), _, ownerLost, status, heq⟩

/-- It is that of the same job. -/
theorem Commits.serial {l : RuntimeLimits} (hc : Commits hash T host l k c value j) :
    ∃ job₀, .acquired host k job₀ c ∈ T ∧ job₀.serial = j.serial := by
  obtain ⟨job₀, _, hacq, -, hsteady, _, _, _, rfl⟩ := hc.acquired
  exact ⟨job₀, hacq, hsteady.kept.serial.symm⟩

/-! ## Writes -/

theorem Derived.mono (hT : T ⊆ T') (hd : Derived hash limits T id old new) : Derived hash limits T' id old new := by
  cases hd with
  | granted host k job hid he cachedFence time hv => exact .granted host k job hid (hT he) cachedFence time hv
  | released host k hid he hv => exact .released host k hid (hT he) hv
  | committed host k job job₀ hid he ha hs hl hc =>
    exact .committed host k job job₀ hid (hT he) (hT ha) hs hl (hc.mono hT)

section

variable (hp : Past hash limits T)
include hp

theorem Event.Lawful.derived (he : e.Lawful hash limits T) (hw : e.writeTo id = some new)
    (hold : (history T id).head? = some old) : Derived hash limits (e :: T) id old new := by
  cases e with
  | created =>
    obtain ⟨rfl, rfl⟩ := written_iff.1 hw
    rw [he.1] at hold
    cases hold
  | granted host k j =>
    obtain ⟨rfl, rfl⟩ := written_iff.1 hw
    obtain ⟨hold', j₀, time, x, -, hv, -⟩ := he
    cases hold.symm.trans hold'
    exact .granted host k j rfl mem_cons_self j₀.cachedFence time hv
  | released host k =>
    obtain ⟨rfl, rfl⟩ := written_iff.1 hw
    obtain ⟨hold', -, hv⟩ := he
    cases hold.symm.trans hold'
    exact .released host k rfl mem_cons_self hv
  | committed host k j =>
    obtain ⟨rfl, rfl⟩ := written_iff.1 hw
    obtain ⟨hold', hc⟩ := he
    cases hold.symm.trans hold'
    obtain ⟨job₀, hacq, hserial⟩ := hc.serial
    exact .committed host k j job₀ rfl mem_cons_self (mem_cons_of_mem _ hacq) hserial (hp.acquired hacq).loads
      (hc.mono (subset_cons_self _ _))
  | acquired | host => cases hw

/-- Two neighbours in the history. -/
theorem Past.derived {newer older : List (Cell StoredRecord)}
    (hh : history T id = newer ++ new :: old :: older) : Derived hash limits T id old new := by
  induction T generalizing newer with
  | nil => exact absurd hh.symm (by simp [history])
  | cons e T ih =>
    rw [history_cons] at hh
    cases hw : e.writeTo id with
    | none =>
      rw [hw] at hh
      exact (ih hp.tail hh).mono (subset_cons_self _ _)
    | some written =>
      rw [hw] at hh
      have hh : written :: history T id = newer ++ new :: old :: older := hh
      cases newer with
      | nil =>
        injection hh with hnew hrest
        subst hnew
        exact hp.head.derived hp.tail hw (by rw [hrest]; rfl)
      | cons =>
        injection hh with _ hrest
        exact (ih hp.tail hrest).mono (subset_cons_self _ _)

theorem Derived.fence_le (hd : Derived hash limits T id old new) : old.value.val.fence ≤ new.value.val.fence := by
  cases hd with
  | granted _ _ _ _ _ _ _ hv =>
    rw [hv]
    exact Nat.le_succ _
  | released _ _ _ _ hv =>
    rw [hv]
  | committed _ _ job _ _ _ _ _ _ hc =>
    obtain ⟨m, hv⟩ := hc.record
    rw [hv, ← (hc.grounded hp).2.fence]
    exact le_refl job.fence

/-- What holds between neighbours, and is transitive, holds between all cells. -/
theorem Past.pairwise (id : Bytes) {R : Cell StoredRecord → Cell StoredRecord → Prop}
    (htrans : ∀ a b c, R a b → R b c → R a c)
    (hR : ∀ T' old new, T' <:+ T → Derived hash limits T' id old new → R old new) :
    (history T id).Pairwise fun new old => R old new := by
  induction T with
  | nil => exact .nil
  | cons e T ih =>
    have hrest := ih hp.tail fun T' old new hs => hR T' old new (hs.trans (suffix_cons e T))
    rw [history_cons]
    cases hw : e.writeTo id with
    | none => exact hrest
    | some new =>
      refine pairwise_cons.2 ⟨fun d (hd : d ∈ history T id) => ?_, hrest⟩
      -- the write replaced the newest record
      obtain ⟨old, _, hold⟩ := exists_cons_of_ne_nil (ne_nil_of_mem hd)
      have hnew : R old new := hR (e :: T) old new (suffix_refl _) (hp.head.derived hp.tail hw (by rw [hold]; rfl))
      rw [hold, pairwise_cons] at hrest
      rw [hold] at hd
      rcases mem_cons.1 hd with rfl | hd
      · exact hnew
      · exact htrans d old new (hrest.1 d hd) hnew

theorem Past.fences (id : Bytes) : (history T id).Pairwise fun new old => old.value.val.fence ≤ new.value.val.fence :=
  hp.pairwise id (fun _ _ _ => le_trans) fun _ _ _ hs hd => hd.fence_le (hp.of_suffix hs)

/-- What every write keeps still holds of the newest record. -/
theorem Past.stays {P : Cell StoredRecord → Prop}
    (hP : ∀ T' old new, T' <:+ T → Derived hash limits T' id old new → P old → P new) {c d : Cell StoredRecord}
    (hd : d ∈ history T id) (hPd : P d) (hc : (history T id).head? = some c) : P c := by
  have hpair := hp.pairwise id (R := fun old new => P old → P new) (fun _ _ _ hab hbc ha => hbc (hab ha)) hP
  obtain ⟨_, hrest⟩ := head?_eq_some_iff.1 hc
  rw [hrest, pairwise_cons] at hpair
  rw [hrest] at hd
  rcases mem_cons.1 hd with rfl | hd
  · exact hPd
  · exact hpair.1 d hd hPd

end

/-! ## Jobs that lost their record -/

theorem acquired_unique {job₁ job₂ : Job} {k₁ k₂ : EntityKey} {c₁ c₂ : Cell StoredRecord} {newer older : List Event}
    (hn : (acquisitions host (newer ++ .acquired host k₁ job₁ c₁ :: older)).Nodup)
    (h₂ : .acquired host k₂ job₂ c₂ ∈ newer ++ .acquired host k₁ job₁ c₁ :: older) (hs : job₂.serial = job₁.serial) :
    Event.acquired host k₂ job₂ c₂ = .acquired host k₁ job₁ c₁ := by
  have hcons : acquisitions host (.acquired host k₁ job₁ c₁ :: older) = job₁.serial :: acquisitions host older := by
    simp [acquisitions]
  rw [acquisitions_append, hcons, nodup_append, nodup_cons] at hn
  rcases mem_append.1 h₂ with hmem | hmem
  · exact absurd hs.symm (Ne.symm (hn.2.2 _ (mem_acquisitions.2 ⟨k₂, job₂, c₂, hmem, rfl⟩) _ mem_cons_self))
  · rcases mem_cons.1 hmem with heq | hmem
    · exact heq
    · exact absurd (mem_acquisitions.2 ⟨k₂, job₂, c₂, hmem, hs⟩) hn.2.1.1

/-- Nobody has written since a cell that is still the newest one. -/
theorem no_write_since {between : List Event} (hn : ((history (between ++ T) id).map Cell.version).Nodup)
    (hhead : (history (between ++ T) id).head? = some c) (hc : c ∈ history T id) :
    ∀ e ∈ between, e.writeTo id = none := by
  rw [history_append] at hn hhead
  rw [← filterMap_eq_nil_iff]
  cases hb : between.filterMap (Event.writeTo id) with
  | nil => rfl
  | cons _ rest =>
    rw [hb] at hn hhead
    cases hhead
    rw [cons_append, map_cons, nodup_cons] at hn
    exact absurd (mem_map_of_mem (mem_append_right rest hc)) hn.1

theorem one_chain_run (hash : Bytes → Bytes) (limits : HostId → RuntimeLimits) (actions : List Action) :
    OneChain hash limits (run (World.step hash) (World.init limits) actions) := by
  have ht := traced_run hash limits actions
  have hserials := serials_run hash limits actions
  generalize run (World.step hash) (World.init limits) actions = w at ht hserials
  refine ⟨ht.cells, fun newer host k job old new earlier htrace => ?_, fun id newer new old _ hcells => ?_,
    fun id => ?_, fun host k job old new he => ?_, ?_⟩
  · have hs : .committed host k job old new :: earlier <:+ w.trace := ⟨newer, htrace.symm⟩
    obtain ⟨hold, hc⟩ := ht.past _ _ hs
    obtain ⟨job₀, hacq, hserial⟩ := hc.serial
    exact ⟨hold, job₀, hacq, hserial, ((ht.past.of_suffix hs).tail.acquired hacq).loads.version⟩
  · rw [ht.cells] at hcells
    exact ht.past.derived hcells
  · rw [ht.cells]
    exact ht.past.fences id
  · obtain ⟨newer, earlier, htrace⟩ := append_of_mem he
    obtain ⟨-, _, _, x, -, hv, -⟩ := ht.past _ _ ⟨newer, htrace.symm⟩
    rw [hv]
    exact Nat.lt_succ_self _
  · intro newer between earlier host k job₀ c job old new htrace hserial
    have hs : .committed host k job old new :: (between ++ .acquired host k job₀ c :: earlier) <:+ w.trace :=
      ⟨newer, htrace.symm⟩
    have hp := (ht.past.of_suffix hs).tail
    obtain ⟨hold, hc⟩ := ht.past _ _ hs
    -- the job acquired once, so the version it replaces is this one
    obtain ⟨_, hacq, hserial₁⟩ := hc.serial
    have honce : (acquisitions host (between ++ .acquired host k job₀ c :: earlier)).Nodup := by
      refine (hserials.once host).sublist (List.Sublist.filterMap _ ?_)
      exact ((suffix_cons _ _).trans hs).sublist
    injection acquired_unique honce hacq (hserial₁.trans hserial.symm) with _ _ hjob hcell
    subst hcell
    have hmem : old ∈ history (.acquired host k job₀ old :: earlier) k.id :=
      (hp.of_suffix (suffix_append _ _)).acquired mem_cons_self |>.mem
    refine no_write_since ?_ hold hmem
    have hnodup := (w.entities k.id).nodup
    rw [ht.cells] at hnodup
    refine hnodup.sublist (List.Sublist.map _ (List.Sublist.filterMap _ ?_))
    exact ((suffix_cons _ _).trans hs).sublist

end Fsnet
