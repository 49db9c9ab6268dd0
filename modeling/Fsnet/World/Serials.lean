import Fsnet.World.Requests
/-!
# Jobs are told apart by their serial

No two jobs of a host have the same serial, and a job acquires its record once.
-/

namespace Fsnet

open Lib List

variable {hash : Bytes → Bytes} {limits : HostId → RuntimeLimits} {host : HostId} {k : EntityKey} {j j' : Job}
  {T news : List Event} {w w' : World} {o o' : Option Job} {h : Host}

/-- The serials of the jobs of a host that have acquired their record. -/
def acquisitions (host : HostId) (T : List Event) : List Nat :=
  T.filterMap fun e => match e with
    | .acquired host' _ j _ => if host' = host then some j.serial else none
    | _ => none

/-- A job that is still trying to acquire its record. -/
def Job.Tries (j : Job) : Prop := ∃ stage, j.phase = .acquiring stage ∧ ∀ threw, stage ≠ .finished threw

structure Serials (w : World) : Prop where
  below : ∀ host k j, (w.hosts host).active k = some j → j.serial < (w.hosts host).serial
  distinct : ∀ host k k' j j', (w.hosts host).active k = some j → (w.hosts host).active k' = some j' →
    j.serial = j'.serial → k = k'
  acquired : ∀ host, ∀ serial ∈ acquisitions host w.trace, serial < (w.hosts host).serial
  searching : ∀ host k j, (w.hosts host).active k = some j → j.Tries → j.serial ∉ acquisitions host w.trace
  once : ∀ host, (acquisitions host w.trace).Nodup

/-- The job after a step is the one before it, or a new one. -/
theorem JobMove.serial (hl : ∀ j, o = some j → Lineage hash T host (w.hosts host).limits k j)
    (hm : JobMove hash w w' host k o o' news) (hj : o' = some j') :
    (∃ j, o = some j ∧ j'.serial = j.serial) ∨
      (o = none ∧ j'.serial = (w.hosts host).serial ∧
        (w'.hosts host).serial = (w.hosts host).serial + 1 ∧ news = []) := by
  cases hm with
  | same => exact .inl ⟨j', hj, rfl⟩
  | stop | threw | refuse | timeOut | finish => cases hj
  | begin _ _ _ _ _ _ hserial =>
    cases hj
    exact .inr ⟨rfl, rfl, hserial, rfl⟩
  | acquire j _ _ hm =>
    cases hj
    exact .inl ⟨j, rfl, (hm.same (hl j rfl)).1⟩
  | commit j _ _ hm =>
    cases hj
    obtain ⟨_, _, -, _, _, _, heq⟩ := hm.step
    rw [heq]
    exact .inl ⟨j, rfl, rfl⟩
  | run j _ _ _ _ hr | answer j _ _ _ _ _ _ hr => exact .inl ⟨j, rfl, (hr.turned.active hj).1.serial⟩
  | schedule j _ _ _ _ _ hs | amend j _ _ _ _ hs =>
    cases hj
    exact .inl ⟨j, rfl, hs.kept.serial⟩

theorem not_tries_of_phase {P : Prop} (ht : j.Tries) (hp : ∀ stage, j.phase ≠ .acquiring stage) : P := by
  obtain ⟨stage, hs, -⟩ := ht
  exact absurd hs (hp stage)

theorem AcquireMove.tries (hm : AcquireMove hash w host k j j' news) : j.Tries ∨ (¬j'.Tries ∧ news = []) := by
  cases hm with
  | fail =>
    refine .inr ⟨?_, rfl⟩
    rintro ⟨_, hs, hne⟩
    exact hne true (Phase.acquiring.inj hs).symm
  | read _ _ hp | source _ _ _ hp | grant _ _ _ _ _ _ hp | confirm _ hp => exact .inl ⟨_, hp, nofun⟩

theorem Job.GoesOn.not_tries (hg : j.GoesOn) : ¬j.Tries := by
  rintro ⟨_, hs, -⟩
  rcases hg with ⟨_, hp⟩ | ⟨_, _, hp⟩
  · cases hs.symm.trans hp
  · cases hs.symm.trans hp

/-- A job that tries after a step tried before it. -/
theorem JobMove.tried (hm : JobMove hash w w' host k o o' news) (hj : o' = some j') (ht : j'.Tries) :
    o = none ∨ ∃ j, o = some j ∧ j.Tries := by
  cases hm with
  | same => exact .inr ⟨j', hj, ht⟩
  | stop | threw | refuse | timeOut | finish => cases hj
  | begin => exact .inl rfl
  | acquire j _ _ hm =>
    cases hj
    rcases hm.tries with htries | ⟨hnot, -⟩
    · exact .inr ⟨j, rfl, htries⟩
    · exact absurd ht hnot
  | commit _ _ _ hm =>
    cases hj
    obtain ⟨stage, _, -, _, _, _, heq⟩ := hm.step
    rw [heq] at ht
    exact not_tries_of_phase ht nofun
  | run _ _ _ _ _ hr | answer _ _ _ _ _ _ _ hr => exact absurd ht (hr.turned.active hj).2.not_tries
  | schedule _ _ _ _ _ hp hs =>
    cases hj
    rw [hs.same] at ht
    exact not_tries_of_phase ht fun stage he => by cases hp.symm.trans he
  | amend _ _ _ _ hp ha =>
    cases hj
    refine not_tries_of_phase ht fun stage he => ?_
    rw [ha.phase, hp] at he
    cases he

/-- An acquisition is the one event of a step, by a job that tried before it and does not after it. -/
theorem JobMove.acquisition {j₁ : Job} {c : Cell StoredRecord} (hcells : ∀ id, (w.entities id).cells = history T id)
    (hl : ∀ j, o = some j → Lineage hash T host (w.hosts host).limits k j)
    (hm : JobMove hash w w' host k o o' news) (he : .acquired host k j₁ c ∈ news) :
    news = [.acquired host k j₁ c] ∧ o' = some j₁ ∧ ¬j₁.Tries ∧ ∃ j, o = some j ∧ j.Tries ∧ j₁.serial = j.serial := by
  have hturn : ∀ turn : Turn, Event.acquired host k j₁ c ∉ turn.news host := fun turn he => by
    obtain ⟨e, -, heq⟩ := mem_map.1 (mem_reverse.1 he)
    cases heq
  cases hm with
  | same _ _ hnot => exact absurd rfl (hnot _ he)
  | stop | begin | amend => cases he
  | threw | refuse | timeOut | finish | schedule => cases mem_singleton.1 he
  | run _ _ turn | answer _ _ _ _ _ turn => exact absurd he (hturn turn)
  | commit _ _ _ hm =>
    cases hm with
    | write =>
      obtain ⟨_, heq⟩ := swapNews_mem he
      cases heq
    | submit | armFail | armRecord | armBucket | armWrite | late => cases he
  | acquire j _ _ hm =>
    have hserial := (hm.same (hl j rfl)).1
    rcases hm.tries with htries | ⟨-, rfl⟩
    · cases hm.attains hcells (hl j rfl) with
      | acquired _ ha =>
        cases mem_singleton.1 he
        refine ⟨rfl, rfl, ?_, j, rfl, htries, hserial⟩
        rintro ⟨_, hs, hne⟩
        exact hne false (Phase.acquiring.inj (hs.symm.trans ha.phase))
      | searching _ _ _ hnot => exact absurd rfl (hnot _ he j₁ c)
    · cases he

theorem mem_acquisitions {n : Nat} : n ∈ acquisitions host T ↔ ∃ k j c, .acquired host k j c ∈ T ∧ j.serial = n := by
  rw [acquisitions, mem_filterMap]
  constructor
  · rintro ⟨e, he, heq⟩
    split at heq
    · rename_i k j c
      simp only [Option.ite_none_right_eq_some, Option.some.injEq] at heq
      obtain ⟨rfl, rfl⟩ := heq
      exact ⟨k, j, c, he, rfl⟩
    · cases heq
  · rintro ⟨k, j, c, he, rfl⟩
    exact ⟨_, he, if_pos rfl⟩

theorem acquisitions_append (news T : List Event) (host : HostId) :
    acquisitions host (news ++ T) = acquisitions host news ++ acquisitions host T :=
  filterMap_append

theorem serials_init (limits : HostId → RuntimeLimits) : Serials (World.init limits) where
  below _ _ _ hj := nomatch hj
  distinct _ _ _ _ _ hj := nomatch hj
  acquired _ _ hn := nomatch hn
  searching _ _ _ hj := nomatch hj
  once _ := .nil

theorem serials_step (w : World) (action : Action) (ht : Traced hash limits w) (h : Serials w) :
    Serials (w.step hash action) := by
  obtain ⟨news, htrace, hgrows, hmoves, hone⟩ := step_view hash w action
  have hl : ∀ host k j, (w.hosts host).active k = some j → Lineage hash w.trace host (w.hosts host).limits k j :=
    fun host k j hj => ht.fixed host ▸ ht.jobs host k j hj
  have hserial := fun host k j' (hj : ((w.step hash action).hosts host).active k = some j') =>
    (hmoves host k).serial (hl host k) hj
  -- a step adds one acquisition or none
  have hacq : ∀ host, (acquisitions host news = [] ∨ ∃ k j₁ c j, news = [.acquired host k j₁ c] ∧
      acquisitions host news = [j.serial] ∧ (w.hosts host).active k = some j ∧ j.Tries ∧
      ((w.step hash action).hosts host).active k = some j₁ ∧ ¬j₁.Tries ∧ j₁.serial = j.serial) := by
    intro host
    cases hnews : acquisitions host news with
    | nil => exact .inl rfl
    | cons n =>
      obtain ⟨k, j₁, c, he, -⟩ := mem_acquisitions.1 (hnews ▸ mem_cons_self : n ∈ acquisitions host news)
      obtain ⟨hsingle, hj', hnot, j, hj, htries, heq⟩ := (hmoves host k).acquisition ht.cells (hl host k) he
      refine .inr ⟨k, j₁, c, j, hsingle, ?_, hj, htries, hj', hnot, heq⟩
      rw [← hnews, hsingle, ← heq]
      simp [acquisitions]
  refine ⟨fun host k j' hj' => ?_, fun host k k' j₁ j₂ h₁ h₂ heq => ?_, fun host n hn => ?_,
    fun host k j' hj' htries => ?_, fun host => ?_⟩
  · rcases hserial host k j' hj' with ⟨j, hj, heq⟩ | ⟨-, heq, hnext, -⟩
    · rw [heq]
      exact Nat.lt_of_lt_of_le (h.below host k j hj) (hgrows host).serial
    · rw [heq, hnext]
      exact Nat.lt_succ_self _
  · rcases hserial host k j₁ h₁ with ⟨o₁, ho₁, e₁⟩ | ⟨ho₁, e₁, -⟩
    · rcases hserial host k' j₂ h₂ with ⟨o₂, ho₂, e₂⟩ | ⟨-, e₂, -⟩
      · exact h.distinct host k k' o₁ o₂ ho₁ ho₂ (by rw [← e₁, ← e₂, heq])
      · have hlt := h.below host k o₁ ho₁
        rw [← e₁, heq, e₂] at hlt
        exact absurd hlt (Nat.lt_irrefl _)
    rcases hserial host k' j₂ h₂ with ⟨o₂, ho₂, e₂⟩ | ⟨ho₂, -⟩
    · have hlt := h.below host k' o₂ ho₂
      rw [← e₂, ← heq, e₁] at hlt
      exact absurd hlt (Nat.lt_irrefl _)
    · exact hone host k k' ho₁ ho₂ (by rw [h₁]; exact Option.some_ne_none _) (by rw [h₂]; exact Option.some_ne_none _)
  · refine Nat.lt_of_lt_of_le ?_ (hgrows host).serial
    rw [htrace, acquisitions_append, mem_append] at hn
    rcases hn with hn | hn
    · rcases hacq host with hnil | ⟨k, j₁, c, j, -, hnew, hj, -⟩
      · rw [hnil] at hn
        cases hn
      · rw [hnew, mem_singleton] at hn
        rw [hn]
        exact h.below host k j hj
    · exact h.acquired host n hn
  · rw [htrace, acquisitions_append, mem_append, not_or]
    rcases hserial host k j' hj' with ⟨j, hj, heq⟩ | ⟨_, heq, -, hnews⟩
    · obtain ⟨_, hj₀, htries₀⟩ :=
        ((hmoves host k).tried hj' htries).resolve_left (by rw [hj]; exact Option.some_ne_none _)
      cases hj.symm.trans hj₀
      rw [heq]
      refine ⟨fun hn => ?_, h.searching host k j hj htries₀⟩
      rcases hacq host with hnil | ⟨k', j₁, c, j₂, -, hnew, hj₂, -, hj₁, hnot, -⟩
      · rw [hnil] at hn
        cases hn
      rw [hnew, mem_singleton] at hn
      obtain rfl := h.distinct host k k' j j₂ hj hj₂ hn
      cases hj'.symm.trans hj₁
      exact hnot htries
    · rw [heq, hnews]
      exact ⟨fun hn => (nomatch hn), fun hn => Nat.lt_irrefl _ (h.acquired host _ hn)⟩
  · rw [htrace, acquisitions_append]
    rcases hacq host with hnil | ⟨k, _, c, j, -, hnew, hj, htries, -⟩
    · rw [hnil]
      exact h.once host
    · rw [hnew]
      exact nodup_cons.2 ⟨h.searching host k j hj htries, h.once host⟩

variable (hash limits) in
theorem serials_run (actions : List Action) :
    Serials (run (World.step hash) (World.init limits) actions) :=
  traced_inv serials_step (serials_init limits) actions

end Fsnet
