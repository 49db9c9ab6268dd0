import Fsnet.World.Awake
/-!
# How an entity is initialized

The flag of a record is set by one kind of commit only: that of a plain call
whose whole chain was run, with the creation hook first if the type has one.
-/

namespace Fsnet

open Lib List

variable {hash : Bytes → Bytes} {limits : HostId → RuntimeLimits} {host : HostId} {k : EntityKey} {j j' : Job}
  {T T' news : List Event} {id : Bytes} {old new c : Cell StoredRecord} {w w₀ : World} {o o' : Option Job} {h : Host}
  {env : Ambient} {steps : List Hook}

/-! ## The chain of a job -/

variable (hash limits) in
/-- `w₀` is a state on the way of a run to `w`. -/
structure OnWay (w₀ w : World) : Prop where
  states : ∃ before after, w₀ = run (World.step hash) (World.init limits) before ∧ w = run (World.step hash) w₀ after

theorem OnWay.step (hw : OnWay hash limits w₀ w) (action : Action) : OnWay hash limits w₀ (w.step hash action) := by
  obtain ⟨before, after, hbefore, hafter⟩ := hw.states
  refine ⟨before, after ++ [action], hbefore, ?_⟩
  rw [run_append, ← hafter]
  rfl

/-- The hook was run for the job. -/
def Ran (T : List Event) (host : HostId) (k : EntityKey) (j : Job) (hook : Hook) : Prop :=
  ∃ j', .host host (.started k j' hook) ∈ T ∧ j'.serial = j.serial

variable (hash limits) in
/-- The hook's answer for the job was one of success: it was the step that ran when the script answered so. -/
structure Answered (w : World) (host : HostId) (k : EntityKey) (j : Job) (hook : Hook) : Prop where
  moment : ∃ before after w₀ j₀ rest state result env, w₀ = run (World.step hash) (World.init limits) before ∧
    w = run (World.step hash) w₀ (.script host k result env :: after) ∧ (w₀.hosts host).active k = some j₀ ∧
    j₀.serial = j.serial ∧ j₀.phase = .executing (hook :: rest) state ∧ (j₀.answer result).status = .ok

variable (hash limits) in
/-- The job's chain, as it was made in a state on the way: `steps` are left of it, and the first of them is running. -/
structure Laid (w : World) (host : HostId) (k : EntityKey) (j : Job) (steps : List Hook) : Prop where
  chain : ∃ w₀ j₀ j₂ done, OnWay hash limits w₀ w ∧ (w₀.hosts host).active k = some j₀ ∧
    j₀.phase = .acquiring (.finished false) ∧ j₀.serial = j.serial ∧ j₂.request.route = j.request.route ∧
    j₂.created = j.created ∧ (w₀.hosts host).chain k j₂ = done ++ steps ∧
    (∀ hook ∈ done ++ steps.take 1, Ran w.trace host k j hook) ∧ ∀ hook ∈ done, Answered hash limits w host k j hook

theorem Ran.mono {hook : Hook} (hr : Ran T host k j hook) (hT : T ⊆ T') (hs : j'.serial = j.serial) :
    Ran T' host k j' hook := by
  obtain ⟨j₁, hmem, hserial⟩ := hr
  exact ⟨j₁, hT hmem, hserial.trans hs.symm⟩

theorem Answered.step {hook : Hook} (ha : Answered hash limits w host k j hook) (action : Action)
    (hs : j'.serial = j.serial) : Answered hash limits (w.step hash action) host k j' hook := by
  obtain ⟨before, after, w₀, j₀, rest, state, result, env, hbefore, hafter, hj₀, hserial, hrest⟩ := ha.moment
  refine ⟨before, after ++ [action], w₀, j₀, rest, state, result, env, hbefore, ?_, hj₀, hserial.trans hs.symm, hrest⟩
  rw [← cons_append, run_append, ← hafter]
  rfl

theorem Laid.step (hl : Laid hash limits w host k j steps) (action : Action) (hs : j'.serial = j.serial)
    (hr : j'.request.route = j.request.route) (hc : j'.created = j.created) :
    Laid hash limits (w.step hash action) host k j' steps := by
  obtain ⟨w₀, j₀, j₂, done, hway, hj₀, hp, hserial, hroute, hcreated, hchain, hran, hans⟩ := hl.chain
  refine ⟨w₀, j₀, j₂, done, hway.step action, hj₀, hp, hserial.trans hs.symm, hroute.trans hr.symm,
    hcreated.trans hc.symm, hchain, fun hook hmem => ?_, fun hook hmem => (hans hook hmem).step action hs⟩
  exact (hran hook hmem).mono (step_trace_subset hash w action) hs

/-- The step that runs answers, and the next one is run. -/
theorem Laid.next {done : Hook} (hl : Laid hash limits w host k j (done :: steps))
    (ha : Answered hash limits w host k j done) (hran : ∀ hook ∈ steps.take 1, Ran w.trace host k j hook) :
    Laid hash limits w host k j steps := by
  obtain ⟨w₀, j₀, j₂, past, hway, hj₀, hp, hserial, hroute, hcreated, hchain, hpast, hans⟩ := hl.chain
  refine ⟨w₀, j₀, j₂, past ++ [done], hway, hj₀, hp, hserial, hroute, hcreated, ?_, fun hook hmem => ?_,
    fun hook hmem => ?_⟩
  · rw [hchain, append_assoc, singleton_append]
  · rcases mem_append.1 hmem with hmem | hmem
    · exact hpast hook hmem
    · exact hran hook hmem
  · rcases mem_append.1 hmem with hmem | hmem
    · exact hans hook hmem
    · rw [mem_singleton.1 hmem]
      exact ha

variable (hash limits) in
structure Underway (w : World) (host : HostId) (k : EntityKey) (j : Job) : Prop where
  executing : ∀ steps state, j.phase = .executing steps state → Laid hash limits w host k j steps
  committing : ∀ stage value, j.phase = .committing stage value → j.metadataOnly = false →
    Laid hash limits w host k j []

theorem underway_acquiring {stage : AcquireStage} (hp : j.phase = .acquiring stage) :
    Underway hash limits w host k j := by
  refine ⟨fun _ _ hp' => ?_, fun _ _ hp' => ?_⟩
  all_goals
    rw [hp] at hp'
    cases hp'

theorem chain_learnOwner (h : Host) (k : EntityKey) (j j' : Job) : (h.learnOwner k j).chain k j' = h.chain k j' := by
  have hslots : ((h.learnOwner k j).slots k).any (fun slot => !slot.activated) =
      (h.slots k).any fun slot => !slot.activated := by
    unfold Host.learnOwner
    split
    · rename_i hslot
      rw [setSlot_slots, hslot]
      rfl
    · rfl
  have hcontains : ∀ route, (h.learnOwner k j).contains route = h.contains route := by
    intro route
    unfold Host.learnOwner
    split <;> rfl
  unfold Host.chain
  simp only [hslots, hcontains]

/-- A commit of more than protocol state comes from a result that was good. -/
theorem Concludes.metadataOnly {result : Result} {turn : Turn} (hc : Concludes hash host h k env j result turn)
    (hj : turn.host.active k = some j') (hm : j'.metadataOnly = false) :
    result.status = .ok ∧ j.metadataOnly = false := by
  obtain ⟨_, _, _, hs, hb, -⟩ := hc.commit hj
  rw [hb.same] at hm
  cases hs with
  | ok hok => exact ⟨hok, hm⟩
  | declined => cases hm

theorem Concludes.created {result : Result} {turn : Turn} (hc : Concludes hash host h k env j result turn)
    (hj : turn.host.active k = some j') : j'.created = j.created := by
  obtain ⟨_, _, _, hs, hb, -⟩ := hc.commit hj
  exact (hs.steady.trans hb.steady).created

theorem started_mem {turn : Turn} {hook : Hook} (hm : .started k j hook ∈ turn.events) :
    .host host (.started k j hook) ∈ turn.news host :=
  mem_reverse.2 (mem_map_of_mem hm)

theorem JobMove.underway {action : Action} (hl : ∀ j, o = some j → Lineage hash w.trace host (w.hosts host).limits k j)
    (hcells : ∀ id, (w.entities id).cells = history w.trace id)
    (hreached : ∃ before, w = Lib.run (World.step hash) (World.init limits) before)
    (hu : ∀ j, o = some j → (w.hosts host).active k = some j ∧ Underway hash limits w host k j)
    (hnews : news ⊆ (w.step hash action).trace)
    (hm : JobMove hash w (w.step hash action) host k o o' news) (hj' : o' = some j') :
    Underway hash limits (w.step hash action) host k j' := by
  have hstay : ∀ {j j' : Job}, Underway hash limits w host k j → j'.phase = j.phase → j'.serial = j.serial →
      j'.request.route = j.request.route → j'.created = j.created → j'.metadataOnly = j.metadataOnly →
      Underway hash limits (w.step hash action) host k j' := by
    intro j j' hold hp hs hr hc hmeta
    refine ⟨fun steps state hp' => ?_, fun stage value hp' hm' => ?_⟩
    · exact (hold.executing steps state (hp ▸ hp')).step action hs hr hc
    · exact (hold.committing stage value (hp ▸ hp') (hmeta ▸ hm')).step action hs hr hc
  cases hm with
  | same => exact hstay (hu j' hj').2 rfl rfl rfl rfl rfl
  | stop | threw | refuse | timeOut | finish => cases hj'
  | begin =>
    cases hj'
    exact underway_acquiring rfl
  | acquire j _ _ hm =>
    cases hj'
    obtain ⟨stage, hstage⟩ := (hm.attains hcells (hl j rfl)).acquiring
    exact underway_acquiring hstage
  | commit j _ _ hm =>
    cases hj'
    obtain ⟨stage, value, hphase, _, _, _, heq⟩ := hm.step
    rw [heq]
    refine ⟨fun steps state hp' => (nomatch hp'), fun _ _ _ hm' => ?_⟩
    exact ((hu j rfl).2.committing stage value hphase hm').step action rfl rfl rfl
  | run j _ _ hphase _ hrun =>
    cases hrun with
    | refused | failed | replayed =>
      rw [Host.complete_active] at hj'
      cases hj'
    | concludes _ _ _ _ _ _ _ _ _ hmeta _ hcon =>
      obtain ⟨value, hcommit⟩ := hcon.committing hj'
      refine ⟨fun steps state hp' => ?_, fun _ _ _ hm' => ?_⟩
      · rw [hcommit] at hp'
        cases hp'
      · obtain ⟨hok, hm₂⟩ := hcon.metadataOnly hj' hm'
        rw [hmeta hok] at hm₂
        cases hm₂
    | starts _ _ j₂ _ ha _ _ hres _ _ _ _ hchain =>
      rw [setJob_active] at hj'
      cases hj'
      obtain ⟨before, hbefore⟩ := hreached
      have hway : OnWay hash limits w (w.step hash action) := ⟨before, [action], hbefore, rfl⟩
      have hkept := ha.kept.trans hres.kept
      refine ⟨fun steps state hsteps => ?_, fun _ _ hp' => (nomatch hp')⟩
      cases hsteps
      refine ⟨w, j, j₂, [], hway, (hu j rfl).1, hphase, hkept.serial.symm, rfl, rfl, ?_,
        fun hook' hmem => ?_, fun _ hmem => (nomatch hmem)⟩
      · rw [chain_learnOwner] at hchain
        exact hchain
      · rw [nil_append, take_succ_cons, take_zero, mem_singleton] at hmem
        subst hmem
        refine ⟨_, hnews (started_mem ?_), rfl⟩
        exact mem_cons_of_mem _ mem_cons_self
  | answer j _ _ result env _ _ ha _ hw =>
    have hold := (hu j rfl).2
    have hans : ∀ {j' : Job} {hook rest state}, j'.serial = j.serial → j.phase = .executing (hook :: rest) state →
        (j.answer result).status = .ok → Answered hash limits (w.step hash action) host k j' hook := by
      intro j' hook rest state hs hp hok
      obtain ⟨before, hbefore⟩ := hreached
      exact ⟨before, [], w, j, rest, state, result, env, hbefore, hw, (hu j rfl).1, hs.symm, hp, hok⟩
    cases ha with
    | concludes _ _ _ hcon hlast =>
      obtain ⟨_, hcommit⟩ := hcon.committing hj'
      refine ⟨fun steps state hp' => ?_, fun _ _ _ hm' => ?_⟩
      · rw [hcommit] at hp'
        cases hp'
      · -- the method has answered, so nothing of the chain is left
        obtain ⟨hok, -⟩ := hcon.metadataOnly hj' hm'
        obtain ⟨hok', _, before, hp⟩ := hlast hok
        obtain ⟨j₁, _, _, hset, hb, -⟩ := hcon.commit hj'
        have hkept := hset.kept.trans hb.steady.kept
        have hlaid := (hold.executing _ _ hp).step action hkept.serial hkept.route (hcon.created hj')
        exact hlaid.next (hans hkept.serial hp hok') fun _ hmem => (nomatch hmem)
    | starts _ _ _ _ _ _ _ hdone hok =>
      rw [setJob_active] at hj'
      cases hj'
      refine ⟨fun steps state hsteps => ?_, fun _ _ hp' => (nomatch hp')⟩
      cases hsteps
      refine Laid.next ((hold.executing _ _ hdone).step action rfl rfl rfl) (hans rfl hdone hok) fun hook' hmem => ?_
      rw [take_succ_cons, take_zero, mem_singleton] at hmem
      subst hmem
      exact ⟨_, hnews (started_mem mem_cons_self), rfl⟩
  | schedule j _ _ _ _ _ hs =>
    cases hj'
    refine hstay (hu j rfl).2 ?_ hs.kept.serial hs.kept.route ?_ ?_ <;> rw [hs.same]
  | amend j _ _ _ _ ha =>
    cases hj'
    refine hstay (hu j rfl).2 ha.phase ha.kept.serial ha.kept.route ha.steady.created ?_
    cases ha with
    | schedule _ _ hs => rw [hs.same]
    | cancel | forget | send => rfl

/-! ## The commit that initializes -/

/-- What a job that initializes its entity asked for, and that it ran its whole chain. -/
structure Initializes (hash : Bytes → Bytes) (limits : HostId → RuntimeLimits) (w : World) (host : HostId)
    (k : EntityKey) (j : Job) : Prop where
  /-- Neither a delivery, with or without an error, an acknowledgement, an owner binding nor a timer. -/
  request : j.request.incoming = none ∧ j.request.ack = none ∧ j.request.deliveryError = none ∧
    j.request.newOwner = none ∧ j.request.timer = none
  /-- Neither a deactivation nor a handoff. -/
  release : j.request.route.isControl = false ∧ j.request.handoffTarget = []
  replay : j.replay = false
  executes : j.metadataOnly = false
  /-- The chain made for the job was run to its end, every step of it with success, and has the creation hook if the
  type has one. -/
  chain : ∃ w₀ j₀ j₂, OnWay hash limits w₀ w ∧ (w₀.hosts host).active k = some j₀ ∧
    j₀.phase = .acquiring (.finished false) ∧ j₀.serial = j.serial ∧ j₂.request.route = j.request.route ∧
    j₂.created = j.created ∧
    (∀ hook ∈ (w₀.hosts host).chain k j₂, Ran w.trace host k j hook ∧ Answered hash limits w host k j hook) ∧
    ((w₀.hosts host).contains ⟨k.type, createMethod⟩ = true → .create ∈ (w₀.hosts host).chain k j₂)

theorem Initializes.step (hi : Initializes hash limits w host k j) (action : Action) :
    Initializes hash limits (w.step hash action) host k j := by
  obtain ⟨w₀, j₀, j₂, hway, hj₀, hp, hs, hroute, hcr, hran, hcreate⟩ := hi.chain
  refine ⟨hi.request, hi.release, hi.replay, hi.executes, w₀, j₀, j₂, hway.step action, hj₀, hp, hs,
    hroute, hcr, fun hook hmem => ?_, hcreate⟩
  exact (hran hook hmem).imp (·.mono (step_trace_subset hash w action) rfl) (·.step action rfl)

theorem Kept.request_eq (hk : Kept j j') (hin : j.request.incoming = none) : j'.request = j.request := by
  obtain ⟨_, hr, hsame⟩ := hk.request
  rw [hr, hsame hin]

/-- A call that is no delivery keeps to what its acquisition found. -/
theorem Commits.metadataOnly {value : StoredRecord} {l : RuntimeLimits} (hc : Commits hash T host l k c value j)
    (hin : j.request.incoming = none) : ∃ j₀, .acquired host k j₀ c ∈ T ∧ j₀.replay = false ∧
      j.request = j₀.request ∧ j.metadataOnly = j₀.metadataOnly := by
  obtain ⟨j₃, j₄, j₅, _, _, _, he, hs, hb, -, _, _, _, rfl⟩ := hc.past
  obtain ⟨h, _, _, j₀, j₁, j₂, hacq, hreplay, ha, -, hr, hpath⟩ := he.past
  have h₄ : j₄.request.incoming = none := by
    rw [← hb.steady.kept.incoming]
    exact hin
  have h₃ : j₃.request.incoming = none := by rw [← hs.kept.incoming, h₄]
  have h₀ : j₀.request.incoming = none := by
    rw [← ha.kept.incoming, ← hr.kept.incoming, ← (steady_path hpath).kept.incoming, h₃]
  have hrequest : j₅.request = j₀.request := by
    refine Kept.request_eq ?_ h₀
    exact ((ha.kept.trans hr.kept).trans (steady_path hpath).kept).trans (hs.kept.trans hb.steady.kept)
  refine ⟨j₀, hacq, hreplay, hrequest, ?_⟩
  have hstart : j₂.metadataOnly = j₀.metadataOnly := by
    have hadmitted : j₁.metadataOnly = j₀.metadataOnly := by
      rcases ha.request with ⟨-, hm⟩ | ⟨hsome, -⟩
      · exact hm
      · rw [h₀] at hsome
        cases hsome
    rw [hr.same]
    exact hadmitted
  have hpathm : j₃.metadataOnly = j₀.metadataOnly := by
    clear he hs h₃
    induction hpath with
    | refl => exact hstart
    | tail _ hs ih =>
      rw [hs.same]
      exact ih
  have hsettled : j₄.metadataOnly = j₃.metadataOnly := by
    cases hs with
    | ok => rfl
    | declined hi =>
      rw [h₃] at hi
      cases hi
  show j₅.metadataOnly = j₀.metadataOnly
  rw [hb.same]
  exact hsettled.trans hpathm

theorem Acquired.metadataOnly {l : RuntimeLimits} (ha : Acquired (history T) host l k c j) (hr : j.replay = false) :
    j.metadataOnly = j.request.protocolOnly := by
  obtain ⟨_, r, _, x, hat, rfl, -⟩ := ha.loaded
  exact hat.found.scope hr

/-- A job that lays its chain for a new entity starts with the creation hook. -/
theorem create_mem_chain (hc : j.request.route.isControl = false) (hcreated : j.created = true)
    (hcontains : h.contains ⟨j.request.route.type, createMethod⟩ = true) : .create ∈ h.chain k j := by
  unfold Host.chain
  dsimp only
  rw [hc, if_neg (by decide), hcreated, hcontains]
  exact mem_append_left _ (mem_append_left _ mem_cons_self)

/-- The commit of a job over an entity that was not initialized. -/
theorem Commits.initializes {value : StoredRecord} {stage : CommitStage} (h : Explained hash limits w) (ha : Awake w)
    (hu : Underway hash limits w host k j) (hj : (w.hosts host).active k = some j)
    (hph : j.phase = .committing stage value) (hc : Commits hash w.trace host (limits host) k old value j)
    (hhead : (history w.trace k.id).head? = some old) (hold : old.value.val.initialized = false)
    (hnew : value.val.initialized = true) : Initializes hash limits w host k j := by
  have hnot : ¬Initialized w.trace k.id := fun hi => by
    rw [h.traced.past.initialized hi hhead] at hold
    cases hold
  have hne : ¬old.value.val.initialized = true := fun hi => by
    rw [hi] at hold
    cases hold
  obtain ⟨job₀, j₁, hacq, hreplay, hsteady, phase, ownerLost, status, rfl⟩ := hc.acquired
  have hacquired := h.traced.past.acquired hacq
  obtain ⟨-, hg⟩ := hc.grounded h.traced.past
  have hadmits := hg.admits
  have hrequested := h.attributed.jobs host k _ hj
  have hin : j₁.request.incoming = none := by
    rw [hsteady.kept.incoming]
    cases hi : job₀.request.incoming with
    | none => rfl
    | some => exact absurd (hacquired.initialized_of_incoming hreplay hi) hne
  have hack : j₁.request.ack = none := by
    cases hack : j₁.request.ack with
    | none => rfl
    | some ack =>
      obtain ⟨e, _, hmem, -, -, -, -, rfl⟩ := hrequested.ack hack
      exact absurd (ha.envelopes e (h.delivering.known _ hmem)) hnot
  have herror : j₁.request.deliveryError = none := hrequested.deliveryError hin
  have howner : j₁.request.newOwner = none := by
    cases hn : j₁.request.newOwner with
    | none => rfl
    | some => exact absurd (hadmits.newOwner (by rw [hn]; rfl)) hne
  have htimer : j₁.request.timer = none := by
    cases ht : j₁.request.timer with
    | none => rfl
    | some => exact absurd (hadmits.timer (by rw [ht]; rfl)).2 hne
  have hcreated : j₁.created = true := by
    have hc : j₁.created = !old.value.val.initialized := hg.created
    rw [hc, hold]
    rfl
  have hcontrol : j₁.request.route.isControl = false := by
    obtain ⟨m, hv⟩ := hc.record
    cases hcontrol : j₁.request.route.isControl with
    | false => rfl
    | true =>
      have hflag : value.val.initialized = if j₁.request.route.isControl then !j₁.created else true := by rw [hv]; rfl
      rw [hcontrol, hcreated, hnew] at hflag
      cases hflag
  have hhandoff : j₁.request.handoffTarget = [] := by
    by_contra hne
    have hc := hrequested.wellformed.1 hne
    rw [show ({ j₁ with phase, ownerLost, status } : Job).request.route.isControl = false from hcontrol] at hc
    cases hc
  have hmeta : j₁.metadataOnly = false := by
    obtain ⟨j₀, hacq₀, hreplay₀, hrequest, hm⟩ := hc.metadataOnly hin
    have hrequest : j₁.request = j₀.request := hrequest
    have hm : j₁.metadataOnly = j₀.metadataOnly := hm
    rw [hm, (h.traced.past.acquired hacq₀).metadataOnly hreplay₀, ← hrequest]
    simp only [Request.protocolOnly, hack, herror, howner]
    rfl
  obtain ⟨w₀, j₀, j₂, _, hway, hj₀, hp, hserial, hroute, hcr, hchain, hran, hans⟩ :=
    (hu.committing stage value hph hmeta).chain
  refine ⟨⟨hin, hack, herror, howner, htimer⟩, ⟨hcontrol, hhandoff⟩, hsteady.replay.trans hreplay, hmeta,
    w₀, j₀, j₂, hway, hj₀, hp, hserial, hroute, hcr, fun hook hmem => ?_, fun hcontains => ?_⟩
  · rw [hchain, append_nil] at hmem
    exact ⟨hran hook (mem_append_left _ hmem), hans hook hmem⟩
  · refine create_mem_chain (by rw [hroute]; exact hcontrol) (hcr.trans hcreated) ?_
    rw [hroute, hrequested.type]
    exact hcontains

/-! ## Runs -/

variable (hash limits) in
structure Begun (w : World) : Prop where
  reached : ∃ before, w = run (World.step hash) (World.init limits) before
  awake : Awake w
  jobs : ∀ host k j, (w.hosts host).active k = some j → Underway hash limits w host k j
  commits : ∀ host k j old new, .committed host k j old new ∈ w.trace → old.value.val.initialized = false →
    new.value.val.initialized = true → Initializes hash limits w host k j

variable (hash limits) in
theorem begun_init : Begun hash limits (World.init limits) where
  reached := ⟨[], rfl⟩
  awake := awake_init limits
  jobs _ _ _ hj := nomatch hj
  commits _ _ _ _ _ he := nomatch he

theorem begun_step (w : World) (action : Action) (h : Explained hash limits w) (hb : Begun hash limits w) :
    Begun hash limits (w.step hash action) := by
  obtain ⟨_, htrace, -, hmoves, -⟩ := step_view hash w action
  obtain ⟨_, hstored, hstore⟩ := step_store hash w action
  refine ⟨?_, awake_step w action h hb.awake, fun host k j hj => ?_, fun host k j old new he hold hnew => ?_⟩
  · obtain ⟨before, hbefore⟩ := hb.reached
    refine ⟨before ++ [action], ?_⟩
    rw [run_append, ← hbefore]
    rfl
  · refine (hmoves host k).underway
      (fun j hj => h.traced.fixed host ▸ h.traced.jobs host k j hj) h.traced.cells hb.reached
      (fun j hj => ⟨hj, hb.jobs host k j hj⟩) ?_ hj
    rw [htrace]
    exact subset_append_left _ _
  · rw [hstored] at he
    rcases mem_append.1 he with he | he
    swap
    · exact (hb.commits host k j old new he hold hnew).step action
    -- the one event of the step is this commit
    have hlawful : (Event.committed host k j old new).Lawful hash limits w.trace := by
      rcases h.traced.wrote hstore with ⟨-, hnone⟩ | ⟨_, rfl, hwrote⟩
      · have hwrites := hnone _ he k.id
        rw [Event.writeTo, if_pos rfl] at hwrites
        cases hwrites
      · rw [mem_singleton.1 he]
        exact hwrote.lawful
    cases hstore with
    | keep _ _ hnone =>
      have hwrites := hnone _ he k.id
      rw [Event.writeTo, if_pos rfl] at hwrites
      cases hwrites
    | create => cases mem_singleton.1 he
    | grant | release =>
      obtain ⟨old', heq⟩ := swapNews_mem he
      cases heq
    | commit _ _ _ _ _ hj hph =>
      obtain ⟨_, heq⟩ := swapNews_mem he
      cases heq
      refine Initializes.step ?_ action
      exact hlawful.2.initializes h hb.awake (hb.jobs host k j hj) hj hph hlawful.1 hold hnew

/-- How the flag of a record comes about. -/
structure InitializedOnce (hash : Bytes → Bytes) (limits : HostId → RuntimeLimits) (w : World) : Prop where
  /-- A record that was created is not initialized. -/
  created : ∀ id cell, .created id cell ∈ w.trace → cell.value.val.initialized = false
  /-- The flag is never taken back, so it is set at most once. -/
  kept : ∀ id, (w.entities id).cells.Pairwise fun new old =>
    old.value.val.initialized = true → new.value.val.initialized = true
  /-- It is set by the commit of a job that ran the whole chain of its call, and by nothing else. -/
  set : ∀ id newer new old older, (w.entities id).cells = newer ++ new :: old :: older →
    old.value.val.initialized = false → new.value.val.initialized = true →
    ∃ host k j, k.id = id ∧ .committed host k j old new ∈ w.trace ∧ Initializes hash limits w host k j

theorem initialized_once_run (hash : Bytes → Bytes) (limits : HostId → RuntimeLimits) (actions : List Action) :
    InitializedOnce hash limits (run (World.step hash) (World.init limits) actions) := by
  obtain ⟨h, hb⟩ := explained_inv (begun_init hash limits) begun_step actions
  generalize run (World.step hash) (World.init limits) actions = w at h hb
  refine ⟨fun id _ he => ?_, fun id => ?_, fun id newer new old _ hcells hold hnew => ?_⟩
  · obtain ⟨newer, earlier, htrace⟩ := append_of_mem he
    obtain ⟨-, _, hv⟩ := h.traced.past _ earlier ⟨newer, htrace.symm⟩
    rw [hv]
    rfl
  · rw [h.traced.cells]
    exact h.traced.past.pairwise id (fun _ _ _ hab hbc ha => hbc (hab ha)) fun _ _ _ hs hd =>
      hd.initialized (h.traced.past.of_suffix hs)
  · rw [h.traced.cells] at hcells
    cases h.traced.past.derived hcells with
    | granted _ _ _ _ _ _ _ hv | released _ _ _ _ hv =>
      rw [hv] at hnew
      exact absurd (hold.symm.trans hnew) (by decide)
    | committed host k job _ hid he =>
      exact ⟨host, k, job, hid, he, hb.commits host k job old new he hold hnew⟩

end Fsnet
