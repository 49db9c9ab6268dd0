import Mathlib.Logic.Relation
import Fsnet.World.Writes
/-!
# Where a job comes from

Every job in flight carries the whole of its past: the attempts that loaded it,
the record version it acquired, what script logic did to it, and how its commit
was built. `Lineage` states that past for each phase, over the trace, and every
step of the system keeps it. What is true of a commit is then read off its
lineage, without looking at the system again.
-/

namespace Fsnet

open Lib List

/-- The cells ever written, by entity id. -/
abbrev History := Bytes → List (Cell StoredRecord)

/-- The cells a trace has written, newest first. -/
def history (T : List Event) : History := fun id => T.filterMap (Event.writeTo id)

/-- Nothing is lost. -/
def History.Grows (H H' : History) : Prop := ∀ id, ∀ c ∈ H id, c ∈ H' id

theorem history_grows {T T' : List Event} (h : T ⊆ T') : (history T).Grows (history T') := by
  intro _ c hc
  obtain ⟨e, he, hw⟩ := mem_filterMap.1 hc
  exact mem_filterMap.2 ⟨e, h he, hw⟩

/-! ## Acquisition -/

/-- What no attempt touches, as it is in a new job. -/
structure Blank (j : Job) : Prop where
  status : j.status = .ok
  ownerLost : j.ownerLost = false
  wrongNode : j.wrongNode = false
  attributes : j.attributes = none
  logicStarted : j.logicStarted = false
  deliveryResult : j.deliveryResult = none
  timerDirty : j.timerDirty = false
  timerIndexEntry : j.timerIndexEntry = none

/-- Why a job that is not yet acquired may already be answered: an attempt found
the answer in a record. -/
def Replays (H : History) (k : EntityKey) (j : Job) : Prop :=
  j.request.timer.isSome = true ∨ (∃ c ∈ H k.id, AnswersPassed j.request c.value.val j.output) ∨
    ∃ c ∈ H k.id, ∃ receipt ∈ c.value.val.snapshot.receipts, j.request.requestId ≠ [] ∧
      receipt.id = j.request.requestId ∧ receipt.route = j.request.route.text ∧ receipt.request = j.request.payload ∧
      j.output = receipt.response

/-- A job before an attempt. -/
structure Trying (H : History) (k : EntityKey) (j : Job) : Prop where
  blank : Blank j
  replay : j.replay = true → Replays H k j
  timer : j.request.timer = none → j.timerEvent = none

/-- The message was pending in a record of its source. -/
def Sourced (H : History) (e : DeliveryEnvelope) : Prop := ∃ c ∈ H e.sourceId, PendingIn c.value.val e

/-- An attempt of the job `j` that loaded the record `r`. -/
structure Attempted (H : History) (host : HostId) (k : EntityKey) (j : Job) (r : EntityRecord) (time : Int)
    (x : Findings) : Prop where
  trying : Trying H k j
  found : Found host j r time x
  record : ∃ c ∈ H k.id, c.value.val = r
  source : ∀ e, j.request.incoming = some e → x.replay = false → Sourced H e

/-- The job holds the version of the cell `c`. It loaded the cell's record, or the record whose renewed lease it is. -/
structure Acquired (H : History) (host : HostId) (limits : RuntimeLimits) (k : EntityKey) (c : Cell StoredRecord)
    (j : Job) : Prop where
  mem : c ∈ H k.id
  loaded : ∃ j₀ r time x, Attempted H host k j₀ r time x ∧
    j = ((j₀.loaded host r x).takes c).acquiring (.finished false) ∧
    ((c.value.val = r ∧ r.owner = host.owner) ∨ c.value.val = r.leased host limits j₀.cachedFence time)

/-! ## Execution -/

/-- One step of a job while its script runs. -/
inductive ScriptStep (hash : Bytes → Bytes) (limits : RuntimeLimits) (k : EntityKey) (j : Job) : Job → Prop
  | amends (j' : Job) (ha : Amends hash limits k j j') : ScriptStep hash limits k j j'
  | charges (resident : Nat) : ScriptStep hash limits k j { j with resident }
  | starts (resident : Nat) (hook : Hook) (rest : List Hook) (state : Bytes) :
    ScriptStep hash limits k j (j.starting resident hook rest state)

/-- The job was restored from the acquired cell `c` and has come to `j`. -/
structure Executes (hash : Bytes → Bytes) (T : List Event) (host : HostId) (limits : RuntimeLimits) (k : EntityKey)
    (c : Cell StoredRecord) (j : Job) : Prop where
  past : ∃ (h : Host) (env : Ambient) (slot : Slot) (j₀ j₁ j₂ : Job), .acquired host k j₀ c ∈ T ∧
    j₀.replay = false ∧ Admitted h k env j₀ j₁ ∧ .host host (.checked k j₁ (h.policyOf j₁.request) env.live) ∈ T ∧
    Restored h slot j₁ j₂ ∧ Relation.ReflTransGen (ScriptStep hash limits k) j₂ j

/-- The job's commit was built from one that executed; `value` is the record it writes. -/
structure Commits (hash : Bytes → Bytes) (T : List Event) (host : HostId) (limits : RuntimeLimits) (k : EntityKey)
    (c : Cell StoredRecord) (value : StoredRecord) (j : Job) : Prop where
  past : ∃ (j₃ j₄ j₅ : Job) (result result' : Result) (now : Int), Executes hash T host limits k c j₃ ∧
    Settles j₃ result j₄ result' ∧ Built hash host limits k now j₄ result' j₅ value ∧
    (j₄.metadataOnly = false → ∃ policy live, .host host (.checked k j₄ policy live) ∈ T) ∧
    ∃ stage ownerLost status, j = { j₅ with phase := .committing stage value, ownerLost, status }

/-- The past of a job, by its phase. -/
def Lineage (hash : Bytes → Bytes) (T : List Event) (host : HostId) (limits : RuntimeLimits) (k : EntityKey) (j : Job) :
    Prop :=
  match j.phase with
  | .acquiring (.reading _) => Trying (history T) k j
  | .acquiring (.sourcing _ cell time) => cell ∈ history T k.id ∧ ∃ j₀ x, Trying (history T) k j₀ ∧
      Read host j₀ cell.value.val time x true ∧ j = j₀.loadedFrom cell.value.val x
  | .acquiring (.granting _ expected value) => ∃ c ∈ history T k.id, expected = c.version ∧ ∃ j₀ time x,
      Attempted (history T) host k j₀ c.value.val time x ∧
      value.val = c.value.val.leased host limits j₀.cachedFence time ∧
      ∃ stage, j = (j₀.loaded host c.value.val x).acquiring stage
  | .acquiring (.confirming value) => ∃ j₀ r time x, Attempted (history T) host k j₀ r time x ∧
      value.val = r.leased host limits j₀.cachedFence time ∧ ∃ stage, j = (j₀.loaded host r x).acquiring stage
  | .acquiring (.finished threw) => threw = false → j.status = .ok → ∃ c, .acquired host k j c ∈ T
  | .executing _ _ => j.metadataOnly = false ∧ ∃ c, Executes hash T host limits k c j
  | .committing _ value => ∃ c, Commits hash T host limits k c value j

/-! ## The past stays -/

section
variable {hash : Bytes → Bytes} {H H' : History} {host : HostId} {limits : RuntimeLimits} {k : EntityKey} {j : Job}
  {c : Cell StoredRecord}

theorem Replays.mono (hg : H.Grows H') (h : Replays H k j) : Replays H' k j := by
  rcases h with ht | ⟨c, hc, ha⟩ | ⟨c, hc, hr⟩
  · exact .inl ht
  · exact .inr (.inl ⟨c, hg _ c hc, ha⟩)
  · exact .inr (.inr ⟨c, hg _ c hc, hr⟩)

theorem Trying.mono (hg : H.Grows H') (h : Trying H k j) : Trying H' k j :=
  ⟨h.blank, fun hr => (h.replay hr).mono hg, h.timer⟩

theorem Sourced.mono {e : DeliveryEnvelope} (hg : H.Grows H') (h : Sourced H e) : Sourced H' e := by
  obtain ⟨c, hc, hp⟩ := h
  exact ⟨c, hg _ c hc, hp⟩

variable {r : EntityRecord} {time : Int} {x : Findings} {steps : List Hook} {state : Bytes} {h : Host} {env : Ambient}
  {turn : Turn}

theorem Attempted.mono (hg : H.Grows H') (h : Attempted H host k j r time x) : Attempted H' host k j r time x := by
  obtain ⟨c, hc, hr⟩ := h.record
  exact ⟨h.trying.mono hg, h.found, ⟨c, hg _ c hc, hr⟩, fun e he hx => (h.source e he hx).mono hg⟩

theorem Acquired.mono (hg : H.Grows H') (h : Acquired H host limits k c j) : Acquired H' host limits k c j := by
  obtain ⟨j₀, r, time, x, ha, hrest⟩ := h.loaded
  exact ⟨hg _ c h.mem, j₀, r, time, x, ha.mono hg, hrest⟩

variable {T T' : List Event}

theorem Executes.mono (hg : T ⊆ T') (h : Executes hash T host limits k c j) : Executes hash T' host limits k c j := by
  obtain ⟨h', env, slot, j₀, j₁, j₂, ha, hr, had, hchk, hrest⟩ := h.past
  exact ⟨h', env, slot, j₀, j₁, j₂, hg ha, hr, had, hg hchk, hrest⟩

theorem Commits.mono {value : StoredRecord} (hg : T ⊆ T') (h : Commits hash T host limits k c value j) :
    Commits hash T' host limits k c value j := by
  obtain ⟨j₃, j₄, j₅, result, result', now, he, hs, hb, hchk, hrest⟩ := h.past
  refine ⟨j₃, j₄, j₅, result, result', now, he.mono hg, hs, hb, fun hm => ?_, hrest⟩
  obtain ⟨policy, live, hmem⟩ := hchk hm
  exact ⟨policy, live, hg hmem⟩

theorem Lineage.mono (hg : T ⊆ T') (h : Lineage hash T host limits k j) : Lineage hash T' host limits k j := by
  have hH := history_grows hg
  unfold Lineage at h ⊢
  split at h
  · exact h.mono hH
  · obtain ⟨hc, j₀, x, ht, hrest⟩ := h
    exact ⟨hH _ _ hc, j₀, x, ht.mono hH, hrest⟩
  · obtain ⟨c, hc, he, j₀, time, x, ha, hrest⟩ := h
    exact ⟨c, hH _ c hc, he, j₀, time, x, ha.mono hH, hrest⟩
  · obtain ⟨j₀, r, time, x, ha, hrest⟩ := h
    exact ⟨j₀, r, time, x, ha.mono hH, hrest⟩
  · intro ht hs
    obtain ⟨c, hc⟩ := h ht hs
    exact ⟨c, hg hc⟩
  · obtain ⟨hm, c, hc⟩ := h
    exact ⟨hm, c, hc.mono hg⟩
  · obtain ⟨c, hc⟩ := h
    exact ⟨c, hc.mono hg⟩

/-! ## The steps of an acquisition -/

variable {w w' : World} {j' : Job} {news : List Event}

theorem Trying.acquiring (h : Trying H k j) (stage : AcquireStage) : Trying H k (j.acquiring stage) :=
  ⟨⟨h.blank.status, h.blank.ownerLost, h.blank.wrongNode, h.blank.attributes, h.blank.logicStarted,
    h.blank.deliveryResult, h.blank.timerDirty, h.blank.timerIndexEntry⟩, h.replay, h.timer⟩

theorem resident_receipts_mem {cachedFence : Nat} {receipt : EntityReceipt}
    (h : receipt ∈ (resident host cachedFence r).receipts) : receipt ∈ r.snapshot.receipts := by
  unfold resident at h
  split at h
  · cases h
  · exact h

/-- An answer an attempt has found stays an answer for the next attempts. -/
theorem Attempted.replays (h : Attempted H host k j r time x) (hx : x.replay = true) :
    Replays H k (j.loaded host r x) := by
  obtain ⟨c, hc, rfl⟩ := h.record
  rcases h.found.why hx with ⟨hr, ho⟩ | ht | hp | ⟨receipt, hrec, ho⟩
  · -- an earlier attempt's answer: the request is still the same, unless it is a timer's
    by_cases ht : j.request.timer = none
    · have hpay := (h.found.timerNone ht).2
      have hreq : (j.loaded host c.value.val x).request = j.request := by
        show { j.request with payload := x.payload } = j.request
        rw [hpay]
      rcases h.trying.replay hr with ht' | ⟨c', hc', ha⟩ | ⟨c', hc', receipt, hm, hrest⟩
      · exact .inl ht'
      · refine .inr (.inl ⟨c', hc', ?_⟩)
        rw [hreq, show (j.loaded host c.value.val x).output = x.output from rfl, ho]
        exact ha
      · refine .inr (.inr ⟨c', hc', receipt, hm, ?_⟩)
        rw [hreq, show (j.loaded host c.value.val x).output = x.output from rfl, ho]
        exact hrest
    · exact .inl (Option.isSome_iff_ne_none.2 ht)
  · exact .inl ht
  · obtain ⟨e, channel, answer, he⟩ := hp
    exact .inr (.inl ⟨c, hc, e, channel, answer, he⟩)
  · have hid : receipt.id = j.request.requestId := by simpa using find?_some hrec.found
    have hmem := resident_receipts_mem (mem_of_find?_eq_some hrec.found)
    exact .inr (.inr ⟨c, hc, receipt, hmem, hrec.keyed, hid, hrec.route, hrec.payload, ho⟩)

/-- After a lost race the job tries again. -/
theorem Attempted.again (h : Attempted H host k j r time x) (stage : AcquireStage) :
    Trying H k ((j.loaded host r x).acquiring stage) := by
  refine Trying.acquiring ⟨?_, h.replays, ?_⟩ stage
  · have hb := h.trying.blank
    exact ⟨hb.status, hb.ownerLost, hb.wrongNode, hb.attributes, hb.logicStarted, hb.deliveryResult, hb.timerDirty,
      hb.timerIndexEntry⟩
  · intro ht
    exact (h.found.timerNone ht).1.trans (h.trying.timer ht)

/-- The job has no record yet. -/
def Job.Searching (j : Job) : Prop := ∃ stage, j.phase = .acquiring stage ∧ (stage = .finished false → j.status ≠ .ok)

theorem Acquired.phase (h : Acquired H host limits k c j) : j.phase = .acquiring (.finished false) := by
  obtain ⟨_, r, _, x, -, rfl, -⟩ := h.loaded
  rfl

theorem Acquired.status (h : Acquired H host limits k c j) : j.status = .ok := by
  obtain ⟨_, r, _, x, ha, rfl, -⟩ := h.loaded
  exact ha.trying.blank.status

/-- Where an access of an acquisition leads: the job holds a version, which is an event, or it has none yet. -/
inductive Attains (hash : Bytes → Bytes) (T : List Event) (host : HostId) (limits : RuntimeLimits) (k : EntityKey)
    (j : Job) : List Event → Prop
  | acquired (c : Cell StoredRecord) (ha : Acquired (history T) host limits k c j) :
    Attains hash T host limits k j [.acquired host k j c]
  | searching (news : List Event) (hl : Lineage hash T host limits k j) (hs : j.Searching)
      (hn : ∀ e ∈ news, ∀ j' c, e ≠ .acquired host k j' c) : Attains hash T host limits k j news

theorem acquiredNews_searching (hs : j.Searching) (cell : Option (Cell StoredRecord)) :
    acquiredNews host k j cell = [] := by
  obtain ⟨stage, hp, hs⟩ := hs
  unfold acquiredNews
  split
  · rename_i hp' hs'
    cases hp.symm.trans hp'
    exact absurd hs' (hs rfl)
  · rfl

theorem attains_searching (hl : Lineage hash T host limits k j) (hs : j.Searching) (cell : Option (Cell StoredRecord)) :
    Attains hash T host limits k j (acquiredNews host k j cell) := by
  rw [acquiredNews_searching hs]
  exact .searching _ hl hs fun _ he => nomatch he

theorem attains_acquired (ha : Acquired (history T) host limits k c j) :
    Attains hash T host limits k j (acquiredNews host k j (some c)) := by
  unfold acquiredNews
  rw [ha.phase, ha.status]
  exact .acquired c ha

theorem attains_refused (x : Refusal) (hs : x.threw = false → x.job.status ≠ .ok) (cell : Option (Cell StoredRecord)) :
    Attains hash T host limits k (Job.refused x) (acquiredNews host k (Job.refused x) cell) := by
  have hl : Lineage hash T host limits k (Job.refused x) := fun ht hok => absurd hok (hs ht)
  exact attains_searching hl ⟨_, rfl, fun he => hs (AcquireStage.finished.inj he)⟩ cell

theorem attains_refuse {status : Status} (hs : status ≠ .ok) (cell : Option (Cell StoredRecord)) :
    Attains hash T host limits k (Job.refused (refuse j status))
      (acquiredNews host k (Job.refused (refuse j status)) cell) :=
  attains_refused _ (fun _ => hs) cell

/-- Where an attempt leads, the job's past goes with it. -/
theorem Leads.attains {attempt : Nat} {S : DeliveryEnvelope → Prop} (ht : Trying (history T) k j)
    (hc : c ∈ history T k.id) (hS : ∀ e, j.request.incoming = some e → S e → Sourced (history T) e)
    (h : Leads host limits attempt j c time S j') :
    Attains hash T host limits k j' (acquiredNews host k j' (some c)) := by
  cases h with
  | declined refusal hd => exact attains_refused refusal hd.status _
  | reused x hf hs howner =>
    exact attains_acquired ⟨hc, j, c.value.val, time, x,
      ⟨ht, hf, ⟨c, hc, rfl⟩, fun e he hx => hS e he (hs e he hx)⟩, rfl, .inl ⟨rfl, howner⟩⟩
  | granting x _ hf hs hvalue =>
    refine attains_searching ?_ ⟨_, rfl, by rintro ⟨⟩⟩ _
    exact ⟨c, hc, rfl, j, time, x, ⟨ht, hf, ⟨c, hc, rfl⟩, fun e he hx => hS e he (hs e he hx)⟩, hvalue, _, rfl⟩

theorem AcquireMove.attains (hcells : ∀ id, (w.entities id).cells = history T id)
    (hl : Lineage hash T host (w.hosts host).limits k j) (hm : AcquireMove hash w host k j j' news) :
    Attains hash T host (w.hosts host).limits k j' news := by
  have hget : ∀ {id cell}, (w.entities id).get = some cell → cell ∈ history T id := by
    intro id cell hg
    rw [← hcells]
    exact Register.mem_of_get hg
  unfold Lineage at hl
  cases hm with
  | fail => exact .searching _ nofun ⟨_, rfl, by rintro ⟨⟩⟩ fun _ he => nomatch he
  | read attempt time hp _ he =>
    subst he
    rw [hp] at hl
    rcases resumeRead_cases hash host (w.hosts host).limits attempt j (w.entities k.id).get time with
      ⟨-, he⟩ | ⟨cell, hcell, ⟨j₀, x, rfl, hread, he⟩ | hlead⟩
    · rw [he]
      exact attains_refuse (by decide) _
    · rw [he]
      refine attains_searching ?_ ⟨_, rfl, by rintro ⟨⟩⟩ _
      exact ⟨hget hcell, _, x, hl.acquiring _, hread, rfl⟩
    · rw [hcell]
      rw [hcell] at hlead
      exact hlead.attains hl (hget hcell) fun _ _ hf => hf.elim
  | source _ cell _ hp _ he =>
    subst he
    rw [hp] at hl
    obtain ⟨hcell, j₀, x, htry, hread, rfl⟩ := hl
    refine (resumeSource_leads hread _).attains htry hcell ?_
    -- the record that was read is the one of the delivery's source
    rintro e he ⟨c, hc, hpend⟩
    have hin : (j₀.loadedFrom cell.value.val x).request.incoming = some e := he
    rw [hin, Option.bind_some] at hc
    exact ⟨c, hget hc, hpend⟩
  | grant attempt expected value version swapped threw hp =>
    rw [hp] at hl
    obtain ⟨c, _, -, j₀, time, x, ha, hvalue, stage, rfl⟩ := hl
    have hn : ∀ e ∈ swapNews (fun old => Event.granted host k ((j₀.loaded host c.value.val x).acquiring stage) old
        ⟨version, value⟩) (w.entities k.id).get swapped, ∀ j' c, e ≠ .acquired host k j' c := by
      intro e he j' c
      obtain ⟨_, rfl⟩ := swapNews_mem he
      exact nofun
    cases threw with
    | true => exact .searching _ nofun ⟨_, rfl, by rintro ⟨⟩⟩ hn
    | false =>
      rw [if_neg (by decide)]
      rcases resumeGrant_cases ((j₀.loaded host c.value.val x).acquiring stage) attempt value swapped with
        ⟨-, he⟩ | ⟨-, he | he⟩
      · rw [he]
        exact .searching _ ⟨j₀, _, time, x, ha, hvalue, _, rfl⟩ ⟨_, rfl, by rintro ⟨⟩⟩ hn
      · rw [he]
        exact .searching _ (show Trying _ _ _ from ha.again _) ⟨_, rfl, by rintro ⟨⟩⟩ hn
      · rw [he]
        exact .searching _ (fun _ hok => nomatch hok) ⟨_, rfl, by rintro -⟨⟩⟩ hn
  | confirm value hp _ he =>
    subst he
    rw [hp] at hl
    obtain ⟨j₀, r, time, x, ha, hvalue, stage, rfl⟩ := hl
    rcases resumeConfirm_cases ((j₀.loaded host r x).acquiring stage) value (w.entities k.id).get with
      ⟨_, hcell, rfl, he⟩ | he
    · rw [he, hcell]
      exact attains_acquired ⟨hget hcell, j₀, r, time, x, ha, rfl, .inr hvalue⟩
    · rw [he]
      exact attains_refuse (by decide) _

theorem Attains.acquiring (h : Attains hash T host limits k j news) : ∃ stage, j.phase = .acquiring stage := by
  cases h with
  | acquired _ ha => exact ⟨_, ha.phase⟩
  | searching _ _ hs =>
    obtain ⟨stage, hp, -⟩ := hs
    exact ⟨stage, hp⟩

theorem Attains.lineage (h : Attains hash T host limits k j news) : Lineage hash (news ++ T) host limits k j := by
  cases h with
  | acquired c ha =>
    unfold Lineage
    rw [ha.phase]
    exact fun _ _ => ⟨c, mem_cons_self⟩
  | searching _ hl => exact hl.mono (subset_append_right _ _)

/-! ## The steps of an execution -/

/-- The job is still the one that was restored, as far as its acquisition goes. -/
theorem Executes.of_step (h : Executes hash T host limits k c j) (hs : ScriptStep hash limits k j j') :
    Executes hash T host limits k c j' := by
  obtain ⟨h', env, slot, j₀, j₁, j₂, ha, hr, had, hchk, hres, hpath⟩ := h.past
  exact ⟨h', env, slot, j₀, j₁, j₂, ha, hr, had, hchk, hres, hpath.tail hs⟩

theorem Amends.metadataOnly (h : Amends hash limits k j j') : j'.metadataOnly = j.metadataOnly := by
  cases h with
  | schedule _ _ hs => rw [hs.same]
  | cancel | forget | send => rfl

theorem Amends.phase (h : Amends hash limits k j j') : j'.phase = j.phase := by
  cases h with
  | schedule _ _ hs => rw [hs.same]
  | cancel | forget | send => rfl

theorem lineage_executing (hp : j.phase = .executing steps state) :
    Lineage hash T host limits k j ↔ j.metadataOnly = false ∧ ∃ c, Executes hash T host limits k c j := by
  unfold Lineage
  rw [hp]

theorem lineage_amends (hp : j.phase = .executing steps state)
    (hl : Lineage hash T host limits k j) (ha : Amends hash limits k j j') : Lineage hash T host limits k j' := by
  rw [lineage_executing hp] at hl
  rw [lineage_executing (ha.phase.trans hp)]
  obtain ⟨hm, c, hc⟩ := hl
  exact ⟨ha.metadataOnly.trans hm, c, hc.of_step (.amends j' ha)⟩

theorem lineage_starting (hm : j.metadataOnly = false) (hc : Executes hash T host limits k c j) (resident : Nat)
    (hook : Hook) (rest : List Hook) (state : Bytes) :
    Lineage hash T host limits k (j.starting resident hook rest state) := by
  rw [lineage_executing rfl]
  exact ⟨hm, c, hc.of_step (.starts resident hook rest state)⟩

/-- A job whose script has ended is gone, or commits. The events of the turn are in the trace. -/
theorem Concludes.lineage {result : Result} (hh : h.limits = limits)
    (hev : ∀ e ∈ turn.events, Event.host host e ∈ T) (hc : Executes hash T host limits k c j)
    (ht : Concludes hash host h k env j result turn) :
    ∀ j', turn.host.active k = some j' → Lineage hash T host limits k j' := by
  subst hh
  intro j' hj'
  obtain ⟨j₁, r₁, value, hs, hb, hchk⟩ := ht.commit hj'
  have hchecked : j₁.metadataOnly = false → ∃ policy live, Event.host host (.checked k j₁ policy live) ∈ T := by
    intro hm
    rcases hchk with ⟨hm', -⟩ | ⟨-, -, heq⟩
    · cases hm.symm.trans hm'
    · exact ⟨_, _, hev _ (heq ▸ mem_cons_self)⟩
  unfold Lineage
  rw [show j'.phase = .committing .submitted value by rw [hb.same]]
  refine ⟨c, j, j₁, j', result, r₁, env.now, hc, hs, hb, hchecked, .submitted, j'.ownerLost, j'.status, ?_⟩
  rw [hb.same]

theorem lineage_acquired (hp : j.phase = .acquiring (.finished false)) (hs : j.status = .ok)
    (hl : Lineage hash T host limits k j) : ∃ c, .acquired host k j c ∈ T := by
  unfold Lineage at hl
  rw [hp] at hl
  exact hl rfl hs

theorem lineage_committing {stage : CommitStage} {value : StoredRecord} (hp : j.phase = .committing stage value)
    (hl : Lineage hash T host limits k j) : ∃ c, Commits hash T host limits k c value j := by
  unfold Lineage at hl
  rw [hp] at hl
  exact hl

theorem lineage_run (hh : h.limits = limits)
    (hp : j.phase = .acquiring (.finished false)) (hs : j.status = .ok) (hl : Lineage hash T host limits k j)
    (hr : Runs hash host h k env j turn) (hev : ∀ e ∈ turn.events, Event.host host e ∈ T) :
    ∀ j', turn.host.active k = some j' → Lineage hash T host limits k j' := by
  obtain ⟨c, hacq⟩ := lineage_acquired hp hs hl
  -- a job that goes on to script logic or to its commit was restored from the acquired cell
  have hexec : ∀ j₁ j₂ slot, j.replay = false → Admitted h k env j j₁ →
      Event.host host (.checked k j₁ (h.policyOf j₁.request) env.live) ∈ T → Restored h slot j₁ j₂ →
      Executes hash T host limits k c j₂ :=
    fun j₁ j₂ slot hrep had hchk hres => ⟨h, env, slot, j, j₁, j₂, hacq, hrep, had, hchk, hres, .refl⟩
  intro j' hj'
  cases hr with
  | refused c' j₁ r | failed c' _ j₁ r | replayed c' j₁ =>
    rw [Host.complete_active] at hj'
    cases hj'
  | concludes j₁ j₂ slot _ had hrep _ hres _ _ _ hc =>
    have hex := hexec j₁ j₂ slot hrep had (hev _ mem_cons_self) hres
    exact hc.lineage hh (fun e he => hev e (mem_cons_of_mem _ he)) hex j' hj'
  | starts _ j₁ j₂ slot had hrep _ hres hm resident hook rest =>
    have hj : j₂.starting resident hook rest j₂.state = j' := by simpa [Host.setJob] using hj'
    rw [← hj]
    exact lineage_starting hm (hexec j₁ j₂ slot hrep had (hev _ mem_cons_self) hres) _ _ _ _

theorem lineage_answer {result : Result}
    (hh : h.limits = limits) (hp : j.phase = .executing steps state) (hl : Lineage hash T host limits k j)
    (ha : Answers hash host h k env j result turn) (hev : ∀ e ∈ turn.events, Event.host host e ∈ T) :
    ∀ j', turn.host.active k = some j' → Lineage hash T host limits k j' := by
  rw [lineage_executing hp] at hl
  obtain ⟨hm, c, hc⟩ := hl
  intro j' hj'
  cases ha with
  | concludes resident _ _ hcon => exact hcon.lineage hh hev (hc.of_step (.charges resident)) j' hj'
  | starts _ resident _ hook rest _ next =>
    have hj : j.starting resident hook rest next = j' := by simpa [Host.setJob] using hj'
    rw [← hj]
    exact lineage_starting hm hc _ _ _ _

/-! ## The steps of a commit -/

theorem not_acquiring {phase : Phase} (hp : j.phase = phase) (hne : ∀ stage, phase ≠ .acquiring stage)
    (stage : AcquireStage) : j.phase ≠ .acquiring stage := hp ▸ hne stage

/-- The job of a commit changes its stage only, or loses the record. -/
def CommitStep (j : Job) (value : StoredRecord) (j' : Job) : Prop :=
  ∃ stage ownerLost status, j' = { j with phase := .committing stage value, ownerLost, status }

/-- The job of a commit loses its record, goes on, or has written it. -/
theorem CommitMove.advance (hm : CommitMove w w' host k j j' news) :
    ∃ stage value, j.phase = .committing stage value ∧
      (j' = j.loseOwner value ∨ (∃ next, j' = j.commitStage value next ∧ next ≠ .finished false) ∨
        (stage = .writing ∧ (w.entities k.id).version = j.version ∧ j' = j.commitStage value (.finished false) ∧
          ∃ version, news = swapNews (fun old => .committed host k j old ⟨version, value⟩)
            (w.entities k.id).get true)) := by
  cases hm with
  | submit value _ hp =>
    refine ⟨_, value, hp, ?_⟩
    unfold Job.resumeSubmitted
    split
    · exact .inl rfl
    repeat' split
    all_goals exact .inr (.inl ⟨_, rfl, nofun⟩)
  | armFail value _ _ _ hp => exact ⟨_, value, hp, .inr (.inl ⟨_, rfl, nofun⟩)⟩
  | armRecord value _ _ hp =>
    refine ⟨_, value, hp, .inr (.inl ?_)⟩
    unfold Job.resumeArmRecord
    split <;> exact ⟨_, rfl, nofun⟩
  | armBucket value _ _ hp =>
    refine ⟨_, value, hp, .inr (.inl ?_)⟩
    unfold Job.resumeArmBucket
    split <;> exact ⟨_, rfl, nofun⟩
  | armWrite value _ _ _ _ _ hp =>
    refine ⟨_, value, hp, .inr (.inl ?_)⟩
    unfold Job.resumeArmWrite
    repeat' split
    all_goals exact ⟨_, rfl, nofun⟩
  | late value hp => exact ⟨_, value, hp, .inl rfl⟩
  | write value version swapped threw hp hv =>
    refine ⟨_, value, hp, ?_⟩
    cases threw with
    | true => exact .inr (.inl ⟨_, rfl, nofun⟩)
    | false =>
      cases swapped with
      | false => exact .inl rfl
      | true => exact .inr (.inr ⟨rfl, hv rfl, rfl, version, rfl⟩)

theorem CommitMove.step (hm : CommitMove w w' host k j j' news) :
    ∃ stage value, j.phase = .committing stage value ∧ CommitStep j value j' := by
  obtain ⟨stage, value, hp, rfl | ⟨_, rfl, -⟩ | ⟨-, -, rfl, -⟩⟩ := hm.advance
  all_goals exact ⟨stage, value, hp, _, _, _, rfl⟩

theorem CommitMove.lineage (hl : Lineage hash T host limits k j) (hm : CommitMove w w' host k j j' news) :
    Lineage hash T host limits k j' := by
  obtain ⟨_, _, hp, stage', lost, status, rfl⟩ := hm.step
  obtain ⟨c, j₃, j₄, j₅, result, result', now, he, hs, hb, hchk, -, -, -, rfl⟩ := lineage_committing hp hl
  exact ⟨c, j₃, j₄, j₅, result, result', now, he, hs, hb, hchk, stage', lost, status, rfl⟩

/-! ## Every job in flight has its lineage -/

theorem blank_newJob (h : Host) (slot : Slot) (request : Request) : Blank (h.newJob slot request) :=
  ⟨rfl, rfl, rfl, rfl, rfl, rfl, rfl, rfl⟩

theorem mem_turn_news {e : HostEvent} (he : e ∈ turn.events) : Event.host host e ∈ turn.news host :=
  mem_reverse.2 (mem_map_of_mem he)

theorem JobMove.lineage {o o' : Option Job} (hcells : ∀ id, (w.entities id).cells = history T id)
    (hl : ∀ j, o = some j → Lineage hash T host (w.hosts host).limits k j)
    (hm : JobMove hash w w' host k o o' news) :
    ∀ j', o' = some j' → Lineage hash (news ++ T) host (w.hosts host).limits k j' := by
  have hsub : T ⊆ news ++ T := subset_append_right _ _
  have hev : ∀ turn : Turn, news = turn.news host → ∀ e ∈ turn.events, Event.host host e ∈ news ++ T :=
    fun turn hn e he => mem_append_left _ (hn ▸ mem_turn_news he)
  intro j' hj'
  cases hm with
  | same => exact (hl j' hj').mono hsub
  | stop | threw | refuse | timeOut | finish => cases hj'
  | begin =>
    cases hj'
    exact ⟨blank_newJob _ _ _, by rintro ⟨⟩, fun _ => rfl⟩
  | acquire j _ _ hm =>
    cases hj'
    exact (hm.attains hcells (hl j rfl)).lineage
  | commit j _ _ hm =>
    cases hj'
    exact (hm.lineage (hl j rfl)).mono hsub
  | run j _ turn hp hs hr =>
    exact lineage_run (learnOwner_slotOnly _ _ j).elsewhere.limits hp hs ((hl j rfl).mono hsub) hr (hev turn rfl) j' hj'
  | answer j _ _ _ _ turn hp ha =>
    exact lineage_answer rfl hp ((hl j rfl).mono hsub) ha (hev turn rfl) j' hj'
  | schedule j _ _ _ timer hp hs =>
    cases hj'
    exact (lineage_amends hp (hl j rfl) (.schedule timer j' hs)).mono hsub
  | amend j _ _ _ hp ha =>
    cases hj'
    exact (lineage_amends hp (hl j rfl) ha).mono hsub

end

end Fsnet
