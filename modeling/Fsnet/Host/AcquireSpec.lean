import Fsnet.Host.Acquire
/-!
# What an acquisition establishes

One lemma for each part of an attempt says how the job it returns differs from
the job it was given, and what the checks it passed have established about the
record.
-/

namespace Fsnet

open Lib

variable {hash : Bytes → Bytes} {host : HostId} {limits : RuntimeLimits} {job job' : Job}
    {r : EntityRecord} {time : Int}

/-! ## The checks -/

/-- What the checks of the metadata and the placement leave true. -/
structure Admits (host : HostId) (request : Request) (r : EntityRecord) : Prop where
  alive : r.metadata.destroyed = false
  type : r.metadata.type = request.route.type
  newOwner : request.newOwner.isSome = true → r.initialized = true
  timer : request.timer.isSome = true → r.metadata.rebuildable = false ∧ r.initialized = true
  placement : r.placement ≠ [] → entityNodeMatches host.owner r.placement = true
  accept : request.acceptTransfer ≠ 0 → r.transferId = request.acceptTransfer ∧ r.placement ≠ []

theorem checkMetadata_ok (h : checkMetadata job r = .ok job') :
    job' = { job with metadata := some r.metadata } ∧ r.metadata.destroyed = false ∧
      r.metadata.type = job.request.route.type ∧
      (job.request.newOwner.isSome = true → r.initialized = true) ∧
      (job.request.timer.isSome = true → r.metadata.rebuildable = false ∧ r.initialized = true) := by
  unfold checkMetadata at h
  simp only [bind_eq_ok, refuseIf_eq_ok] at h
  obtain ⟨_, hd, _, ht, _, -, _, hn, _, htm, _, -, h⟩ := h
  refine ⟨(Except.ok.inj h).symm, by simpa using hd, by simpa using ht, ?_, ?_⟩
  · intro hs
    simpa [hs] using hn
  · intro hs
    simpa [hs] using htm

theorem checkPlacement_ok (h : checkPlacement host job r = .ok job') :
    job' = { job with placement := r.placement, transferId := r.transferId, created := !r.initialized } ∧
      (r.placement ≠ [] → entityNodeMatches host.owner r.placement = true) ∧
      (job.request.acceptTransfer ≠ 0 → r.transferId = job.request.acceptTransfer ∧ r.placement ≠ []) := by
  unfold checkPlacement at h
  simp only [bind_eq_ok, refuseIf_eq_ok] at h
  obtain ⟨_, hp, _, ha, h⟩ := h
  refine ⟨(Except.ok.inj h).symm, ?_, ?_⟩
  · intro hne
    simpa [hne] using hp
  · intro hne
    simpa [hne, not_or] using ha

@[simp] theorem resident_delivery (host : HostId) (cachedFence : Nat) (r : EntityRecord) :
    (resident host cachedFence r).delivery = r.snapshot.delivery := by
  unfold resident
  split <;> rfl

@[simp] theorem resident_timers (host : HostId) (cachedFence : Nat) (r : EntityRecord) :
    (resident host cachedFence r).timers = r.snapshot.timers := by
  unfold resident
  split <;> rfl

/-! ## Timers -/

/-- The fire request names an occurrence that is in the timers and due. -/
def Fires (request : Request) (timers : EntityTimerState) (time : Int) (event : EntityTimerEvent) : Prop :=
  ∃ fire, request.timer = some fire ∧ timers.entries.find fire.key = some event.timer ∧
    event.timer.generation = fire.generation ∧ event.timer.due = fire.due ∧ fire.due ≤ time ∧ event.fired = time

/-- A fire request is replayed without effect, or names a due occurrence and carries it as payload. -/
theorem loadTimer_ok (h : loadTimer job time = .ok job') :
    (job.request.timer = none ∧ job' = job) ∨
      (job.request.timer.isSome = true ∧ job' = { job with replay := true, metadataOnly := true }) ∨
      (∃ event payload, Fires job.request job.timers time event ∧ encodeTimerEvent event = .ok payload ∧
        job' = { job with timerEvent := some event, request := { job.request with payload } }) := by
  unfold loadTimer at h
  split at h
  · rename_i hn
    exact .inl ⟨hn, (Except.ok.inj h).symm⟩
  rename_i fire hf
  right
  split at h
  · exact .inl ⟨by rw [hf]; rfl, (Except.ok.inj h).symm⟩
  rename_i timer ht
  split at h
  · exact .inl ⟨by rw [hf]; rfl, (Except.ok.inj h).symm⟩
  rename_i hmatch
  simp only [not_or, not_not, not_lt] at hmatch
  right
  dsimp only at h
  split at h
  · cases h
  · rename_i payload hp
    exact ⟨⟨timer, time⟩, payload, ⟨fire, hf, ht, hmatch.1, hmatch.2.1, hmatch.2.2, rfl⟩, hp,
      (Except.ok.inj h).symm⟩

/-! ## Deliveries -/

/-- The sequence a channel takes next. -/
def nextSequence (delivery : EntityDeliveryState) (channel : Bytes) : UInt64 :=
  ((delivery.inbox.find channel).map fun c => c.sequence + 1).getD 1

/-- A delivery whose sequence the inbox has passed, and the answer it is given. -/
structure Passed (delivery : EntityDeliveryState) (channel : Bytes) (e : DeliveryEnvelope)
    (answer : Result) : Prop where
  cursor : ∃ found, delivery.inbox.find channel = some found ∧
    ((e.message.sequence = found.sequence ∧ answer = found.result) ∨
      (e.message.sequence < found.sequence ∧ answer = ⟨.ok, []⟩))

/-- What the inbox says about a delivery that is let through to its record. -/
structure Arrives (delivery : EntityDeliveryState) (initialized : Bool) (e : DeliveryEnvelope)
    (channel : Bytes) : Prop where
  initialized : initialized = true
  epoch : delivery.epoch = e.message.targetEpoch
  channel : deliveryChannel e.sourceType e.sourceId e.sourceEpoch = .ok channel

theorem replayResult_ok {e : DeliveryEnvelope} {found : DeliveryCursor} {answer : Result}
    (hle : e.message.sequence ≤ found.sequence) (h : replayResult hash job e found = .ok answer) :
    (e.message.sequence = found.sequence ∧ answer = found.result) ∨
      (e.message.sequence < found.sequence ∧ answer = ⟨.ok, []⟩) := by
  unfold replayResult at h
  split at h
  · rename_i heq
    left
    split at h
    · cases h
    · simp only [bind_eq_ok, refuseIf_eq_ok] at h
      obtain ⟨_, _, h⟩ := h
      exact ⟨heq, (Except.ok.inj h).symm⟩
  · rename_i hne
    right
    refine ⟨?_, (Except.ok.inj h).symm⟩
    rw [UInt64.lt_iff_toNat_lt]
    rw [UInt64.le_iff_toNat_le] at hle
    have : e.message.sequence.toNat ≠ found.sequence.toNat := fun h => hne (UInt64.toNat_inj.1 h)
    omega

variable {needs : Bool} {x : Findings} {cell : Cell StoredRecord}

theorem loadIncoming_ok (h : loadIncoming hash limits job r = .ok (job', needs)) :
    (job.request.incoming = none ∧ needs = false ∧ job' = job) ∨
      ∃ e channel, job.request.incoming = some e ∧ Arrives job.delivery r.initialized e channel ∧
        ((needs = false ∧ ∃ answer output, Passed job.delivery channel e answer ∧
            encodeDeliveryAck e.message.ticket answer = .ok output ∧
            job' = { job with replay := true, metadataOnly := true, output }) ∨
          (needs = true ∧ e.message.sequence = nextSequence job.delivery channel ∧ job' = job)) := by
  unfold loadIncoming at h
  split at h
  · rename_i hn
    cases h
    exact .inl ⟨hn, rfl, rfl⟩
  rename_i e he
  right
  simp only [bind_eq_ok, refuseIf_eq_ok, not_or, Bool.not_eq_false, not_not] at h
  obtain ⟨_, ⟨hinit, hepoch⟩, h⟩ := h
  split at h
  · cases h
  rename_i channel hch
  refine ⟨e, channel, he, ⟨hinit, by simpa using hepoch, hch⟩, ?_⟩
  split at h
  · rename_i found hf
    split at h
    · rename_i hle
      left
      simp only [bind_eq_ok] at h
      obtain ⟨answer, ha, h⟩ := h
      split at h
      · cases h
      · rename_i output ho
        cases h
        exact ⟨rfl, answer, output, ⟨found, hf, replayResult_ok hle ha⟩, ho, rfl⟩
    · right
      simp only [bind_eq_ok, refuseIf_eq_ok, not_not] at h
      obtain ⟨_, hs, h⟩ := h
      cases h
      refine ⟨rfl, ?_, rfl⟩
      rw [nextSequence, hf]
      simpa using hs
  · rename_i hf
    right
    simp only [bind_eq_ok, refuseIf_eq_ok, not_or, not_not] at h
    obtain ⟨_, ⟨hs, _⟩, h⟩ := h
    cases h
    refine ⟨rfl, ?_, rfl⟩
    rw [nextSequence, hf]
    simpa using hs

/-! ## The first part of an attempt -/

/-- What an attempt finds out for the request: the parts of a loaded job that
are not simply copied from the record. -/
structure Findings where
  delivery : EntityDeliveryState
  metadataOnly : Bool
  replay : Bool
  timerEvent : Option EntityTimerEvent
  output : Bytes
  payload : Bytes

/-- A request that changes protocol state only. -/
def Request.protocolOnly (request : Request) : Bool :=
  request.ack.isSome || request.deliveryError.isSome || request.newOwner.isSome

/-- A job after it was loaded from a record, up to the state and the receipts. -/
def Job.loadedFrom (job : Job) (r : EntityRecord) (x : Findings) : Job :=
  { job with
    metadata := some r.metadata, placement := r.placement, transferId := r.transferId, created := !r.initialized
    delivery := x.delivery, timers := r.snapshot.timers, metadataOnly := x.metadataOnly, replay := x.replay
    timerEvent := x.timerEvent, output := x.output, request := { job.request with payload := x.payload } }

/-- The findings before the request is looked at. -/
def Job.unread (job : Job) (r : EntityRecord) : Findings :=
  ⟨r.snapshot.delivery, job.request.protocolOnly, job.replay, job.timerEvent, job.output, job.request.payload⟩

/-- The findings after the timers were looked at. -/
structure TimerFound (request : Request) (timers : EntityTimerState) (time : Int) (x y : Findings) : Prop where
  delivery : y.delivery = x.delivery
  output : y.output = x.output
  why : y.replay = true → x.replay = true ∨ request.timer.isSome = true
  scope : y.replay = false → y.metadataOnly = x.metadataOnly
  none : request.timer = none → y.timerEvent = x.timerEvent ∧ y.payload = x.payload
  fires : request.timer.isSome = true → y.replay = false →
    ∃ event, y.timerEvent = some event ∧ Fires request timers time event

theorem loadTimer_found (h : loadTimer (job.loadedFrom r x) time = .ok job') :
    ∃ y, job' = job.loadedFrom r y ∧ TimerFound job.request r.snapshot.timers time x y := by
  rcases loadTimer_ok h with ⟨hn, rfl⟩ | ⟨hs, rfl⟩ | ⟨event, payload, hf, -, rfl⟩
  · have hn' : job.request.timer = none := hn
    refine ⟨x, rfl, rfl, rfl, .inl, fun _ => rfl, fun _ => ⟨rfl, rfl⟩, ?_⟩
    rw [hn']
    rintro ⟨⟩
  · have hs' : job.request.timer.isSome = true := hs
    refine ⟨{ x with replay := true, metadataOnly := true }, rfl, rfl, rfl, fun _ => .inr hs', ?_, ?_, ?_⟩
    · rintro ⟨⟩
    · intro hnone
      rw [hnone] at hs'
      cases hs'
    · rintro - ⟨⟩
  · obtain ⟨fire, hfire, hrest⟩ := hf
    have hfire' : job.request.timer = some fire := hfire
    refine ⟨{ x with timerEvent := some event, payload }, rfl, rfl, rfl, .inl, fun _ => rfl, ?_, ?_⟩
    · intro hnone
      rw [hnone] at hfire'
      cases hfire'
    · exact fun _ _ => ⟨event, rfl, fire, hfire', hrest⟩

/-- The inbox of `r` has passed the request's delivery, and `output` answers it. -/
def AnswersPassed (request : Request) (r : EntityRecord) (output : Bytes) : Prop :=
  ∃ e channel answer, request.incoming = some e ∧ Arrives r.snapshot.delivery r.initialized e channel ∧
    Passed r.snapshot.delivery channel e answer ∧ encodeDeliveryAck e.message.ticket answer = .ok output

/-- What the findings say of the record: it takes the request, and a job that is
no replay fires a timer or receives a delivery that is due. -/
structure Finds (host : HostId) (job : Job) (r : EntityRecord) (time : Int) (x : Findings) : Prop where
  admits : Admits host job.request r
  scope : x.replay = false → x.metadataOnly = job.request.protocolOnly
  timerNone : job.request.timer = none → x.timerEvent = job.timerEvent ∧ x.payload = job.request.payload
  fires : job.request.timer.isSome = true → x.replay = false →
    ∃ event, x.timerEvent = some event ∧ Fires job.request r.snapshot.timers time event
  arrives : ∀ e, job.request.incoming = some e → x.replay = false → ∃ channel,
    Arrives r.snapshot.delivery r.initialized e channel ∧ e.message.sequence = nextSequence r.snapshot.delivery channel

/-- The findings when the first part of an attempt ends; `needs` is the answer
that the source of the delivery still has to be read. -/
structure Read (host : HostId) (job : Job) (r : EntityRecord) (time : Int) (x : Findings)
    (needs : Bool) : Prop extends Finds host job r time x where
  delivery : x.delivery = r.snapshot.delivery
  why : x.replay = true →
    (job.replay = true ∧ x.output = job.output) ∨ job.request.timer.isSome = true ∨ AnswersPassed job.request r x.output
  sourced : job.request.incoming.isSome = true → x.replay = false → needs = true

theorem loadRecord_ok (h : loadRecord hash host limits job r time = .ok (job', needs)) :
    ∃ x, job' = job.loadedFrom r x ∧ Read host job r time x needs := by
  unfold loadRecord at h
  simp only [bind_eq_ok] at h
  obtain ⟨_, h1, _, h2, _, -, _, -, j5, h5, h6⟩ := h
  obtain ⟨rfl, hd, ht, hn, htm⟩ := checkMetadata_ok h1
  obtain ⟨rfl, hp, ha⟩ := checkPlacement_ok h2
  have hadmits : Admits host job.request r := ⟨hd, ht, hn, htm, hp, ha⟩
  simp only [resident_delivery, resident_timers] at h5
  obtain ⟨y, rfl, hy⟩ : ∃ y, j5 = job.loadedFrom r y ∧ TimerFound job.request r.snapshot.timers time (job.unread r) y :=
    loadTimer_found h5
  have hdelivery : y.delivery = r.snapshot.delivery := hy.delivery
  have hwhy : y.replay = true → (job.replay = true ∧ y.output = job.output) ∨ job.request.timer.isSome = true ∨
      AnswersPassed job.request r y.output :=
    fun hreplay => (hy.why hreplay).elim (fun hj => .inl ⟨hj, hy.output⟩) fun hs => .inr (.inl hs)
  rcases loadIncoming_ok h6 with ⟨hin, rfl, rfl⟩ | ⟨e, channel, hin, harr, hcase⟩
  · have hin' : job.request.incoming = none := hin
    refine ⟨y, rfl, ⟨hadmits, hy.scope, hy.none, hy.fires, fun e he' => ?_⟩, hdelivery, hwhy, fun he' => ?_⟩
    all_goals
      rw [hin'] at he'
      cases he'
  have hin' : job.request.incoming = some e := hin
  have harr' : Arrives r.snapshot.delivery r.initialized e channel := hdelivery ▸ harr
  rcases hcase with ⟨rfl, answer, output, hpass, hout, rfl⟩ | ⟨rfl, hseq, rfl⟩
  · have hpass' : Passed r.snapshot.delivery channel e answer := hdelivery ▸ hpass
    refine ⟨{ y with replay := true, metadataOnly := true, output }, rfl, ⟨hadmits, ?_, hy.none, ?_, ?_⟩, hdelivery,
      fun _ => .inr (.inr ⟨e, channel, answer, hin', harr', hpass', hout⟩), ?_⟩
    · rintro ⟨⟩
    · rintro - ⟨⟩
    · rintro _ - ⟨⟩
    · rintro - ⟨⟩
  · refine ⟨y, rfl, ⟨hadmits, hy.scope, hy.none, hy.fires, fun _ he' _ => ?_⟩, hdelivery, hwhy, fun _ _ => rfl⟩
    obtain rfl := Option.some.inj (hin'.symm.trans he')
    exact ⟨channel, harr', hdelivery ▸ hseq⟩

/-! ## The source of a delivery -/

/-- The message is pending in the outbox, with the very contents of the envelope. -/
structure PendingIn (r : EntityRecord) (e : DeliveryEnvelope) : Prop where
  initialized : r.initialized = true
  epoch : r.snapshot.delivery.epoch = e.sourceEpoch
  mem : e.message ∈ r.snapshot.delivery.outbox
  pending : e.message.done = false

theorem pendingAtSource_iff {e : DeliveryEnvelope} {bytes : Bytes} (hb : encodeDelivery e = .ok bytes)
    (h : pendingAtSource e r bytes = true) : PendingIn r e := by
  simp only [pendingAtSource, Bool.and_eq_true, decide_eq_true_eq, List.any_eq_true, Bool.not_eq_true'] at h
  obtain ⟨⟨hi, he⟩, m, hm, ⟨hd, -⟩, henc⟩ := h
  -- the comparison is of encodings, and those determine the message
  have hsame : { e with message := m } = e := encodeDelivery_inj henc hb
  have hmsg : m = e.message := congrArg DeliveryEnvelope.message hsame
  exact ⟨hi, he, hmsg ▸ hm, hmsg ▸ hd⟩

theorem checkSource_ok {stored : Option (Cell StoredRecord)} (h : checkSource job stored = .ok job') :
    job' = job ∧ ∀ e, job.request.incoming = some e → ∃ cell, stored = some cell ∧ PendingIn cell.value.val e := by
  unfold checkSource at h
  split at h
  · rename_i hn
    refine ⟨(Except.ok.inj h).symm, fun e he => ?_⟩
    rw [hn] at he
    cases he
  rename_i he
  split at h
  · cases h
  rename_i cell
  split at h
  · cases h
  rename_i hb
  simp only [bind_eq_ok, refuseIf_eq_ok, Bool.not_eq_false] at h
  obtain ⟨_, hp, h⟩ := h
  refine ⟨(Except.ok.inj h).symm, fun _ he' => ?_⟩
  obtain rfl := Option.some.inj (he.symm.trans he')
  exact ⟨cell, rfl, pendingAtSource_iff hb hp⟩

/-! ## The second part of an attempt -/

/-- The delivery state after an acknowledgement was taken in. -/
def Acknowledges (ack : Option DeliveryAck) (d d' : EntityDeliveryState) : Prop :=
  match ack with
  | none => d' = d
  | some ack => d.epoch = ack.epoch ∧ ∃ outbox, acknowledgeOutbox ack.ticket ack.result d.outbox = some outbox ∧
      d' = { d with outbox }

theorem loadAck_ok (h : loadAck (job.loadedFrom r x) = .ok job') :
    ∃ d, job' = job.loadedFrom r { x with delivery := d } ∧ Acknowledges job.request.ack x.delivery d := by
  unfold loadAck at h
  split at h
  · rename_i hn
    have hn' : job.request.ack = none := hn
    exact ⟨x.delivery, (Except.ok.inj h).symm, by rw [hn']; rfl⟩
  rename_i ack ha
  have ha' : job.request.ack = some ack := ha
  simp only [bind_eq_ok, refuseIf_eq_ok] at h
  obtain ⟨_, he, h⟩ := h
  split at h
  · cases h
  rename_i outbox ho
  refine ⟨{ x.delivery with outbox }, (Except.ok.inj h).symm, ?_⟩
  rw [ha']
  exact ⟨not_not.1 he, outbox, ho, rfl⟩

/-- A job that has taken over the state and the receipts of a snapshot. -/
def Job.holding (job : Job) (snapshot : EntitySnapshot) (previouslyOwned : Bool) (previousFence : Nat) : Job :=
  { job with state := snapshot.state, receipts := snapshot.receipts, previouslyOwned, previousFence }

/-- The receipts hold a response for the very request. -/
structure Recorded (request : Request) (receipts : List EntityReceipt) (receipt : EntityReceipt) : Prop where
  keyed : request.requestId ≠ []
  found : receipts.find? (fun receipt => receipt.id = request.requestId) = some receipt
  route : receipt.route = request.route.text
  payload : receipt.request = request.payload

theorem loadReceipt_ok (h : loadReceipt job = .ok job') :
    (job' = job ∧ (job.request.requestId ≠ [] → ∀ receipt ∈ job.receipts, receipt.id ≠ job.request.requestId)) ∨
      ∃ receipt, Recorded job.request job.receipts receipt ∧
        job' = { job with replay := true, metadataOnly := true, output := receipt.response } := by
  unfold loadReceipt at h
  split at h
  · rename_i hk
    exact .inl ⟨(Except.ok.inj h).symm, fun hne => absurd hk hne⟩
  rename_i hk
  split at h
  · rename_i hf
    refine .inl ⟨(Except.ok.inj h).symm, fun _ receipt hm => ?_⟩
    simpa using List.find?_eq_none.1 hf receipt hm
  rename_i receipt hf
  simp only [bind_eq_ok, refuseIf_eq_ok, not_or, not_not] at h
  obtain ⟨_, ⟨hr, hp⟩, h⟩ := h
  exact .inr ⟨receipt, ⟨hk, hf, hr, hp⟩, (Except.ok.inj h).symm⟩

/-- The record with a renewed lease. -/
def EntityRecord.leased (host : HostId) (limits : RuntimeLimits) (cachedFence : Nat) (time : Int) (r : EntityRecord) :
    EntityRecord :=
  { r with snapshot := resident host cachedFence r, owner := host.owner, expires := time + limits.lease,
           fence := r.fence + 1 }

/-- The findings of a whole attempt. -/
structure Found (host : HostId) (job : Job) (r : EntityRecord) (time : Int) (x : Findings) : Prop
    extends Finds host job r time x where
  ack : Acknowledges job.request.ack r.snapshot.delivery x.delivery
  why : x.replay = true → (job.replay = true ∧ x.output = job.output) ∨ job.request.timer.isSome = true ∨
    AnswersPassed job.request r x.output ∨ ∃ receipt,
      Recorded { job.request with payload := x.payload } (resident host job.cachedFence r).receipts receipt ∧
        x.output = receipt.response
  unrecorded : x.replay = false → job.request.requestId ≠ [] →
    ∀ receipt ∈ (resident host job.cachedFence r).receipts, receipt.id ≠ job.request.requestId

/-- A job that has loaded the record `r`. -/
def Job.loaded (job : Job) (host : HostId) (r : EntityRecord) (x : Findings) : Job :=
  (job.loadedFrom r x).holding (Fsnet.resident host job.cachedFence r) (r.owner = host.owner) r.fence

/-- A job that goes on with the version and the lease of a cell. -/
def Job.takes (job : Job) (cell : Cell StoredRecord) : Job :=
  { job with version := cell.version, fence := cell.value.val.fence, expires := cell.value.val.expires }

/-- The two ways an attempt ends well. -/
inductive Leases (host : HostId) (limits : RuntimeLimits) (job : Job) (cell : Cell StoredRecord) (time : Int) :
    Acquisition → Prop
  | reuse (howner : cell.value.val.owner = host.owner) : Leases host limits job cell time (.reuse (job.takes cell))
  | grant (value : StoredRecord) (hvalue : value.val = cell.value.val.leased host limits job.cachedFence time) :
    Leases host limits job cell time (.grant job value)

section

variable {d : EntityDeliveryState} (hread : Read host job r time x needs)
  (hack : Acknowledges job.request.ack x.delivery d)
include hread hack

/-- The findings of the first part, completed by those about the acknowledgement and the receipts. -/
theorem Read.found
    (hnone : job.request.requestId ≠ [] → ∀ receipt ∈ (resident host job.cachedFence r).receipts,
      receipt.id ≠ job.request.requestId) :
    Found host job r time { x with delivery := d } where
  toFinds := { hread.toFinds with }
  ack := hread.delivery ▸ hack
  why hreplay := (hread.why hreplay).imp_right fun h => h.imp_right .inl
  unrecorded _ := hnone

theorem Read.found_recorded {receipt : EntityReceipt}
    (hrec : Recorded { job.request with payload := x.payload } (resident host job.cachedFence r).receipts receipt) :
    Found host job r time
      { x with delivery := d, replay := true, metadataOnly := true, output := receipt.response } where
  toFinds := ⟨hread.admits, by rintro ⟨⟩, hread.timerNone, by rintro - ⟨⟩, by rintro _ - ⟨⟩⟩
  ack := hread.delivery ▸ hack
  why _ := .inr (.inr (.inr ⟨receipt, hrec, rfl⟩))
  unrecorded := by rintro ⟨⟩

end

theorem finishLoad_ok {result : Acquisition} (hread : Read host job cell.value.val time x needs)
    (h : finishLoad host limits (job.loadedFrom cell.value.val x) cell time = .ok result) :
    ∃ y, Found host job cell.value.val time y ∧ (y.replay = false → x.replay = false) ∧
      Leases host limits (job.loaded host cell.value.val y) cell time result := by
  unfold finishLoad at h
  simp only [bind_eq_ok, refuseIf_eq_ok] at h
  obtain ⟨j1, h1, _, -, j2, h2, _, -, h⟩ := h
  obtain ⟨d, rfl, hack⟩ := loadAck_ok h1
  -- the lease does not depend on which of the two the receipts came to
  have hlease : ∀ y, j2 = job.loaded host cell.value.val y →
      Leases host limits (job.loaded host cell.value.val y) cell time result := by
    rintro y rfl
    split at h
    · rename_i hown
      cases h
      exact .reuse hown.1
    simp only [bind_eq_ok] at h
    obtain ⟨_, -, h⟩ := h
    split at h
    · cases h
    · rename_i value hv
      cases h
      exact .grant value (EntityRecord.encoded_eq_some.1 hv)
  rcases loadReceipt_ok h2 with ⟨rfl, hnone⟩ | ⟨_, hrec, rfl⟩
  · exact ⟨_, hread.found hack hnone, id, hlease _ rfl⟩
  · exact ⟨_, hread.found_recorded hack hrec, by rintro ⟨⟩, hlease _ rfl⟩

/-! ## Refusals -/

/-- The same job with the same request, up to the payload of a timer. -/
def SameRequest (j j' : Job) : Prop := j'.serial = j.serial ∧ ∃ payload, j'.request = { j.request with payload }

theorem SameRequest.refl (j : Job) : SameRequest j j := ⟨rfl, _, rfl⟩

theorem SameRequest.trans {a b c : Job} (h : SameRequest a b) (h' : SameRequest b c) : SameRequest a c := by
  obtain ⟨hs, p, hp⟩ := h
  obtain ⟨hs', p', hp'⟩ := h'
  exact ⟨hs'.trans hs, p', by rw [hp', hp]⟩

theorem sameRequest_loadedFrom (job : Job) (r : EntityRecord) (x : Findings) : SameRequest job (job.loadedFrom r x) :=
  ⟨rfl, _, rfl⟩

/-- What is left of a job whose attempt was refused. -/
structure Declined (job : Job) (x : Refusal) : Prop where
  same : SameRequest job x.job
  status : x.threw = false → x.job.status ≠ .ok

theorem declined_thrown (hs : SameRequest job job') : Declined job (thrown job') := ⟨hs, by rintro ⟨⟩⟩

theorem declined_refuse {status : Status} (hs : SameRequest job job') (hne : status ≠ .ok) :
    Declined job (refuse job' status) := ⟨hs, fun _ => hne⟩

theorem declined_elsewhere (job : Job) : Declined job (refuseElsewhere job) := by
  refine declined_refuse (.refl job) ?_
  unfold elsewhereStatus
  split <;> decide

/-- Whatever ends an attempt early declines the request. -/
abbrev Declines {α : Type} (job : Job) (x : Except Refusal α) : Prop := Throws (Declined job) x

theorem Declines.of_same {α : Type} {x : Except Refusal α} (h : Declines job' x) (hs : SameRequest job job') :
    Declines job x := h.mono fun _ hd => ⟨hs.trans hd.same, hd.status⟩

theorem checkMetadata_declines : Declines job (checkMetadata job r) := by
  unfold checkMetadata
  refine .check (fun _ => declined_refuse (.refl job) (by decide)) ?_
  refine .check (fun _ => declined_refuse (.refl job) (by decide)) ?_
  refine .check (fun _ => declined_refuse ⟨rfl, _, rfl⟩ (by decide)) ?_
  refine .check (fun _ => declined_refuse ⟨rfl, _, rfl⟩ (by decide)) ?_
  refine .check (fun _ => declined_refuse ⟨rfl, _, rfl⟩ (by decide)) ?_
  exact .check (fun _ => declined_refuse ⟨rfl, _, rfl⟩ (by decide)) (.ok _)

theorem checkPlacement_declines : Declines job (checkPlacement host job r) := by
  unfold checkPlacement
  refine .check (fun _ => declined_elsewhere job) ?_
  exact .check (fun _ => declined_refuse ⟨rfl, _, rfl⟩ (by decide)) (.ok _)

theorem checkLease_declines : Declines job (checkLease host limits job r time) := by
  unfold checkLease
  exact .check (fun _ => declined_thrown (.refl job)) (.refuseIf fun _ => declined_elsewhere job)

theorem checkTimers_declines : Declines job (checkTimers limits job) := by
  unfold checkTimers
  refine .check (fun _ => declined_refuse (.refl job) (by decide)) ?_
  split
  · exact .ok _
  · split
    · exact .error (declined_thrown (.refl job))
    · exact .refuseIf fun _ => declined_refuse (.refl job) (by decide)

theorem loadTimer_declines : Declines job (loadTimer job time) := by
  unfold loadTimer
  split
  · exact .ok _
  split
  · exact .ok _
  split
  · exact .ok _
  dsimp only
  split
  · exact .error (declined_thrown ⟨rfl, _, rfl⟩)
  · exact .ok _

theorem replayResult_declines (e : DeliveryEnvelope) (found : DeliveryCursor) :
    Declines job (replayResult hash job e found) := by
  unfold replayResult
  split
  · split
    · exact .error (declined_thrown (.refl job))
    · exact .check (fun _ => declined_refuse ⟨rfl, _, rfl⟩ (by decide)) (.ok _)
  · exact .ok _

theorem loadIncoming_declines : Declines job (loadIncoming hash limits job r) := by
  unfold loadIncoming
  split
  · exact .ok _
  refine .check (fun _ => declined_refuse ⟨rfl, _, rfl⟩ (by decide)) ?_
  split
  · exact .error (declined_thrown (.refl job))
  split
  · split
    · refine .bind (replayResult_declines _ _) fun _ _ => ?_
      dsimp only
      split
      · exact .error (declined_thrown ⟨rfl, _, rfl⟩)
      · exact .ok _
    · exact .check (fun _ => declined_refuse (.refl job) (by decide)) (.ok _)
  · exact .check (fun _ => declined_refuse (.refl job) (by decide)) (.ok _)

theorem loadRecord_declines : Declines job (loadRecord hash host limits job r time) := by
  unfold loadRecord
  refine .bind checkMetadata_declines fun _ h1 => ?_
  obtain ⟨rfl, -⟩ := checkMetadata_ok h1
  refine .bind (checkPlacement_declines.of_same ⟨rfl, _, rfl⟩) fun _ h2 => ?_
  obtain ⟨rfl, -⟩ := checkPlacement_ok h2
  refine .bind (checkLease_declines.of_same ⟨rfl, _, rfl⟩) fun _ _ => ?_
  refine .bind (checkTimers_declines.of_same ⟨rfl, _, rfl⟩) fun _ _ => ?_
  refine .bind (loadTimer_declines.of_same ⟨rfl, _, rfl⟩) fun j5 h5 => ?_
  simp only [resident_delivery, resident_timers] at h5
  obtain ⟨y, rfl, -⟩ : ∃ y, j5 = job.loadedFrom r y ∧ TimerFound job.request r.snapshot.timers time (job.unread r) y :=
    loadTimer_found h5
  exact loadIncoming_declines.of_same (sameRequest_loadedFrom _ _ _)

theorem checkSource_declines (stored : Option (Cell StoredRecord)) : Declines job (checkSource job stored) := by
  unfold checkSource
  split
  · exact .ok _
  split
  · exact .error (declined_refuse (.refl job) (by decide))
  · split
    · exact .error (declined_thrown (.refl job))
    · exact .check (fun _ => declined_refuse (.refl job) (by decide)) (.ok _)

theorem loadAck_declines : Declines job (loadAck job) := by
  unfold loadAck
  split
  · exact .ok _
  refine .check (fun _ => declined_refuse (.refl job) (by decide)) ?_
  split
  · exact .error (declined_refuse (.refl job) (by decide))
  · exact .ok _

theorem loadReceipt_declines : Declines job (loadReceipt job) := by
  unfold loadReceipt
  split
  · exact .ok _
  · split
    · exact .ok _
    · exact .check (fun _ => declined_refuse (.refl job) (by decide)) (.ok _)

theorem finishLoad_declines :
    Declines job (finishLoad host limits (job.loadedFrom cell.value.val x) cell time) := by
  unfold finishLoad
  refine .bind (loadAck_declines.of_same (sameRequest_loadedFrom _ _ _)) fun _ h1 => ?_
  obtain ⟨d, rfl, -⟩ := loadAck_ok h1
  refine .check (fun _ => declined_refuse ⟨rfl, _, rfl⟩ (by decide)) ?_
  refine .bind (loadReceipt_declines.of_same ⟨rfl, _, rfl⟩) fun j2 h2 => ?_
  have hsame : SameRequest job j2 := by
    rcases loadReceipt_ok h2 with ⟨rfl, -⟩ | ⟨_, -, rfl⟩
    · exact ⟨rfl, _, rfl⟩
    · exact ⟨rfl, _, rfl⟩
  refine .check (fun _ => declined_refuse hsame (by decide)) ?_
  split
  · exact .ok _
  refine .check (fun _ => declined_thrown hsame) ?_
  split
  · exact .error (declined_thrown hsame)
  · exact .ok _

/-! ## The stages -/

/-- Where an attempt on a cell leads: the request is refused, the lease is
reused, or a renewed lease is to be swapped in. `S` holds of every delivery
that is to be executed. -/
inductive Leads (host : HostId) (limits : RuntimeLimits) (attempt : Nat) (job : Job) (cell : Cell StoredRecord)
    (time : Int) (S : DeliveryEnvelope → Prop) : Job → Prop
  | declined (refusal : Refusal) (h : Declined job refusal) :
    Leads host limits attempt job cell time S (Job.refused refusal)
  | reused (x : Findings) (h : Found host job cell.value.val time x)
      (hs : ∀ e, job.request.incoming = some e → x.replay = false → S e) (howner : cell.value.val.owner = host.owner) :
    Leads host limits attempt job cell time S
      (((job.loaded host cell.value.val x).takes cell).acquiring (.finished false))
  | granting (x : Findings) (value : StoredRecord) (h : Found host job cell.value.val time x)
      (hs : ∀ e, job.request.incoming = some e → x.replay = false → S e)
      (hvalue : value.val = cell.value.val.leased host limits job.cachedFence time) :
    Leads host limits attempt job cell time S
      ((job.loaded host cell.value.val x).acquiring (.granting attempt cell.version value))

theorem lease_leads {attempt : Nat}
    {S : DeliveryEnvelope → Prop} (hread : Read host job cell.value.val time x needs)
    (hs : ∀ e, job.request.incoming = some e → x.replay = false → S e) :
    Leads host limits attempt job cell time S
      ((job.loadedFrom cell.value.val x).lease host limits attempt cell time) := by
  unfold Job.lease
  split
  · rename_i refusal h
    exact .declined refusal (finishLoad_declines _ h)
  · rename_i h
    obtain ⟨y, hy, hmono, hl⟩ := finishLoad_ok hread h
    cases hl with
    | reuse howner => exact .reused y hy (fun e he hr => hs e he (hmono hr)) howner
  rename_i value h
  obtain ⟨y, hy, hmono, hl⟩ := finishLoad_ok hread h
  cases hl with
  | grant _ hvalue => exact .granting y value hy (fun e he hr => hs e he (hmono hr)) hvalue

/-- The findings do not depend on the stage. -/
theorem Read.acquiring (h : Read host job r time x needs) (stage : AcquireStage) :
    Read host (job.acquiring stage) r time x needs :=
  ⟨{ h.toFinds with }, h.delivery, h.why, h.sourced⟩

/-- What the first access of an attempt leads to. Without a second look at the
source no delivery is executed. -/
theorem resumeRead_cases (hash : Bytes → Bytes) (host : HostId) (limits : RuntimeLimits) (attempt : Nat) (job : Job)
    (stored : Option (Cell StoredRecord)) (time : Int) :
    (stored = none ∧ job.resumeRead hash host limits attempt stored time = Job.refused (refuse job .notFound)) ∨
      ∃ cell, stored = some cell ∧
        ((∃ j x, j = job.acquiring (.sourcing attempt cell time) ∧ Read host j cell.value.val time x true ∧
            job.resumeRead hash host limits attempt stored time = j.loadedFrom cell.value.val x) ∨
          Leads host limits attempt job cell time (fun _ => False)
            (job.resumeRead hash host limits attempt stored time)) := by
  cases stored with
  | none => exact .inl ⟨rfl, rfl⟩
  | some cell =>
    refine .inr ⟨cell, rfl, ?_⟩
    unfold Job.resumeRead
    dsimp only
    split
    · rename_i refusal h
      exact .inr (.declined refusal (loadRecord_declines _ h))
    rename_i needs h
    obtain ⟨x, rfl, hread⟩ := loadRecord_ok h
    cases needs with
    | true => exact .inl ⟨_, x, rfl, hread.acquiring _, rfl⟩
    | false =>
      refine .inr (lease_leads hread fun e he hr => ?_)
      cases hread.sourced (by rw [he]; rfl) hr

/-- What the second access leads to: the message was pending at its source. -/
theorem resumeSource_leads {attempt : Nat}
    (hread : Read host job cell.value.val time x true) (source : Option (Cell StoredRecord)) :
    Leads host limits attempt job cell time (fun e => ∃ c, source = some c ∧ PendingIn c.value.val e)
      ((job.loadedFrom cell.value.val x).resumeSource host limits attempt cell time source) := by
  unfold Job.resumeSource
  split
  · rename_i refusal h
    exact .declined refusal (((checkSource_declines source).of_same (sameRequest_loadedFrom _ _ _)) _ h)
  · rename_i h
    obtain ⟨rfl, hsource⟩ := checkSource_ok h
    exact lease_leads hread fun e he _ => hsource e he

theorem resumeGrant_cases (job : Job) (attempt : Nat) (value : StoredRecord) (swapped : Bool) :
    (swapped = true ∧ job.resumeGrant attempt value swapped = job.acquiring (.confirming value)) ∨
      (swapped = false ∧ (job.resumeGrant attempt value swapped = job.acquiring (.reading (attempt + 1)) ∨
        job.resumeGrant attempt value swapped = Job.refused (refuse job .rejected))) := by
  unfold Job.resumeGrant
  cases swapped with
  | true => exact .inl ⟨rfl, rfl⟩
  | false =>
    refine .inr ⟨rfl, ?_⟩
    simp only [Bool.false_eq_true, if_false]
    split
    · exact .inl rfl
    · exact .inr rfl

/-- The renewed lease counts only if it is what the store holds. -/
theorem resumeConfirm_cases (job : Job) (value : StoredRecord) (granted : Option (Cell StoredRecord)) :
    (∃ cell, granted = some cell ∧ cell.value = value ∧
        job.resumeConfirm value granted = (job.takes cell).acquiring (.finished false)) ∨
      job.resumeConfirm value granted = Job.refused (refuse job .rejected) := by
  unfold Job.resumeConfirm
  split
  · exact .inr rfl
  rename_i cell
  split
  · rename_i hv
    exact .inl ⟨cell, rfl, hv, by rw [← hv]; rfl⟩
  · exact .inr rfl

end Fsnet
