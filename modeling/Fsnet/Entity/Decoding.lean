import Fsnet.Entity.Record
import Fsnet.Delivery.Decoding
import Fsnet.Timers.Decoding
/-!
# Reading entity records

`decode_entity_record`, from the header down to the snapshot, and the round
trip: whatever the encoder accepts is read back as it was. A snapshot has three
layouts, told apart by its tag; the newest one says in a flag whether a
delivery state comes before the timers.
-/

namespace Fsnet

open Lib List

/-! ## Snapshots -/

variable (timers delivery : Bool) (input : Bytes)

def readReceipt : Except Failure (EntityReceipt × Bytes) := do
  let (id, input) ← readBlob input
  let (route, input) ← readBlob input
  let (request, input) ← readBlob input
  let (response, input) ← readBlob input
  pure (⟨id, route, request, response⟩, input)

/-- The byte that says whether a delivery state follows; only the layout with timers has it. -/
def readSnapshotFlag : Except Failure (Bool × Bytes) :=
  if timers then
    match input with
    | [] => throw (.runtime "invalid snapshot flags")
    | flag :: rest => do
      refuseIf (flag.toNat > 1) (.runtime "invalid snapshot flags")
      pure (flag ≠ 0, rest)
  else pure (delivery, input)

/-- A section, if it is there. -/
def readSection {α : Type} (empty : α) (decode : Bytes → Except Failure α) (present : Bool) (input : Bytes) :
    Except Failure (α × Bytes) :=
  if present then do
    let (bytes, input) ← readBlob input
    let part ← decode bytes
    pure (part, input)
  else pure (empty, input)

def readDeliveryPart : Bool → Bytes → Except Failure (EntityDeliveryState × Bytes) := readSection {} decodeDeliveryState

def readTimersPart : Bool → Bytes → Except Failure (EntityTimerState × Bytes) := readSection {} decodeEntityTimers

def decodeSnapshot : Except Failure EntitySnapshot := do
  let timers := (ascii "FSP3").isPrefixOf input
  let delivery := (ascii "FSP2").isPrefixOf input
  refuseIf (¬timers ∧ ¬delivery ∧ ¬(ascii "FSP1").isPrefixOf input) (.runtime "unknown entity snapshot version")
  let (state, input) ← readBlob (input.drop 4)
  let (count, input) ← readNumber input
  refuseIf (count > 1024) (.runtime "invalid entity receipt count")
  let (receipts, input) ← readItems readReceipt count input
  let (delivery, input) ← readSnapshotFlag timers delivery input
  let (deliveryState, input) ← readDeliveryPart delivery input
  let (timerState, input) ← readTimersPart timers input
  refuseIf (input ≠ []) (.runtime "trailing entity snapshot bytes")
  pure { state, receipts, delivery := deliveryState, timers := timerState }

/-! ## Records -/

def readInitialized : Except Failure (Bool × Bytes) :=
  match input with
  | [] => throw (.runtime "invalid entity initialization")
  | flag :: rest => do
    refuseIf (flag.toNat > 1) (.runtime "invalid entity initialization")
    pure (flag ≠ 0, rest)

def readMetadataFlags : Except Failure (Bool × Bool × Bytes) :=
  match input with
  | [] => throw (.runtime "invalid global entity flags")
  | flags :: rest => do
    refuseIf (flags.toNat > 3) (.runtime "invalid global entity flags")
    pure (flags &&& 1 ≠ 0, flags &&& 2 ≠ 0, rest)

def readMetadata : Except Failure (EntityMetadata × Bytes) := do
  let (type, input) ← readBlob input
  let (ownerConnection, input) ← readBlob input
  let (rebuildable, destroyed, input) ← readMetadataFlags input
  let (initialState, input) ← readBlob input
  refuseIf (input.length < 32) (.runtime "truncated creation digest")
  let creationDigest := input.take 32
  let (ownerRevision, input) ← readInteger (input.drop 32)
  let metadata : EntityMetadata :=
    { type, ownerConnection, creationDigest, rebuildable, destroyed, initialState, ownerRevision }
  refuseIf (validEntityMetadata metadata = false) (.runtime "invalid global entity metadata")
  pure (metadata, input)

/-- `header`: the record without its snapshot, and the bytes of the snapshot. -/
def readHeader : Except Failure (EntityRecord × Bytes) := do
  refuseIf (¬(ascii "FER5").isPrefixOf input) (.runtime "unknown entity record version")
  let (owner, input) ← readBlob (input.drop 4)
  let (expires, input) ← readUint (.runtime "truncated entity record") input 8
  let (fence, input) ← readUint (.runtime "truncated entity record") input 8
  refuseIf (owner.length > 256 ∨ (expires : Int) > maxTime ∨ (fence : Int) ≥ maxTime)
    (.runtime "invalid entity record metadata")
  let (initialized, input) ← readInitialized input
  let (placement, input) ← readBlob input
  let (transferId, input) ← readInteger input
  refuseIf ((!placement.isEmpty ∧ validEntityNode placement = false) ∨ (placement.isEmpty ∧ transferId ≠ 0))
    (.runtime "invalid entity placement")
  let (metadata, input) ← readMetadata input
  pure ({ owner, expires, fence, initialized, placement, transferId, metadata }, input)

def decodeEntityRecord : Except Failure EntityRecord := do
  let (record, input) ← readHeader input
  let snapshot ← decodeSnapshot input
  pure { record with snapshot }

/-! ## Snapshots read back -/

theorem frames_receipts : Frames (fun _ => True) encodeReceipts readReceipt := by
  constructor
  · rfl
  · intro r _ _ h _
    simp only [encodeReceipts, bind_eq_ok] at h
    obtain ⟨_, hid, _, hroute, _, hrequest, _, hresponse, tail, ht, ho⟩ := h
    obtain ⟨lid, rfl⟩ := blob_eq_ok hid
    obtain ⟨lroute, rfl⟩ := blob_eq_ok hroute
    obtain ⟨lrequest, rfl⟩ := blob_eq_ok hrequest
    obtain ⟨lresponse, rfl⟩ := blob_eq_ok hresponse
    refine ⟨_, tail, ht, (Except.ok.inj ho).symm, ?_⟩
    intro _
    unfold readReceipt
    simp only [append_assoc, readBlob_wire lid, readBlob_wire lroute, readBlob_wire lrequest,
      readBlob_wire lresponse, ok_bind, pure_eq_ok]

theorem eq_empty_of_size {K V : Type} [LinearOrder K] {m : OrdMap K V} (h : m.size = 0) : m = .empty := by
  obtain ⟨entries, _⟩ := m
  obtain rfl : entries = [] := length_eq_zero_iff.1 h
  rfl

theorem readDeliveryPart_wire {s : EntityDeliveryState} {out : Bytes} (h : encodeDeliveryPart s = .ok out)
    (hnone : ¬(s.epoch = 0 ∧ (s.sent.size ≠ 0 ∨ s.inbox.size ≠ 0 ∨ s.outbox ≠ []))) (rest : Bytes) :
    readDeliveryPart (s.epoch ≠ 0) (out ++ rest) = .ok (s, rest) := by
  unfold encodeDeliveryPart at h
  unfold readDeliveryPart readSection
  by_cases he : s.epoch = 0
  · -- without an epoch there is nothing to write, and nothing is what the reader starts from
    rw [if_pos he] at h
    cases h
    simp only [he, true_and, not_or, ne_eq, not_not] at hnone
    obtain ⟨_, _, _, _⟩ := s
    obtain ⟨hs, hi, ho⟩ := hnone
    simp only at he hs hi ho
    simp [he, eq_empty_of_size hs, eq_empty_of_size hi, ho]
  · rw [if_neg he] at h
    simp only [bind_eq_ok] at h
    obtain ⟨_, hb, hblob⟩ := h
    obtain ⟨hlt, rfl⟩ := blob_eq_ok hblob
    simp only [ne_eq, he, not_false_eq_true, decide_true, if_true, append_assoc, readBlob_wire hlt, ok_bind,
      decodeDeliveryState_wire hb, pure_eq_ok]

/-- Whether an encoded snapshot has a section for the timers. -/
def EntityTimerState.present (s : EntityTimerState) : Bool :=
  !s.token.isEmpty || s.sequence ≠ 0 || s.entries.size ≠ 0

theorem readTimersPart_wire {s : EntityTimerState} {out : Bytes} (h : encodeTimersPart s.present s = .ok out)
    (hr : ∀ entry ∈ s.entries.entries, entry.2.InRange) (rest : Bytes) :
    readTimersPart s.present (out ++ rest) = .ok (s, rest) := by
  unfold encodeTimersPart at h
  unfold readTimersPart readSection
  by_cases hp : s.present = true
  · rw [if_pos hp] at h
    simp only [bind_eq_ok] at h
    obtain ⟨_, hb, hblob⟩ := h
    obtain ⟨hlt, rfl⟩ := blob_eq_ok hblob
    simp only [hp, if_true, append_assoc, readBlob_wire hlt, ok_bind, decodeEntityTimers_wire hb hr, pure_eq_ok]
  rw [if_neg hp] at h
  cases h
  rw [if_neg hp]
  obtain ⟨_, _, _⟩ := s
  simp only [EntityTimerState.present, Bool.or_eq_true, Bool.not_eq_true', decide_eq_true_eq, not_or, ne_eq, not_not,
    Bool.not_eq_false, List.isEmpty_iff] at hp
  simp [hp.1.1, hp.1.2, eq_empty_of_size hp.2]

def snapshotTag : Bytes :=
  ascii (if timers then "FSP3" else if delivery then "FSP2" else "FSP1")

/-- What a reader sees of the tag in front of a snapshot. -/
theorem snapshotTag_flags (body : Bytes) :
    (ascii "FSP3").isPrefixOf (snapshotTag timers delivery ++ body) = timers ∧
      (ascii "FSP2").isPrefixOf (snapshotTag timers delivery ++ body) = (!timers && delivery) ∧
      (ascii "FSP1").isPrefixOf (snapshotTag timers delivery ++ body) = (!timers && !delivery) ∧
      (snapshotTag timers delivery ++ body).drop 4 = body := by
  cases timers <;> cases delivery <;> exact ⟨rfl, rfl, rfl, rfl⟩

theorem readSnapshotFlag_wire (rest : Bytes) :
    readSnapshotFlag timers (!timers && delivery)
      ((if timers then [if delivery then 1 else 0] else []) ++ rest) = .ok (delivery, rest) := by
  cases timers <;> cases delivery <;> rfl

theorem encodeSnapshot_eq_ok {s : EntitySnapshot} {out : Bytes} (h : encodeSnapshot s = .ok out) :
    ¬(s.delivery.epoch = 0 ∧ (s.delivery.sent.size ≠ 0 ∨ s.delivery.inbox.size ≠ 0 ∨ s.delivery.outbox ≠ [])) ∧
      s.state.length < 2 ^ 32 ∧ s.receipts.length ≤ 1024 ∧ ∃ receipts delivery timers,
        encodeReceipts s.receipts = .ok receipts ∧ encodeDeliveryPart s.delivery = .ok delivery ∧
        encodeTimersPart s.timers.present s.timers = .ok timers ∧
        out = snapshotTag s.timers.present (s.delivery.epoch ≠ 0) ++ (number s.state.length ++ (s.state ++
          (number s.receipts.length ++ (receipts ++ ((if s.timers.present then
            [if decide (s.delivery.epoch ≠ 0) then 1 else 0] else []) ++ (delivery ++ timers)))))) := by
  unfold encodeSnapshot at h
  simp only [bind_eq_ok, refuseIf_eq_ok] at h
  obtain ⟨_, hnone, state, hs, _, hcount, receipts, hr, delivery, hd, timers, ht, ho⟩ := h
  obtain ⟨hlt, rfl⟩ := blob_eq_ok hs
  refine ⟨hnone, hlt, by omega, receipts, delivery, timers, hr, hd, ht, ?_⟩
  rw [← Except.ok.inj ho]
  simp only [append_assoc, snapshotTag, EntityTimerState.present, decide_eq_true_eq]

theorem decodeSnapshot_wire {s : EntitySnapshot} {out : Bytes} (h : encodeSnapshot s = .ok out)
    (hr : ∀ entry ∈ s.timers.entries.entries, entry.2.InRange) : decodeSnapshot out = .ok s := by
  obtain ⟨hnone, hstate, hcount, receipts, delivery, timers, h1, h2, h3, rfl⟩ := encodeSnapshot_eq_ok h
  have htimers := readTimersPart_wire h3 hr []
  rw [append_nil] at htimers
  unfold decodeSnapshot
  generalize hbody : number s.state.length ++ _ = body
  obtain ⟨e3, e2, e1, edrop⟩ := snapshotTag_flags s.timers.present (s.delivery.epoch ≠ 0) body
  simp only [e1, e2, e3, edrop]
  rw [refuseIf_of_not _ (by cases s.timers.present <;> simp), ok_bind, ← hbody, readBlob_wire hstate]
  simp only [ok_bind]
  rw [readNumber_wire (by omega)]
  simp only [ok_bind]
  rw [refuseIf_of_not _ (by omega), ok_bind, frames_receipts.readItems_wire h1 (by simp)]
  simp only [ok_bind]
  rw [readSnapshotFlag_wire]
  simp only [ok_bind]
  rw [readDeliveryPart_wire h2 hnone]
  simp only [ok_bind]
  rw [htimers]
  simp only [ok_bind]
  rw [refuseIf_of_not _ (by simp)]
  rfl

/-! ## Records read back -/

theorem readInitialized_wire (initialized : Bool) (rest : Bytes) :
    readInitialized ([if initialized then 1 else 0] ++ rest) = .ok (initialized, rest) := by
  cases initialized <;> rfl

theorem readMetadataFlags_wire (rebuildable destroyed : Bool) (rest : Bytes) :
    readMetadataFlags ([(if rebuildable then 1 else 0) + (if destroyed then 2 else 0)] ++ rest) =
      .ok (rebuildable, destroyed, rest) := by
  cases rebuildable <;> cases destroyed <;> rfl

theorem validEntityMetadata_bounds {m : EntityMetadata} (h : validEntityMetadata m = true) :
    m.creationDigest.length = 32 := by
  simp only [validEntityMetadata, Bool.and_eq_true, decide_eq_true_eq] at h
  exact h.1.1.2

theorem readMetadata_wire {m : EntityMetadata} (hv : validEntityMetadata m = true) (ht : m.type.length < 2 ^ 32)
    (hc : m.ownerConnection.length < 2 ^ 32) (hi : m.initialState.length < 2 ^ 32) (rest : Bytes) :
    readMetadata (number m.type.length ++ (m.type ++ (number m.ownerConnection.length ++ (m.ownerConnection ++
      ([(if m.rebuildable then 1 else 0) + (if m.destroyed then 2 else 0)] ++ (number m.initialState.length ++
        (m.initialState ++ (m.creationDigest ++ (integer m.ownerRevision ++ rest))))))))) = .ok (m, rest) := by
  have hdigest := validEntityMetadata_bounds hv
  unfold readMetadata
  simp only [readBlob_wire ht, readBlob_wire hc, readMetadataFlags_wire, readBlob_wire hi, ok_bind]
  rw [refuseIf_of_not _ (by simp [hdigest]), ok_bind, take_left' hdigest, drop_left' hdigest,
    readInteger_wire]
  simp only [ok_bind]
  rw [refuseIf_of_not _ (by simp [hv])]
  rfl

/-- The 64-bit signed fields of a record are in the range of their type. -/
structure EntityRecord.InRange (r : EntityRecord) : Prop where
  expires : r.expires ≤ maxTime
  timers : ∀ entry ∈ r.snapshot.timers.entries.entries, entry.2.InRange

/-- An entity record is read back from its bytes as it was written. -/
theorem entity_record_codec {r : EntityRecord} (hr : r.InRange) {bytes : Bytes}
    (h : encodeEntityRecord r = .ok bytes) : decodeEntityRecord bytes = .ok r := by
  unfold encodeEntityRecord at h
  simp only [bind_eq_ok, refuseIf_eq_ok, Bool.not_eq_false] at h
  obtain ⟨_, hlease, _, hplacement, _, hv, owner, ho, placement, hp, type, ht, connection, hc, initial,
    hi, snapshot, hs, hout⟩ := h
  obtain ⟨lo, rfl⟩ := blob_eq_ok ho
  obtain ⟨lp, rfl⟩ := blob_eq_ok hp
  obtain ⟨lt, rfl⟩ := blob_eq_ok ht
  obtain ⟨lc, rfl⟩ := blob_eq_ok hc
  obtain ⟨li, rfl⟩ := blob_eq_ok hi
  have hexpires : ((r.expires.toNat : Nat) : Int) = r.expires := Int.toNat_of_nonneg (by omega)
  have hmax : maxTime < 2 ^ 64 := by decide
  have hrange := hr.expires
  have hdrop : ∀ body : Bytes, (ascii "FER5" ++ body).drop 4 = body := by
    intro body
    rfl
  rw [← Except.ok.inj hout]
  unfold decodeEntityRecord readHeader
  simp only [append_assoc]
  rw [refuseIf_of_not _ (by simp [isPrefixOf_tag]), ok_bind, hdrop, readBlob_wire lo]
  simp only [ok_bind]
  rw [readUint_wire _ (by omega)]
  simp only [ok_bind]
  rw [readUint_wire _ (by omega)]
  simp only [ok_bind, hexpires]
  rw [refuseIf_of_not _ (by omega), ok_bind, readInitialized_wire]
  simp only [ok_bind, readBlob_wire lp, readInteger_wire]
  rw [refuseIf_of_not _ hplacement, ok_bind, readMetadata_wire hv lt lc li]
  simp only [ok_bind, pure_eq_ok, decodeSnapshot_wire hs hr.timers]

/-- A record with every optional part: a rebuildable entity with a receipt, a
counter, a cursor, a message in its outbox and a periodic timer. -/
def crowdedRecord : EntityRecord :=
  let channel : Bytes := [1, 97, 0, 1, 98] ++ integer 7
  let message : DeliveryMessage :=
    { ticket := List.replicate 64 97, type := ascii "room", id := ascii "lobby", method := ascii "join"
      payload := ascii "x", targetEpoch := 7, sequence := 1 }
  let timer : EntityTimer :=
    { key := ascii "tick", method := ascii "tick", payload := [], generation := ascii "3.1", due := 1000
      interval := 50, remaining := 0, missed := .catchUp, fixedDelay := false }
  { owner := ascii "node/1", expires := 5000, fence := 3, placement := ascii "node", transferId := 2
    metadata :=
      { type := ascii "player", ownerConnection := [], creationDigest := List.replicate 32 0, rebuildable := true
        initialState := ascii "{}" }
    snapshot :=
      { state := ascii "{}", receipts := [⟨ascii "r1", ascii "player.move", ascii "n", ascii "ok"⟩]
        delivery :=
          { epoch := 4, sent := OrdMap.empty.insert channel 1
            inbox := OrdMap.empty.insert channel ⟨1, List.replicate 64 98, ⟨.rejected, ascii "no"⟩⟩
            outbox := [message] }
        timers := { sequence := 1, token := ascii "3.1", entries := OrdMap.empty.insert (ascii "tick") timer } } }

theorem entity_record_codec_crowded :
    ∃ bytes, encodeEntityRecord crowdedRecord = .ok bytes ∧ decodeEntityRecord bytes = .ok crowdedRecord := by
  have hrange : crowdedRecord.InRange := by
    constructor
    · decide +kernel
    · intro _ he
      obtain rfl := mem_singleton.1 he
      exact ⟨by decide, by decide⟩
  have hok : (encodeEntityRecord crowdedRecord).isOk = true := by decide +kernel
  cases h : encodeEntityRecord crowdedRecord with
  | error =>
    rw [h] at hok
    cases hok
  | ok bytes => exact ⟨bytes, rfl, entity_record_codec hrange h⟩

end Fsnet
