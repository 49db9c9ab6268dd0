import Fsnet.Entity.Decoding
/-!
# Partial readers of entity records

Routing reads a record without its snapshot, and the timer scan reads a snapshot
without its state. Both walk the bytes on their own. What all three readers agree
on is the layout of a snapshot: once it is there, the full reader depends on
nothing but the contents of the delivery and the timer section.
-/

namespace Fsnet

open Lib

/-- A record as routing sees it: the snapshot is left as bytes. -/
structure EntityRecordView where
  owner : Bytes
  expires : Int
  fence : Nat
  snapshot : Bytes
  initialized : Bool
  placement : Bytes
  transferId : UInt64
  metadata : EntityMetadata
  deriving DecidableEq

def skipFields : Nat → Bytes → Except Failure Bytes
  | 0, input => pure input
  | count + 1, input => do
    let (_, input) ← readBlob input
    skipFields count input

/-- The loop over the receipts, each of four fields. -/
def skipReceipts : Nat → Bytes → Except Failure Bytes
  | 0, input => pure input
  | count + 1, input => do
    let input ← skipFields 4 input
    skipReceipts count input

def skipPart (present : Bool) (input : Bytes) : Except Failure Bytes :=
  if present then do
    let (_, input) ← readBlob input
    pure input
  else pure input

variable (input : Bytes)

def validateSnapshotFraming : Except Failure Unit := do
  let timers := (ascii "FSP3").isPrefixOf input
  let delivery := (ascii "FSP2").isPrefixOf input
  refuseIf (¬timers ∧ ¬delivery ∧ ¬(ascii "FSP1").isPrefixOf input) (.runtime "unknown entity snapshot version")
  let (_, input) ← readBlob (input.drop 4)
  let (count, input) ← readNumber input
  refuseIf (count > 1024) (.runtime "invalid entity receipt count")
  let input ← skipReceipts count input
  let (delivery, input) ← readSnapshotFlag timers delivery input
  let input ← skipPart delivery input
  let input ← skipPart timers input
  refuseIf (input ≠ []) (.runtime "trailing entity snapshot bytes")

/-- The header, over the bytes of the snapshot. -/
def EntityRecord.view (record : EntityRecord) (snapshot : Bytes) : EntityRecordView where
  owner := record.owner
  expires := record.expires
  fence := record.fence
  snapshot := snapshot
  initialized := record.initialized
  placement := record.placement
  transferId := record.transferId
  metadata := record.metadata

def decodeEntityRecordView : Except Failure EntityRecordView := do
  let (record, snapshot) ← readHeader input
  validateSnapshotFraming snapshot
  pure (record.view snapshot)

/-- The part of `decode_snapshot_timers` for a snapshot that has timers. -/
def readSnapshotTimers : Except Failure EntityTimerState := do
  let (_, input) ← readBlob (input.drop 4)
  let (count, input) ← readNumber input
  refuseIf (count > 1024) (.runtime "invalid snapshot receipt count")
  let input ← skipReceipts count input
  let (delivery, input) ← readSnapshotFlag true false input
  let input ← skipPart delivery input
  let (bytes, input) ← readBlob input
  let timers ← decodeEntityTimers bytes
  refuseIf (input ≠ []) (.runtime "trailing snapshot bytes")
  pure timers

def decodeSnapshotTimers : Except Failure EntityTimerState :=
  if (ascii "FSP3").isPrefixOf input then readSnapshotTimers input
  else do
    validateSnapshotFraming input
    pure {}

/-! ## The layout of a snapshot -/

/-- A snapshot whose sections are still bytes. -/
structure SnapshotLayout where
  state : Bytes
  receipts : List EntityReceipt
  delivery : Option Bytes
  timers : Option Bytes

def readPart (present : Bool) (input : Bytes) : Except Failure (Option Bytes × Bytes) :=
  if present then do
    let (bytes, input) ← readBlob input
    pure (some bytes, input)
  else pure (none, input)

/-- The layout a snapshot has, if it has one. -/
def snapshotLayout : Except Failure SnapshotLayout := do
  let timers := (ascii "FSP3").isPrefixOf input
  let delivery := (ascii "FSP2").isPrefixOf input
  refuseIf (¬timers ∧ ¬delivery ∧ ¬(ascii "FSP1").isPrefixOf input) (.runtime "unknown entity snapshot version")
  let (state, input) ← readBlob (input.drop 4)
  let (count, input) ← readNumber input
  refuseIf (count > 1024) (.runtime "invalid entity receipt count")
  let (receipts, input) ← readItems readReceipt count input
  let (delivery, input) ← readSnapshotFlag timers delivery input
  let (delivery, input) ← readPart delivery input
  let (timers, input) ← readPart timers input
  refuseIf (input ≠ []) (.runtime "trailing entity snapshot bytes")
  pure { state, receipts, delivery, timers }

/-- What a section holds; `empty` if it is not there. -/
def decodeSection {α : Type} (empty : α) (decode : Bytes → Except Failure α) : Option Bytes → Except Failure α
  | none => pure empty
  | some bytes => decode bytes

variable {input rest : Bytes} {layout : SnapshotLayout}

theorem skipFields_receipt : skipFields 4 input = .ok rest ↔ ∃ receipt, readReceipt input = .ok (receipt, rest) := by
  simp only [skipFields, readReceipt, bind_eq_ok, Prod.exists, pure_ok_iff, Prod.mk.injEq]
  constructor
  · rintro ⟨id, i₁, h₁, route, i₂, h₂, request, i₃, h₃, response, i₄, h₄, rfl⟩
    exact ⟨_, id, i₁, h₁, route, i₂, h₂, request, i₃, h₃, response, i₄, h₄, rfl, rfl⟩
  · rintro ⟨_, id, i₁, h₁, route, i₂, h₂, request, i₃, h₃, response, i₄, h₄, -, rfl⟩
    exact ⟨id, i₁, h₁, route, i₂, h₂, request, i₃, h₃, response, i₄, h₄, rfl⟩

theorem skipReceipts_eq_ok {count : Nat} :
    skipReceipts count input = .ok rest ↔ ∃ receipts, readItems readReceipt count input = .ok (receipts, rest) := by
  induction count generalizing input with
  | zero => simp [skipReceipts, readItems]
  | succ _ ih =>
    simp only [skipReceipts, readItems, bind_eq_ok, Prod.exists, pure_ok_iff, Prod.mk.injEq,
      skipFields_receipt, ih]
    constructor
    · rintro ⟨i₁, ⟨receipt, h₁⟩, receipts, h₂⟩
      exact ⟨_, receipt, i₁, h₁, receipts, rest, h₂, rfl, rfl⟩
    · rintro ⟨_, receipt, i₁, h₁, receipts, _, h₂, -, rfl⟩
      exact ⟨i₁, ⟨receipt, h₁⟩, receipts, h₂⟩

theorem skipPart_eq_ok {present : Bool} :
    skipPart present input = .ok rest ↔ ∃ part, readPart present input = .ok (part, rest) := by
  cases present with
  | false => simp [skipPart, readPart]
  | true =>
    simp only [skipPart, readPart, if_true, bind_eq_ok, Prod.exists, pure_ok_iff, Prod.mk.injEq]
    constructor
    · rintro ⟨bytes, i₁, h, rfl⟩
      exact ⟨some bytes, bytes, i₁, h, rfl, rfl⟩
    · rintro ⟨_, bytes, i₁, h, -, rfl⟩
      exact ⟨bytes, i₁, h, rfl⟩

/-- The check of the framing accepts what has a layout. -/
theorem validateSnapshotFraming_eq_ok :
    validateSnapshotFraming input = .ok () ↔ ∃ layout, snapshotLayout input = .ok layout := by
  simp only [validateSnapshotFraming, snapshotLayout, bind_eq_ok, Prod.exists, refuseIf_eq_ok, pure_ok_iff,
    skipReceipts_eq_ok, skipPart_eq_ok]
  constructor
  · rintro ⟨u, hv, state, i₁, h₁, count, i₂, h₂, u', hc, i₃, ⟨receipts, h₃⟩, flag, i₄, h₄, i₅, ⟨delivery, h₅⟩, i₆,
      ⟨timers, h₆⟩, hend⟩
    exact ⟨_, u, hv, state, i₁, h₁, count, i₂, h₂, u', hc, receipts, i₃, h₃, flag, i₄, h₄, delivery, i₅, h₅, timers, i₆,
      h₆, (), hend, rfl⟩
  · rintro ⟨_, u, hv, state, i₁, h₁, count, i₂, h₂, u', hc, receipts, i₃, h₃, flag, i₄, h₄, delivery, i₅,
      h₅, timers, i₆, h₆, -, hend, -⟩
    exact ⟨u, hv, state, i₁, h₁, count, i₂, h₂, u', hc, i₃, ⟨receipts, h₃⟩, flag, i₄, h₄, i₅, ⟨delivery, h₅⟩, i₆,
      ⟨timers, h₆⟩, hend⟩

/-! ## The full reader -/

theorem readSection_eq {α : Type} (empty : α) (decode : Bytes → Except Failure α) (present : Bool) (input : Bytes) :
    readSection empty decode present input = (do
      let (bytes, rest) ← readPart present input
      let part ← decodeSection empty decode bytes
      pure (part, rest)) := by
  cases present with
  | false => rfl
  | true => simp [readSection, readPart, decodeSection]

/-- Over a snapshot that has a layout, the reader fails only in a section. -/
theorem decodeSnapshot_of_layout (h : snapshotLayout input = .ok layout) :
    decodeSnapshot input = (do
      let delivery ← decodeSection {} decodeDeliveryState layout.delivery
      let timers ← decodeSection {} decodeEntityTimers layout.timers
      pure { state := layout.state, receipts := layout.receipts, delivery, timers }) := by
  simp only [snapshotLayout, bind_eq_ok, Prod.exists, refuseIf_eq_ok, pure_ok_iff] at h
  obtain ⟨u, hv, _, _, h₁, _, _, h₂, _, hc, _, _, h₃, _, _, h₄, _, _, h₅, _, _, h₆, -,
    hend, rfl⟩ := h
  unfold decodeSnapshot
  simp only [refuseIf_of_not _ hv, refuseIf_of_not _ hc, refuseIf_of_not _ hend, h₁, h₂, h₃, h₄, h₅, h₆,
    readDeliveryPart, readTimersPart, readSection_eq, ok_bind, bind_assoc, pure_bind]

theorem layout_of_decodeSnapshot {snapshot : EntitySnapshot} (h : decodeSnapshot input = .ok snapshot) :
    ∃ layout, snapshotLayout input = .ok layout := by
  simp only [decodeSnapshot, readDeliveryPart, readTimersPart, readSection_eq, bind_assoc, pure_eq_ok,
    ok_bind, bind_eq_ok, Prod.exists, refuseIf_eq_ok] at h
  obtain ⟨u, hv, state, _, h₁, _, _, h₂, _, hc, receipts, _, h₃, _, _, h₄, delivery, _, h₅, -, -, timers, _,
    h₆, -, -, -, hend, -⟩ := h
  refine ⟨⟨state, receipts, delivery, timers⟩, ?_⟩
  unfold snapshotLayout
  simp only [refuseIf_of_not _ hv, refuseIf_of_not _ hc, refuseIf_of_not _ hend, h₁, h₂, h₃, h₄, h₅, h₆,
    ok_bind, pure_eq_ok]

/-! ## The timer scan -/

/-- The scan reads the timers the full reader finds in the section. -/
theorem decodeSnapshotTimers_of_layout (h : snapshotLayout input = .ok layout) :
    decodeSnapshotTimers input = decodeSection {} decodeEntityTimers layout.timers := by
  have hframing := validateSnapshotFraming_eq_ok.2 ⟨layout, h⟩
  simp only [snapshotLayout, bind_eq_ok, Prod.exists, refuseIf_eq_ok, pure_ok_iff] at h
  obtain ⟨u, _, _, _, h₁, _, _, h₂, _, hc, receipts, i₃, h₃, flag, i₄, h₄, delivery, _, h₅, _, _, h₆, -,
    hend, rfl⟩ := h
  unfold decodeSnapshotTimers
  cases htag : (ascii "FSP3").isPrefixOf input with
  | false =>
    rw [htag] at h₆
    cases h₆
    rw [if_neg (by decide), hframing]
    rfl
  | true =>
    rw [htag] at h₄ h₆
    simp only [readPart, if_true, bind_eq_ok, Prod.exists] at h₆
    obtain ⟨bytes, _, h₆, heq⟩ := h₆
    cases heq
    -- the flag of this layout does not depend on the tag of the one before it
    have hflag : readSnapshotFlag true false i₃ = .ok (flag, i₄) := h₄
    rw [if_pos rfl]
    unfold readSnapshotTimers
    simp only [refuseIf_of_not _ hc, refuseIf_of_not _ hend, h₁, h₂, skipReceipts_eq_ok.2 ⟨receipts, h₃⟩, hflag,
      skipPart_eq_ok.2 ⟨delivery, h₅⟩, h₆, ok_bind, decodeSection]
    cases decodeEntityTimers bytes <;> rfl

/-! ## The readers agree -/

/-- The view shows the record, apart from its snapshot. -/
structure EntityRecordView.Shows (view : EntityRecordView) (record : EntityRecord) : Prop where
  owner : view.owner = record.owner
  expires : view.expires = record.expires
  fence : view.fence = record.fence
  initialized : view.initialized = record.initialized
  placement : view.placement = record.placement
  transferId : view.transferId = record.transferId
  metadata : view.metadata = record.metadata

/-- What a failure of the full reader comes from. -/
def SnapshotLayout.FailsWith (layout : SnapshotLayout) (e : Failure) : Prop :=
  (∃ bytes, layout.delivery = some bytes ∧ decodeDeliveryState bytes = .error e) ∨
    ∃ bytes, layout.timers = some bytes ∧ decodeEntityTimers bytes = .error e

theorem SnapshotLayout.failsWith_of_error {e : Failure} (h : snapshotLayout input = .ok layout)
    (he : decodeSnapshot input = .error e) : layout.FailsWith e := by
  have hsection : ∀ {α : Type} {empty : α} {decode : Bytes → Except Failure α} {part : Option Bytes},
      decodeSection empty decode part = .error e → ∃ bytes, part = some bytes ∧ decode bytes = .error e := by
    intro α empty decode part hp
    cases part with
    | none => cases hp
    | some bytes => exact ⟨bytes, rfl, hp⟩
  rw [decodeSnapshot_of_layout h] at he
  rcases bind_eq_error.1 he with hd | ⟨_, -, he⟩
  · exact .inl (hsection hd)
  · rcases bind_eq_error.1 he with ht | ⟨_, -, he⟩
    · exact .inr (hsection ht)
    · cases he

/-- The three readers over one string of bytes. -/
structure ReadersAgree (bytes : Bytes) : Prop where
  full : ∀ record, decodeEntityRecord bytes = .ok record → ∃ view, decodeEntityRecordView bytes = .ok view ∧
    view.Shows record ∧ decodeSnapshotTimers view.snapshot = .ok record.snapshot.timers
  view : ∀ view, decodeEntityRecordView bytes = .ok view → ∃ layout, snapshotLayout view.snapshot = .ok layout ∧
    ∀ e, decodeEntityRecord bytes = .error e → layout.FailsWith e

/-- Routing and the timer scan see what the full reader sees, and accept no more than
what a wrong delivery or timer section may spoil. -/
theorem record_readers_agree (bytes : Bytes) : ReadersAgree bytes := by
  refine ⟨fun _ h => ?_, fun view h => ?_⟩
  · simp only [decodeEntityRecord, bind_eq_ok, Prod.exists, pure_ok_iff] at h
    obtain ⟨header, tail, hheader, snapshot, hsnapshot, rfl⟩ := h
    obtain ⟨layout, hlayout⟩ := layout_of_decodeSnapshot hsnapshot
    have htimers : decodeSection {} decodeEntityTimers layout.timers = .ok snapshot.timers := by
      rw [decodeSnapshot_of_layout hlayout] at hsnapshot
      simp only [bind_eq_ok, pure_ok_iff] at hsnapshot
      obtain ⟨_, -, _, ht, rfl⟩ := hsnapshot
      exact ht
    refine ⟨header.view tail, ?_, ⟨rfl, rfl, rfl, rfl, rfl, rfl, rfl⟩, ?_⟩
    · simp only [decodeEntityRecordView, hheader, validateSnapshotFraming_eq_ok.2 ⟨layout, hlayout⟩,
        ok_bind, pure_eq_ok]
    · exact (decodeSnapshotTimers_of_layout hlayout).trans htimers
  · simp only [decodeEntityRecordView, bind_eq_ok, Prod.exists, pure_ok_iff] at h
    obtain ⟨_, _, hheader, _, hframing, rfl⟩ := h
    obtain ⟨layout, hlayout⟩ := validateSnapshotFraming_eq_ok.1 hframing
    refine ⟨layout, hlayout, fun e he => SnapshotLayout.failsWith_of_error hlayout ?_⟩
    simp only [decodeEntityRecord, hheader, ok_bind] at he
    rcases bind_eq_error.1 he with he | ⟨_, -, he⟩
    · exact he
    · cases he

end Fsnet
