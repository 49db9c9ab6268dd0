import Fsnet.Entity.Frame
/-!
# Delivery state

What an entity keeps for durable delivery: the counters of the channels it
sends on, the cursor of every channel it receives on, and its outbox. A channel
is one entity instance seen from another: its key and the epoch of the
instance. `hash` stands for the SHA-256 digest.
-/

namespace Fsnet

open Lib

def deliveryPayloadLimit : Nat := 65536

structure DeliveryMessage where
  ticket : Bytes
  type : Bytes
  id : Bytes
  method : Bytes
  payload : Bytes
  targetEpoch : UInt64
  sequence : UInt64
  done : Bool := false
  result : Result := ⟨.ok, []⟩
  deriving DecidableEq

/-- The last outcome of a channel. -/
structure DeliveryCursor where
  sequence : UInt64
  digest : Bytes
  result : Result
  deriving DecidableEq

structure EntityDeliveryState where
  epoch : UInt64 := 0
  sent : OrdMap Bytes UInt64 := .empty
  inbox : OrdMap Bytes DeliveryCursor := .empty
  outbox : List DeliveryMessage := []

structure DeliveryEnvelope where
  sourceType : Bytes
  sourceId : Bytes
  sourceEpoch : UInt64
  message : DeliveryMessage
  deriving DecidableEq

/-! ## Results and messages on the wire -/

def encodeResult (value : Result) : Except Failure Bytes := do
  refuseIf (value.data.length > deliveryPayloadLimit) (.invalid "invalid delivery result")
  let data ← blob value.data
  pure (bigEndian 1 value.status.code ++ data)

def statusOfCode : Nat → Option Status
  | 0 => some .ok
  | 1 => some .notFound
  | 2 => some .overloaded
  | 3 => some .timeout
  | 4 => some .disconnected
  | 5 => some .rejected
  | 6 => some .internal
  | _ => none

def readStatus (input : Bytes) : Except Failure (Status × Bytes) :=
  match input with
  | [] => throw (.invalid "invalid delivery status")
  | b :: rest =>
    match statusOfCode b.toNat with
    | some status => pure (status, rest)
    | none => throw (.invalid "invalid delivery status")

def readResult (input : Bytes) : Except Failure (Result × Bytes) := do
  let (status, input) ← readStatus input
  let (data, input) ← readBlob input
  refuseIf (data.length > deliveryPayloadLimit) (.invalid "delivery result too large")
  pure (⟨status, data⟩, input)

/-- `entity_route`, for its check. -/
def checkEntityRoute (type method : Bytes) : Except Failure Unit :=
  refuseIf (validRoutePart type = false ∨ validRoutePart method = false) (.invalid "invalid entity route")

def encodeMessage (m : DeliveryMessage) : Except Failure Bytes := do
  checkEntityRoute m.type m.method
  let key ← encodeEntityKey m.type m.id
  refuseIf (m.method.head? = some 0x24 ∨ m.targetEpoch = 0 ∨ m.sequence = 0 ∨ m.ticket.length ≠ 64 ∨
    m.payload.length > deliveryPayloadLimit) (.invalid "invalid delivery message")
  let ticket ← blob m.ticket
  let method ← blob m.method
  let payload ← blob m.payload
  let result ← encodeResult m.result
  pure (ticket ++ key ++ method ++ payload ++ integer m.targetEpoch ++ integer m.sequence ++
    [if m.done then 1 else 0] ++ result)

def readDone (input : Bytes) : Except Failure (Bool × Bytes) :=
  match input with
  | [] => throw (.invalid "invalid delivery phase")
  | b :: rest => do
    refuseIf (b.toNat > 1) (.invalid "invalid delivery phase")
    pure (b ≠ 0, rest)

def readMessage (input : Bytes) : Except Failure (DeliveryMessage × Bytes) := do
  let (ticket, input) ← readBlob input
  let (type, id, input) ← decodeEntityKey input
  let (method, input) ← readBlob input
  let (payload, input) ← readBlob input
  let (targetEpoch, input) ← readInteger input
  let (sequence, input) ← readInteger input
  let (done, input) ← readDone input
  let (result, input) ← readResult input
  let m : DeliveryMessage := { ticket, type, id, method, payload, targetEpoch, sequence, done, result }
  let _ ← encodeMessage m
  pure (m, input)

/-! ## Envelopes -/

/-- The fields of an envelope, as `decode_delivery` reads them after the tag. -/
def readEnvelope (input : Bytes) : Except Failure (DeliveryEnvelope × Bytes) := do
  let (sourceType, sourceId, input) ← decodeEntityKey input
  let (sourceEpoch, input) ← readInteger input
  let (message, input) ← readMessage input
  pure ({ sourceType, sourceId, sourceEpoch, message }, input)

def deliveryChannel (type id : Bytes) (epoch : UInt64) : Except Failure Bytes := do
  refuseIf (epoch = 0) (.invalid "missing channel epoch")
  let key ← encodeEntityKey type id
  pure (key ++ integer epoch)

section
variable (hash : Bytes → Bytes)

def deliveryTicket (e : DeliveryEnvelope) : Except Failure Bytes := do
  let source ← deliveryChannel e.sourceType e.sourceId e.sourceEpoch
  let target ← deliveryChannel e.message.type e.message.id e.message.targetEpoch
  pure (hex (hash (source ++ target ++ integer e.message.sequence)))

def encodeDelivery (e : DeliveryEnvelope) : Except Failure Bytes := do
  refuseIf (e.sourceEpoch = 0 ∨ e.message.done = true) (.invalid "invalid pending delivery")
  let key ← encodeEntityKey e.sourceType e.sourceId
  let message ← encodeMessage e.message
  pure (ascii "FSD1" ++ key ++ integer e.sourceEpoch ++ message)

def decodeDelivery (input : Bytes) : Except Failure DeliveryEnvelope := do
  refuseIf (¬(ascii "FSD1").isPrefixOf input ∨ input.length > deliveryPayloadLimit * 3)
    (.invalid "invalid delivery envelope")
  let (e, input) ← readEnvelope (input.drop 4)
  refuseIf (input ≠ []) (.invalid "trailing delivery bytes")
  refuseIf (e.sourceEpoch = 0 ∨ e.message.done = true) (.invalid "invalid delivery ticket")
  let ticket ← deliveryTicket hash e
  refuseIf (ticket ≠ e.message.ticket) (.invalid "invalid delivery ticket")
  pure e

def deliveryDigest (e : DeliveryEnvelope) : Except Failure Bytes := do
  let bytes ← encodeDelivery e
  pure (hex (hash bytes))

end

/-! ## Acknowledgements -/

def encodeDeliveryAck (ticket : Bytes) (value : Result) : Except Failure Bytes := do
  refuseIf (ticket.length ≠ 64) (.invalid "invalid delivery ACK")
  let field ← blob ticket
  let result ← encodeResult value
  pure (ascii "FDA1" ++ field ++ result)

def decodeDeliveryAck (input : Bytes) : Except Failure (Bytes × Result) := do
  refuseIf (¬(ascii "FDA1").isPrefixOf input ∨ input.length > deliveryPayloadLimit + 128)
    (.invalid "invalid delivery ACK")
  let (ticket, input) ← readBlob (input.drop 4)
  let (value, input) ← readResult input
  refuseIf (input ≠ []) (.invalid "trailing delivery bytes")
  refuseIf (ticket.length ≠ 64) (.invalid "invalid ACK ticket")
  pure (ticket, value)

/-! ## The state on the wire -/

/-- `channel_key`: a channel and nothing after it. -/
def checkChannelKey (key : Bytes) : Except Failure Unit := do
  let (_, _, input) ← decodeEntityKey key
  let (epoch, input) ← readInteger input
  refuseIf (epoch = 0) (.invalid "missing channel epoch")
  refuseIf (input ≠ []) (.invalid "trailing delivery bytes")

def encodeSent : List (Bytes × UInt64) → Except Failure Bytes
  | [] => pure []
  | (key, n) :: rest => do
    checkChannelKey key
    refuseIf (n = 0) (.invalid "missing sequence")
    let field ← blob key
    let tail ← encodeSent rest
    pure (field ++ integer n ++ tail)

def encodeInbox : List (Bytes × DeliveryCursor) → Except Failure Bytes
  | [] => pure []
  | (key, c) :: rest => do
    checkChannelKey key
    refuseIf (c.sequence = 0 ∨ c.digest.length ≠ 64) (.invalid "invalid inbox cursor")
    let field ← blob key
    let digest ← blob c.digest
    let result ← encodeResult c.result
    let tail ← encodeInbox rest
    pure (field ++ integer c.sequence ++ digest ++ result ++ tail)

/-- The loop over the outbox; `tickets` are those already written. -/
def encodeOutbox : List Bytes → List DeliveryMessage → Except Failure Bytes
  | _, [] => pure []
  | tickets, m :: rest => do
    refuseIf (tickets.contains m.ticket) (.invalid "duplicate delivery ticket")
    let message ← encodeMessage m
    let tail ← encodeOutbox (m.ticket :: tickets) rest
    pure (message ++ tail)

def encodeDeliveryState (s : EntityDeliveryState) : Except Failure Bytes := do
  refuseIf (s.epoch = 0 ∨ s.sent.size > 4096 ∨ s.inbox.size > 4096 ∨ s.outbox.length > 1024)
    (.invalid "invalid delivery state")
  let sent ← encodeSent s.sent.entries
  let inbox ← encodeInbox s.inbox.entries
  let outbox ← encodeOutbox [] s.outbox
  let out := ascii "FDS1" ++ integer s.epoch ++ number s.sent.size ++ sent ++ number s.inbox.size ++ inbox ++
    number s.outbox.length ++ outbox
  refuseIf (out.length > 8 * 1024 * 1024) (.length "delivery state too large")
  pure out

/-- The size of the state with room reserved for the result of every pending message. -/
def deliveryCharge (s : EntityDeliveryState) : Except Failure Nat :=
  if s.epoch = 0 then pure 0
  else do
    let bytes ← encodeDeliveryState s
    pure (bytes.length + (s.outbox.filter (!·.done)).length * deliveryPayloadLimit)

/-- The sources a worker scans, in registration order. -/
abbrev DeliverySources := List (Bytes × Bytes)

def encodeSourceKeys : DeliverySources → Except Failure Bytes
  | [] => pure []
  | (type, id) :: rest => do
    let key ← encodeEntityKey type id
    let tail ← encodeSourceKeys rest
    pure (key ++ tail)

def encodeDeliverySources (sources : DeliverySources) : Except Failure Bytes := do
  refuseIf (sources.length > 65536) (.length "delivery registry full")
  let keys ← encodeSourceKeys sources
  pure (ascii "FDR1" ++ number sources.length ++ keys)

/-! ## Reading back -/

theorem readStatus_wire (status : Status) (rest : Bytes) :
    readStatus (bigEndian 1 status.code ++ rest) = .ok (status, rest) := by
  cases status <;> rfl

variable {out : Bytes} {e : DeliveryEnvelope}

theorem encodeResult_eq_ok {value : Result} (h : encodeResult value = .ok out) :
    value.data.length ≤ deliveryPayloadLimit ∧
      out = bigEndian 1 value.status.code ++ (number value.data.length ++ value.data) := by
  unfold encodeResult at h
  rw [refuseIf_bind_eq_ok, bind_eq_ok] at h
  obtain ⟨hl, data, hd, ho⟩ := h
  rw [(blob_eq_ok hd).2] at ho
  exact ⟨by omega, (Except.ok.inj ho).symm⟩

theorem readResult_wire {value : Result} (h : encodeResult value = .ok out) (rest : Bytes) :
    readResult (out ++ rest) = .ok (value, rest) := by
  obtain ⟨hl, rfl⟩ := encodeResult_eq_ok h
  have hlt : value.data.length < 2 ^ 32 := by unfold deliveryPayloadLimit at hl; omega
  unfold readResult
  simp only [List.append_assoc, readStatus_wire, ok_bind, readBlob_wire hlt]
  rw [refuseIf_of_not _ (by omega)]
  rfl

theorem readDone_wire (done : Bool) (rest : Bytes) : readDone ([if done then 1 else 0] ++ rest) = .ok (done, rest) := by
  cases done <;> rfl

theorem encodeMessage_eq_ok {m : DeliveryMessage} (h : encodeMessage m = .ok out) :
    m.ticket.length < 2 ^ 32 ∧ m.method.length < 2 ^ 32 ∧ m.payload.length < 2 ^ 32 ∧
      ∃ key result, encodeEntityKey m.type m.id = .ok key ∧ encodeResult m.result = .ok result ∧
        out = (number m.ticket.length ++ m.ticket) ++ key ++ (number m.method.length ++ m.method) ++
          (number m.payload.length ++ m.payload) ++ integer m.targetEpoch ++ integer m.sequence ++
          [if m.done then 1 else 0] ++ result := by
  unfold encodeMessage at h
  simp only [bind_eq_ok] at h
  obtain ⟨_, -, key, hkey, _, -, _, ht, _, hm, _, hp, result, hr, ho⟩ := h
  obtain ⟨htl, rfl⟩ := blob_eq_ok ht
  obtain ⟨hml, rfl⟩ := blob_eq_ok hm
  obtain ⟨hpl, rfl⟩ := blob_eq_ok hp
  exact ⟨htl, hml, hpl, key, result, hkey, hr, (Except.ok.inj ho).symm⟩

theorem readMessage_wire {m : DeliveryMessage} (h : encodeMessage m = .ok out) (rest : Bytes) :
    readMessage (out ++ rest) = .ok (m, rest) := by
  obtain ⟨ht, hm, hp, _, _, hkey, hr, rfl⟩ := encodeMessage_eq_ok h
  unfold readMessage
  simp only [List.append_assoc, readBlob_wire ht, ok_bind, decodeEntityKey_wire hkey, readBlob_wire hm,
    readBlob_wire hp, readInteger_wire, readDone_wire, readResult_wire hr, h, pure_eq_ok]

theorem readEnvelope_wire (h : encodeDelivery e = .ok out) : readEnvelope (out.drop 4) = .ok (e, []) := by
  simp only [encodeDelivery, bind_eq_ok] at h
  obtain ⟨_, -, key, hkey, message, hm, ho⟩ := h
  cases ho
  have hdrop : (ascii "FSD1" ++ key ++ integer e.sourceEpoch ++ message).drop 4 =
      key ++ (integer e.sourceEpoch ++ (message ++ [])) := by
    simp only [List.append_assoc, List.append_nil]
    rfl
  rw [hdrop]
  unfold readEnvelope
  simp only [decodeEntityKey_wire hkey, ok_bind, readInteger_wire, readMessage_wire hm, pure_eq_ok]

/-- The bytes of an envelope determine it. -/
theorem encodeDelivery_inj {e' : DeliveryEnvelope} (h : encodeDelivery e = .ok out)
    (h' : encodeDelivery e' = .ok out) : e = e' := by
  have := readEnvelope_wire h
  rw [readEnvelope_wire h'] at this
  exact (Prod.mk.inj (Except.ok.inj this)).1.symm

end Fsnet
