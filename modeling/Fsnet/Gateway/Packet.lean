import Fsnet.Delivery.State
/-!
# Replication packets

What an owner node sends about a subscription, and what the gateway reads of
it: the header of the update, never its values. Forwarding rewrites the eight
bytes of the subscription id and nothing else, so the client decodes the same
packet under the other id.
-/

namespace Fsnet

open Lib List

structure ReplicationUpdateHeader where
  base : UInt64
  revision : UInt64
  snapshot : Bool
  deriving DecidableEq, Repr

structure ReplicationPacketView where
  subscription : Nat
  type : Bytes
  id : Bytes
  status : Status
  lease : Nat
  update : Option ReplicationUpdateHeader
  deriving DecidableEq, Repr

def readStatusCode (input : Bytes) : Except Failure (Status × Bytes) := do
  let (code, input) ← readUint (.invalid "truncated replication frame") input 1
  match statusOfCode code with
  | some status => pure (status, input)
  | none => throw (.invalid "invalid replication status")

/-- The fields in front of the attributes, and the attributes' bytes. -/
def readPacketHead (input : Bytes) : Except Failure (ReplicationPacketView × Bytes) := do
  refuseIf (input.length > 1024 * 1024 ∨ ¬(ascii "FSN1").isPrefixOf input) (.invalid "invalid replication packet")
  let (status, input) ← readStatusCode (input.drop 4)
  let (subscription, input) ← readUint (.invalid "truncated replication frame") input 8
  refuseIf (subscription = 0) (.invalid "invalid subscription")
  let (lease, input) ← readUint (.invalid "truncated replication frame") input 4
  let (type, id, input) ← decodeEntityKey input
  pure (⟨subscription, type, id, status, lease, none⟩, input)

def decodeReplicationPacketView (input : Bytes) : Except Failure ReplicationPacketView := do
  let (packet, input) ← readPacketHead input
  if packet.status = .ok then do
    let update ← decodeAttributes input
    pure { packet with update := some ⟨update.base, update.revision, update.snapshot⟩ }
  else do
    refuseIf (input ≠ []) (.invalid "trailing revocation bytes")
    pure packet

/-- A packet without attributes, or with them for `ok`. -/
def encodeReplicationPacket (subscription : Nat) (type id : Bytes) (status : Status) (update : Option AttributeUpdate)
    (lease : Nat) : Except Failure Bytes := do
  let key ← encodeEntityKey type id
  let head := ascii "FSN1" ++ bigEndian 1 status.code ++ bigEndian 8 subscription ++ bigEndian 4 lease ++ key
  if status = .ok then
    match update with
    | none => throw (.invalid "missing property update")
    | some update => do
      let body ← encodeAttributes update
      pure (head ++ body)
  else pure head

/-- `remap_replication_subscription`: the id is written over, `skip` bytes in. -/
def remapReplicationSubscription (packet : Bytes) (id skip : Nat) : Except Failure Bytes := do
  refuseIf (id % 2 ^ 64 = 0 ∨ skip > packet.length ∨ packet.length - skip < 17 ∨
    (packet.drop skip).take 4 ≠ ascii "FSN1") (.invalid "invalid replication remap")
  pure (packet.take (skip + 5) ++ bigEndian 8 id ++ packet.drop (skip + 13))

/-! ## Calls of entities -/

/-- What the gateway reads of a call: the entity, the method and the type it expects. -/
structure EntityCallView where
  id : UInt64
  method : Bytes
  requestId : Bytes
  expectedType : Bytes
  payload : Bytes
  deriving DecidableEq, Repr

/-- A length byte and that many bytes, at least one and at most `maximum`. -/
def readText (maximum : Nat) (input : Bytes) : Option (Bytes × Bytes) :=
  match input with
  | [] => none
  | n :: rest =>
    if n = 0 ∨ n.toNat > maximum ∨ n.toNat > rest.length then none else some (rest.take n.toNat, rest.drop n.toNat)

/-- A text that is there if its flag is set. -/
def readOptionalText (present : Bool) (maximum : Nat) (input : Bytes) : Option (Bytes × Bytes) :=
  if present then readText maximum input else some ([], input)

def parseEntityCallView (input : Bytes) : Option EntityCallView := do
  guard (15 ≤ input.length ∧ (ascii "FSE3").isPrefixOf input = true)
  let id := ofBigEndian ((input.drop 4).take 8)
  guard (id ≠ 0)
  let flags ← (input.drop 12).head?
  guard (flags.toNat ≤ 3)
  let (method, input) ← readText 127 (input.drop 13)
  guard (validEntityMethod method = true)
  let (requestId, input) ← readOptionalText (flags &&& 1 ≠ 0) 128 input
  let (expectedType, input) ← readOptionalText (flags &&& 2 ≠ 0) 127 input
  guard (expectedType.contains 0x2e = false ∧ expectedType.contains 0 = false)
  pure ⟨UInt64.ofNat id, method, requestId, expectedType, input⟩

/-- `EntityId::str`: sixteen hexadecimal digits. -/
def entityIdText (id : UInt64) : Bytes :=
  let digit (d : UInt8) : UInt8 := if d < 10 then d + 48 else d + 87
  (bigEndian 8 id.toNat).flatMap fun (b : UInt8) => [digit (b >>> 4), digit (b &&& 15)]

/-! ## What a rewritten packet decodes to -/

variable {body data out : Bytes} {packet : ReplicationPacketView} {id : Nat}

/-- A packet that decodes has its tag, its status and its id in front. -/
theorem packet_shape (h : readPacketHead data = .ok (packet, body)) :
    ∃ status eight tail, data = ascii "FSN1" ++ ([status] ++ (eight ++ tail)) ∧ eight.length = 8 := by
  unfold readPacketHead readStatusCode readUint at h
  simp only [bind_eq_ok, refuseIf_eq_ok, Prod.exists, not_or, not_not, pure_eq_ok] at h
  obtain ⟨_, ⟨-, htag⟩, status, afterStatus, ⟨code, afterCode, ⟨_, h1, hcode⟩, hstatus⟩, id, afterId,
    ⟨_, h8, -⟩, -⟩ := h
  obtain ⟨rest, rfl⟩ := isPrefixOf_iff_prefix.1 htag
  obtain ⟨-, rfl⟩ := Prod.mk.inj (Except.ok.inj hcode)
  have hdrop : (ascii "FSN1" ++ rest).drop 4 = rest := rfl
  rw [hdrop] at h1 hstatus
  cases rest with
  | nil => simp at h1
  | cons b rest =>
    have hafter : afterStatus = rest := by
      split at hstatus
      · exact (Prod.mk.inj (Except.ok.inj hstatus)).2.symm
      · cases hstatus
    subst hafter
    refine ⟨b, afterStatus.take 8, afterStatus.drop 8, ?_, ?_⟩
    · rw [take_append_drop]
      rfl
    · rw [length_take]
      omega

/-- Rewriting the id changes the decoded id and leaves the rest of the packet. -/
theorem readPacketHead_remap
    (h : readPacketHead data = .ok (packet, body)) (ho : remapReplicationSubscription data id 0 = .ok out) :
    readPacketHead out = .ok ({ packet with subscription := id % 2 ^ 64 }, body) := by
  obtain ⟨status, eight, tail, rfl, h8⟩ := packet_shape h
  unfold remapReplicationSubscription at ho
  rw [refuseIf_bind_eq_ok] at ho
  obtain ⟨hid, ho⟩ := ho
  rw [not_or] at hid
  have hout : out = ascii "FSN1" ++ ([status] ++ (bigEndian 8 id ++ tail)) := by
    rw [← Except.ok.inj ho]
    have htake : (ascii "FSN1" ++ ([status] ++ (eight ++ tail))).take (0 + 5) = ascii "FSN1" ++ [status] := rfl
    have hdrop : (ascii "FSN1" ++ ([status] ++ (eight ++ tail))).drop (0 + 13) = tail := by
      show (eight ++ tail).drop 8 = tail
      exact drop_left' h8
    rw [htake, hdrop, append_assoc, append_assoc]
  have hlen : out.length = (ascii "FSN1" ++ ([status] ++ (eight ++ tail))).length := by
    simp [hout, h8]
  have hread : ofBigEndian (bigEndian 8 id) = id % 2 ^ 64 := by
    rw [ofBigEndian_bigEndian]
    norm_num
  unfold readPacketHead at h ⊢
  rw [hlen]
  rw [hout]
  have htag : ∀ rest : Bytes, (ascii "FSN1" ++ rest).drop 4 = rest := by
    intro rest
    rfl
  simp only [isPrefixOf_tag, htag] at h ⊢
  rw [refuseIf_bind_eq_ok] at h
  rw [refuseIf_of_not _ h.1, ok_bind]
  have h := h.2
  unfold readStatusCode at h ⊢
  simp only [readUint_append _ (show [status].length = 1 from rfl), ok_bind] at h ⊢
  split at h
  · simp only [pure_eq_ok, ok_bind, readUint_append _ h8, readUint_append _ (bigEndian_length 8 id), hread] at h ⊢
    rw [refuseIf_bind_eq_ok] at h
    rw [refuseIf_of_not _ hid.1, ok_bind]
    have h := h.2
    simp only [bind_eq_ok, Prod.exists] at h ⊢
    obtain ⟨lease, after, hl, type, key, rest, hk, hp⟩ := h
    refine ⟨lease, after, hl, type, key, rest, hk, ?_⟩
    obtain ⟨rfl, rfl⟩ := Prod.mk.inj (Except.ok.inj hp)
    rfl
  · cases h

theorem decode_remap
    (h : decodeReplicationPacketView data = .ok packet) (ho : remapReplicationSubscription data id 0 = .ok out) :
    decodeReplicationPacketView out = .ok { packet with subscription := id % 2 ^ 64 } := by
  unfold decodeReplicationPacketView at h ⊢
  simp only [bind_eq_ok, Prod.exists] at h ⊢
  obtain ⟨head, body, hh, h⟩ := h
  refine ⟨_, body, readPacketHead_remap hh ho, ?_⟩
  dsimp only
  split at h
  · rename_i hok
    rw [if_pos hok]
    simp only [bind_eq_ok] at h ⊢
    obtain ⟨update, hu, hp⟩ := h
    exact ⟨update, hu, by rw [← Except.ok.inj hp]; rfl⟩
  rename_i hok
  rw [if_neg hok]
  rw [refuseIf_bind_eq_ok] at h ⊢
  exact ⟨h.1, by rw [← Except.ok.inj h.2]; rfl⟩

/-- The two bytes in front of a presence stay. -/
theorem remap_presence {kind flags : UInt8} (h : remapReplicationSubscription (kind :: flags :: body) id 2 = .ok out) :
    ∃ rest, out = kind :: flags :: rest ∧ remapReplicationSubscription body id 0 = .ok rest := by
  unfold remapReplicationSubscription at h ⊢
  rw [refuseIf_bind_eq_ok] at h
  obtain ⟨hc, hout⟩ := h
  refine ⟨body.take 5 ++ bigEndian 8 id ++ body.drop 13, (Except.ok.inj hout).symm, ?_⟩
  rw [refuseIf_of_not _ (by simpa using hc)]
  rfl

/-! ## Packets that end a subscription -/

theorem readStatusCode_wire (status : Status) (rest : Bytes) :
    readStatusCode (bigEndian 1 status.code ++ rest) = .ok (status, rest) := by
  have hcode : ofBigEndian (bigEndian 1 status.code) = status.code := by
    cases status <;> rfl
  unfold readStatusCode
  rw [readUint_append _ (bigEndian_length 1 status.code), ok_bind, hcode]
  cases status <;> rfl

theorem readPacketHead_status {status : Status} {rest : Bytes} {head : ReplicationPacketView}
    (h : readPacketHead (ascii "FSN1" ++ (bigEndian 1 status.code ++ rest)) = .ok (head, body)) :
    head.status = status ∧ head.update = none := by
  have htag : (ascii "FSN1" ++ (bigEndian 1 status.code ++ rest)).drop 4 = bigEndian 1 status.code ++ rest := rfl
  unfold readPacketHead at h
  rw [htag, readStatusCode_wire] at h
  simp only [ok_bind, bind_eq_ok, Prod.exists, refuseIf_eq_ok, pure_eq_ok] at h
  obtain ⟨_, -, _, _, -, _, -, _, _, -, _, _, _, -, h⟩ := h
  rw [← (Prod.mk.inj (Except.ok.inj h)).1]
  exact ⟨rfl, rfl⟩

/-- A packet that ends a subscription has no attributes. -/
theorem decode_revocation {subscription lease : Nat} {type id : Bytes} {status : Status}
    (h : encodeReplicationPacket subscription type id status none lease = .ok body)
    (hp : decodeReplicationPacketView body = .ok packet) : packet.update = none := by
  unfold encodeReplicationPacket at h
  simp only [bind_eq_ok] at h
  obtain ⟨key, -, h⟩ := h
  split at h
  · cases h
  rename_i hstatus
  rw [← Except.ok.inj h] at hp
  unfold decodeReplicationPacketView at hp
  simp only [append_assoc, bind_eq_ok, Prod.exists] at hp
  obtain ⟨_, _, hhead, hp⟩ := hp
  obtain ⟨hs, hu⟩ := readPacketHead_status hhead
  rw [if_neg (hs ▸ hstatus), refuseIf_bind_eq_ok] at hp
  rw [← Except.ok.inj hp.2]
  exact hu

end Fsnet
