import Fsnet.Attributes.Accepting
import Fsnet.Gateway.Packet
/-!
# Replication packets, whole

The client decodes the values of a packet too. The record of the attributes has
its own bound of 1 MiB, and the decoder bounds the packet around it by the same
number: what the encoder writes is read back exactly if the header still fits.
-/

namespace Fsnet

open Lib AttributeValue List

structure ReplicationPacket where
  subscription : UInt64
  type : Bytes
  id : Bytes
  status : Status
  lease : UInt32
  update : Option AttributeUpdate

namespace ReplicationPacket

/-- `decode_replication_packet`. -/
def decode (input : Bytes) : Except Failure ReplicationPacket := do
  let (header, input) ← readPacketHead input
  let packet : ReplicationPacket :=
    ⟨UInt64.ofNat header.subscription, header.type, header.id, header.status, UInt32.ofNat header.lease, none⟩
  if packet.status = .ok then do
    let update ← decodeAttributes input
    pure { packet with update := some update }
  else do
    refuseIf (input ≠ []) (.invalid "trailing revocation bytes")
    pure packet

variable (packet : ReplicationPacket)

/-- `encode_replication_packet` of the fields. -/
def encode : Except Failure Bytes :=
  encodeReplicationPacket packet.subscription.toNat packet.type packet.id packet.status packet.update packet.lease.toNat

/-- What a forwarder keeps of the packet. -/
def view : ReplicationPacketView :=
  ⟨packet.subscription.toNat, packet.type, packet.id, packet.status, packet.lease.toNat,
    packet.update.map fun update => ⟨update.base, update.revision, update.snapshot⟩⟩

/-- Both decoders return the packet. -/
structure ReadFrom (packet : ReplicationPacket) (bytes : Bytes) : Prop where
  whole : decode bytes = .ok packet
  header : decodeReplicationPacketView bytes = .ok packet.view

/-- The packet is read back, and after a remap it is read back under the other id. -/
def RoundTrips : Prop :=
  ∃ bytes, packet.encode = .ok bytes ∧ packet.ReadFrom bytes ∧
    ∀ other : UInt64, other ≠ 0 → ∃ out, remapReplicationSubscription bytes other.toNat 0 = .ok out ∧
      { packet with subscription := other }.ReadFrom out

/-! ## What is read of what is written -/

/-- The fields in front of the attributes. -/
def head : Bytes :=
  ascii "FSN1" ++ (bigEndian 1 packet.status.code ++ (bigEndian 8 packet.subscription.toNat ++
    (bigEndian 4 packet.lease.toNat ++
      (bigEndian 1 packet.type.length ++ packet.type ++ (bigEndian 2 packet.id.length ++ packet.id)))))

theorem head_length :
    packet.head.length = 20 + packet.type.length + packet.id.length := by
  have htag : (ascii "FSN1").length = 4 := rfl
  simp only [head, length_append, bigEndian_length, htag]
  omega

variable {packet : ReplicationPacket}

/-- The header is read back as long as the whole packet stays within the bound. -/
theorem readPacketHead_head (hid : packet.subscription ≠ 0) (hkey : validKeyPair packet.type packet.id = true)
    {body : Bytes} (hsize : packet.head.length + body.length ≤ 1024 * 1024) :
    readPacketHead (packet.head ++ body) = .ok ({ packet.view with update := none }, body) := by
  have hkeys : encodeEntityKey packet.type packet.id =
      .ok (bigEndian 1 packet.type.length ++ packet.type ++ (bigEndian 2 packet.id.length ++ packet.id)) := by
    unfold encodeEntityKey
    rw [refuseIf_of_not _ (by simp [hkey])]
    rfl
  have hdrop : ∀ rest : Bytes, (ascii "FSN1" ++ rest).drop 4 = rest := fun _ => rfl
  have hne : packet.subscription.toNat ≠ 0 := fun h => hid (UInt64.toNat_inj.1 h)
  unfold readPacketHead
  rw [refuseIf_of_not _ (by
    rw [length_append, not_or, not_not]
    exact ⟨by omega, by rw [head, append_assoc]; exact isPrefixOf_tag _ _⟩), ok_bind]
  simp only [head, append_assoc, hdrop]
  rw [readStatusCode_wire]
  simp only [ok_bind]
  rw [readUint_wire _ packet.subscription.toNat_lt]
  simp only [ok_bind]
  rw [refuseIf_of_not _ hne, ok_bind, readUint_wire _ packet.lease.toNat_lt]
  simp only [ok_bind]
  have hread := decodeEntityKey_wire hkeys body
  simp only [append_assoc] at hread
  rw [hread]
  rfl

/-- What the encoder writes: the header, and for `ok` the record of the update. -/
theorem encode_eq (hkey : validKeyPair packet.type packet.id = true) :
    packet.encode = if packet.status = .ok then
      match packet.update with
      | none => .error (.invalid "missing property update")
      | some update => (encodeAttributes update).map (packet.head ++ ·)
    else .ok packet.head := by
  unfold encode encodeReplicationPacket encodeEntityKey
  rw [refuseIf_of_not _ (by simp [hkey])]
  have hhead : ascii "FSN1" ++ bigEndian 1 packet.status.code ++ bigEndian 8 packet.subscription.toNat ++
      bigEndian 4 packet.lease.toNat ++
        (bigEndian 1 packet.type.length ++ packet.type ++ (bigEndian 2 packet.id.length ++ packet.id)) =
      packet.head := by
    simp only [head, append_assoc]
  simp only [ok_bind, pure_eq_ok, hhead]
  split
  · cases packet.update with
    | none => rfl
    | some update => cases encodeAttributes update <;> rfl
  · rfl

/-- A packet with attributes has the length of its header and of their record. -/
theorem encode_length {update : AttributeUpdate} (hkey : validKeyPair packet.type packet.id = true)
    (hs : packet.status = .ok) (hu : packet.update = some update) (h : Accepted update) :
    ∃ bytes, packet.encode = .ok bytes ∧
      bytes.length = 20 + packet.type.length + packet.id.length + (4 + (updateBody update).length) := by
  refine ⟨packet.head ++ (updateTag update ++ updateBody update), ?_, ?_⟩
  · rw [encode_eq hkey, if_pos hs, hu]
    simp only [encodeAttributes_eq_ok.2 ⟨h, rfl⟩, Except.map]
  · rw [length_append, head_length, length_append, updateTag_length]

/-- Both decoders refuse what is over the bound. -/
theorem refused_of_length {bytes : Bytes} (h : bytes.length > 1024 * 1024) :
    decode bytes = .error (.invalid "invalid replication packet") ∧
      decodeReplicationPacketView bytes = .error (.invalid "invalid replication packet") := by
  have hhead : readPacketHead bytes = .error (.invalid "invalid replication packet") := by
    unfold readPacketHead
    rw [refuseIf_of _ (Or.inl h)]
    rfl
  unfold decode decodeReplicationPacketView
  rw [hhead]
  exact ⟨rfl, rfl⟩

/-- A packet is read from its own bytes if the header and the record fit together. -/
theorem ReadFrom.of_update {update : AttributeUpdate} (hid : packet.subscription ≠ 0)
    (hkey : validKeyPair packet.type packet.id = true) (hs : packet.status = .ok) (hu : packet.update = some update)
    {body : Bytes} (hbody : decodeAttributes body = .ok update)
    (hsize : packet.head.length + body.length ≤ 1024 * 1024) : packet.ReadFrom (packet.head ++ body) := by
  obtain ⟨_, _, _, status, _, _⟩ := packet
  obtain rfl : status = .ok := hs
  obtain rfl := hu
  constructor
  · unfold decode
    rw [readPacketHead_head hid hkey hsize]
    simp only [ok_bind, view, if_true, hbody, UInt64.ofNat_toNat, UInt32.ofNat_toNat]
    rfl
  · unfold decodeReplicationPacketView
    rw [readPacketHead_head hid hkey hsize]
    simp only [ok_bind, view, if_true, hbody]
    rfl

/-- Without attributes the header alone is the packet. -/
theorem ReadFrom.of_status (hid : packet.subscription ≠ 0) (hkey : validKeyPair packet.type packet.id = true)
    (hs : packet.status ≠ .ok) (hu : packet.update = none) : packet.ReadFrom packet.head := by
  have hbounds := validKeyPair.bounds hkey
  have hsize : packet.head.length + ([] : Bytes).length ≤ 1024 * 1024 := by
    rw [head_length, length_nil]
    omega
  have hread := readPacketHead_head hid hkey hsize
  rw [append_nil] at hread
  obtain ⟨_, _, _, _, _, _⟩ := packet
  obtain rfl := hu
  constructor
  · unfold decode
    rw [hread]
    simp only [ok_bind, view, if_neg hs, UInt64.ofNat_toNat, UInt32.ofNat_toNat]
    rfl
  · unfold decodeReplicationPacketView
    rw [hread]
    simp only [ok_bind, view, if_neg hs]
    rfl

/-- The remap writes the header of the same packet under the other id. -/
theorem remap_head {other : UInt64} (h : other ≠ 0) (body : Bytes) :
    remapReplicationSubscription (packet.head ++ body) other.toNat 0 =
      .ok ({ packet with subscription := other }.head ++ body) := by
  have hlen := head_length packet
  have hne : other.toNat % 2 ^ 64 ≠ 0 := by
    rw [Nat.mod_eq_of_lt other.toNat_lt]
    exact fun h0 => h (UInt64.toNat_inj.1 h0)
  let rest : Bytes := bigEndian 4 packet.lease.toNat ++
    (bigEndian 1 packet.type.length ++ packet.type ++ (bigEndian 2 packet.id.length ++ packet.id))
  have hrest : ∀ id : UInt64, { packet with subscription := id }.head =
      ascii "FSN1" ++ (bigEndian 1 packet.status.code ++ (bigEndian 8 id.toNat ++ rest)) := fun _ => rfl
  have hself : packet.head = _ := hrest packet.subscription
  have htake : (packet.head ++ body).take 5 = ascii "FSN1" ++ bigEndian 1 packet.status.code := by
    rw [hself]
    rfl
  have hdrop : (packet.head ++ body).drop 13 = rest ++ body := by
    rw [hself]
    simp only [append_assoc]
    show (bigEndian 8 packet.subscription.toNat ++ (rest ++ body)).drop 8 = rest ++ body
    exact drop_left' (bigEndian_length _ _)
  unfold remapReplicationSubscription
  rw [refuseIf_of_not _ ?_, ok_bind, Nat.zero_add, Nat.zero_add, htake, hdrop, hrest other]
  · simp only [append_assoc]
    rfl
  · rw [length_append]
    refine not_or.2 ⟨hne, not_or.2 ⟨by omega, not_or.2 ⟨by omega, ?_⟩⟩⟩
    rw [hself]
    simp only [drop_zero, not_not]
    rfl

/-- Whatever both decoders read under every id makes the round trip. -/
theorem RoundTrips.of_body {b : Bytes} (henc : packet.encode = .ok (packet.head ++ b)) (hid : packet.subscription ≠ 0)
    (h : ∀ id : UInt64, id ≠ 0 →
      { packet with subscription := id }.ReadFrom ({ packet with subscription := id }.head ++ b)) :
    packet.RoundTrips :=
  ⟨_, henc, h packet.subscription hid, fun other hother => ⟨_, remap_head hother b, h other hother⟩⟩

/-- Only a packet within the bound is read. -/
theorem ReadFrom.size {bytes : Bytes} (h : packet.ReadFrom bytes) : bytes.length ≤ 1024 * 1024 := by
  by_contra hlong
  have hrefused := (refused_of_length (Nat.lt_of_not_le hlong)).1
  rw [h.whole] at hrefused
  cases hrefused

/-- Only `ok` comes with attributes. -/
theorem ReadFrom.status_of_update {bytes : Bytes} (h : packet.ReadFrom bytes) (hu : packet.update ≠ none) :
    packet.status = .ok := by
  have hwhole := h.whole
  unfold decode at hwhole
  simp only [bind_eq_ok, Prod.exists] at hwhole
  obtain ⟨header, body, -, hwhole⟩ := hwhole
  split at hwhole
  · rename_i hok
    obtain ⟨_, -, hp⟩ := bind_eq_ok.1 hwhole
    rw [← Except.ok.inj hp]
    exact hok
  · obtain ⟨-, hp⟩ := refuseIf_bind_eq_ok.1 hwhole
    rw [← Except.ok.inj hp] at hu
    exact absurd rfl hu

/-- The header and the record fit into one packet. -/
def Within (packet : ReplicationPacket) : Prop :=
  ∀ update ∈ packet.update, ∀ n, attributeWireSize update = .ok n →
    20 + packet.type.length + packet.id.length + n ≤ 1024 * 1024

/-- The round trip of packets. An update that the codec of the attributes accepts is read back exactly if it is
sent with `ok`, and `ok` with an update, and the header leaves room for its record. -/
theorem round_trips_iff (hid : packet.subscription ≠ 0) (hkey : validKeyPair packet.type packet.id = true)
    (hupdate : ∀ update ∈ packet.update, UpdateOrdered update ∧ ∃ bytes, encodeAttributes update = .ok bytes) :
    packet.RoundTrips ↔ (packet.update.isSome = true ↔ packet.status = .ok) ∧ packet.Within := by
  have henc := encode_eq hkey
  constructor
  · rintro ⟨bytes, hbytes, hread, -⟩
    have hsize := hread.size
    cases hu : packet.update with
    | none =>
      refine ⟨⟨fun h => (nomatch h), fun hs => ?_⟩, ?_⟩
      · rw [henc, if_pos hs, hu] at hbytes
        cases hbytes
      · intro update hmem
        rw [hu] at hmem
        cases hmem
    | some update =>
      have hs := hread.status_of_update (by rw [hu]; exact Option.some_ne_none _)
      refine ⟨⟨fun _ => hs, fun _ => rfl⟩, ?_⟩
      intro other hmem n hn
      obtain rfl : update = other := Option.some.inj (hu.symm.trans hmem)
      obtain ⟨haccepted, rfl⟩ := attributeWireSize_eq_ok.1 hn
      obtain ⟨sent, hsent, hlen⟩ := encode_length hkey hs hu haccepted
      obtain rfl := Except.ok.inj (hbytes.symm.trans hsent)
      rwa [hlen] at hsize
  · rintro ⟨hiff, hwithin⟩
    cases hu : packet.update with
    | none =>
      have hs : packet.status ≠ .ok := by
        intro hs
        have := hiff.2 hs
        rw [hu] at this
        cases this
      refine RoundTrips.of_body (b := []) ?_ hid fun id hne => ?_
      · rw [henc, if_neg hs, append_nil]
      · rw [append_nil]
        exact .of_status hne hkey hs hu
    | some update =>
      have hs := hiff.1 (by rw [hu]; rfl)
      obtain ⟨hordered, bytes, hbytes⟩ := hupdate update hu
      have haccepted := (encodeAttributes_eq_ok.1 hbytes).1
      have hbody := (encodeAttributes_eq_ok.1 hbytes).2
      have hn := hwithin update hu _ (attributeWireSize_eq_ok.2 ⟨haccepted, rfl⟩)
      refine RoundTrips.of_body (b := bytes) ?_ hid fun id hne => ?_
      · rw [henc, if_pos hs, hu]
        simp only [hbytes, Except.map]
      · refine @ReadFrom.of_update { packet with subscription := id } update hne hkey hs hu bytes ?_ ?_
        · rw [hbody]
          exact decodeAttributes_wire haccepted hordered
        · rw [hbody, head_length, length_append, updateTag_length]
          show 20 + packet.type.length + packet.id.length + _ ≤ _
          omega

theorem round_trips_iff_small :
    ReplicationPacket.RoundTrips ⟨7, [97], [98], .ok, 5000, some ⟨1, 2, false, [([120], .integer 3)], []⟩⟩ ∧
      ReplicationPacket.RoundTrips ⟨7, [97], [98], .rejected, 0, none⟩ := by
  constructor
  · have hsize : attributeWireSize ⟨1, 2, false, [([120], .integer 3)], []⟩ = .ok 34 := rfl
    refine (round_trips_iff (by decide) rfl ?_).2 ⟨⟨fun _ => rfl, fun _ => rfl⟩, ?_⟩
    · rintro _ ⟨⟩
      exact ⟨⟨pairwise_singleton _ _, by rintro _ (_ | ⟨_, ⟨⟩⟩); exact .integer 3, nofun⟩, _, rfl⟩
    · rintro _ ⟨⟩ n hn
      rw [hsize] at hn
      rw [← Except.ok.inj hn]
      decide
  · refine (round_trips_iff (by decide) rfl ?_).2 ⟨⟨nofun, nofun⟩, ?_⟩
    · rintro _ ⟨⟩
    · rintro _ ⟨⟩

/-- One property, an array of sixteen long texts: its record is twenty bytes short of 1 MiB. -/
def brimful : AttributeUpdate :=
  ⟨0, 1, true, [([112], .array (List.replicate 16 (.text (List.replicate 65528 0))))], []⟩

theorem wireItems_replicate (v : AttributeValue) (n : Nat) :
    (wireItems (List.replicate n v)).length = n * v.wire.length := by
  induction n with
  | zero => simp [wireItems]
  | succ n ih =>
    rw [replicate_succ, wireItems, length_append, ih, Nat.succ_mul]
    omega

theorem texts_body (n : Nat) (s : Bytes) :
    (updateBody ⟨0, 1, true, [([112], .array (List.replicate n (.text s)))], []⟩).length = 24 + n * (5 + s.length) := by
  simp only [updateBody, if_true, length_append, header_length, wireEntries, bigEndian_length, wire,
    wireItems_replicate, length_cons, length_nil]
  rw [show 1 + (4 + s.length) = 5 + s.length by omega]
  omega

theorem brimful_body : (updateBody brimful).length = 1048552 := by
  rw [brimful, texts_body, length_replicate]

theorem brimful_accepted : Accepted brimful where
  fits :=
    { image :=
        { count := by decide
          base_le := by decide
          base_zero := fun _ => rfl
          names := by
            intro e he
            obtain rfl := mem_singleton.1 he
            rfl
          deep := by
            intro e he
            obtain rfl := mem_singleton.1 he
            refine .array (by omega) (by rw [length_replicate]; omega) fun v hv => ?_
            rw [eq_of_mem_replicate hv]
            exact .text (by omega) (by rw [length_replicate]; omega) }
      plain := fun h => absurd rfl h
      patch_count := Nat.zero_le _
      patches := nofun }
  nodes := by decide
  size := by
    rw [brimful_body]
    decide

theorem brimful_ordered : UpdateOrdered brimful where
  sorted := pairwise_singleton _ _
  deep := by
    intro e he
    obtain rfl := mem_singleton.1 he
    refine .array fun v hv => ?_
    rw [eq_of_mem_replicate hv]
    exact .text _
  patches := nofun

/-- The record of `brimful` is accepted, but the packet around it is two bytes over the decoder's bound. -/
theorem brimful_packet_refused :
    UpdateOrdered brimful ∧ (∃ record, encodeAttributes brimful = .ok record) ∧
      ∃ bytes, ReplicationPacket.encode ⟨1, [97], [98], .ok, 0, some brimful⟩ = .ok bytes ∧
        ReplicationPacket.decode bytes = .error (.invalid "invalid replication packet") ∧
        decodeReplicationPacketView bytes = .error (.invalid "invalid replication packet") := by
  refine ⟨brimful_ordered, ⟨_, encodeAttributes_eq_ok.2 ⟨brimful_accepted, rfl⟩⟩, ?_⟩
  obtain ⟨bytes, henc, hlen⟩ :=
    @encode_length ⟨1, [97], [98], .ok, 0, some brimful⟩ brimful rfl rfl rfl brimful_accepted
  refine ⟨bytes, henc, refused_of_length ?_⟩
  rw [hlen, brimful_body]
  decide

end ReplicationPacket

end Fsnet
