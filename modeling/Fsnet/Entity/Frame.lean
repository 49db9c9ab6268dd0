import Fsnet.Attributes.Decoding
import Fsnet.Entity.Identity
/-!
# Framed fields

The pieces entity records, delivery messages and acknowledgements are written
with: 32-bit counts, length-prefixed fields, 64-bit integers and entity keys.
Every reader gives back what was written and leaves the bytes that follow.
-/

namespace Fsnet

open Lib List

/-- What SHA-256 returns. -/
abbrev Digest := {bytes : Bytes // bytes.length = 32}

def number (n : Nat) : Bytes := bigEndian 4 n

def integer (n : UInt64) : Bytes := bigEndian 8 n.toNat

def blob (value : Bytes) : Except Failure Bytes := do
  refuseIf (value.length > 0xffffffff) (.length "snapshot field too large")
  pure (number value.length ++ value)

def readNumber (input : Bytes) : Except Failure (Nat × Bytes) := readUint (.runtime "truncated entity snapshot") input 4

def readInteger (input : Bytes) : Except Failure (UInt64 × Bytes) := do
  let (n, input) ← readUint (.runtime "truncated entity record") input 8
  pure (UInt64.ofNat n, input)

def readBlob (input : Bytes) : Except Failure (Bytes × Bytes) := do
  let (size, input) ← readNumber input
  refuseIf (size > input.length) (.runtime "truncated entity snapshot field")
  pure (input.take size, input.drop size)

/-- `validate_key`. -/
def validKeyPair (type id : Bytes) : Bool := validRoutePart type && !id.isEmpty && id.length ≤ 256

def encodeEntityKey (type id : Bytes) : Except Failure Bytes := do
  refuseIf (validKeyPair type id = false) (.invalid "invalid replication entity")
  pure (bigEndian 1 type.length ++ type ++ (bigEndian 2 id.length ++ id))

def decodeEntityKey (input : Bytes) : Except Failure (Bytes × Bytes × Bytes) := do
  let (n, input) ← readUint (.invalid "truncated replication frame") input 1
  refuseIf (n > input.length) (.invalid "truncated entity type")
  let type := input.take n
  let input := input.drop n
  let (n, input) ← readUint (.invalid "truncated replication frame") input 2
  refuseIf (n > input.length) (.invalid "truncated entity id")
  let id := input.take n
  refuseIf (validKeyPair type id = false) (.invalid "invalid replication entity")
  pure (type, id, input.drop n)

/-- `state_message`: the state a script is called on or returns, and its payload. -/
def stateMessage (state payload : Bytes) : Bytes := ascii "FSS1" ++ number state.length ++ (state ++ payload)

/-- `parse_state`. The length is a 32-bit number, and so is where the source looks for the payload. -/
def parseStateMessage (input : Bytes) : Option (Bytes × Bytes) :=
  if input.length < 8 ∨ ¬(ascii "FSS1").isPrefixOf input then none
  else
    let length := ofBigEndian ((input.drop 4).take 4)
    if length > input.length - 8 then none else some ((input.drop 8).take length, input.drop ((8 + length) % 2 ^ 32))

/-! ## Reading back -/

theorem isPrefixOf_tag (tag body : Bytes) : tag.isPrefixOf (tag ++ body) = true :=
  isPrefixOf_iff_prefix.2 (prefix_append tag body)

theorem readNumber_wire {n : Nat} (h : n < 2 ^ 32) (rest : Bytes) : readNumber (number n ++ rest) = .ok (n, rest) :=
  readUint_wire _ (by simpa using h) rest

theorem readInteger_wire (n : UInt64) (rest : Bytes) : readInteger (integer n ++ rest) = .ok (n, rest) := by
  unfold readInteger integer
  rw [readUint_wire _ n.toNat_lt]
  simp

theorem blob_eq_ok {value out : Bytes} (h : blob value = .ok out) :
    value.length < 2 ^ 32 ∧ out = number value.length ++ value := by
  unfold blob at h
  rw [refuseIf_bind_eq_ok] at h
  exact ⟨by omega, (Except.ok.inj h.2).symm⟩

theorem readBlob_wire {value : Bytes} (h : value.length < 2 ^ 32) (rest : Bytes) :
    readBlob (number value.length ++ (value ++ rest)) = .ok (value, rest) := by
  unfold readBlob
  rw [readNumber_wire h]
  simp only [ok_bind]
  rw [refuseIf_of_not _ (by simp), ok_bind, take_left' rfl, drop_left' rfl]
  rfl

/-- Two fields followed by anything agree only on the same field. -/
theorem blob_append_inj {a b x y s t : Bytes} (ha : blob a = .ok x) (hb : blob b = .ok y) (h : x ++ s = y ++ t) :
    a = b ∧ s = t := by
  obtain ⟨hla, rfl⟩ := blob_eq_ok ha
  obtain ⟨hlb, rfl⟩ := blob_eq_ok hb
  rw [append_assoc, append_assoc] at h
  have hread := readBlob_wire hla s
  rw [h, readBlob_wire hlb] at hread
  simpa [eq_comm] using hread

theorem encodeEntityKey_eq_ok {type id out : Bytes} (h : encodeEntityKey type id = .ok out) :
    validKeyPair type id = true ∧ out = bigEndian 1 type.length ++ type ++ (bigEndian 2 id.length ++ id) := by
  unfold encodeEntityKey at h
  rw [refuseIf_bind_eq_ok] at h
  exact ⟨by simpa using h.1, (Except.ok.inj h.2).symm⟩

theorem validKeyPair.bounds {type id : Bytes} (h : validKeyPair type id = true) :
    type.length ≤ 127 ∧ id.length ≤ 256 := by
  simp only [validKeyPair, validRoutePart, Bool.and_eq_true, decide_eq_true_eq] at h
  exact ⟨h.1.1.1.1.2, h.2⟩

theorem decodeEntityKey_wire {type id out : Bytes} (h : encodeEntityKey type id = .ok out) (rest : Bytes) :
    decodeEntityKey (out ++ rest) = .ok (type, id, rest) := by
  obtain ⟨hv, rfl⟩ := encodeEntityKey_eq_ok h
  obtain ⟨ht, hi⟩ := validKeyPair.bounds hv
  unfold decodeEntityKey
  simp only [append_assoc]
  rw [readUint_wire _ (by omega)]
  simp only [ok_bind]
  rw [refuseIf_of_not _ (by simp), ok_bind, take_left' rfl, drop_left' rfl, readUint_wire _ (by omega)]
  simp only [ok_bind]
  rw [refuseIf_of_not _ (by simp), ok_bind, take_left' rfl, drop_left' rfl,
    refuseIf_of_not _ (by simp [hv]), ok_bind]
  rfl

end Fsnet
