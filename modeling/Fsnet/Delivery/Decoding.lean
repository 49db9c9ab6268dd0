import Fsnet.Delivery.State
import Fsnet.Lib.Frames
/-!
# Reading a delivery state

`decode_delivery_state` and what it gives back. The reader has bounds of its own
on keys and counts; all of them follow from what the writer checks.
-/

namespace Fsnet

open Lib List

def readSentEntry (input : Bytes) : Except Failure ((Bytes × UInt64) × Bytes) := do
  let (key, input) ← readBlob input
  checkChannelKey key
  let (n, input) ← readInteger input
  refuseIf (key.length > 512 ∨ n = 0) (.invalid "invalid delivery counter")
  pure ((key, n), input)

def readInboxEntry (input : Bytes) : Except Failure ((Bytes × DeliveryCursor) × Bytes) := do
  let (key, input) ← readBlob input
  checkChannelKey key
  let (sequence, input) ← readInteger input
  let (digest, input) ← readBlob input
  let (result, input) ← readResult input
  refuseIf (key.length > 512 ∨ sequence = 0 ∨ digest.length ≠ 64) (.invalid "invalid delivery cursor")
  pure ((key, ⟨sequence, digest, result⟩), input)

/-- The loop over the outbox; `tickets` are those already read. -/
def readOutbox : Nat → List Bytes → Bytes → Except Failure (List DeliveryMessage × Bytes)
  | 0, _, input => pure ([], input)
  | count + 1, tickets, input => do
    let (m, input) ← readMessage input
    refuseIf (tickets.contains m.ticket) (.invalid "duplicate delivery ticket")
    let (rest, input) ← readOutbox count (m.ticket :: tickets) input
    pure (m :: rest, input)

def decodeDeliveryState (input : Bytes) : Except Failure EntityDeliveryState := do
  refuseIf (¬(ascii "FDS1").isPrefixOf input ∨ input.length > 8 * 1024 * 1024) (.invalid "invalid delivery state")
  let (epoch, input) ← readInteger (input.drop 4)
  let (n, input) ← readNumber input
  refuseIf (n > 4096) (.invalid "delivery counter limit")
  let (sent, input) ← readEntries readSentEntry (.invalid "invalid delivery counter") n .empty input
  let (n, input) ← readNumber input
  refuseIf (n > 4096) (.invalid "delivery inbox limit")
  let (inbox, input) ← readEntries readInboxEntry (.invalid "invalid delivery cursor") n .empty input
  let (n, input) ← readNumber input
  refuseIf (n > 1024) (.invalid "delivery outbox limit")
  let (outbox, input) ← readOutbox n [] input
  refuseIf (input ≠ []) (.invalid "trailing delivery bytes")
  refuseIf (epoch = 0) (.invalid "missing delivery epoch")
  pure { epoch, sent, inbox, outbox }

/-! ## Channel keys are short -/

theorem decodeEntityKey_length {input type id rest : Bytes} (h : decodeEntityKey input = .ok (type, id, rest)) :
    input.length ≤ 386 + rest.length := by
  unfold decodeEntityKey at h
  simp only [bind_eq_ok, refuseIf_eq_ok, Prod.exists, pure_eq_ok] at h
  obtain ⟨n, after, hn, _, hbound, m, tail, hm, _, hbound', _, hv, h⟩ := h
  obtain ⟨rfl, rfl, rfl⟩ : after.take n = type ∧ tail.take m = id ∧ tail.drop m = rest := by simpa using h
  obtain ⟨ht, hi⟩ := validKeyPair.bounds (by simpa using hv)
  have h1 := (readUint_eq_ok hn).1
  have h2 := (readUint_eq_ok hm).1
  simp only [length_take, length_drop] at ht hi h2 ⊢
  omega

/-- A channel is an entity key and an epoch, so it fits the reader's limit. -/
theorem checkChannelKey_length {key : Bytes} (h : checkChannelKey key = .ok ()) : key.length ≤ 512 := by
  unfold checkChannelKey at h
  simp only [bind_eq_ok, refuseIf_eq_ok, Prod.exists, ne_eq, not_not] at h
  obtain ⟨type, id, input, hkey, epoch, rest, hepoch, _, -, rfl⟩ := h
  have hlen := decodeEntityKey_length hkey
  unfold readInteger at hepoch
  simp only [bind_eq_ok, Prod.exists] at hepoch
  obtain ⟨n, rest, hn, hr⟩ := hepoch
  obtain ⟨-, rfl⟩ := Prod.mk.inj (Except.ok.inj hr)
  have h8 := (readUint_eq_ok hn).1
  simp only [length_nil] at h8
  omega

/-! ## Sections -/

theorem frames_sent : Frames (fun _ => True) encodeSent readSentEntry := by
  constructor
  · rfl
  · intro entry _ _ h _
    obtain ⟨key, n⟩ := entry
    simp only [encodeSent, bind_eq_ok, refuseIf_eq_ok] at h
    obtain ⟨_, hkey, _, hn, _, hf, tail, ht, ho⟩ := h
    obtain ⟨hlt, rfl⟩ := blob_eq_ok hf
    refine ⟨number key.length ++ key ++ integer n, tail, ht, (Except.ok.inj ho).symm, ?_⟩
    intro _
    unfold readSentEntry
    simp only [append_assoc, readBlob_wire hlt, ok_bind, hkey, readInteger_wire]
    rw [refuseIf_of_not _ (by simp [checkChannelKey_length hkey, hn])]
    rfl

theorem frames_inbox : Frames (fun _ => True) encodeInbox readInboxEntry := by
  constructor
  · rfl
  · intro entry _ _ h _
    obtain ⟨key, c⟩ := entry
    simp only [encodeInbox, bind_eq_ok, refuseIf_eq_ok] at h
    obtain ⟨_, hkey, _, hc, _, hf, digest, hd, result, hr, tail, ht, ho⟩ := h
    obtain ⟨hlt, rfl⟩ := blob_eq_ok hf
    obtain ⟨hdlt, rfl⟩ := blob_eq_ok hd
    refine ⟨number key.length ++ key ++ integer c.sequence ++ (number c.digest.length ++ c.digest) ++ result, tail, ht,
      (Except.ok.inj ho).symm, ?_⟩
    intro _
    unfold readInboxEntry
    simp only [append_assoc, readBlob_wire hlt, ok_bind, hkey, readInteger_wire, readBlob_wire hdlt,
      readResult_wire hr]
    rw [not_or] at hc
    rw [refuseIf_of_not _ (by simp [checkChannelKey_length hkey, hc.1, not_not.1 hc.2])]
    rfl

-- the tickets written so far are the tickets read so far, so both loops accept the same ones
theorem readOutbox_wire {tickets : List Bytes} {outbox : List DeliveryMessage} {out : Bytes}
    (h : encodeOutbox tickets outbox = .ok out) (rest : Bytes) :
    readOutbox outbox.length tickets (out ++ rest) = .ok (outbox, rest) := by
  induction outbox generalizing tickets out with
  | nil =>
    cases h
    rfl
  | cons _ _ ih =>
    simp only [encodeOutbox, bind_eq_ok, refuseIf_eq_ok] at h
    obtain ⟨_, hnew, _, hm, _, ht, ho⟩ := h
    rw [← Except.ok.inj ho]
    simp only [length_cons, readOutbox, append_assoc, readMessage_wire hm, ok_bind]
    rw [refuseIf_of_not _ hnew, ok_bind, ih ht]
    rfl

/-! ## The whole state -/

theorem decodeDeliveryState_wire {s : EntityDeliveryState} {out : Bytes} (h : encodeDeliveryState s = .ok out) :
    decodeDeliveryState out = .ok s := by
  unfold encodeDeliveryState at h
  simp only [bind_eq_ok, refuseIf_eq_ok, not_or] at h
  obtain ⟨_, ⟨hepoch, hsent, hinbox, houtbox⟩, sent, h1, inbox, h2, outbox, h3, _, hsize, ho⟩ := h
  obtain rfl := Except.ok.inj ho
  have hdrop : ∀ body : Bytes, (ascii "FDS1" ++ body).drop 4 = body := by
    intro body
    rfl
  have hout := readOutbox_wire h3 []
  rw [append_nil] at hout
  simp only [append_assoc] at hsize
  unfold decodeDeliveryState
  simp only [append_assoc]
  rw [refuseIf_of_not _ (by simpa only [isPrefixOf_tag, not_true, false_or] using hsize), ok_bind, hdrop,
    readInteger_wire]
  simp only [ok_bind]
  rw [readNumber_wire (by omega)]
  simp only [ok_bind]
  rw [refuseIf_of_not _ hsent, ok_bind, frames_sent.readEntries_wire _ h1 (by simp)]
  simp only [ok_bind]
  rw [readNumber_wire (by omega)]
  simp only [ok_bind]
  rw [refuseIf_of_not _ hinbox, ok_bind, frames_inbox.readEntries_wire _ h2 (by simp)]
  simp only [ok_bind]
  rw [readNumber_wire (by omega)]
  simp only [ok_bind]
  rw [refuseIf_of_not _ houtbox, ok_bind, hout]
  simp only [ok_bind]
  rw [refuseIf_of_not _ (by simp), ok_bind, refuseIf_of_not _ hepoch]
  rfl

end Fsnet
