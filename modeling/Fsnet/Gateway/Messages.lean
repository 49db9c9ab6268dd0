import Fsnet.Gateway.Packet
/-!
# The envelopes of calls

Calls between routers (`FSE3`), messages of entities (`FSE1`, and `FSE2` with a
request id) and the states scripts work on (`FSS1`). Parsers and builders are
written by hand and checked against each other here: what a parser accepts is
what the builder makes of the fields it found.
-/

namespace Fsnet

open Lib List

/-! ## Fields -/

/-- A text after its length in one byte. -/
def textField (text : Bytes) : Bytes := UInt8.ofNat text.length :: text

/-- A text that is left out when empty. -/
def optionalField (text : Bytes) : Bytes := if text = [] then [] else textField text

theorem readText_eq_some {maximum : Nat} (hmax : maximum < 256) {input text rest : Bytes} :
    readText maximum input = some (text, rest) ↔ text ≠ [] ∧ text.length ≤ maximum ∧
      input = textField text ++ rest := by
  constructor
  · intro h
    cases input with
    | nil => cases h
    | cons n input =>
      rw [readText, Option.ite_none_left_eq_some] at h
      obtain ⟨hn, h⟩ := h
      obtain ⟨rfl, rfl⟩ := Prod.mk.inj (Option.some.inj h)
      rw [not_or, not_or] at hn
      have hlength : (input.take n.toNat).length = n.toNat := by
        rw [length_take]
        omega
      have hpos : n.toNat ≠ 0 := fun h => hn.1 (UInt8.toNat_inj.1 h)
      refine ⟨fun hnil => hpos (by rw [← hlength, hnil]; rfl), by omega, ?_⟩
      rw [textField, hlength, UInt8.ofNat_toNat, cons_append, take_append_drop]
  · rintro ⟨hne, hle, rfl⟩
    have hlength : (UInt8.ofNat text.length).toNat = text.length := by
      rw [UInt8.toNat_ofNat']
      omega
    have hpos := length_pos_iff.2 hne
    have hzero : UInt8.ofNat text.length ≠ 0 := fun h => by
      rw [h] at hlength
      exact hpos.ne hlength
    rw [textField, cons_append, readText, hlength, if_neg (by simp [hzero]; omega), take_left' rfl,
      drop_left' rfl]

theorem readOptionalText_eq_some {present : Bool} {maximum : Nat} (hmax : maximum < 256) {input text rest : Bytes} :
    readOptionalText present maximum input = some (text, rest) ↔
      (present = true ↔ text ≠ []) ∧ text.length ≤ maximum ∧ input = optionalField text ++ rest := by
  cases present with
  | true =>
    simp only [readOptionalText, if_true, readText_eq_some hmax, true_iff]
    refine and_congr_right fun hne => ?_
    rw [optionalField, if_neg hne]
  | false =>
    simp only [readOptionalText, Bool.false_eq_true, if_false, Option.some.injEq, Prod.mk.injEq, false_iff, not_not]
    constructor
    · rintro ⟨rfl, rfl⟩
      exact ⟨rfl, Nat.zero_le _, rfl⟩
    · rintro ⟨rfl, -, rfl⟩
      exact ⟨rfl, rfl⟩

section

variable (count : Nat) {text : Bytes}

/-- A text after its length in `count` bytes, where the parsers look for it. -/
theorem field_append (rest : Bytes) (h : text.length < 256 ^ count) :
    ofBigEndian ((bigEndian count text.length ++ (text ++ rest)).take count) = text.length ∧
      ((bigEndian count text.length ++ (text ++ rest)).drop count).take text.length = text ∧
      (bigEndian count text.length ++ (text ++ rest)).drop (count + text.length) = rest := by
  have hcount := bigEndian_length count text.length
  refine ⟨?_, ?_, ?_⟩
  · rw [take_left' hcount, ofBigEndian_bigEndian, Nat.mod_eq_of_lt h]
  · rw [drop_left' hcount, take_left' rfl]
  · rw [← drop_drop, drop_left' hcount, drop_left' rfl]

theorem exists_field (input : Bytes) (h : count + ofBigEndian (input.take count) ≤ input.length) :
    ∃ text rest : Bytes, text.length < 256 ^ count ∧ input = bigEndian count text.length ++ (text ++ rest) := by
  have hcount : (input.take count).length = count := by
    rw [length_take]
    omega
  have hlength : ((input.drop count).take (ofBigEndian (input.take count))).length =
      ofBigEndian (input.take count) := by
    rw [length_take, length_drop]
    omega
  have hsmall := ofBigEndian_lt (input.take count)
  have hnumber := bigEndian_ofBigEndian (input.take count)
  rw [hcount] at hsmall hnumber
  refine ⟨(input.drop count).take (ofBigEndian (input.take count)),
    (input.drop count).drop (ofBigEndian (input.take count)), by rwa [hlength], ?_⟩
  rw [hlength, hnumber, take_append_drop, take_append_drop]

end

/-! ## `FSE3` -/

/-- `entity_call_message`. -/
def entityCallMessage (call : EntityCallView) : Except String Bytes := do
  refuseIf (validEntityMethod call.method = false ∨ call.requestId.length > 128 ∨
    (call.expectedType ≠ [] ∧ (call.expectedType.length > 127 ∨ call.expectedType.contains 0x2e = true ∨
      call.expectedType.contains 0 = true))) "invalid global entity call"
  let flags : UInt8 := (if call.requestId = [] then 0 else 1) ||| (if call.expectedType = [] then 0 else 2)
  pure (ascii "FSE3" ++ (bigEndian 8 call.id.toNat ++ flags :: (textField call.method ++
    (optionalField call.requestId ++ (optionalField call.expectedType ++ call.payload)))))

/-- The fixed part of a call. -/
theorem call_parts {eight : Bytes} (h : eight.length = 8) (flags : UInt8) (more : Bytes) :
    ((ascii "FSE3" ++ (eight ++ flags :: more)).drop 4).take 8 = eight ∧
      ((ascii "FSE3" ++ (eight ++ flags :: more)).drop 12).head? = some flags ∧
      (ascii "FSE3" ++ (eight ++ flags :: more)).drop 13 = more ∧
      (ascii "FSE3" ++ (eight ++ flags :: more)).length = 13 + more.length := by
  have hdrop : ∀ count, (ascii "FSE3" ++ (eight ++ flags :: more)).drop (4 + count) =
      (eight ++ flags :: more).drop count :=
    fun count => by rw [← drop_drop]; rfl
  refine ⟨?_, ?_, ?_, ?_⟩
  · rw [hdrop 0]
    exact take_left' h
  · rw [hdrop 8, drop_left' h]
    rfl
  · rw [hdrop 9, drop_append, h, drop_of_length_le (by omega)]
    rfl
  · have htag : (ascii "FSE3").length = 4 := rfl
    simp only [length_append, length_cons, htag, h]
    omega

theorem exists_call_parts {input : Bytes} {flags : UInt8} (htag : (ascii "FSE3").isPrefixOf input = true)
    (hflags : (input.drop 12).head? = some flags) :
    ∃ eight more, eight.length = 8 ∧ input = ascii "FSE3" ++ (eight ++ flags :: more) := by
  obtain ⟨rest, rfl⟩ := isPrefixOf_iff_prefix.1 htag
  obtain ⟨more, hmore⟩ := head?_eq_some_iff.1 hflags
  have hdrop : rest.drop 8 = flags :: more := hmore
  have hlength := congrArg List.length hdrop
  rw [length_drop, length_cons] at hlength
  exact ⟨rest.take 8, more, by rw [length_take]; omega, by rw [← hdrop, take_append_drop]⟩

/-- The flags say which of the optional fields are there. -/
theorem flags_iff {flags : UInt8} {request type : Bytes} :
    flags.toNat ≤ 3 ∧ (decide (flags &&& 1 ≠ 0) = true ↔ request ≠ []) ∧ (decide (flags &&& 2 ≠ 0) = true ↔ type ≠ []) ↔
      flags = (if request = [] then 0 else 1) ||| (if type = [] then 0 else 2) := by
  have hbits : (1 : UInt8) &&& 2 = 0 ∧ (2 : UInt8) &&& 1 = 0 ∧ (3 : UInt8) &&& 1 = 1 ∧ (3 : UInt8) &&& 2 = 2 ∧
    (1 : UInt8) ||| 2 = 3 := by decide
  constructor
  · rintro ⟨hthree, hrequest, htype⟩
    have hfour : flags = 0 ∨ flags = 1 ∨ flags = 2 ∨ flags = 3 := by
      simp only [← UInt8.toNat_inj, UInt8.reduceToNat]
      omega
    rcases hfour with rfl | rfl | rfl | rfl <;> simp [hbits] at hrequest htype <;> simp [hbits, hrequest, htype]
  · rintro rfl
    by_cases hr : request = [] <;> by_cases ht : type = [] <;> simp [hbits, hr, ht]

/-- The parser finds the fields a call was built from, and nothing else parses. -/
theorem parseEntityCallView_eq_some {input : Bytes} {call : EntityCallView} :
    parseEntityCallView input = some call ↔ call.id ≠ 0 ∧ entityCallMessage call = .ok input := by
  simp only [parseEntityCallView, entityCallMessage, refuseIf_bind_eq_ok, Option.bind_eq_bind, Option.bind_eq_some_iff,
    Option.guard_eq_some', exists_const, Prod.exists, readText_eq_some (show 127 < 256 by decide),
    readOptionalText_eq_some (show 127 < 256 by decide), readOptionalText_eq_some (show 128 < 256 by decide)]
  constructor
  · rintro ⟨⟨hlong, htag⟩, hid, flags, hflags, hthree, method, _, ⟨-, -, hmethod⟩, hvalid, request, _,
      ⟨hrequest, hshort, rfl⟩, type, payload, ⟨htype, hshort', rfl⟩, hdots, hcall⟩
    obtain ⟨eight, more, height, rfl⟩ := exists_call_parts htag hflags
    obtain ⟨htake, -, hdrop, -⟩ := call_parts height flags more
    rw [htake] at hid hcall
    obtain rfl := Option.some.inj hcall
    have hsmall := ofBigEndian_lt eight
    have hnumber := bigEndian_ofBigEndian eight
    rw [height] at hsmall hnumber
    have hvalue : (UInt64.ofNat (ofBigEndian eight)).toNat = ofBigEndian eight := UInt64.toNat_ofNat_of_lt' hsmall
    refine ⟨fun hzero => hid ?_, ?_, ?_⟩
    · rw [← hvalue, show UInt64.ofNat (ofBigEndian eight) = 0 from hzero]
      rfl
    · rw [hvalid, hdots.1, hdots.2]
      simp
      omega
    · rw [hvalue, hnumber, ← flags_iff.1 ⟨hthree, hrequest, htype⟩, ← hdrop.symm.trans hmethod]
      rfl
  · rintro ⟨hid, hfine, hinput⟩
    obtain rfl := Except.ok.inj hinput
    obtain ⟨hthree, hrequest, htype⟩ := flags_iff.2 (Eq.refl ((if call.requestId = [] then (0 : UInt8) else 1) |||
      (if call.expectedType = [] then 0 else 2)))
    generalize (if call.requestId = [] then (0 : UInt8) else 1) ||| (if call.expectedType = [] then 0 else 2) = flags
      at hthree hrequest htype ⊢
    obtain ⟨htake, hhead, hdrop, hlength⟩ :=
      call_parts (bigEndian_length 8 call.id.toNat) flags (textField call.method ++
      (optionalField call.requestId ++ (optionalField call.expectedType ++ call.payload)))
    have hvalue : ofBigEndian (bigEndian 8 call.id.toNat) = call.id.toNat :=
      (ofBigEndian_bigEndian 8 _).trans (Nat.mod_eq_of_lt call.id.toNat_lt)
    rw [not_or, not_or] at hfine
    obtain ⟨hmethod, hshort, hfine⟩ := hfine
    have hexpected : call.expectedType.length ≤ 127 ∧ call.expectedType.contains 0x2e = false ∧
        call.expectedType.contains 0 = false := by
      by_cases hnil : call.expectedType = []
      · simp [hnil]
      · simp only [not_and, not_or, Bool.not_eq_true, Nat.not_lt, gt_iff_lt] at hfine
        exact hfine hnil
    have hmethod : validEntityMethod call.method = true := by simpa using hmethod
    have hpart := hmethod
    simp only [validEntityMethod, validRoutePart, Bool.and_eq_true, decide_eq_true_eq] at hpart
    obtain ⟨⟨⟨⟨hne, hle⟩, -⟩, -⟩, -⟩ := hpart
    have hne : call.method ≠ [] := by simpa using hne
    have hpos := length_pos_iff.2 hne
    refine ⟨⟨?_, isPrefixOf_tag _ _⟩, ?_, flags, hhead, hthree, call.method, _,
      ⟨hne, hle, hdrop⟩, hmethod, call.requestId, _,
      ⟨hrequest, by omega, rfl⟩, call.expectedType, _, ⟨htype, hexpected.1, rfl⟩, hexpected.2, ?_⟩
    · rw [hlength, textField, cons_append, length_cons, length_append]
      omega
    · rw [htake, hvalue]
      exact fun h => hid (UInt64.toNat_inj.1 h)
    · rw [htake, hvalue, UInt64.ofNat_toNat]
      rfl

/-! ## `FSE1` and `FSE2` -/

structure EntityMessage where
  id : Bytes
  payload : Bytes
  requestId : Bytes
  deriving DecidableEq, Repr

def entityMessage (m : EntityMessage) : Except String Bytes := do
  refuseIf (m.id = [] ∨ m.id.length > 256) "invalid entity ID"
  refuseIf (m.requestId.length > 128) "request ID too large"
  if m.requestId = [] then pure (ascii "FSE1" ++ (bigEndian 2 m.id.length ++ (m.id ++ m.payload)))
  else pure (ascii "FSE2" ++ (bigEndian 2 m.id.length ++ (m.id ++
    (bigEndian 2 m.requestId.length ++ (m.requestId ++ m.payload)))))

/-- `parse_entity`. -/
def parseEntityMessage (input : Bytes) : Option EntityMessage :=
  if input.length < 6 ∨ (input.take 4 ≠ ascii "FSE1" ∧ input.take 4 ≠ ascii "FSE2") then none
  else
    let length := ofBigEndian ((input.drop 4).take 2)
    if length = 0 ∨ length > 256 ∨ input.length < 6 + length then none
    else
      let payload := input.drop (6 + length)
      if input.take 4 = ascii "FSE2" then
        let size := ofBigEndian (payload.take 2)
        if payload.length < 2 ∨ size = 0 ∨ size > 128 ∨ payload.length < 2 + size then none
        else some ⟨(input.drop 6).take length, payload.drop (2 + size), (payload.drop 2).take size⟩
      else some ⟨(input.drop 6).take length, payload, []⟩

/-- Behind a tag, where the parser looks. -/
theorem behind_tag {tag : Bytes} (htag : tag.length = 4) (rest : Bytes) :
    (tag ++ rest).length = 4 + rest.length ∧ (tag ++ rest).take 4 = tag ∧ (tag ++ rest).drop 4 = rest ∧
      (tag ++ rest).drop 6 = rest.drop 2 ∧ ∀ length, (tag ++ rest).drop (6 + length) = rest.drop (2 + length) := by
  have hdrop : ∀ count, (tag ++ rest).drop (4 + count) = rest.drop count :=
    fun count => by rw [← drop_drop, drop_left' htag]
  exact ⟨by rw [length_append, htag], take_left' htag, hdrop 0, hdrop 2, fun n => by rw [← hdrop, ← Nat.add_assoc]⟩

/-- The parser finds the fields a message was built from, and nothing else parses. -/
theorem parseEntityMessage_eq_some {input : Bytes} {m : EntityMessage} :
    parseEntityMessage input = some m ↔ entityMessage m = .ok input := by
  constructor
  · intro h
    have hlong : 6 ≤ input.length := by
      by_contra hshort
      rw [parseEntityMessage, if_pos (.inl (Nat.not_le.1 hshort))] at h
      cases h
    obtain ⟨tag, rest, htag, rfl⟩ : ∃ tag rest : Bytes, tag.length = 4 ∧ input = tag ++ rest :=
      ⟨input.take 4, input.drop 4, by rw [length_take]; omega, (take_append_drop 4 input).symm⟩
    rw [length_append, htag] at hlong
    simp only [parseEntityMessage, behind_tag htag, Option.ite_none_left_eq_some, not_or] at h
    obtain ⟨⟨-, hname⟩, ⟨hzero, hmax, hroom⟩, h⟩ := h
    obtain ⟨id, rest, hsmall, rfl⟩ := exists_field 2 rest (by omega)
    obtain ⟨hnumber, htext, hdrop⟩ := field_append 2 rest hsmall
    rw [hnumber] at hzero hmax
    simp only [hnumber, htext, hdrop] at h
    have hid : ¬ (id = [] ∨ id.length > 256) := by
      rintro (rfl | h)
      · exact hzero rfl
      · exact hmax h
    split_ifs at h with htwo hbounds
    · rw [not_or, not_or, not_or] at hbounds
      obtain ⟨request, payload, hsmall', rfl⟩ := exists_field 2 _ (Nat.not_lt.1 hbounds.2.2.2)
      obtain ⟨hnumber', htext', hdrop'⟩ := field_append 2 payload hsmall'
      simp only [hnumber', htext', hdrop', Option.some.injEq] at h hbounds
      subst h htwo
      have hne : request ≠ [] := fun hnil => hbounds.2.1 (by rw [hnil]; rfl)
      rw [entityMessage, refuseIf_of_not _ hid, ok_bind, refuseIf_of_not _ hbounds.2.2.1, ok_bind, if_neg hne]
      rfl
    · obtain rfl := Option.some.inj h
      have hone : tag = ascii "FSE1" := by
        by_contra hne
        exact hname ⟨hne, htwo⟩
      rw [entityMessage, refuseIf_of_not _ hid, ok_bind, refuseIf_of_not _ (by simp), ok_bind, if_pos rfl, hone]
      rfl
  · intro h
    simp only [entityMessage, refuseIf_bind_eq_ok, not_or] at h
    obtain ⟨⟨hne, hmax⟩, hrequest, h⟩ := h
    have hpos := length_pos_iff.2 hne
    have hsmall : m.id.length < 256 ^ 2 := by omega
    have hroom : ∀ text tail : Bytes,
        (bigEndian 2 text.length ++ (text ++ tail)).length = 2 + (text.length + tail.length) := fun _ _ => by simp
    split_ifs at h with hnil
    · obtain rfl := Except.ok.inj h
      obtain ⟨hnumber, htext, hdrop⟩ := field_append 2 m.payload hsmall
      simp only [parseEntityMessage, behind_tag (show (ascii "FSE1").length = 4 from rfl), hnumber, htext, hdrop, hroom]
      rw [if_neg (by simp; omega), if_neg (by omega), if_neg (by decide), ← hnil]
    · obtain rfl := Except.ok.inj h
      obtain ⟨hnumber, htext, hdrop⟩ :=
        field_append 2 (bigEndian 2 m.requestId.length ++ (m.requestId ++ m.payload)) hsmall
      obtain ⟨hnumber', htext', hdrop'⟩ := field_append 2 m.payload (show m.requestId.length < 256 ^ 2 by omega)
      have hpos' := length_pos_iff.2 hnil
      simp only [parseEntityMessage, behind_tag (show (ascii "FSE2").length = 4 from rfl), hnumber, htext, hdrop, hroom,
        hnumber', htext', hdrop']
      rw [if_neg (by simp; omega), if_neg (by omega), if_pos trivial, if_neg (by omega)]

/-! ## `FSS1` -/

section

variable {state : Bytes} (payload : Bytes)

/-- The state is found, and what follows it when its end is a 32-bit number. -/
theorem parseStateMessage_stateMessage (h : state.length < 2 ^ 32) :
    parseStateMessage (stateMessage state payload) =
      some (state, (stateMessage state payload).drop ((8 + state.length) % 2 ^ 32)) := by
  obtain ⟨hnumber, htext, -⟩ := field_append 4 payload (show state.length < 256 ^ 4 by simpa using h)
  have hdrop : ∀ rest : Bytes, (ascii "FSS1" ++ rest).drop 4 = rest := fun _ => rfl
  have hlater : ∀ rest : Bytes, (ascii "FSS1" ++ rest).drop 8 = rest.drop 4 := fun _ => rfl
  have hlength : (stateMessage state payload).length = 8 + (state.length + payload.length) := by
    have htag : (ascii "FSS1").length = 4 := rfl
    simp only [stateMessage, number, length_append, bigEndian_length, htag]
  have hroom : ¬ state.length > 8 + (state.length + payload.length) - 8 := by omega
  rw [parseStateMessage, hlength, if_neg (by simp [stateMessage, isPrefixOf_tag])]
  simp only [stateMessage, number, append_assoc, hdrop, hlater, hnumber, htext, if_neg hroom]

/-- The payload is what follows the state unless the end of the state takes more than 32 bits. -/
theorem payload_of_stateMessage (h : state.length < 2 ^ 32) :
    (stateMessage state payload).drop ((8 + state.length) % 2 ^ 32) = payload ↔ 8 + state.length < 2 ^ 32 := by
  have htag : (ascii "FSS1" ++ number state.length).length = 8 := by simp [number, ascii]
  constructor
  · intro heq
    have hlength := congrArg List.length heq
    rw [stateMessage, length_drop, length_append, htag, length_append] at hlength
    omega
  · intro hsmall
    rw [Nat.mod_eq_of_lt hsmall, stateMessage, ← drop_drop, drop_left' htag, drop_left' rfl]

end

/-- What parses begins with a state as the builder writes it. -/
theorem exists_stateMessage {input state payload : Bytes} (h : parseStateMessage input = some (state, payload)) :
    state.length < 2 ^ 32 ∧ ∃ rest, input = stateMessage state rest := by
  have hparsed := h
  rw [parseStateMessage, Option.ite_none_left_eq_some, not_or, not_not] at hparsed
  obtain ⟨⟨hlong, htag⟩, hparsed⟩ := hparsed
  obtain ⟨rest, rfl⟩ := isPrefixOf_iff_prefix.1 htag
  have hdrop : (ascii "FSS1" ++ rest).drop 4 = rest := rfl
  have hlength : (ascii "FSS1" ++ rest).length = 4 + rest.length := length_append
  simp only [hdrop, hlength, Option.ite_none_left_eq_some] at hparsed hlong
  obtain ⟨hroom, -⟩ := hparsed
  obtain ⟨text, tail, hsmall, rfl⟩ := exists_field 4 rest (by omega)
  have hshape : ascii "FSS1" ++ (bigEndian 4 text.length ++ (text ++ tail)) = stateMessage text tail := by
    rw [stateMessage, number, append_assoc]
  have hsmall : text.length < 2 ^ 32 := by simpa using hsmall
  rw [hshape, parseStateMessage_stateMessage tail hsmall] at h
  obtain ⟨rfl, -⟩ := Prod.mk.inj (Option.some.inj h)
  exact ⟨hsmall, tail, hshape⟩

/-! ## Exactness -/

/-- Calls and messages of entities parse to the fields they are built from, and what parses was built from what it
parses to; so do states as long as their end is a 32-bit number, and only then. -/
theorem rpc_envelopes_exact (input state payload : Bytes) :
    (∀ call, parseEntityCallView input = some call ↔ call.id ≠ 0 ∧ entityCallMessage call = .ok input) ∧
    (∀ m, parseEntityMessage input = some m ↔ entityMessage m = .ok input) ∧
    (state.length < 2 ^ 32 →
      (parseStateMessage (stateMessage state payload) = some (state, payload) ↔ 8 + state.length < 2 ^ 32)) ∧
    (parseStateMessage input = some (state, payload) →
      (input = stateMessage state payload ↔ 8 + state.length < 2 ^ 32)) := by
  refine ⟨fun _ => parseEntityCallView_eq_some, fun _ => parseEntityMessage_eq_some, fun h => ?_, fun h => ?_⟩
  · rw [parseStateMessage_stateMessage payload h, Option.some.injEq, Prod.mk.injEq, and_iff_right rfl]
    exact payload_of_stateMessage payload h
  · obtain ⟨hsmall, rest, rfl⟩ := exists_stateMessage h
    rw [parseStateMessage_stateMessage rest hsmall, Option.some.injEq, Prod.mk.injEq, and_iff_right rfl] at h
    rw [← payload_of_stateMessage rest hsmall, h, stateMessage, stateMessage, append_right_inj, append_right_inj]
    exact eq_comm

theorem rpc_envelopes_exact_short :
    parseStateMessage (stateMessage [1] [2]) = some ([1], [2]) ∧ (8 + [(1 : UInt8)].length < 2 ^ 32) :=
  have h : 8 + [(1 : UInt8)].length < 2 ^ 32 := by decide
  ⟨((rpc_envelopes_exact [] [1] [2]).2.2.1 (by decide)).2 h, h⟩

/-- The shortest state whose end is past 32 bits. -/
def longState : Bytes := List.replicate (2 ^ 32 - 8) 0

theorem stateMessage_misread :
    longState.length < 2 ^ 32 ∧ parseStateMessage (stateMessage longState []) ≠ some (longState, []) := by
  have hlength : longState.length = 2 ^ 32 - 8 := length_replicate
  have hsmall : longState.length < 2 ^ 32 := by omega
  refine ⟨hsmall, fun h => ?_⟩
  rw [parseStateMessage_stateMessage [] hsmall] at h
  have hpayload := (Prod.mk.inj (Option.some.inj h)).2
  have := (payload_of_stateMessage [] hsmall).1 hpayload
  omega

end Fsnet
