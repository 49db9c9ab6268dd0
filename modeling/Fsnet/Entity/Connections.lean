import Fsnet.Lib.Except
import Fsnet.Entity.Identity
/-!
# Connection keys

Ownership is decided by comparing the textual keys of connections. A key is
`connection/`, the thirty-two digits of the id, a slash and the generation in
decimal; `valid_connection_key`, `from_key` and `matches_key` read it by
position. Every string they accept is the one spelling `key` gives a valid
connection.
-/

namespace Fsnet

open Lib List

/-- `from_key`; the two texts are those of the exceptions it throws. -/
def ConnectionRef.fromKey (key : Bytes) : Except String ConnectionRef := do
  refuseIf (validConnectionKey key = false) "invalid connection key"
  let rest := key.drop 11
  refuseIf (rest.length < 34 ∨ rest[32]? ≠ some 0x2f) "invalid connection key"
  let number := rest.drop 33
  match fromChars number with
  | .none => .error "invalid connection generation"
  | .some generation => do
    let result : ConnectionRef := ⟨rest.take 32, generation⟩
    refuseIf (result.valid = false ∨ (1 < number.length ∧ number.head? = some 48)) "invalid connection generation"
    return result

namespace ConnectionRef

/-! ## Generations -/

theorem fromChars_decimal (generation : UInt64) : fromChars (decimal generation.toNat) = some generation := by
  have hne : decimal generation.toNat ≠ [] := by simp [decimal, digits]
  have hdigit : (decimal generation.toNat).all isDigit = true := all_eq_true.mpr (decimal_isDigit _)
  rw [fromChars, if_pos ⟨hne, hdigit, by simpa using generation.toNat_lt⟩]
  simp

/-- A numeral without a leading zero that `from_chars` accepts is the one `to_string` prints. -/
theorem decimal_of_fromChars {number : Bytes} {generation : UInt64} (hlead : number.head? ≠ some 48)
    (h : fromChars number = some generation) : decimal generation.toNat = number := by
  unfold fromChars at h
  split at h
  · rename_i haccept
    obtain ⟨hne, hdigit, hsmall⟩ := haccept
    have hvalue : generation.toNat = ofDecimal number := by
      rw [← Option.some.inj h, UInt64.toNat_ofNat_of_lt' hsmall]
    obtain ⟨-, hdigits⟩ := digits_ofDecimal number hne (all_eq_true.mp hdigit) hlead
    rw [hvalue, decimal, hdigits _ (Nat.lt_succ_self _), reverse_reverse]
  · simp at h

/-- The numeral of a generation takes one to twenty bytes and starts with no zero. -/
theorem decimal_generation {generation : UInt64} (h : generation ≠ 0) :
    (decimal generation.toNat).head? ≠ some 48 ∧ 0 < (decimal generation.toNat).length ∧
      (decimal generation.toNat).length ≤ 20 := by
  have hpos : 0 < generation.toNat := Nat.pos_of_ne_zero fun hzero => h (UInt64.toNat_inj.mp hzero)
  obtain ⟨b, hb, hzero⟩ := digits_getLast _ _ hpos (Nat.lt_succ_self _)
  refine ⟨?_, ?_, ?_⟩
  · rw [decimal, head?_reverse, hb]
    simpa using hzero
  · simp [decimal, digits]
  · rw [decimal, length_reverse]
    exact digits_length _ _ 19 (lt_trans generation.toNat_lt (by norm_num))

/-! ## Reading a key by position -/

/-- A string with the separators of a key, where the readers look for them. -/
def spell (id number : Bytes) : Bytes := connectionTag ++ (id ++ 0x2f :: number)

theorem tag_drop (rest : Bytes) : (connectionTag ++ rest).drop 11 = rest := drop_left' rfl

section

variable {id number : Bytes} (hid : id.length = 32)
include hid

theorem spell_id : ((spell id number).drop 11).take 32 = id := by
  rw [spell, tag_drop, take_left' hid]

theorem spell_slash : ((spell id number).drop 11)[32]? = some 0x2f := by
  rw [spell, tag_drop]
  simp [hid]

theorem spell_number : ((spell id number).drop 11).drop 33 = number := by
  rw [spell, tag_drop]
  simp [drop_append, hid]

theorem spell_length : (spell id number).length = 44 + number.length := by
  have htag : connectionTag.length = 11 := rfl
  simp only [spell, length_append, length_cons, htag, hid]
  omega

theorem validConnectionKey_spell : validConnectionKey (spell id number) = true ↔
    id.all isHex = true ∧ number.length ≤ 20 ∧ number.head? ≠ some 48 ∧
      ∃ generation, fromChars number = some generation ∧ generation ≠ 0 := by
  have htag : connectionTag.isPrefixOf (spell id number) = true := by
    rw [ isPrefixOf_iff_prefix]
    exact prefix_append _ _
  simp only [validConnectionKey, htag, spell_id hid, spell_slash hid, spell_number hid, spell_length hid,
    Bool.and_eq_true, decide_eq_true_eq, Option.any_eq_true, ne_eq, true_and, and_true]
  constructor
  · rintro ⟨⟨hshort, hlong⟩, hhex, ⟨hne, hlead⟩, hnumber⟩
    exact ⟨hhex, by omega, hlead, hnumber⟩
  · rintro ⟨hhex, hlong, hlead, hnumber⟩
    have hne : number ≠ [] := by
      rintro rfl
      simp [fromChars] at hnumber
    have := length_pos_iff.mpr hne
    exact ⟨⟨by omega, by omega⟩, hhex, ⟨by simpa using hne, hlead⟩, hnumber⟩

end

variable {key : Bytes} {r : ConnectionRef}

/-- A valid key has the separators where the readers look for them. -/
theorem spell_of_valid (h : validConnectionKey key = true) :
    ∃ id number, id.length = 32 ∧ key = spell id number := by
  simp only [validConnectionKey, Bool.and_eq_true, decide_eq_true_eq, isPrefixOf_iff_prefix] at h
  obtain ⟨⟨⟨⟨rest, rfl⟩, -⟩, -⟩, ⟨-, hslash⟩, -⟩ := h
  rw [tag_drop] at hslash
  obtain ⟨hlen, hat⟩ := List.getElem?_eq_some_iff.mp hslash
  refine ⟨rest.take 32, rest.drop 33, by rw [length_take]; omega, ?_⟩
  rw [spell, ← hat, ← drop_eq_getElem_cons hlen, take_append_drop]

theorem valid_iff :
    r.valid = true ↔ r.id.length = 32 ∧ r.generation ≠ 0 ∧ r.id.all isHex = true := by
  simp [valid, and_assoc]

theorem key_eq :
    r.key = some key ↔ r.valid = true ∧ key = spell r.id (decimal r.generation.toNat) := by
  unfold ConnectionRef.key spell
  split
  · rename_i hvalid
    simp [hvalid, eq_comm]
  · rename_i hvalid
    simp [hvalid]

/-! ## Canonical keys -/

/-- A valid key spells a valid connection. -/
theorem exists_key (h : validConnectionKey key = true) : ∃ r : ConnectionRef, r.key = some key := by
  obtain ⟨id, _, hid, rfl⟩ := spell_of_valid h
  obtain ⟨hhex, -, hlead, generation, hnumber, hzero⟩ := (validConnectionKey_spell hid).mp h
  refine ⟨⟨id, generation⟩, key_eq.mpr ⟨valid_iff.mpr ⟨hid, hzero, hhex⟩, ?_⟩⟩
  rw [decimal_of_fromChars hlead hnumber]

theorem validConnectionKey_key (h : r.key = some key) :
    validConnectionKey key = true := by
  obtain ⟨hvalid, rfl⟩ := key_eq.mp h
  obtain ⟨hid, hzero, hhex⟩ := valid_iff.mp hvalid
  obtain ⟨hlead, -, hlong⟩ := decimal_generation hzero
  exact (validConnectionKey_spell hid).mpr ⟨hhex, hlong, hlead, _, fromChars_decimal _, hzero⟩

theorem fromKey_key (h : r.key = some key) : fromKey key = .ok r := by
  have hkey := validConnectionKey_key h
  obtain ⟨hvalid, rfl⟩ := key_eq.mp h
  obtain ⟨hid, hzero, -⟩ := valid_iff.mp hvalid
  have hlength : ¬ (spell r.id (decimal r.generation.toNat)).length - 11 < 34 := by
    have := (decimal_generation hzero).2.1
    rw [spell_length hid]
    omega
  simp [fromKey, hkey, hlength, spell_slash hid, spell_number hid, spell_id hid, fromChars_decimal, hvalid,
    (decimal_generation hzero).1]

theorem matchesKey_iff : r.matchesKey key = true ↔ r.key = some key := by
  simp only [matchesKey, Bool.and_eq_true, decide_eq_true_eq]
  rw [show (44 : Nat) = 11 + 33 from rfl, ← drop_drop]
  constructor
  · rintro ⟨⟨⟨-, hkey⟩, hid⟩, hgeneration⟩
    obtain ⟨r', h⟩ := exists_key hkey
    obtain ⟨hvalid, rfl⟩ := key_eq.mp h
    have hlen := (valid_iff.mp hvalid).1
    rw [spell_id hlen] at hid
    rw [spell_number hlen, fromChars_decimal] at hgeneration
    cases r
    cases r'
    simp_all
  · intro h
    have hkey := validConnectionKey_key h
    obtain ⟨hvalid, rfl⟩ := key_eq.mp h
    have hid := (valid_iff.mp hvalid).1
    exact ⟨⟨⟨hvalid, hkey⟩, spell_id hid⟩, by rw [spell_number hid, fromChars_decimal]⟩

/-- A connection has one key. The readers of keys accept the keys of valid connections and no other
string, `from_key` inverts `key`, and a connection matches its own key only. -/
theorem connection_keys_canonical :
    (∀ key, validConnectionKey key = true ↔ ∃ r : ConnectionRef, r.valid = true ∧ r.key = some key) ∧
    (∀ key, (∃ r, fromKey key = .ok r) ↔ validConnectionKey key = true) ∧
    (∀ key r, fromKey key = .ok r ↔ r.valid = true ∧ r.key = some key) ∧
    (∀ (r : ConnectionRef) key, r.matchesKey key = true ↔ r.valid = true ∧ r.key = some key) := by
  have hvalid {r : ConnectionRef} {key : Bytes} (h : r.key = some key) := (key_eq.mp h).1
  have hread {key : Bytes} {r : ConnectionRef} (h : fromKey key = .ok r) : validConnectionKey key = true := by
    simp only [fromKey, refuseIf_bind_eq_ok, Bool.not_eq_false] at h
    exact h.1
  refine ⟨fun key => ⟨fun h => ?_, fun ⟨r, _, h⟩ => validConnectionKey_key h⟩,
    fun key => ⟨fun ⟨r, h⟩ => hread h, fun h => ?_⟩,
    fun key r => ⟨fun h => ?_, fun h => fromKey_key h.2⟩,
    fun r key => ⟨fun h => ?_, fun h => matchesKey_iff.mpr h.2⟩⟩
  · obtain ⟨r, h⟩ := exists_key h
    exact ⟨r, hvalid h, h⟩
  · obtain ⟨r, h⟩ := exists_key h
    exact ⟨r, fromKey_key h⟩
  · obtain ⟨_, h'⟩ := exists_key (hread h)
    obtain rfl := Except.ok.inj ((fromKey_key h').symm.trans h)
    exact ⟨hvalid h', h'⟩
  · have h := matchesKey_iff.mp h
    exact ⟨hvalid h, h⟩

end ConnectionRef

end Fsnet
