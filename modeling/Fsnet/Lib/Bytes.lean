import Mathlib.Order.Lattice
import Mathlib.Data.List.Induction
import Mathlib.Data.List.Lex
import Mathlib.Tactic.Linarith
import Mathlib.Tactic.Ring
/-!
# Byte strings

Big-endian integers, hexadecimal digits and decimal numerals over lists of
bytes. Each encoder comes with the fact that makes it readable again: the
integer a fixed number of bytes stands for, the numeral a decimal string
spells, and that two encodings followed by anything agree only on equal parts.
-/

namespace Lib

open List

abbrev Bytes := List UInt8

/-- The bytes of an ASCII literal. -/
def ascii (s : String) : Bytes := s.toList.map fun c => UInt8.ofNat c.toNat

instance byteOrder : LinearOrder UInt8 where
  le_refl a := UInt8.le_refl a
  le_trans _ _ _ := UInt8.le_trans
  le_antisymm _ _ := UInt8.le_antisymm
  le_total a b := UInt8.le_total a b
  lt_iff_le_not_ge a b := by
    simp only [UInt8.lt_iff_toNat_lt, UInt8.le_iff_toNat_le]; omega
  toDecidableLE := inferInstance
  toDecidableLT := inferInstance
  toDecidableEq := inferInstance

/-! ## Big-endian integers -/

/-- The low `count` bytes of `n`, most significant first. -/
def bigEndian : Nat → Nat → Bytes
  | 0, _ => []
  | count + 1, n => UInt8.ofNat (n / 256 ^ count) :: bigEndian count n

/-- The integer a byte string stands for, most significant byte first. -/
def ofBigEndian (bytes : Bytes) : Nat := bytes.foldl (fun n b => n * 256 + b.toNat) 0

@[simp] theorem bigEndian_length (count n : Nat) : (bigEndian count n).length = count := by
  induction count with
  | zero => rfl
  | succ _ ih => simp [bigEndian, ih]

theorem foldl_bigEndian (count n acc : Nat) :
    (bigEndian count n).foldl (fun n b => n * 256 + b.toNat) acc = acc * 256 ^ count + n % 256 ^ count := by
  induction count generalizing acc with
  | zero => simp [bigEndian, Nat.mod_one]
  | succ count ih =>
    have hsplit : n % 256 ^ (count + 1) = n / 256 ^ count % 256 * 256 ^ count + n % 256 ^ count := by
      rw [pow_succ, Nat.mod_mul]; ring
    simp only [bigEndian, foldl_cons, ih, UInt8.toNat_ofNat', hsplit]
    norm_num
    ring

/-- A big-endian integer reads back as its value, cut to the bytes it has. -/
theorem ofBigEndian_bigEndian (count n : Nat) : ofBigEndian (bigEndian count n) = n % 256 ^ count := by
  simp [ofBigEndian, foldl_bigEndian]

theorem foldl_lt (bytes : Bytes) (acc bound : Nat) (h : acc < bound) :
    bytes.foldl (fun n b => n * 256 + b.toNat) acc < bound * 256 ^ bytes.length := by
  induction bytes generalizing acc bound with
  | nil => simpa using h
  | cons b bytes ih =>
    have hb := b.toNat_lt
    have := ih (acc * 256 + b.toNat) (bound * 256) (by omega)
    rwa [length_cons, Nat.pow_succ', ← Nat.mul_assoc]

theorem ofBigEndian_lt (bytes : Bytes) : ofBigEndian bytes < 256 ^ bytes.length := by
  unfold ofBigEndian
  simpa using foldl_lt bytes 0 1 Nat.one_pos

theorem le_foldl (bytes : Bytes) (acc : Nat) :
    acc * 256 ^ bytes.length ≤ bytes.foldl (fun n b => n * 256 + b.toNat) acc := by
  induction bytes generalizing acc with
  | nil => simp
  | cons b _ ih =>
    rw [length_cons, Nat.pow_succ', ← Nat.mul_assoc]
    exact (Nat.mul_le_mul_right _ (Nat.le_add_right _ _)).trans (ih (acc * 256 + b.toNat))

/-- The bytes of the integer that a byte string stands for. -/
theorem bigEndian_ofBigEndian (bytes : Bytes) : bigEndian bytes.length (ofBigEndian bytes) = bytes := by
  suffices h : ∀ acc, bigEndian bytes.length (bytes.foldl (fun n b => n * 256 + b.toNat) acc) = bytes from h 0
  induction bytes with
  | nil => exact fun _ => rfl
  | cons b bytes ih =>
    intro acc
    have hlow := le_foldl bytes (acc * 256 + b.toNat)
    have hhigh := foldl_lt bytes _ _ (Nat.lt_succ_self (acc * 256 + b.toNat))
    have hbyte : UInt8.ofNat (acc * 256 + b.toNat) = b := by
      have := b.toNat_lt
      rw [← UInt8.toNat_inj, UInt8.toNat_ofNat']
      omega
    rw [length_cons, bigEndian, foldl_cons, ih, Nat.div_eq_of_lt_le hlow hhigh, hbyte]

theorem bigEndian_inj {count m n : Nat} (hm : m < 256 ^ count) (hn : n < 256 ^ count)
    (h : bigEndian count m = bigEndian count n) : m = n := by
  have := congrArg ofBigEndian h
  rwa [ofBigEndian_bigEndian, ofBigEndian_bigEndian, Nat.mod_eq_of_lt hm, Nat.mod_eq_of_lt hn] at this

/-! ## Hexadecimal digits -/

def hexDigit (n : Nat) : UInt8 := (ascii "0123456789abcdef").getD n 0

def hex : Bytes → Bytes
  | [] => []
  | byte :: rest => hexDigit (byte.toNat / 16) :: hexDigit (byte.toNat % 16) :: hex rest

theorem hexDigit_inj : ∀ m < 16, ∀ n < 16, hexDigit m = hexDigit n → m = n := by
  decide

theorem hex_injective : Function.Injective hex := by
  intro a
  induction a with
  | nil =>
    intro b h
    cases b with
    | nil => rfl
    | cons => simp [hex] at h
  | cons x a ih =>
    intro b h
    cases b with
    | nil => simp [hex] at h
    | cons y b =>
      simp only [hex, List.cons.injEq] at h
      have hx := x.toNat_lt
      have hy := y.toNat_lt
      have hhigh := hexDigit_inj _ (by omega) _ (by omega) h.1
      have hlow := hexDigit_inj _ (by omega) _ (by omega) h.2.1
      have hxy : x = y := UInt8.toNat_inj.1 (by omega)
      rw [hxy, ih h.2.2]

/-! ## Decimal numerals -/

/-- The decimal digits of `n`, least significant first; `fuel` bounds their number. -/
def digits : Nat → Nat → Bytes
  | 0, _ => []
  | fuel + 1, n => UInt8.ofNat (48 + n % 10) :: if n / 10 = 0 then [] else digits fuel (n / 10)

/-- `n` in decimal, as `std::to_string` prints it. -/
def decimal (n : Nat) : Bytes := (digits (n + 1) n).reverse

/-- The number a string of decimal digits spells. -/
def ofDecimal (bytes : Bytes) : Nat := bytes.foldl (fun n b => n * 10 + (b.toNat - 48)) 0

/-- A byte between `'0'` and `'9'`. -/
def isDigit (b : UInt8) : Bool := 48 ≤ b && b ≤ 57

theorem toNat_digit (n : Nat) : (UInt8.ofNat (48 + n % 10)).toNat = 48 + n % 10 := by
  rw [UInt8.toNat_ofNat']; omega

theorem ofDecimal_append (xs : Bytes) (b : UInt8) : ofDecimal (xs ++ [b]) = ofDecimal xs * 10 + (b.toNat - 48) := by
  simp [ofDecimal]

theorem ofDecimal_digits (fuel n : Nat) (h : n < fuel) : ofDecimal (digits fuel n).reverse = n := by
  induction fuel generalizing n with
  | zero => omega
  | succ fuel ih =>
    rw [digits, reverse_cons, ofDecimal_append, toNat_digit]
    split
    · simp [ofDecimal]; omega
    · rw [ih (n / 10) (by omega)]; omega

/-- The numeral of `n` spells `n`. -/
@[simp] theorem ofDecimal_decimal (n : Nat) : ofDecimal (decimal n) = n :=
  ofDecimal_digits (n + 1) n (Nat.lt_succ_self n)

theorem decimal_injective : Function.Injective decimal := by
  intro m n h
  simpa using congrArg ofDecimal h

theorem digits_isDigit (fuel n : Nat) : ∀ b ∈ digits fuel n, isDigit b = true := by
  induction fuel generalizing n with
  | zero => simp [digits]
  | succ fuel ih =>
    intro b hb
    rw [digits, mem_cons] at hb
    rcases hb with rfl | hb
    · have := toNat_digit n
      simp only [isDigit, Bool.and_eq_true, decide_eq_true_eq, UInt8.le_iff_toNat_le, this]
      constructor
      · simp
      · simp only [UInt8.reduceToNat]
        omega
    · split at hb
      · simp at hb
      · exact ih _ b hb

theorem decimal_isDigit (n : Nat) : ∀ b ∈ decimal n, isDigit b = true := by
  intro b hb
  exact digits_isDigit _ _ b (by simpa [decimal] using hb)

/-- A string of digits without a leading zero is positive, and the digits of its value are its own. -/
theorem digits_ofDecimal (text : Bytes) (hne : text ≠ []) (hdigit : ∀ b ∈ text, isDigit b = true)
    (hlead : text.head? ≠ some 48) :
    0 < ofDecimal text ∧ ∀ fuel, ofDecimal text < fuel → digits fuel (ofDecimal text) = text.reverse := by
  induction text using List.reverseRecOn with
  | nil => exact absurd rfl hne
  | append_singleton init last ih =>
    have hlast : 48 ≤ last.toNat ∧ last.toNat ≤ 57 := by
      simpa [isDigit, UInt8.le_iff_toNat_le] using hdigit last (by simp)
    have hspell : UInt8.ofNat (48 + (last.toNat - 48)) = last := by
      rw [Nat.add_sub_cancel' hlast.1, UInt8.ofNat_toNat]
    have hmod : (ofDecimal init * 10 + (last.toNat - 48)) % 10 = last.toNat - 48 := by omega
    have hdiv : (ofDecimal init * 10 + (last.toNat - 48)) / 10 = ofDecimal init := by omega
    rw [ofDecimal_append, reverse_append]
    by_cases hinit : init = []
    · subst hinit
      have hzero : last.toNat ≠ 48 := fun h => hlead (by simp [← UInt8.toNat_inj, h])
      refine ⟨by omega, fun fuel hfuel => ?_⟩
      obtain ⟨fuel, rfl⟩ : ∃ k, fuel = k + 1 := ⟨fuel - 1, by omega⟩
      rw [digits, hmod, hdiv, if_pos (show ofDecimal [] = 0 from rfl), hspell]
      rfl
    · obtain ⟨hpos, hdigits⟩ := ih hinit (fun b hb => hdigit b (mem_append_left _ hb))
        (by rwa [head?_append_of_ne_nil _ hinit] at hlead)
      refine ⟨by omega, fun fuel hfuel => ?_⟩
      obtain ⟨fuel, rfl⟩ : ∃ k, fuel = k + 1 := ⟨fuel - 1, by omega⟩
      rw [digits, hmod, hdiv, if_neg hpos.ne', hdigits fuel (by omega), hspell]
      rfl

/-- A numeral has as many digits as its value asks for. -/
theorem digits_length (fuel n k : Nat) (h : n < 10 ^ (k + 1)) : (digits fuel n).length ≤ k + 1 := by
  induction fuel generalizing n k with
  | zero => simp [digits]
  | succ fuel ih =>
    rw [digits, length_cons]
    split
    · simp
    · cases k with
      | zero => omega
      | succ k => have := ih (n / 10) k (by rw [pow_succ] at h; omega); omega

/-- The most significant digit of a positive number is no zero. -/
theorem digits_getLast (fuel n : Nat) (hn : 0 < n) (hfuel : n < fuel) :
    ∃ b, (digits fuel n).getLast? = some b ∧ b ≠ 48 := by
  induction fuel generalizing n with
  | zero => omega
  | succ fuel ih =>
    rw [digits]
    split
    · refine ⟨_, getLast?_singleton, fun h => ?_⟩
      have hdigit := toNat_digit n
      have hzero : (48 : UInt8).toNat = 48 := rfl
      rw [h, hzero] at hdigit
      omega
    · obtain ⟨b, hb, hzero⟩ := ih (n / 10) (by omega) (by omega)
      exact ⟨b, by rw [getLast?_cons, hb, Option.getD_some], hzero⟩

/-- A byte string is cut in one way at the first occurrence of a byte. -/
theorem cut_inj {sep : UInt8} {xs ys us vs : Bytes} (hx : sep ∉ xs) (hy : sep ∉ ys)
    (h : xs ++ sep :: us = ys ++ sep :: vs) : xs = ys ∧ us = vs := by
  induction xs generalizing ys with
  | nil =>
    cases ys with
    | nil => simpa using h
    | cons =>
      rw [nil_append, cons_append, List.cons.injEq] at h
      exact absurd (h.1 ▸ mem_cons_self) hy
  | cons _ _ ih =>
    cases ys with
    | nil =>
      rw [nil_append, cons_append, List.cons.injEq] at h
      exact absurd (h.1 ▸ mem_cons_self) hx
    | cons =>
      rw [cons_append, cons_append, List.cons.injEq] at h
      rw [mem_cons, not_or] at hx hy
      obtain ⟨htail, hrest⟩ := ih hx.2 hy.2 h.2
      exact ⟨by rw [h.1, htail], hrest⟩

end Lib
