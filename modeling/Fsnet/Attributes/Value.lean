import Fsnet.Lib.Bytes
import Fsnet.Lib.OrdMap
/-!
# Attribute values

The recursive values an entity's attributes hold, the `==` the source compares
them with, and the native charge of an image. A `std::map` inside a value is
its list of entries; that the entries are in key order is `Ordered`, which
every value the program can build satisfies.
-/

namespace Fsnet

open Lib

/-- `AttributeValue`, its alternatives in the order of the variant. A double is
its 64-bit pattern. -/
inductive AttributeValue where
  | integer (n : Int64)
  | number (bits : UInt64)
  | boolean (b : Bool)
  | text (s : Bytes)
  | fields (entries : List (Bytes × AttributeValue))
  | array (items : List AttributeValue)
  | map (entries : List (Bytes × AttributeValue))

abbrev AttributeStruct := List (Bytes × AttributeValue)

instance : Inhabited AttributeValue := ⟨.boolean false⟩

/-- The position of the alternative in the variant. -/
def AttributeValue.index : AttributeValue → Nat
  | .integer _ => 0
  | .number _ => 1
  | .boolean _ => 2
  | .text _ => 3
  | .fields _ => 4
  | .array _ => 5
  | .map _ => 6

/-- Induction with the hypothesis for every nested value. -/
@[induction_eliminator]
theorem AttributeValue.induct {P : AttributeValue → Prop}
    (integer : ∀ n, P (.integer n)) (number : ∀ bits, P (.number bits))
    (boolean : ∀ b, P (.boolean b)) (text : ∀ s, P (.text s))
    (fields : ∀ entries : AttributeStruct, (∀ e ∈ entries, P e.2) → P (.fields entries))
    (array : ∀ items : List AttributeValue, (∀ v ∈ items, P v) → P (.array items))
    (map : ∀ entries : AttributeStruct, (∀ e ∈ entries, P e.2) → P (.map entries)) :
    ∀ v, P v :=
  @AttributeValue.rec P (fun entries => ∀ e ∈ entries, P e.2) (fun items => ∀ v ∈ items, P v)
    (fun e => P e.2) integer number boolean text fields array map
    (fun _ h => nomatch h) (fun _ _ hd tl => List.forall_mem_cons.2 ⟨hd, tl⟩)
    (fun _ h => nomatch h) (fun _ _ hd tl => List.forall_mem_cons.2 ⟨hd, tl⟩)
    (fun _ _ h => h)

/-! ## Doubles -/

/-- The biased exponent of a double. -/
def exponent (bits : UInt64) : Nat := bits.toNat / 2 ^ 52 % 2 ^ 11

/-- `std::isfinite`. -/
def isFinite (bits : UInt64) : Bool := exponent bits ≠ 0x7ff

def isNaN (bits : UInt64) : Bool := exponent bits = 0x7ff ∧ bits.toNat % 2 ^ 52 ≠ 0

/-- The bit pattern of `-0.0`. -/
def negativeZero : UInt64 := 0x8000000000000000

def isZero (bits : UInt64) : Bool := bits = 0 ∨ bits = negativeZero

/-- `==` on doubles: a NaN equals nothing and the two zeros are equal. -/
def sameNumber (a b : UInt64) : Bool := !isNaN a && !isNaN b && (a == b || (isZero a && isZero b))

/-- One bit pattern for the two zeros. -/
def canonNumber (bits : UInt64) : UInt64 := if bits = negativeZero then 0 else bits

theorem isFinite_canonNumber (bits : UInt64) : isFinite (canonNumber bits) = isFinite bits := by
  unfold canonNumber
  split_ifs with h
  · subst h; decide
  · rfl

/-- Against a finite number, `==` is equality with one zero. -/
theorem sameNumber_iff {a b : UInt64} (hb : isFinite b = true) :
    sameNumber a b = true ↔ canonNumber a = canonNumber b := by
  have notNaN : ∀ {x : UInt64}, isFinite x = true → isNaN x = false := by
    intro x hx
    have hne : exponent x ≠ 0x7ff := by simpa [isFinite] using hx
    simp [isNaN, hne]
  have hcanon : canonNumber a = canonNumber b ↔
      a = b ∨ (a = 0 ∨ a = negativeZero) ∧ (b = 0 ∨ b = negativeZero) := by
    unfold canonNumber
    grind
  rw [hcanon]
  constructor
  · intro h
    simp only [sameNumber, isZero, Bool.and_eq_true, Bool.or_eq_true, beq_iff_eq, decide_eq_true_eq] at h
    exact h.2
  · intro h
    have ha : isFinite a = true := by
      rw [← isFinite_canonNumber, hcanon.2 h, isFinite_canonNumber, hb]
    simpa [sameNumber, notNaN ha, notNaN hb, isZero] using h

/-! ## Comparison -/

namespace AttributeValue

mutual

/-- `operator==` of two values. -/
def same : AttributeValue → AttributeValue → Bool
  | .integer a, .integer b => a == b
  | .number a, .number b => sameNumber a b
  | .boolean a, .boolean b => a == b
  | .text a, .text b => a == b
  | .fields a, .fields b => sameEntries a b
  | .array a, .array b => sameItems a b
  | .map a, .map b => sameEntries a b
  | _, _ => false

/-- `operator==` of two maps: the same keys with equal values. -/
def sameEntries : List (Bytes × AttributeValue) → List (Bytes × AttributeValue) → Bool
  | [], [] => true
  | (k, v) :: rest, (k', v') :: rest' => k == k' && same v v' && sameEntries rest rest'
  | _, _ => false

/-- `operator==` of two vectors. -/
def sameItems : List AttributeValue → List AttributeValue → Bool
  | [], [] => true
  | v :: rest, v' :: rest' => same v v' && sameItems rest rest'
  | _, _ => false

end

mutual

/-- The value with every zero positive: values that are `==` have one such form. -/
def canon : AttributeValue → AttributeValue
  | .integer n => .integer n
  | .number bits => .number (canonNumber bits)
  | .boolean b => .boolean b
  | .text s => .text s
  | .fields entries => .fields (canonEntries entries)
  | .array items => .array (canonItems items)
  | .map entries => .map (canonEntries entries)

def canonEntries : List (Bytes × AttributeValue) → List (Bytes × AttributeValue)
  | [] => []
  | (k, v) :: rest => (k, canon v) :: canonEntries rest

def canonItems : List AttributeValue → List AttributeValue
  | [] => []
  | v :: rest => canon v :: canonItems rest

end

theorem canonEntries_eq (entries : AttributeStruct) :
    canonEntries entries = entries.map fun e => (e.1, e.2.canon) := by
  induction entries with
  | nil => rfl
  | cons _ _ ih => simp [canonEntries, ih]

theorem canonItems_eq (items : List AttributeValue) : canonItems items = items.map canon := by
  induction items with
  | nil => rfl
  | cons _ _ ih => simp [canonItems, ih]

/-- No number in the value is infinite or NaN. -/
inductive Finite : AttributeValue → Prop
  | integer (n) : Finite (.integer n)
  | number {bits} (h : isFinite bits = true) : Finite (.number bits)
  | boolean (b) : Finite (.boolean b)
  | text (s) : Finite (.text s)
  | fields {entries : AttributeStruct} (h : ∀ e ∈ entries, Finite e.2) : Finite (.fields entries)
  | array {items : List AttributeValue} (h : ∀ v ∈ items, Finite v) : Finite (.array items)
  | map {entries : AttributeStruct} (h : ∀ e ∈ entries, Finite e.2) : Finite (.map entries)

/-- Every map in the value, at any depth, has its keys in order: the invariant
of `std::map`. -/
inductive Ordered : AttributeValue → Prop
  | integer (n) : Ordered (.integer n)
  | number (bits) : Ordered (.number bits)
  | boolean (b) : Ordered (.boolean b)
  | text (s) : Ordered (.text s)
  | fields {entries : AttributeStruct} (sorted : Entries.Sorted entries) (deep : ∀ e ∈ entries, Ordered e.2) :
    Ordered (.fields entries)
  | array {items : List AttributeValue} (deep : ∀ v ∈ items, Ordered v) : Ordered (.array items)
  | map {entries : AttributeStruct} (sorted : Entries.Sorted entries) (deep : ∀ e ∈ entries, Ordered e.2) :
    Ordered (.map entries)

theorem sameEntries_iff {a b : AttributeStruct}
    (h : ∀ e ∈ a, ∀ e' ∈ b, (same e.2 e'.2 = true ↔ e.2.canon = e'.2.canon)) :
    sameEntries a b = true ↔ canonEntries a = canonEntries b := by
  induction a generalizing b with
  | nil => cases b <;> simp [sameEntries, canonEntries]
  | cons e _ ih =>
    cases b with
    | nil => simp [sameEntries, canonEntries]
    | cons e' rest' =>
      have hhd := h e (by simp) e' (by simp)
      have htl := ih (b := rest') fun x hx y hy => h x (by simp [hx]) y (by simp [hy])
      simp [sameEntries, canonEntries, hhd, htl, and_assoc]

theorem sameItems_iff {a b : List AttributeValue} (h : ∀ v ∈ a, ∀ w ∈ b, (same v w = true ↔ v.canon = w.canon)) :
    sameItems a b = true ↔ canonItems a = canonItems b := by
  induction a generalizing b with
  | nil => cases b <;> simp [sameItems, canonItems]
  | cons v _ ih =>
    cases b with
    | nil => simp [sameItems, canonItems]
    | cons w rest' =>
      have hhd := h v (by simp) w (by simp)
      have htl := ih (b := rest') fun x hx y hy => h x (by simp [hx]) y (by simp [hy])
      simp [sameItems, canonItems, hhd, htl]

/-- Against a finite value `==` is equality of canonical forms. -/
theorem same_iff {v w : AttributeValue} (hw : w.Finite) : same v w = true ↔ v.canon = w.canon := by
  induction v generalizing w with
  | integer | boolean | text => cases w <;> simp [same, canon]
  | number =>
    cases w <;> simp only [same, canon, reduceCtorEq, Bool.false_eq_true, number.injEq]
    cases hw with | number hb => exact sameNumber_iff hb
  | fields _ ih =>
    cases w <;> simp only [same, canon, reduceCtorEq, Bool.false_eq_true, fields.injEq]
    cases hw with | fields hb =>
    exact sameEntries_iff fun e he e' he' => ih e he (hb e' he')
  | array _ ih =>
    cases w <;> simp only [same, canon, reduceCtorEq, Bool.false_eq_true, array.injEq]
    cases hw with | array hb =>
    exact sameItems_iff fun v hv w hw => ih v hv (hb w hw)
  | map _ ih =>
    cases w <;> simp only [same, canon, reduceCtorEq, Bool.false_eq_true, map.injEq]
    cases hw with | map hb =>
    exact sameEntries_iff fun e he e' he' => ih e he (hb e' he')

end AttributeValue

/-! ## Native charge -/

mutual

/-- What a value adds to its entry's charge. -/
def entryPayload : AttributeValue → Nat
  | .text s => s.length
  | .fields entries => attributeImageBytes entries
  | .map entries => attributeImageBytes entries
  | .array items => itemsCharge items
  | _ => 0

/-- `attribute_image_bytes`. -/
def attributeImageBytes : List (Bytes × AttributeValue) → Nat
  | [] => 256
  | (name, value) :: rest => 256 + name.length + entryPayload value + attributeImageBytes rest

/-- The `charge` of one array item. -/
def itemCharge : AttributeValue → Nat
  | .text s => 256 + s.length
  | .fields entries => attributeImageBytes entries
  | .map entries => attributeImageBytes entries
  | .array items => 256 + itemsCharge items
  | _ => 256

def itemsCharge : List AttributeValue → Nat
  | [] => 0
  | value :: rest => itemCharge value + itemsCharge rest

end

/-- `attribute_entry_bytes`: one root, without its siblings. -/
def attributeEntryBytes (name : Bytes) (value : AttributeValue) : Nat := 256 + name.length + entryPayload value

end Fsnet
