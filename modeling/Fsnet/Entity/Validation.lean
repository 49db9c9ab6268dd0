import Fsnet.Attributes.Decoding
import Fsnet.Entity.Schema
/-!
# Valid schemas

`EntitySchema::validate`, which every carrier of attributes runs before it holds
a value. One budget of nodes is shared by all definitions and one by all
initial values; a value that is valid within what is left of a budget is valid
with a budget of its own.
-/

namespace Fsnet

open Lib List

/-- The types of sets' elements. -/
def AttributeType.scalar : AttributeType → Bool
  | .integer | .number | .boolean | .string => true
  | _ => false

def AttributeType.dynamic : AttributeType → Bool
  | .list | .map | .set => true
  | _ => false

mutual

/-- `definition_valid`: what is left of the node budget. -/
def definitionValid : AttributeDefinition → Nat → Nat → Except Failure Nat
  | ⟨type, _, _, _, _, _, minimum, maximum, fields, element, length, maxItems⟩, depth, remaining => do
    refuseIf (depth > 8 ∨ remaining = 0) (.invalid "attribute schema depth/node limit")
    refuseIf (minimum > maximum) (.invalid "invalid attribute range")
    refuseIf (maxItems ≠ 0 ∧ type.dynamic = false) (.invalid "capacity on non-container")
    match type with
    | .struct => do
      refuseIf (fields.isEmpty ∨ fields.length > 64 ∨ element.isSome ∨ length ≠ 0) (.invalid "invalid struct schema")
      fieldsValid fields (depth + 1) (remaining - 1)
    | .array => do
      refuseIf (element.isNone ∨ ¬fields.isEmpty ∨ length = 0 ∨ length > 256) (.invalid "invalid fixed array schema")
      elementValid element (depth + 1) (remaining - 1)
    | .list | .map | .set => do
      refuseIf (element.isNone ∨ ¬fields.isEmpty ∨ length ≠ 0 ∨ maxItems = 0 ∨ maxItems > 256)
        (.invalid "invalid container schema")
      refuseIf (type = .set ∧ ¬element.all (·.type.scalar)) (.invalid "set elements must be scalar")
      elementValid element (depth + 1) (remaining - 1)
    | _ => do
      refuseIf (¬fields.isEmpty ∨ element.isSome ∨ length ≠ 0) (.invalid "invalid scalar schema")
      pure (remaining - 1)

def fieldsValid : List (Bytes × AttributeDefinition) → Nat → Nat → Except Failure Nat
  | [], _, remaining => pure remaining
  | (name, child) :: rest, depth, remaining => do
    refuseIf (validName name = false) (.invalid "invalid struct field")
    let remaining ← definitionValid child depth remaining
    fieldsValid rest depth remaining

def elementValid : Option AttributeDefinition → Nat → Nat → Except Failure Nat
  | none, _, remaining => pure remaining
  | some element, depth, remaining => definitionValid element depth remaining

end

/-- The loop over the attributes, with the budgets of the definitions and of the initial values. -/
def attributesValid : List (Bytes × AttributeDefinition) → Nat → Nat → Except Failure Unit
  | [], _, _ => pure ()
  | (name, d) :: rest, remaining, valuesRemaining => do
    let remaining ← definitionValid d 0 remaining
    refuseIf (validName name = false ∨ d.minimum > d.maximum) (.invalid "invalid attribute definition")
    match validValue d d.initial 0 valuesRemaining with
    | none => throw (.invalid "invalid attribute definition")
    | some valuesRemaining => do
      refuseIf (d.visibility ≠ .none ∧ d.client.reads = false) (.invalid "cannot synchronize unreadable attribute")
      attributesValid rest remaining valuesRemaining

/-- The loop over the methods. -/
def methodsValid : List (Bytes × RpcPolicy) → Except Failure Unit
  | [] => pure ()
  | (name, policy) :: rest => do
    refuseIf (validName name = false ∨ (policy.client = false ∧ policy.server = false))
      (.invalid "RPC callers must be explicit")
    methodsValid rest

def EntitySchema.validate (schema : EntitySchema) (methods : OrdMap Bytes RpcPolicy) : Except Failure Unit := do
  refuseIf (schema.attributes.size > 256 ∨ methods.size > 256) (.invalid "entity schema limit")
  attributesValid schema.attributes.entries 4096 4096
  methodsValid methods.entries

/-! ## What `valid` accepts -/

open AttributeValue

/-- A check that takes `nodes` from a budget: more budget leaves more of it, and what it accepts is `fine`. -/
structure Budgeted (fine : Prop) (nodes : Nat) (check : Nat → Option Nat) : Prop where
  more : ∀ {remaining left} extra, check remaining = some left → check (remaining + extra) = some (left + extra)
  fine : ∀ {remaining left}, check remaining = some left → fine ∧ left + nodes = remaining

namespace Budgeted

variable {P Q : Prop} {m n : Nat} {check next : Nat → Option Nat}

theorem all : Budgeted True 0 some :=
  ⟨fun _ h => by cases h; rfl, fun h => by cases h; exact ⟨trivial, rfl⟩⟩

theorem never (h : ∀ remaining, check remaining = none) : Budgeted P n check :=
  ⟨fun _ hleft => absurd hleft (by simp [h]), fun hleft => absurd hleft (by simp [h])⟩

theorem congr (h : Budgeted P n check) (hP : P → Q) (hc : ∀ remaining, next remaining = check remaining) :
    Budgeted Q n next := by
  obtain rfl : next = check := funext hc
  exact ⟨h.more, fun hleft => (h.fine hleft).imp_left hP⟩

theorem bind (h : Budgeted P m check) (hn : Budgeted Q n next) :
    Budgeted (P ∧ Q) (m + n) fun remaining => (check remaining).bind next where
  more extra hleft := by
    obtain ⟨middle, hm, hl⟩ := Option.bind_eq_some_iff.1 hleft
    simp only [h.more extra hm, Option.bind_some, hn.more extra hl]
  fine hleft := by
    obtain ⟨middle, hm, hl⟩ := Option.bind_eq_some_iff.1 hleft
    have hfirst := (h.fine hm).2
    have hsecond := (hn.fine hl).2
    exact ⟨⟨(h.fine hm).1, (hn.fine hl).1⟩, by omega⟩

theorem refuse {c : Prop} [Decidable c] (h : Budgeted P n check) :
    Budgeted (¬c ∧ P) n fun remaining => if c then none else check remaining := by
  by_cases hc : c
  · exact never fun _ => if_pos hc
  · exact h.congr (.intro hc) fun _ => if_neg hc

/-- The checks in front of every value, and the node it takes. -/
theorem node (h : Budgeted P n check) (depth : Nat) (c : Prop) [Decidable c] :
    Budgeted (depth ≤ 8 ∧ ¬c ∧ P) (n + 1) fun remaining =>
      if depth > 8 ∨ remaining = 0 ∨ c then none else check (remaining - 1) where
  more {remaining left} extra hleft := by
    obtain ⟨hok, hleft⟩ := Option.ite_none_left_eq_some.1 hleft
    have hless : remaining + extra - 1 = remaining - 1 + extra := by omega
    simp only [hless, h.more extra hleft]
    exact if_neg fun hbad => hok (hbad.imp_right fun hbad => hbad.imp_left fun _ => by omega)
  fine hleft := by
    obtain ⟨hok, hleft⟩ := Option.ite_none_left_eq_some.1 hleft
    rw [not_or, not_or] at hok
    obtain ⟨hP, hle⟩ := h.fine hleft
    exact ⟨⟨by omega, hok.2.2, hP⟩, by omega⟩

end Budgeted

/-- Some call of `definition_valid` returns. -/
def AttributeDefinition.Accepted (d : AttributeDefinition) : Prop :=
  ∃ depth remaining left, definitionValid d depth remaining = .ok left

variable {d : AttributeDefinition} {remaining : Nat}

theorem fieldsValid_find {fields : List (Bytes × AttributeDefinition)} {depth left : Nat} {name : Bytes}
    (h : fieldsValid fields depth remaining = .ok left)
    (hfind : Entries.find name fields = some d) : validName name = true ∧ d.Accepted := by
  induction fields generalizing remaining with
  | nil => cases hfind
  | cons e rest ih =>
    rw [fieldsValid, refuseIf_bind_eq_ok, bind_eq_ok] at h
    obtain ⟨hname, middle, hchild, hrest⟩ := h
    rw [Entries.find] at hfind
    split at hfind
    · rename_i heq
      cases hfind
      exact ⟨by simpa [heq] using hname, _, _, _, hchild⟩
    · exact ih hrest hfind

theorem AttributeDefinition.Accepted.fields (h : d.Accepted) (htype : d.type.expected = 4) :
    0 < d.fields.length ∧ d.fields.length ≤ 64 ∧
      ∀ name child, Entries.find name d.fields = some child → validName name = true ∧ child.Accepted := by
  obtain ⟨_, _, _, h⟩ := h
  obtain ⟨type, _, _, _, _, _, _, _, _, _, _, _⟩ := d
  obtain rfl : type = .struct := by cases type <;> first | rfl | cases htype
  simp only [definitionValid, refuseIf_bind_eq_ok, not_or] at h
  obtain ⟨-, -, -, ⟨hne, hle, -⟩, h⟩ := h
  exact ⟨length_pos_iff.2 (by simpa using hne), Nat.not_lt.1 hle, fun _ _ => fieldsValid_find h⟩

theorem AttributeDefinition.Accepted.element {element : AttributeDefinition} (h : d.Accepted)
    (he : d.element = some element) : element.Accepted ∧ d.length ≤ 256 ∧ d.maxItems ≤ 256 := by
  obtain ⟨depth, remaining, left, h⟩ := h
  obtain ⟨type, initial, server, client, visibility, persist, minimum, maximum, fields, _, length, maxItems⟩ := d
  obtain rfl := he
  cases type <;> simp [definitionValid, refuseIf_bind_eq_ok, AttributeType.dynamic, elementValid] at h ⊢
  case array => exact ⟨⟨_, _, _, h.2.2.2.2⟩, by omega, by omega⟩
  case list => exact ⟨⟨_, _, _, h.2.2.2⟩, by omega, by omega⟩
  case map => exact ⟨⟨_, _, _, h.2.2.2⟩, by omega, by omega⟩
  case set => exact ⟨⟨_, _, _, h.2.2.2.2⟩, by omega, by omega⟩

/-- What `valid` makes sure of: no infinities and NaNs, and under an accepted definition all that
the encoder asks for. -/
def Checked (d : AttributeDefinition) (v : AttributeValue) (depth : Nat) : Prop :=
  v.Finite ∧ (d.Accepted → v.Fits depth)

theorem validFields_budgeted {fields : List (Bytes × AttributeDefinition)} {entries : AttributeStruct} {depth : Nat}
    (h : ∀ e ∈ entries, ∀ d, Budgeted (Checked d e.2 depth) e.2.nodes (validValue d e.2 depth)) :
    Budgeted (∀ e ∈ entries, ∃ d, Entries.find e.1 fields = some d ∧ Checked d e.2 depth) (nodesEntries entries)
      (validFields fields entries depth) := by
  induction entries with
  | nil => exact Budgeted.all.congr (fun _ => nofun) fun _ => by rw [validFields]
  | cons e _ ih =>
    rw [forall_mem_cons] at h
    cases hf : Entries.find e.1 fields with
    | none => exact .never fun _ => by rw [validFields, hf]
    | some d =>
      refine ((h.1 d).bind (ih h.2)).congr (fun h => forall_mem_cons.2 ⟨⟨d, hf, h.1⟩, h.2⟩) fun _ => ?_
      rw [validFields, hf]

theorem validItems_budgeted {element : AttributeDefinition} {items : List AttributeValue} {depth : Nat}
    (h : ∀ v ∈ items, Budgeted (Checked element v depth) v.nodes (validValue element v depth)) :
    Budgeted (∀ v ∈ items, Checked element v depth) (nodesItems items) (validItems element items depth) := by
  induction items with
  | nil => exact Budgeted.all.congr (fun _ => nofun) fun _ => by rw [validItems]
  | cons _ _ ih =>
    rw [forall_mem_cons] at h
    exact (h.1.bind (ih h.2)).congr (fun h => forall_mem_cons.2 h) fun _ => by rw [validItems]

theorem validEntries_budgeted {element : AttributeDefinition} {entries : AttributeStruct} {depth : Nat}
    (h : ∀ e ∈ entries, Budgeted (Checked element e.2 depth) e.2.nodes (validValue element e.2 depth)) :
    Budgeted (∀ e ∈ entries, validKey e.1 = true ∧ Checked element e.2 depth) (nodesEntries entries)
      (validEntries element entries depth) := by
  induction entries with
  | nil => exact Budgeted.all.congr (fun _ => nofun) fun _ => by rw [validEntries]
  | cons _ _ ih =>
    rw [forall_mem_cons] at h
    refine (h.1.bind (ih h.2)).refuse.congr (fun h => ?_) fun _ => by rw [validEntries]
    exact forall_mem_cons.2 ⟨⟨by simpa using h.1, h.2.1⟩, h.2.2⟩

/-- What `valid` accepts, it accepts with more budget too. -/
theorem validValue_budgeted (v : AttributeValue) (d : AttributeDefinition) (depth : Nat) :
    Budgeted (Checked d v depth) v.nodes (validValue d v depth) := by
  have hleaf : ∀ (c : Prop) [Decidable c], Budgeted c 0 fun remaining => if c then some remaining else none := by
    intro c _
    by_cases hc : c
    · exact Budgeted.all.congr (fun _ => hc) fun _ => if_pos hc
    · exact .never fun _ => if_neg hc
  induction v generalizing d depth with
  | integer n =>
    exact ((hleaf _).node depth _).congr (fun h => ⟨.integer n, fun _ => .integer h.1 n⟩) fun _ => by rw [validValue]
  | number =>
    refine ((hleaf _).node depth _).congr (fun h => ?_) fun _ => by rw [validValue]
    exact ⟨.number h.2.2, fun _ => .number h.1 h.2.2⟩
  | boolean b =>
    exact (Budgeted.all.node depth _).congr (fun h => ⟨.boolean b, fun _ => .boolean h.1 b⟩) fun _ => by rw [validValue]
  | text s =>
    exact ((hleaf _).node depth _).congr (fun h => ⟨.text s, fun _ => .text h.1 h.2.2⟩) fun _ => by rw [validValue]
  | fields entries ih =>
    have hloop := @validFields_budgeted d.fields entries (depth + 1) fun e he d => ih e he d (depth + 1)
    refine (hloop.refuse.node depth _).congr (fun h => ?_) fun _ => by rw [validValue]
    obtain ⟨hdepth, htype, hlen, hall⟩ := h
    refine ⟨.fields fun e he => ?_, fun haccepted => ?_⟩
    · obtain ⟨_, -, hchecked⟩ := hall e he
      exact hchecked.1
    · obtain ⟨hpos, hshort, hfields⟩ := haccepted.fields (not_not.1 htype).symm
      refine .fields hdepth (by omega) (by omega) (fun e he => ?_) fun e he => ?_
      · obtain ⟨child, hfind, -⟩ := hall e he
        exact (hfields _ _ hfind).1
      · obtain ⟨child, hfind, hchecked⟩ := hall e he
        exact hchecked.2 (hfields _ _ hfind).2
  | array items ih =>
    cases hd : d.element with
    | none => exact .never fun _ => by rw [validValue, hd]; simp
    | some element =>
      have hloop := validItems_budgeted fun v hv => ih v hv element (depth + 1)
      refine (hloop.refuse.refuse.node depth _).congr (fun h => ?_) fun _ => by rw [validValue, hd]
      obtain ⟨hdepth, -, hlen, -, hall⟩ := h
      refine ⟨.array fun v hv => (hall v hv).1, fun haccepted => ?_⟩
      obtain ⟨helement, hlength, hmax⟩ := haccepted.element hd
      refine .array hdepth ?_ fun v hv => (hall v hv).2 helement
      split_ifs at hlen <;> omega
  | map entries ih =>
    cases hd : d.element with
    | none => exact .never fun _ => by rw [validValue, hd]; simp
    | some element =>
      have hloop := validEntries_budgeted fun e he => ih e he element (depth + 1)
      refine (hloop.refuse.node depth _).congr (fun h => ?_) fun _ => by rw [validValue, hd]
      obtain ⟨hdepth, -, hlen, hall⟩ := h
      refine ⟨.map fun e he => (hall e he).2.1, fun haccepted => ?_⟩
      obtain ⟨helement, -, hmax⟩ := haccepted.element hd
      exact .map hdepth (by omega) (fun e he => (hall e he).1) fun e he => (hall e he).2.2 helement

theorem admits_of_validValue {v : AttributeValue} {left : Nat}
    (h : validValue d v 0 remaining = some left) (hr : remaining ≤ 4096) : d.admits v = true := by
  have hgrown := (validValue_budgeted v d 0).more (4096 - remaining) h
  rw [Nat.add_sub_cancel' hr] at hgrown
  rw [AttributeDefinition.admits, hgrown]
  rfl

theorem finite_of_admits {v : AttributeValue} (h : d.admits v = true) : v.Finite := by
  obtain ⟨_, hleft⟩ := Option.isSome_iff_exists.1 h
  exact ((validValue_budgeted v d 0).fine hleft).1.1

/-! ## Initial values -/

/-- The initial values of a validated schema are valid for their definitions. -/
theorem attributesValid_admits {attributes : List (Bytes × AttributeDefinition)} {valuesRemaining : Nat}
    {u : Unit} (h : attributesValid attributes remaining valuesRemaining = .ok u) (hr : valuesRemaining ≤ 4096) :
    ∀ e ∈ attributes, e.2.admits e.2.initial = true := by
  induction attributes generalizing remaining valuesRemaining with
  | nil => nofun
  | cons e rest ih =>
    obtain ⟨name, d⟩ := e
    rw [attributesValid, bind_eq_ok] at h
    obtain ⟨remaining', -, h⟩ := h
    obtain ⟨-, h⟩ := refuseIf_bind_eq_ok.1 h
    split at h
    · cases h
    rename_i left hleft
    obtain ⟨-, h⟩ := refuseIf_bind_eq_ok.1 h
    have hle := ((validValue_budgeted _ _ _).fine hleft).2
    exact forall_mem_cons.2 ⟨admits_of_validValue hleft hr, ih h (by omega)⟩

theorem EntitySchema.validate_admits {schema : EntitySchema} {methods : OrdMap Bytes RpcPolicy}
    (h : schema.validate methods = .ok ()) : ∀ e ∈ schema.attributes.entries, e.2.admits e.2.initial = true := by
  rw [validate, refuseIf_bind_eq_ok] at h
  obtain ⟨_, hattributes, -⟩ := bind_eq_ok.1 h.2
  exact attributesValid_admits hattributes le_rfl

/-! ## Valid values on the wire -/

/-- A value that is valid for an accepted definition is encoded unless its bytes are too many, and what was
encoded is decoded to the value, to the last byte. -/
theorem valid_values_encodable {v : AttributeValue} {left : Nat}
    (hd : definitionValid d 0 remaining = .ok left) (hv : d.admits v = true) (ho : v.Ordered) :
    (∀ e, encodeValue ([] : Bytes) v 0 4096 = .error e → limit < v.wire.length ∧ ∃ text, e = .length text) ∧
    ∀ bytes left, encodeValue [] v 0 4096 = .ok (bytes, left) → bytes.length ≤ limit ∧
      ∀ rest, decodeValue (bytes ++ rest) 0 4096 = .ok (v, rest, left) := by
  obtain ⟨unspent, hleft⟩ := Option.isSome_iff_exists.1 hv
  obtain ⟨⟨-, hfits⟩, hnodes⟩ := (validValue_budgeted v d 0).fine hleft
  have hfits := hfits ⟨_, _, _, hd⟩
  have hwrites := encodeValue_writes (α := Bytes) v 0
  refine ⟨fun e he => ⟨?_, hwrites.onlyLength hfits _ _ e he⟩, fun bytes left hok => ?_⟩
  · by_contra hsize
    have hok := hwrites.ok hfits [] 4096 (by omega) (by simpa [Output.size] using hsize)
    simp [hok] at he
  · have hsize := encodeValue_size hok
    obtain ⟨-, hemitted⟩ := hwrites.inv hok
    refine ⟨hsize, fun rest => ?_⟩
    rw [hemitted.out_eq, hemitted.remaining_eq]
    exact decodeValue_wire hfits ho rest 4096 hemitted.nodes_le

/-- A list of at most eight integers. -/
def scores : AttributeDefinition :=
  { type := .list, initial := .array [], element := some { type := .integer, initial := .integer 0 }, maxItems := 8 }

theorem valid_values_encodable_scores :
    definitionValid scores 0 4096 = .ok 4094 ∧ scores.admits (.array [.integer 7]) = true ∧
      decodeValue ((array [.integer 7]).wire ++ [1]) 0 4096 = .ok (.array [.integer 7], [1], 4094) := by
  have hd : definitionValid scores 0 4096 = .ok 4094 := by rfl
  have hv : scores.admits (.array [.integer 7]) = true := by rfl
  have ho : (array [.integer 7]).Ordered := .array fun v hv => mem_singleton.1 hv ▸ .integer 7
  exact ⟨hd, hv, ((valid_values_encodable hd hv ho).2 _ 4094 rfl).2 [1]⟩

end Fsnet
