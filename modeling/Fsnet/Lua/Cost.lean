import Fsnet.Attributes.Encoding
/-!
# What an attribute costs a script

Before a script's value is copied the engine walks over it and charges what the
encoder will write. The walk checks the size before each addition, the encoder
after each value; they refuse the same values and count the same bytes.
-/

namespace Fsnet

open Lib AttributeValue

/-- `ValueCost`. `memory` is the engine's limit, `none` when there is no bound. -/
structure ValueCost where
  memory : Option Nat
  nodes : Nat := 4096
  native : Nat := 0
  wire : Nat := 0

def ValueCost.add (cost : ValueCost) (bytes encoded : Nat) : Except Failure ValueCost := do
  refuseIf (cost.memory.any fun memory => bytes > memory / 4 - cost.native) (.length "temporary attribute memory limit")
  refuseIf (encoded > 1024 * 1024 - cost.wire) (.length "attribute image too large")
  pure { cost with native := cost.native + bytes, wire := cost.wire + encoded }

mutual

def valueCost (value : AttributeValue) (depth : Nat) (cost : ValueCost) : Except Failure ValueCost := do
  refuseIf (depth > 8 ∨ cost.nodes = 0) (.length "attribute value depth/node limit")
  let cost ← { cost with nodes := cost.nodes - 1 }.add 256 1
  match value with
  | .text s => cost.add s.length (4 + s.length)
  | .fields entries => cost.add 0 1 >>= entriesCost entries (depth + 1)
  | .map entries => cost.add 0 2 >>= entriesCost entries (depth + 1)
  | .array items => cost.add 0 2 >>= itemsCost items (depth + 1)
  | .boolean _ => cost.add 0 1
  | .integer _ => cost.add 0 8
  | .number _ => cost.add 0 8

def entriesCost (entries : List (Bytes × AttributeValue)) (depth : Nat) (cost : ValueCost) : Except Failure ValueCost :=
  match entries with
  | [] => pure cost
  | (key, child) :: rest => cost.add key.length (1 + key.length) >>= valueCost child depth >>= entriesCost rest depth

def itemsCost (items : List AttributeValue) (depth : Nat) (cost : ValueCost) : Except Failure ValueCost :=
  match items with
  | [] => pure cost
  | child :: rest => valueCost child depth cost >>= itemsCost rest depth

end

/-- What the encoder asks of a value and of all that is nested in it, but for the depth. -/
inductive AttributeValue.Ruled : AttributeValue → Prop
  | integer (n) : Ruled (.integer n)
  | number {bits} (h : isFinite bits = true) : Ruled (.number bits)
  | boolean (b) : Ruled (.boolean b)
  | text {s} (h : s.length ≤ 65536) : Ruled (.text s)
  | fields {entries : AttributeStruct} (h0 : entries.length ≠ 0) (h : entries.length ≤ 64)
    (names : ∀ e ∈ entries, validName e.1 = true) (deep : ∀ e ∈ entries, Ruled e.2) : Ruled (.fields entries)
  | array {items : List AttributeValue} (h : items.length ≤ 256) (deep : ∀ v ∈ items, Ruled v) : Ruled (.array items)
  | map {entries : AttributeStruct} (h : entries.length ≤ 256) (keys : ∀ e ∈ entries, validKey e.1 = true)
    (deep : ∀ e ∈ entries, Ruled e.2) : Ruled (.map entries)

/-! ## Charges -/

/-- Without a bound on memory the walk charges `size` bytes and `nodes` nodes for what `fits` and is refused only
where one of them is not left. -/
structure Charges (fits : Prop) (size nodes : Nat) (part : ValueCost → Except Failure ValueCost) : Prop where
  ok : fits → ∀ cost, cost.memory = none → nodes ≤ cost.nodes → cost.wire + size ≤ limit →
    ∃ cost', part cost = .ok cost'
  inv : ∀ {cost cost'}, cost.memory = none → cost.wire ≤ limit → part cost = .ok cost' →
    fits ∧ cost'.memory = none ∧ cost'.wire = cost.wire + size ∧ cost'.wire ≤ limit ∧ cost'.nodes + nodes = cost.nodes

namespace Charges

variable {fits fits' : Prop} {a b m n : Nat} {part next : ValueCost → Except Failure ValueCost}

theorem nil : Charges True 0 0 pure where
  ok _ cost _ _ _ := ⟨cost, rfl⟩
  inv hm hw h := by
    cases h
    exact ⟨trivial, hm, rfl, hw, rfl⟩

theorem add (bytes size : Nat) : Charges True size 0 fun cost => cost.add bytes size where
  ok _ cost hm _ hw := by
    have hroom : ¬ size > 1024 * 1024 - cost.wire := by
      rw [limit] at hw
      omega
    rw [ValueCost.add, hm, refuseIf_of_not _ (by simp), refuseIf_of_not _ hroom]
    exact ⟨_, rfl⟩
  inv {cost cost'} hm hw h := by
    simp only [ValueCost.add, refuseIf_bind_eq_ok, pure_eq_ok] at h
    obtain ⟨-, hroom, h⟩ := h
    cases h
    rw [limit] at hw ⊢
    exact ⟨trivial, hm, rfl, by dsimp only; omega, rfl⟩

theorem seq (h : Charges fits a m part) (h' : Charges fits' b n next) :
    Charges (fits ∧ fits') (a + b) (m + n) fun cost => part cost >>= next where
  ok hf cost hm hn hw := by
    obtain ⟨middle, hpart⟩ := h.ok hf.1 cost hm (by omega) (by omega)
    obtain ⟨-, hm', hw', hle, hn'⟩ := h.inv hm (by omega) hpart
    obtain ⟨last, hnext⟩ := h'.ok hf.2 middle hm' (by omega) (by omega)
    exact ⟨last, by rw [hpart, ok_bind, hnext]⟩
  inv hm hw hr := by
    obtain ⟨middle, hpart, hnext⟩ := bind_eq_ok.1 hr
    obtain ⟨hf, hm, hsize, hle, hn⟩ := h.inv hm hw hpart
    obtain ⟨hf', hm', hsize', hle', hn'⟩ := h'.inv hm hle hnext
    exact ⟨⟨hf, hf'⟩, hm', by omega, hle', by omega⟩

theorem congr (h : Charges fits a m part) (hf : fits ↔ fits') (ha : a = b) (hm : m = n)
    (hp : ∀ cost, next cost = part cost) : Charges fits' b n next := by
  obtain rfl : next = part := funext hp
  subst ha hm
  exact ⟨fun hf' => h.ok (hf.2 hf'), fun hm hw hr => (h.inv hm hw hr).imp_left hf.1⟩

/-- The tag of a value and its body. -/
theorem value {v : AttributeValue} {depth : Nat} (h : Charges fits a m part) (hf : v.Fits depth ↔ depth ≤ 8 ∧ fits)
    (hw : v.wire.length = 1 + a) (hn : v.nodes = m + 1)
    (hp : ∀ cost, valueCost v depth cost = (do
      refuseIf (depth > 8 ∨ cost.nodes = 0) (.length "attribute value depth/node limit")
      { cost with nodes := cost.nodes - 1 }.add 256 1 >>= part)) :
    Charges (v.Fits depth) v.wire.length v.nodes (valueCost v depth) := by
  have hbody := (add 256 1).seq h
  refine ⟨fun hfits cost hm hnodes hsize => ?_, fun {cost cost'} hm hsize hr => ?_⟩
  · rw [hp, refuseIf_of_not _ (by have := hfits.depth_le; omega)]
    exact hbody.ok ⟨trivial, (hf.1 hfits).2⟩ _ hm (by dsimp only; omega) (by dsimp only; omega)
  · rw [hp, refuseIf_bind_eq_ok] at hr
    obtain ⟨hd, hr⟩ := hr
    obtain ⟨⟨-, hfits⟩, hm', hsize', hle, hnodes⟩ := hbody.inv (by exact hm) (by exact hsize) hr
    dsimp only at hnodes
    exact ⟨hf.2 ⟨by omega, hfits⟩, hm', by rw [hw, hsize'], hle, by omega⟩

end Charges

theorem entriesCost_charges {entries : AttributeStruct} {depth : Nat}
    (h : ∀ e ∈ entries, Charges (e.2.Fits depth) e.2.wire.length e.2.nodes (valueCost e.2 depth)) :
    Charges (∀ e ∈ entries, e.2.Fits depth) (wireEntries entries).length (nodesEntries entries)
      (entriesCost entries depth) := by
  induction entries with
  | nil => exact Charges.nil.congr (by simp) rfl rfl fun _ => by rw [entriesCost]
  | cons e rest ih =>
    rw [List.forall_mem_cons] at h
    refine (((Charges.add e.1.length _).seq h.1).seq (ih h.2)).congr ?_ ?_ ?_ fun _ => by rw [entriesCost]
    · simp
    · simp only [wireEntries, List.length_append, bigEndian_length]
      omega
    · simp only [nodesEntries]
      omega

theorem itemsCost_charges {items : List AttributeValue} {depth : Nat}
    (h : ∀ v ∈ items, Charges (v.Fits depth) v.wire.length v.nodes (valueCost v depth)) :
    Charges (∀ v ∈ items, v.Fits depth) (wireItems items).length (nodesItems items) (itemsCost items depth) := by
  induction items with
  | nil => exact Charges.nil.congr (by simp) rfl rfl fun _ => by rw [itemsCost]
  | cons _ _ ih =>
    rw [List.forall_mem_cons] at h
    refine (h.1.seq (ih h.2)).congr ?_ ?_ rfl fun _ => by rw [itemsCost]
    · simp
    · simp only [wireItems, List.length_append]

/-- The walk over a value. -/
theorem valueCost_charges {v : AttributeValue} (hv : v.Ruled) (depth : Nat) :
    Charges (v.Fits depth) v.wire.length v.nodes (valueCost v depth) := by
  induction hv generalizing depth with
  | integer n =>
    refine (Charges.add 0 8).value ?_ (by simp [wire]) rfl fun _ => by rw [valueCost]
    exact ⟨fun h => ⟨h.depth_le, trivial⟩, fun h => .integer h.1 n⟩
  | number h =>
    refine (Charges.add 0 8).value ?_ (by simp [wire]) rfl fun _ => by rw [valueCost]
    exact ⟨fun h => ⟨h.depth_le, trivial⟩, fun hd => .number hd.1 h⟩
  | boolean b =>
    refine (Charges.add 0 1).value ?_ (by simp [wire]) rfl fun _ => by rw [valueCost]
    exact ⟨fun h => ⟨h.depth_le, trivial⟩, fun h => .boolean h.1 b⟩
  | @text s h =>
    refine (Charges.add s.length (4 + s.length)).value ?_ (by simp [wire]) rfl fun _ => by rw [valueCost]
    exact ⟨fun h => ⟨h.depth_le, trivial⟩, fun hd => .text hd.1 h⟩
  | fields h0 h names deep ih =>
    have hloop := (Charges.add 0 1).seq (entriesCost_charges fun e he => ih e he (depth + 1))
    refine hloop.value ⟨fun hfits => ?_, fun hd => .fields hd.1 h0 h names hd.2.2⟩ (by simp [wire]) (by simp [nodes])
      fun _ => by rw [valueCost]
    cases hfits with
    | fields hd _ _ _ deep => exact ⟨hd, trivial, deep⟩
  | array h deep ih =>
    have hloop := (Charges.add 0 2).seq (itemsCost_charges fun v hv => ih v hv (depth + 1))
    refine hloop.value ⟨fun hfits => ?_, fun hd => .array hd.1 h hd.2.2⟩ (by simp [wire]) (by simp [nodes])
      fun _ => by rw [valueCost]
    cases hfits with
    | array hd _ deep => exact ⟨hd, trivial, deep⟩
  | map h keys deep ih =>
    have hloop := (Charges.add 0 2).seq (entriesCost_charges fun e he => ih e he (depth + 1))
    refine hloop.value ⟨fun hfits => ?_, fun hd => .map hd.1 h keys hd.2.2⟩ (by simp [wire]) (by simp [nodes])
      fun _ => by rw [valueCost]
    cases hfits with
    | map hd _ _ deep => exact ⟨hd, trivial, deep⟩

/-- Where memory does not run out, the walk over a value within the encoder's rules is refused exactly when the
encoder refuses the value, and otherwise charges the bytes the encoder writes and leaves the same budget. -/
theorem value_cost_matches_wire {v : AttributeValue} (hv : v.Ruled) :
    ((∃ e, valueCost v 0 { memory := none } = .error e) ↔ ∃ e, encodeValue ([] : Bytes) v 0 4096 = .error e) ∧
    ∀ cost bytes left, valueCost v 0 { memory := none } = .ok cost →
      encodeValue ([] : Bytes) v 0 4096 = .ok (bytes, left) → cost.wire = bytes.length ∧ cost.nodes = left := by
  have hcost := valueCost_charges hv 0
  have hwrites := encodeValue_writes (α := Bytes) v 0
  have hnone {ε α : Type} {x : Except ε α} : (∃ e, x = .error e) ↔ ¬ ∃ a, x = .ok a := by
    cases x <;> simp
  refine ⟨?_, fun cost bytes left hc he => ?_⟩
  · rw [hnone, hnone, not_iff_not]
    constructor
    · rintro ⟨cost, hc⟩
      obtain ⟨hfits, -, hsize, hle, hnodes⟩ := hcost.inv rfl (Nat.zero_le _) hc
      refine ⟨_, hwrites.ok hfits [] 4096 ?_ ?_⟩
      · exact le_of_le_of_eq (Nat.le_add_left _ _) hnodes
      · simpa [Output.size, hsize] using hle
    · rintro ⟨⟨bytes, left⟩, he⟩
      obtain ⟨hfits, hemitted⟩ := hwrites.inv he
      have hsize := encodeValue_size he
      refine hcost.ok hfits _ rfl hemitted.nodes_le ?_
      simpa [hemitted.out_eq, Output.size, Output.append] using hsize
  · obtain ⟨-, -, hsize, -, hnodes⟩ := hcost.inv rfl (Nat.zero_le _) hc
    obtain ⟨-, hemitted⟩ := hwrites.inv he
    refine ⟨?_, ?_⟩
    · simp [hsize, hemitted.out_eq, Output.append]
    · have heq := hemitted.remaining_eq
      simp only at hnodes
      omega

/-- A struct with a list and a text. -/
def loadout : AttributeValue :=
  .fields [(ascii "items", .array [.integer 7, .map [(ascii "k", .boolean true)]]), (ascii "name", .text (ascii "oak"))]

theorem loadout_ruled : loadout.Ruled := by
  have hmap : (map [(ascii "k", boolean true)]).Ruled :=
    .map (by decide) (by decide) (List.forall_mem_singleton.2 (.boolean true))
  refine .fields (by decide) (by decide) (by decide) ?_
  rw [List.forall_mem_cons, List.forall_mem_singleton]
  refine ⟨.array (by decide) ?_, .text (by decide)⟩
  exact List.forall_mem_cons.2 ⟨.integer 7, List.forall_mem_singleton.2 hmap⟩

theorem value_cost_matches_wire_loadout : loadout.Ruled ∧ ∃ cost,
    valueCost loadout 0 { memory := none } = .ok cost ∧ cost.wire = 40 ∧ cost.nodes = 4090 := by
  obtain ⟨bytes, hencode, hlength⟩ :
      ∃ bytes, encodeValue ([] : Bytes) loadout 0 4096 = .ok (bytes, 4090) ∧ bytes.length = 40 := ⟨_, rfl, rfl⟩
  obtain ⟨hfails, hcounts⟩ := value_cost_matches_wire loadout_ruled
  refine ⟨loadout_ruled, ?_⟩
  cases hcost : valueCost loadout 0 { memory := none } with
  | error e =>
    obtain ⟨_, he⟩ := hfails.1 ⟨e, hcost⟩
    rw [hencode] at he
    cases he
  | ok cost =>
    obtain ⟨hwire, hnodes⟩ := hcounts cost bytes 4090 hcost hencode
    exact ⟨cost, rfl, hwire.trans hlength, hnodes⟩

end Fsnet
