import Fsnet.Attributes.Wire
/-!
# What the encoder accepts and writes

For each part of an update: the bytes the encoder writes for it, the nodes it
takes from the budget, and the condition under which it is accepted. An encoder
run either returns exactly those bytes or fails, and on parts that meet their
condition it fails only for size, with a `length_error`. `Writes` says the three
at once, and each encoder has one specification of that form, assembled from
those of its parts.
-/

namespace Fsnet

open Lib List

variable {α : Type} [Output α]

attribute [simp] Output.append_nil Output.size_append Output.append_append

@[simp] theorem size_put (out : α) (n count : Nat) : Output.size (put out n count) = Output.size out + count := by
  simp [put]

theorem put_eq (out : α) (n count : Nat) : put out n count = Output.append out (bigEndian count n) := rfl

/-! ## Parts of the encoder -/

/-- The computation fails, if at all, for a size. -/
abbrev OnlyLength {β : Type} (x : Except Failure β) : Prop := Throws (fun e => ∃ text, e = .length text) x

/-- What an encoder run that returned has written: `bytes`, for `nodes` of the
budget, within the budget. -/
structure Emitted (out : α) (remaining : Nat) (bytes : Bytes) (nodes : Nat) (out' : α) (remaining' : Nat) : Prop where
  out_eq : out' = Output.append out bytes
  nodes_le : nodes ≤ remaining
  remaining_eq : remaining' = remaining - nodes

theorem Emitted.refl (out : α) (remaining : Nat) : Emitted out remaining [] 0 out remaining :=
  ⟨by simp, by omega, rfl⟩

theorem Emitted.trans {out out' out'' : α} {r r' r'' : Nat} {a b : Bytes} {m n : Nat}
    (h : Emitted out r a m out' r') (h' : Emitted out' r' b n out'' r'') :
    Emitted out r (a ++ b) (m + n) out'' r'' where
  out_eq := by rw [h'.out_eq, h.out_eq, Output.append_append]
  nodes_le := by have := h.nodes_le; have := h'.nodes_le; have := h.remaining_eq; omega
  remaining_eq := by rw [h'.remaining_eq, h.remaining_eq, Nat.sub_sub]

/-- A body without children takes no nodes. -/
theorem Emitted.leaf (out : α) (bytes : Bytes) (remaining : Nat) :
    Emitted out remaining bytes 0 (Output.append out bytes) remaining :=
  ⟨rfl, by omega, rfl⟩

/-- Bytes written before a part that was emitted. -/
theorem Emitted.cons {out out' : α} {r r' : Nat} {a b : Bytes} {n : Nat}
    (h : Emitted (Output.append out a) r b n out' r') : Emitted out r (a ++ b) n out' r' := by
  have := (Emitted.leaf out a r).trans h
  rwa [Nat.zero_add] at this

/-- A part of the encoder writes `bytes` for `nodes` of the node budget: it accepts
what `fits` if there is room, nothing else, and refuses what fits only for size. -/
structure Writes (fits : Prop) (bytes : Bytes) (nodes : Nat) (part : α → Nat → Except Failure (α × Nat)) : Prop where
  ok : fits → ∀ out remaining, nodes ≤ remaining → Output.size out + bytes.length ≤ limit →
    part out remaining = .ok (Output.append out bytes, remaining - nodes)
  inv : ∀ {out remaining out' remaining'}, part out remaining = .ok (out', remaining') →
    fits ∧ Emitted out remaining bytes nodes out' remaining'
  onlyLength : fits → ∀ out remaining, OnlyLength (part out remaining)

namespace Writes

variable {fits fits' : Prop} {a b : Bytes} {m n : Nat} {part next : α → Nat → Except Failure (α × Nat)}

theorem nil : Writes True [] 0 fun (out : α) remaining => pure (out, remaining) where
  ok _ out remaining _ _ := by simp
  inv h := by
    cases h
    exact ⟨trivial, .refl _ _⟩
  onlyLength _ _ _ := .ok _

theorem congr (h : Writes fits a m part) (hf : fits ↔ fits') (ha : a = b) (hm : m = n)
    (hp : ∀ out remaining, next out remaining = part out remaining) : Writes fits' b n next := by
  obtain rfl : next = part := funext fun out => funext (hp out)
  subst ha hm
  exact ⟨fun hf' => h.ok (hf.2 hf'), fun hn => ⟨hf.1 (h.inv hn).1, (h.inv hn).2⟩, fun hf' => h.onlyLength (hf.2 hf')⟩

/-- One part after the other. -/
theorem seq (h : Writes fits a m part) (h' : Writes fits' b n next) :
    Writes (fits ∧ fits') (a ++ b) (m + n) fun out remaining => part out remaining >>= fun r => next r.1 r.2 where
  ok hf out remaining hn hs := by
    rw [length_append] at hs
    rw [h.ok hf.1 out remaining (by omega) (by omega), ok_bind,
      h'.ok hf.2 _ _ (by simp only; omega) (by simp only [Output.size_append]; omega)]
    simp [Nat.sub_sub]
  inv hr := by
    obtain ⟨⟨_, _⟩, h1, h2⟩ := bind_eq_ok.1 hr
    exact ⟨⟨(h.inv h1).1, (h'.inv h2).1⟩, (h.inv h1).2.trans (h'.inv h2).2⟩
  onlyLength hf out remaining := (h.onlyLength hf.1 _ _).bind fun _ _ => h'.onlyLength hf.2 _ _

/-- A step that writes `b` before the part and fails only where it is not `valid`. -/
theorem after {valid : Prop} {step : α → Except Failure α} (h : Writes fits a m part)
    (hx : ∀ out out', step out = .ok out' ↔ valid ∧ out' = Output.append out b) :
    Writes (valid ∧ fits) (b ++ a) m fun out remaining => step out >>= fun out => part out remaining where
  ok hf out remaining hn hs := by
    rw [length_append] at hs
    rw [(hx out _).2 ⟨hf.1, rfl⟩, ok_bind, h.ok hf.2 _ _ hn (by simp only [Output.size_append]; omega)]
    simp
  inv hr := by
    obtain ⟨_, h1, h2⟩ := bind_eq_ok.1 hr
    obtain ⟨hvalid, rfl⟩ := (hx _ _).1 h1
    exact ⟨⟨hvalid, (h.inv h2).1⟩, (h.inv h2).2.cons⟩
  onlyLength hf out remaining := by
    rw [(hx out _).2 ⟨hf.1, rfl⟩]
    exact h.onlyLength hf.2 _ _

/-- Bytes written before the part. -/
theorem append (h : Writes fits a m part) (b : Bytes) :
    Writes fits (b ++ a) m fun out remaining => part (Output.append out b) remaining :=
  (@after α _ fits a b m part True (fun out => pure (Output.append out b)) h
    fun out _ => by simp [eq_comm]).congr (iff_of_eq (true_and fits)) rfl rfl fun _ _ => rfl

/-- A check before the part. -/
theorem check {valid : Prop} {x : Except Failure Unit} (hx : x = .ok () ↔ valid) (h : Writes fits a m part) :
    Writes (valid ∧ fits) a m fun out remaining => x >>= fun _ => part out remaining := by
  refine (@after α _ fits a [] m part valid (fun out => x >>= fun _ => pure out) h
    fun out _ => ?_).congr .rfl rfl rfl ?_
  · simp only [bind_eq_ok, pure_ok_iff, Output.append_nil, ← hx]
    exact ⟨fun ⟨_, h, he⟩ => ⟨h, he.symm⟩, fun ⟨h, he⟩ => ⟨(), h, he.symm⟩⟩
  · intro out _
    rw [bind_assoc]
    rfl

theorem refuse {c : Prop} [Decidable c] {e : Failure} (h : Writes fits a m part) :
    Writes (¬c ∧ fits) a m fun out remaining => refuseIf c e >>= fun _ => part out remaining :=
  h.check (refuseIf_eq_ok c e ())

/-- The size check after a part. -/
theorem sized (h : Writes fits a m part) (text : String) :
    Writes fits a m fun out remaining => part out remaining >>= fun r =>
      refuseIf (Output.size r.1 > limit) (.length text) >>= fun _ => pure (r.1, r.2) where
  ok hf out remaining hn hs := by
    rw [h.ok hf out remaining hn hs, ok_bind, refuseIf_of_not _ (by simp only [Output.size_append]; omega)]
    rfl
  inv hr := by
    obtain ⟨⟨_, _⟩, h1, h2⟩ := bind_eq_ok.1 hr
    cases (refuseIf_bind_eq_ok.1 h2).2
    exact h.inv h1
  onlyLength hf out remaining := (h.onlyLength hf _ _).bind fun _ _ => .check (fun _ => ⟨text, rfl⟩) (.ok _)

/-- The depth and node checks before the body of a value. -/
theorem node (h : Writes fits a m part) (depth : Nat) (text : String) :
    Writes (depth ≤ 8 ∧ fits) a (m + 1) fun out remaining =>
      refuseIf (depth > 8 ∨ remaining = 0) (.length text) >>= fun _ => part out (remaining - 1) where
  ok hf out remaining hn hs := by
    rw [refuseIf_of_not _ (by omega), ok_bind, h.ok hf.2 _ _ (by omega) hs, Nat.sub_sub, Nat.add_comm 1]
  inv hr := by
    obtain ⟨hd, hr⟩ := refuseIf_bind_eq_ok.1 hr
    obtain ⟨hf, he⟩ := h.inv hr
    have hle := he.nodes_le
    have heq := he.remaining_eq
    exact ⟨⟨by omega, hf⟩, he.out_eq, by omega, by omega⟩
  onlyLength hf out remaining := .check (fun _ => ⟨text, rfl⟩) (h.onlyLength hf.2 _ _)

end Writes

/-! ## Values -/

namespace AttributeValue

mutual

/-- The bytes of a value. -/
def wire : AttributeValue → Bytes
  | .integer n => bigEndian 1 0 ++ bigEndian 8 n.toUInt64.toNat
  | .number bits => bigEndian 1 1 ++ bigEndian 8 bits.toNat
  | .boolean b => bigEndian 1 2 ++ bigEndian 1 b.toNat
  | .text s => bigEndian 1 3 ++ (bigEndian 4 s.length ++ s)
  | .fields entries => bigEndian 1 4 ++ (bigEndian 1 entries.length ++ wireEntries entries)
  | .array items => bigEndian 1 5 ++ (bigEndian 2 items.length ++ wireItems items)
  | .map entries => bigEndian 1 6 ++ (bigEndian 2 entries.length ++ wireEntries entries)

def wireEntries : List (Bytes × AttributeValue) → Bytes
  | [] => []
  | (k, v) :: rest => bigEndian 1 k.length ++ (k ++ (wire v ++ wireEntries rest))

def wireItems : List AttributeValue → Bytes
  | [] => []
  | v :: rest => wire v ++ wireItems rest

end

mutual

/-- The nodes of a value: one for itself and those of its children. -/
def nodes : AttributeValue → Nat
  | .fields entries => nodesEntries entries + 1
  | .array items => nodesItems items + 1
  | .map entries => nodesEntries entries + 1
  | _ => 1

def nodesEntries : List (Bytes × AttributeValue) → Nat
  | [] => 0
  | (_, v) :: rest => nodes v + nodesEntries rest

def nodesItems : List AttributeValue → Nat
  | [] => 0
  | v :: rest => nodes v + nodesItems rest

end

/-- What the encoder requires of a value at `depth`, budgets apart. -/
inductive Fits : Nat → AttributeValue → Prop
  | integer {depth} (hd : depth ≤ 8) (n) : Fits depth (.integer n)
  | number {depth bits} (hd : depth ≤ 8) (h : isFinite bits = true) : Fits depth (.number bits)
  | boolean {depth} (hd : depth ≤ 8) (b) : Fits depth (.boolean b)
  | text {depth s} (hd : depth ≤ 8) (h : s.length ≤ 65536) : Fits depth (.text s)
  | fields {depth} {entries : AttributeStruct} (hd : depth ≤ 8) (h0 : entries.length ≠ 0) (h : entries.length ≤ 64)
    (names : ∀ e ∈ entries, validName e.1 = true) (deep : ∀ e ∈ entries, Fits (depth + 1) e.2) :
    Fits depth (.fields entries)
  | array {depth} {items : List AttributeValue} (hd : depth ≤ 8) (h : items.length ≤ 256)
    (deep : ∀ v ∈ items, Fits (depth + 1) v) : Fits depth (.array items)
  | map {depth} {entries : AttributeStruct} (hd : depth ≤ 8) (h : entries.length ≤ 256)
    (keys : ∀ e ∈ entries, validKey e.1 = true) (deep : ∀ e ∈ entries, Fits (depth + 1) e.2) :
    Fits depth (.map entries)

theorem fits_fields {depth : Nat} {entries : AttributeStruct} : (fields entries).Fits depth ↔ depth ≤ 8 ∧
    ¬(entries.length = 0 ∨ entries.length > 64) ∧ ∀ e ∈ entries, validName e.1 = true ∧ e.2.Fits (depth + 1) := by
  refine ⟨fun h => ?_, fun ⟨hd, hl, h⟩ => .fields hd (by omega) (by omega) (fun e he => (h e he).1)
    fun e he => (h e he).2⟩
  cases h with
  | fields hd h0 h names deep => exact ⟨hd, by omega, fun e he => ⟨names e he, deep e he⟩⟩

theorem fits_array {depth : Nat} {items : List AttributeValue} : (array items).Fits depth ↔ depth ≤ 8 ∧
    ¬items.length > 256 ∧ ∀ v ∈ items, v.Fits (depth + 1) := by
  refine ⟨fun h => ?_, fun ⟨hd, hl, h⟩ => .array hd (by omega) h⟩
  cases h with
  | array hd h deep => exact ⟨hd, by omega, deep⟩

theorem fits_map {depth : Nat} {entries : AttributeStruct} : (map entries).Fits depth ↔ depth ≤ 8 ∧
    ¬entries.length > 256 ∧ ∀ e ∈ entries, validKey e.1 = true ∧ e.2.Fits (depth + 1) := by
  refine ⟨fun h => ?_, fun ⟨hd, hl, h⟩ => .map hd (by omega) (fun e he => (h e he).1) fun e he => (h e he).2⟩
  cases h with
  | map hd h keys deep => exact ⟨hd, by omega, fun e he => ⟨keys e he, deep e he⟩⟩

theorem Fits.depth_le {depth : Nat} {v : AttributeValue} (h : v.Fits depth) : depth ≤ 8 := by
  cases h <;> assumption

theorem Fits.finite {depth : Nat} {v : AttributeValue} (h : v.Fits depth) : v.Finite := by
  induction h with
  | integer _ n => exact .integer n
  | number _ h => exact .number h
  | boolean _ b => exact .boolean b
  | text _ _ => exact .text _
  | fields _ _ _ _ _ ih => exact .fields ih
  | array _ _ _ ih => exact .array ih
  | map _ _ _ _ ih => exact .map ih

theorem nodes_pos (v : AttributeValue) : 0 < v.nodes := by
  cases v <;> simp [nodes]

end AttributeValue

open AttributeValue

theorem checkName_eq_ok {name : Bytes} {u : Unit} : checkName name = .ok u ↔ validName name = true := by
  simp [checkName]

theorem checkKeyAs_eq_ok {text : String} {key : Bytes} {u : Unit} :
    checkKeyAs text key = .ok u ↔ validKey key = true := by
  simp [checkKeyAs]

variable {depth remaining remaining' : Nat} {out out' : α} {paths : Bool} {update : AttributeUpdate}

theorem size_le_of_check {x : Except Failure (α × Nat)} {text : String}
    (h : (x >>= fun r => refuseIf (Output.size r.1 > limit) (.length text) >>= fun _ => pure (r.1, r.2)) =
      .ok (out', remaining')) : Output.size out' ≤ limit := by
  obtain ⟨r, -, h⟩ := bind_eq_ok.1 h
  obtain ⟨hl, h⟩ := refuseIf_bind_eq_ok.1 h
  cases h
  exact not_lt.1 hl

theorem encodeValue_size {v : AttributeValue} (h : encodeValue out v depth remaining = .ok (out', remaining')) :
    Output.size out' ≤ limit := by
  rw [encodeValue] at h
  obtain ⟨-, h⟩ := refuseIf_bind_eq_ok.1 h
  cases v with
  | integer | boolean => exact size_le_of_check h
  | _ => exact size_le_of_check (refuseIf_bind_eq_ok.1 h).2

/-- The loop over entries, given what the encoder does on each of them. -/
theorem encodeEntries_writes {check : Bytes → Except Failure Unit} {valid : Bytes → Bool}
    (hc : ∀ key, check key = .ok () ↔ valid key = true) {entries : AttributeStruct}
    (hv : ∀ e ∈ entries, Writes (α := α) (e.2.Fits depth) e.2.wire e.2.nodes fun out => encodeValue out e.2 depth) :
    Writes (α := α) (∀ e ∈ entries, valid e.1 = true ∧ e.2.Fits depth) (wireEntries entries) (nodesEntries entries)
      fun out => encodeEntries check out entries depth := by
  induction entries with
  | nil => exact Writes.nil.congr (by simp) rfl rfl fun _ _ => by rw [encodeEntries]
  | cons e _ ih =>
    obtain ⟨name, _⟩ := e
    have hchild := hv _ mem_cons_self
    have hrest := ih fun e he => hv e (mem_cons_of_mem _ he)
    refine (((hchild.seq hrest).append (bigEndian 1 name.length ++ name)).check (hc name)).congr ?_ ?_ rfl ?_
    · simp only [forall_mem_cons, and_assoc]
    · simp [wireEntries]
    · intro _ _
      rw [encodeEntries, ← Output.append_append, put_eq]

theorem encodeItems_writes {items : List AttributeValue}
    (hv : ∀ v ∈ items, Writes (α := α) (v.Fits depth) v.wire v.nodes fun out => encodeValue out v depth) :
    Writes (α := α) (∀ v ∈ items, v.Fits depth) (wireItems items) (nodesItems items)
      fun out => encodeItems out items depth := by
  induction items with
  | nil => exact Writes.nil.congr (by simp) rfl rfl fun _ _ => by rw [encodeItems]
  | cons _ _ ih =>
    have hchild := hv _ mem_cons_self
    have hrest := ih fun v hm => hv v (mem_cons_of_mem _ hm)
    refine (hchild.seq hrest).congr (by simp) (by rw [wireItems]) (by rw [nodesItems]) fun _ _ => ?_
    rw [encodeItems]

/-- The tag and the body make up the value. -/
theorem Writes.value {v : AttributeValue} {m : Nat} {fits : Prop} {body : Bytes}
    {part : α → Nat → Except Failure (α × Nat)}
    (h : Writes fits body m part)
    (hp : ∀ out remaining, encodeValue out v depth remaining = (do
      refuseIf (depth > 8 ∨ remaining = 0) (.length "attribute value depth/node limit")
      let (out, remaining) ← part (put out v.index 1) (remaining - 1)
      refuseIf (Output.size out > limit) (.length "attribute image too large")
      pure (out, remaining)))
    (hf : v.Fits depth ↔ depth ≤ 8 ∧ fits) (hw : v.wire = bigEndian 1 v.index ++ body) (hn : v.nodes = m + 1) :
    Writes (α := α) (v.Fits depth) v.wire v.nodes fun out => encodeValue out v depth :=
  (((h.append (bigEndian 1 v.index)).sized "attribute image too large").node depth
    "attribute value depth/node limit").congr hf.symm hw.symm hn.symm hp

/-- The encoder of values. -/
theorem encodeValue_writes (v : AttributeValue) (depth : Nat) :
    Writes (α := α) (v.Fits depth) v.wire v.nodes fun out => encodeValue out v depth := by
  induction v generalizing depth with
  | integer n =>
    refine Writes.value (Writes.nil.append (bigEndian 8 n.toUInt64.toNat)) (fun _ _ => by rw [encodeValue]; rfl)
      ?_ (by simp [wire, index]) rfl
    exact ⟨fun h => ⟨h.depth_le, trivial⟩, fun h => .integer h.1 n⟩
  | number bits =>
    refine Writes.value (Writes.nil.append (bigEndian 8 bits.toNat)).refuse
      (fun _ _ => by simp only [encodeValue, bind_assoc]; rfl)
      ?_ (by simp [wire, index]) rfl
    refine ⟨fun h => ?_, fun h => .number h.1 (by simpa using h.2)⟩
    cases h with
    | number hd h => exact ⟨hd, by simp [h]⟩
  | boolean b =>
    refine Writes.value (Writes.nil.append (bigEndian 1 b.toNat)) (fun _ _ => by rw [encodeValue]; rfl)
      ?_ (by simp [wire, index]) rfl
    exact ⟨fun h => ⟨h.depth_le, trivial⟩, fun h => .boolean h.1 b⟩
  | text s =>
    refine Writes.value ((Writes.nil.append s).append (bigEndian 4 s.length)).refuse
      (fun _ _ => by simp only [encodeValue, bind_assoc]; rfl)
      ?_ (by simp [wire, index]) rfl
    refine ⟨fun h => ?_, fun h => .text h.1 (by omega)⟩
    cases h with
    | text hd h => exact ⟨hd, by omega, trivial⟩
  | fields entries ih =>
    have hloop := encodeEntries_writes (α := α) (fun name => @checkName_eq_ok name ()) fun e he => ih e he (depth + 1)
    exact Writes.value (hloop.append (bigEndian 1 entries.length)).refuse
      (fun _ _ => by simp only [encodeValue, bind_assoc]; rfl) fits_fields rfl rfl
  | array items ih =>
    have hloop := encodeItems_writes (α := α) fun v hv => ih v hv (depth + 1)
    exact Writes.value (hloop.append (bigEndian 2 items.length)).refuse
      (fun _ _ => by simp only [encodeValue, bind_assoc]; rfl) fits_array rfl rfl
  | map entries ih =>
    have hloop := encodeEntries_writes (α := α) (fun key => @checkKeyAs_eq_ok "invalid map key" key ())
      fun e he => ih e he (depth + 1)
    exact Writes.value (hloop.append (bigEndian 2 entries.length)).refuse
      (fun _ _ => by simp only [encodeValue, bind_assoc]; rfl) fits_map rfl rfl

/-- The last entry's own size check bounds the output of the loop. -/
theorem encodeEntries_size {check : Bytes → Except Failure Unit} {entries : AttributeStruct}
    (hs : Output.size out ≤ limit)
    (h : encodeEntries check out entries depth remaining = .ok (out', remaining')) : Output.size out' ≤ limit := by
  induction entries generalizing out remaining with
  | nil => cases h; exact hs
  | cons _ _ ih =>
    simp only [encodeEntries, bind_eq_ok] at h
    obtain ⟨_, _, ⟨_, _⟩, h1, h2⟩ := h
    have hl := encodeValue_size h1
    exact ih hl h2

/-! ## Images -/

/-- The size check of the property loop repeats the encoder's own, so the loop
is the one over the fields of a structure. -/
theorem encodeProperties_eq (out : α) (values : AttributeStruct) (remaining : Nat) :
    encodeProperties out values remaining = encodeEntries checkName out values 0 remaining := by
  induction values generalizing out remaining with
  | nil => rfl
  | cons e rest ih =>
    obtain ⟨name, value⟩ := e
    rw [encodeProperties, encodeEntries]
    congr 1
    funext u
    cases hv : encodeValue (Output.append (put out name.length 1) name) value 0 remaining with
    | error => rfl
    | ok r =>
      obtain ⟨out', remaining'⟩ := r
      have hl := encodeValue_size hv
      simp only [ok_bind]
      rw [refuseIf_of_not _ (by omega), ok_bind, ih]

/-- What the encoder requires of the image part of an update. -/
structure ImageFits (values : AttributeStruct) (base revision : UInt64) (snapshot : Bool) : Prop where
  count : values.length ≤ 256
  base_le : base ≤ revision
  base_zero : snapshot = true → base = 0
  names : ∀ e ∈ values, validName e.1 = true
  deep : ∀ e ∈ values, e.2.Fits 0

/-- The record after its four-byte tag, up to the properties. -/
def header (values : AttributeStruct) (base revision : UInt64) (snapshot : Bool) : Bytes :=
  bigEndian 1 snapshot.toNat ++ (bigEndian 8 base.toNat ++ (bigEndian 8 revision.toNat ++ bigEndian 2 values.length))

@[simp] theorem header_length (values : AttributeStruct) (base revision : UInt64) (snapshot : Bool) :
    (header values base revision snapshot).length = 19 := by
  simp [header]

@[simp] theorem ascii_fsa1_length : (ascii "FSA1").length = 4 := rfl

theorem encodeImage_eq (out : α) (values : AttributeStruct) (base revision : UInt64) (snapshot : Bool)
    (remaining : Nat) :
    encodeImage out values base revision snapshot remaining = (do
      refuseIf (values.length > 256 ∨ base > revision ∨ (snapshot = true ∧ base ≠ 0))
        (.invalid "invalid attribute revision or count")
      encodeEntries checkName (Output.append out (ascii "FSA1" ++ header values base revision snapshot)) values 0
        remaining) := by
  unfold encodeImage
  simp only [encodeProperties_eq, put_eq, Output.append_append, header, append_assoc]

variable {values : AttributeStruct} {base revision : UInt64} {snapshot : Bool}

theorem ImageFits.check (h : ImageFits values base revision snapshot) :
    ¬(values.length > 256 ∨ base > revision ∨ (snapshot = true ∧ base ≠ 0)) := by
  rintro (hc | hb | ⟨hs, h0⟩)
  · exact absurd h.count (by omega)
  · exact UInt64.not_le.2 hb h.base_le
  · exact h0 (h.base_zero hs)

theorem encodeImage_writes (values : AttributeStruct) (base revision : UInt64) (snapshot : Bool) :
    Writes (α := α) (ImageFits values base revision snapshot)
      (ascii "FSA1" ++ (header values base revision snapshot ++ wireEntries values)) (nodesEntries values)
      fun out => encodeImage out values base revision snapshot := by
  have hloop := encodeEntries_writes (α := α) (fun name => @checkName_eq_ok name ())
    fun e (_ : e ∈ values) => encodeValue_writes e.2 0
  refine (hloop.append (ascii "FSA1" ++ header values base revision snapshot)).refuse.congr ?_ (by simp) rfl
    fun out remaining => encodeImage_eq out values base revision snapshot remaining
  refine ⟨fun ⟨hc, hall⟩ => ⟨by omega, ?_, ?_, fun e he => (hall e he).1, fun e he => (hall e he).2⟩,
    fun h => ⟨h.check, fun e he => ⟨h.names e he, h.deep e he⟩⟩⟩
  · exact UInt64.not_lt.1 fun hlt => hc (.inr (.inl hlt))
  · intro hs
    by_contra h0
    exact hc (.inr (.inr ⟨hs, h0⟩))

/-! ## Patches -/

/-- What the encoder requires of a path component. -/
def PathPart.Valid : PathPart → Prop
  | .key k => validKey k = true
  | .index i => i < 256

def PathPart.wire : PathPart → Bytes
  | .key k => bigEndian 1 1 ++ (bigEndian 1 k.length ++ k)
  | .index i => bigEndian 1 0 ++ bigEndian 2 i

def pathWire : List PathPart → Bytes
  | [] => []
  | part :: rest => part.wire ++ pathWire rest

theorem pathWire_append (p q : List PathPart) : pathWire (p ++ q) = pathWire p ++ pathWire q := by
  induction p with
  | nil => rfl
  | cons _ _ ih => simp [pathWire, ih]

theorem encodePath_eq_ok {path : List PathPart} :
    encodePath out path = .ok out' ↔ (∀ part ∈ path, part.Valid) ∧ out' = Output.append out (pathWire path) := by
  induction path generalizing out with
  | nil => simp [encodePath, pathWire, eq_comm]
  | cons part _ ih =>
    cases part with
    | key => simp [encodePath, bind_eq_ok, checkKey, checkKeyAs_eq_ok, ih, pathWire, PathPart.wire, PathPart.Valid,
        put_eq, and_assoc]
    | index => simp [encodePath, refuseIf_bind_eq_ok, ih, pathWire, PathPart.wire, PathPart.Valid, put_eq, and_assoc]

/-- The three edits the encoder accepts, budgets apart. -/
inductive EditFits : AttributePatch → Prop
  | replacement {property path value} (h : value.Fits path.length) :
    EditFits { property, path, replace := true, value := some value }
  | assign {property path key value} (hk : validKey key = true) (h : ∀ v ∈ value, v.Fits (path.length + 1)) :
    EditFits { property, path, map := true, key, value }
  | splice {property path index remove insert} (hi : index ≤ 256) (hr : remove ≤ 256) (hl : insert.length ≤ 256)
    (h : ∀ v ∈ insert, v.Fits (path.length + 1)) : EditFits { property, path, index, remove, insert }

/-- The bytes of a patch after its kind. -/
def editWire (patch : AttributePatch) : Bytes :=
  if patch.replace then patch.value.elim [] wire
  else if patch.map then
    bigEndian 1 patch.key.length ++ (patch.key ++ (bigEndian 1 patch.value.isSome.toNat ++ patch.value.elim [] wire))
  else bigEndian 2 patch.index ++
    (bigEndian 2 patch.remove ++ (bigEndian 2 patch.insert.length ++ wireItems patch.insert))

def editNodes (patch : AttributePatch) : Nat :=
  if patch.replace || patch.map then patch.value.elim 0 nodes else nodesItems patch.insert

theorem encodeEdit_writes (patch : AttributePatch) :
    Writes (α := α) (EditFits patch) (editWire patch) (editNodes patch) fun out => encodeEdit out patch := by
  obtain ⟨property, map, key, value, index, remove, insert, path, replace⟩ := patch
  cases replace with
  | true =>
    cases value with
    | none =>
      refine (Writes.nil.refuse (c := True) (e := .invalid "invalid field replacement")).congr ?_ rfl rfl ?_
      · exact ⟨fun h => absurd trivial h.1, fun h => nomatch h⟩
      · intro out remaining
        simp [encodeEdit]
    | some v =>
      refine ((encodeValue_writes v path.length).refuse (c := map = true ∨ (some v).isNone = true ∨ key ≠ [] ∨
        insert.isEmpty = false ∨ index ≠ 0 ∨ remove ≠ 0) (e := .invalid "invalid field replacement")).congr ⟨?_, ?_⟩
          rfl rfl fun out remaining => ?_
      · rintro ⟨hc, hf⟩
        simp only [not_or, ne_eq, not_not] at hc
        obtain ⟨hm, -, rfl, hi, rfl, rfl⟩ := hc
        obtain rfl : map = false := by simpa using hm
        obtain rfl : insert = [] := by simpa using hi
        exact .replacement hf
      · intro h
        cases h with
        | replacement hf => exact ⟨by simp, hf⟩
      · rw [encodeEdit, if_pos rfl]
  | false =>
    cases map with
    | true =>
      have hvalue : Writes (α := α) (∀ v ∈ value, v.Fits (path.length + 1)) (value.elim [] wire) (value.elim 0 nodes)
          fun out remaining => value.elim (pure (out, remaining)) fun v =>
            encodeValue out v (path.length + 1) remaining := by
        cases value with
        | none => exact Writes.nil.congr (by simp) rfl rfl fun _ _ => rfl
        | some v => exact (encodeValue_writes v (path.length + 1)).congr (by simp) rfl rfl fun _ _ => rfl
      refine (((hvalue.append (bigEndian 1 key.length ++ (key ++ bigEndian 1 value.isSome.toNat))).refuse
        (c := insert.isEmpty = false ∨ index ≠ 0 ∨ remove ≠ 0) (e := .invalid "invalid map patch")).check
          (@checkKeyAs_eq_ok "invalid patch key" key ())).congr ⟨?_, ?_⟩
            (by simp [editWire]) rfl fun out remaining => ?_
      · rintro ⟨hk, hc, hf⟩
        simp only [not_or, ne_eq, not_not] at hc
        obtain ⟨hi, rfl, rfl⟩ := hc
        obtain rfl : insert = [] := by simpa using hi
        exact .assign hk hf
      · intro h
        cases h with
        | assign hk hf => exact ⟨hk, by simp, hf⟩
      · rw [encodeEdit, if_neg (by simp), if_pos rfl]
        simp only [put_eq, Output.append_append]
        cases value <;> rfl
    | false =>
      have hitems := encodeItems_writes (α := α) fun v (_ : v ∈ insert) => encodeValue_writes v (path.length + 1)
      refine ((hitems.append (bigEndian 2 index ++ (bigEndian 2 remove ++ bigEndian 2 insert.length))).refuse
        (c := index > 256 ∨ remove > 256 ∨ insert.length > 256 ∨ key ≠ [] ∨ value.isSome = true)
        (e := .invalid "invalid sequence patch")).congr ⟨?_, ?_⟩ (by simp [editWire]) rfl fun out remaining => ?_
      · rintro ⟨hc, hf⟩
        simp only [not_or, ne_eq, not_not] at hc
        obtain ⟨hi, hr, hl, rfl, hv⟩ := hc
        obtain rfl : value = none := by simpa using hv
        exact .splice (by omega) (by omega) (by omega) hf
      · intro h
        cases h with
        | splice hi hr hl hf => exact ⟨by simp; omega, hf⟩
      · rw [encodeEdit, if_neg (by simp), if_neg (by simp)]
        simp only [put_eq, Output.append_append, append_assoc]

/-- What the encoder requires of a patch, budgets apart. -/
structure PatchFits (patch : AttributePatch) : Prop where
  name : validName patch.property = true
  path_length : patch.path.length ≤ 8
  path_valid : ∀ part ∈ patch.path, part.Valid
  edit : EditFits patch

/-- The bytes of a patch, in a record with or without paths. -/
def patchWire (paths : Bool) (patch : AttributePatch) : Bytes :=
  bigEndian 1 patch.property.length ++ (patch.property ++
    ((if paths then bigEndian 1 patch.path.length ++ pathWire patch.path else []) ++
      (bigEndian 1 (patchKind patch) ++ editWire patch)))

theorem encodePaths_eq_ok {path : List PathPart} :
    encodePaths out paths path = .ok out' ↔ (paths = true → ∀ part ∈ path, part.Valid) ∧
      out' = Output.append out (if paths then bigEndian 1 path.length ++ pathWire path else []) := by
  cases paths with
  | true => simp [encodePaths, encodePath_eq_ok, put_eq]
  | false => simp [encodePaths, eq_comm]

/-- The encoder of patches; the path is checked if it is written. -/
theorem encodePatch_writes (patch : AttributePatch) (paths : Bool) :
    Writes (α := α)
      (validName patch.property = true ∧ ¬patch.path.length > 8 ∧
        (paths = true → ∀ part ∈ patch.path, part.Valid) ∧ EditFits patch)
      (patchWire paths patch) (editNodes patch) fun out => encodePatch out patch paths := by
  have hedit := (encodeEdit_writes (α := α) patch).append (bigEndian 1 (patchKind patch))
  have hpath := (hedit.sized "attribute image too large").after
    fun out out' => @encodePaths_eq_ok α _ out out' paths patch.path
  refine (((hpath.refuse (c := patch.path.length > 8) (e := .length "patch path depth limit")).append
    (bigEndian 1 patch.property.length ++ patch.property)).check
    checkName_eq_ok).congr .rfl (by simp [patchWire]) rfl fun out _ => ?_
  rw [encodePatch, ← Output.append_append, put_eq]
  rfl

theorem encodePatch_ok {patch : AttributePatch} (h : PatchFits patch) (paths : Bool) (out : α) (remaining : Nat)
    (hn : editNodes patch ≤ remaining) (hs : Output.size out + (patchWire paths patch).length ≤ limit) :
    encodePatch out patch paths remaining =
      .ok (Output.append out (patchWire paths patch), remaining - editNodes patch) :=
  (encodePatch_writes patch paths).ok ⟨h.name, not_lt.2 h.path_length, fun _ => h.path_valid, h.edit⟩ out remaining hn
    hs

/-! ## Updates -/

def patchesWire (paths : Bool) : List AttributePatch → Bytes
  | [] => []
  | patch :: rest => patchWire paths patch ++ patchesWire paths rest

def patchesNodes : List AttributePatch → Nat
  | [] => 0
  | patch :: rest => editNodes patch + patchesNodes rest

theorem encodePatches_writes {patches : List AttributePatch} (hp : ∀ patch ∈ patches, paths = false → patch.path = []) :
    Writes (α := α) (∀ patch ∈ patches, PatchFits patch ∧ Entries.find patch.property values = none)
      (patchesWire paths patches) (patchesNodes patches) fun out => encodePatches out values paths patches := by
  induction patches with
  | nil => exact Writes.nil.congr (by simp) rfl rfl fun _ _ => by rw [encodePatches]
  | cons patch _ ih =>
    have hrest := ih fun p hm => hp p (mem_cons_of_mem _ hm)
    refine (((encodePatch_writes patch paths).seq hrest).refuse
      (c := (Entries.find patch.property values).isSome = true) (e := .invalid "replacement and patch overlap")).congr
        ?_ (by rw [patchesWire]) (by rw [patchesNodes]) ?_
    · rw [forall_mem_cons]
      constructor
      · rintro ⟨hfree, ⟨hname, hlen, hvalid, hedit⟩, hall⟩
        refine ⟨⟨⟨hname, not_lt.1 hlen, ?_, hedit⟩, by simpa using hfree⟩, hall⟩
        cases paths with
        | true => exact hvalid rfl
        | false => simp [hp patch mem_cons_self rfl]
      · rintro ⟨⟨hf, hfree⟩, hall⟩
        exact ⟨by simp [hfree], ⟨hf.name, not_lt.2 hf.path_length, fun _ => hf.path_valid, hf.edit⟩, hall⟩
    · intro _ _
      rw [encodePatches]

/-- The last patch's own size check bounds the whole record. -/
theorem encodePatches_size {patches : List AttributePatch}
    (h : encodePatches out values paths patches remaining = .ok (out', remaining')) (hne : patches ≠ []) :
    Output.size out' ≤ limit := by
  induction patches generalizing out remaining with
  | nil => exact absurd rfl hne
  | cons _ rest ih =>
    simp only [encodePatches, encodePatch, bind_eq_ok, refuseIf_eq_ok] at h
    obtain ⟨_, _, ⟨_, _⟩, ⟨_, _, _, _, _, _, _, _, _, hlim, h1⟩, h2⟩ := h
    cases h1
    cases rest with
    | nil => cases h2; simpa using hlim
    | cons => exact ih h2 (by simp)

/-- What the encoder requires of an update, budgets apart. -/
structure UpdateFits (update : AttributeUpdate) : Prop where
  image : ImageFits update.values update.base update.revision update.snapshot
  plain : update.patches ≠ [] → update.snapshot = false
  patch_count : update.patches.length ≤ 256
  patches : ∀ patch ∈ update.patches, PatchFits patch ∧ Entries.find patch.property update.values = none

/-- The record after its four-byte tag. -/
def updateBody (update : AttributeUpdate) : Bytes :=
  header update.values update.base update.revision update.snapshot ++ (wireEntries update.values ++
    if update.patches = [] then []
    else bigEndian 2 update.patches.length ++ patchesWire (fieldPaths update) update.patches)

def updateNodes (update : AttributeUpdate) : Nat := nodesEntries update.values + patchesNodes update.patches

/-- An update the encoder accepts. -/
structure Accepted (update : AttributeUpdate) : Prop where
  fits : UpdateFits update
  nodes : updateNodes update ≤ 4096
  size : 4 + (updateBody update).length ≤ limit

/-- The image and the patches of an update, with what is left of the node budget. -/
def encodeParts (out : α) (update : AttributeUpdate) (remaining : Nat) : Except Failure (α × Nat) := do
  let (out, remaining) ← encodeImage out update.values update.base update.revision update.snapshot remaining
  if update.patches.isEmpty then pure (out, remaining)
  else do
    refuseIf (update.snapshot = true ∨ update.patches.length > 256) (.invalid "invalid container patches")
    encodePatches (put out update.patches.length 2) update.values (fieldPaths update) update.patches remaining

theorem encodeUpdate_eq (out : α) (update : AttributeUpdate) :
    encodeUpdate out update = encodeParts out update 4096 >>= fun r => pure r.1 := by
  unfold encodeUpdate encodeParts
  rw [bind_assoc]
  congr 1
  funext r
  split_ifs with hp
  · rfl
  · rw [bind_assoc]

theorem encodeParts_writes (update : AttributeUpdate) :
    Writes (α := α) (UpdateFits update) (ascii "FSA1" ++ updateBody update) (updateNodes update)
      fun out => encodeParts out update := by
  have himage := encodeImage_writes (α := α) update.values update.base update.revision update.snapshot
  by_cases hp : update.patches = []
  · refine himage.congr ?_ (by simp [updateBody, hp]) (by simp [updateNodes, hp, patchesNodes]) fun out remaining => ?_
    · exact ⟨fun h => ⟨h, by simp [hp], by simp [hp], by simp [hp]⟩, UpdateFits.image⟩
    · rw [encodeParts, hp]
      exact bind_pure _
  have hpaths : ∀ patch ∈ update.patches, fieldPaths update = false → patch.path = [] := by
    intro patch hm hfp
    have := any_eq_false.1 hfp patch hm
    simp at this
    exact this.2
  have hpatches := @encodePatches_writes α _ _ update.values _ hpaths
  refine (himage.seq ((hpatches.append (bigEndian 2 update.patches.length)).refuse
    (c := update.snapshot = true ∨ update.patches.length > 256) (e := .invalid "invalid container patches"))).congr
      ⟨?_, ?_⟩ (by simp [updateBody, hp]) rfl fun out remaining => ?_
  · rintro ⟨hf, hc, hall⟩
    exact ⟨hf, fun _ => by simpa using (not_or.1 hc).1, by omega, hall⟩
  · intro h
    exact ⟨h.image, by simp [h.plain hp]; exact h.patch_count, h.patches⟩
  · simp only [encodeParts, List.isEmpty_iff, hp, if_false]
    rfl

theorem encodeParts_size (ho : Output.size out = 0) (h : encodeParts out update remaining = .ok (out', remaining')) :
    Output.size out' ≤ limit := by
  simp only [encodeParts, bind_eq_ok] at h
  obtain ⟨⟨_, _⟩, himage, h⟩ := h
  by_cases hp : update.patches = []
  · rw [if_pos (by simp [hp])] at h
    cases h
    rw [encodeImage_eq, refuseIf_bind_eq_ok] at himage
    exact encodeEntries_size (by simp [ho, limit]) himage.2
  · rw [if_neg (by simpa using hp), refuseIf_bind_eq_ok] at h
    exact encodePatches_size h.2 hp

theorem encodeUpdate_eq_ok (ho : Output.size out = 0) : encodeUpdate out update = .ok out' ↔
      Accepted update ∧ out' = Output.append out (ascii "FSA1" ++ updateBody update) := by
  rw [encodeUpdate_eq, bind_eq_ok]
  constructor
  · rintro ⟨⟨out1, r1⟩, hparts, h⟩
    cases h
    obtain ⟨hf, he⟩ := (encodeParts_writes update).inv hparts
    have hlim := encodeParts_size ho hparts
    rw [he.out_eq, Output.size_append, ho, length_append, ascii_fsa1_length] at hlim
    exact ⟨⟨hf, he.nodes_le, by omega⟩, he.out_eq⟩
  · rintro ⟨h, rfl⟩
    refine ⟨_, (encodeParts_writes update).ok h.fits out 4096 h.nodes ?_, rfl⟩
    have hs := h.size
    rw [ho, length_append, ascii_fsa1_length]
    omega

/-- The four-byte tag of the record. -/
def updateTag (update : AttributeUpdate) : Bytes :=
  if update.patches = [] then ascii "FSA1" else if fieldPaths update then ascii "FSA3" else ascii "FSA2"

/-- The encoder accepts exactly the accepted updates, and writes the tag and the body. -/
theorem encodeAttributes_eq_ok {bytes : Bytes} :
    encodeAttributes update = .ok bytes ↔ Accepted update ∧ bytes = updateTag update ++ updateBody update := by
  have htag : (if update.patches.isEmpty then pure (ascii "FSA1" ++ updateBody update)
      else pure ((ascii "FSA1" ++ updateBody update).set 3 (if fieldPaths update then 0x33 else 0x32)) :
        Except Failure Bytes) = .ok (updateTag update ++ updateBody update) := by
    by_cases hp : update.patches = []
    · rw [updateTag, if_pos hp, hp]; rfl
    · rw [updateTag, if_neg hp, if_neg (by simpa using hp)]
      cases fieldPaths update <;> rfl
  simp only [encodeAttributes, bind_eq_ok]
  constructor
  · rintro ⟨_, hout, h⟩
    obtain ⟨hacc, rfl⟩ := (encodeUpdate_eq_ok rfl).1 hout
    exact ⟨hacc, Except.ok.inj (h.symm.trans htag)⟩
  · rintro ⟨h, rfl⟩
    exact ⟨_, (encodeUpdate_eq_ok rfl).2 ⟨h, rfl⟩, htag⟩

/-- `attribute_wire_size` succeeds on the same updates, with the length of the record. -/
theorem attributeWireSize_eq_ok {n : Nat} :
    attributeWireSize update = .ok n ↔ Accepted update ∧ n = 4 + (updateBody update).length := by
  simp only [attributeWireSize, bind_eq_ok]
  constructor
  · rintro ⟨_, hout, h⟩
    obtain ⟨hacc, rfl⟩ := (encodeUpdate_eq_ok rfl).1 hout
    cases h
    exact ⟨hacc, by simp [Output.append]⟩
  · rintro ⟨h, rfl⟩
    exact ⟨_, (encodeUpdate_eq_ok rfl).2 ⟨h, rfl⟩, by simp [Output.append]⟩

theorem attributeWireSize_onlyLength (h : UpdateFits update) : OnlyLength (attributeWireSize update) := by
  rw [attributeWireSize, encodeUpdate_eq, bind_assoc]
  exact ((encodeParts_writes update).onlyLength h _ _).bind fun _ _ => .ok _

end Fsnet
