import Fsnet.Lib.Except
import Fsnet.Attributes.Value
/-!
# The attribute wire format

The encoder and decoder of attribute updates: `FSA1` images and replacements,
`FSA2` container edits and `FSA3` field paths. The encoder is written once over
an `Output`, a byte string or only a byte count, as the source's template is;
both sides share a budget of nodes (`remaining`) and a bound on the depth.
-/

namespace Fsnet

open Lib

/-- What the source throws. -/
inductive Failure where
  /-- `std::length_error`. -/
  | length (text : String)
  /-- `std::invalid_argument`. -/
  | invalid (text : String)
  /-- `std::runtime_error`. -/
  | runtime (text : String)
  /-- `std::overflow_error`. -/
  | overflow (text : String)
  /-- `std::logic_error`. -/
  | logic (text : String)
  /-- `std::out_of_range`, from `at`. -/
  | outOfRange
  /-- `std::bad_variant_access`, from `std::get`. -/
  | badVariant
  /-- `AttributeReplicaBudget`. -/
  | replicaBudget
  /-- `std::bad_alloc`. -/
  | badAlloc
  deriving DecidableEq, Repr

/-- One step of a patch path: a key of a structure or map, or an array index. -/
inductive PathPart where
  | key (k : Bytes)
  | index (i : Nat)
  deriving DecidableEq

/-- A bounded edit below a top-level property. -/
structure AttributePatch where
  property : Bytes
  map : Bool := false
  key : Bytes := []
  value : Option AttributeValue := none
  index : Nat := 0
  remove : Nat := 0
  insert : List AttributeValue := []
  path : List PathPart := []
  replace : Bool := false

structure AttributeUpdate where
  base : UInt64
  revision : UInt64
  snapshot : Bool
  values : AttributeStruct
  patches : List AttributePatch := []

/-! ## Outputs -/

/-- Where the encoder writes: something bytes are appended to and that knows its size. -/
class Output (α : Type) where
  append : α → Bytes → α
  size : α → Nat
  append_nil : ∀ out, append out [] = out
  size_append : ∀ out bytes, size (append out bytes) = size out + bytes.length
  append_append : ∀ out a b, append (append out a) b = append out (a ++ b)

instance : Output Bytes where
  append := List.append
  size := List.length
  append_nil _ := List.append_nil _
  size_append _ _ := List.length_append
  append_append _ _ _ := List.append_assoc _ _ _

/-- Counts what is written and keeps nothing. -/
structure SizeOnly where
  bytes : Nat
  deriving DecidableEq, Repr

instance : Output SizeOnly where
  append out bytes := ⟨out.bytes + bytes.length⟩
  size := SizeOnly.bytes
  append_nil _ := rfl
  size_append _ _ := rfl
  append_append _ _ _ := by simp [Nat.add_assoc]

def limit : Nat := 1024 * 1024

variable {α : Type} [Output α]

variable (out : α) (patch : AttributePatch) (values : AttributeStruct) (paths : Bool) (input : Bytes)
    (remaining : Nat) (update : AttributeUpdate)

def put (n count : Nat) : α := Output.append out (bigEndian count n)

/-- The first `count` bytes as an integer; `short` is what the source throws on too short an input. -/
def readUint (short : Failure) (input : Bytes) (count : Nat) : Except Failure (Nat × Bytes) := do
  refuseIf (input.length < count) short
  pure (ofBigEndian (input.take count), input.drop count)

def get (count : Nat) : Except Failure (Nat × Bytes) := readUint (.invalid "truncated attributes") input count

/-! ## Names and keys -/

def validName (name : Bytes) : Bool :=
  !name.isEmpty && name.length ≤ 127 && name.head? ≠ some 0x24 && !name.contains 0x2e && !name.contains 0

def checkName (name : Bytes) : Except Failure Unit :=
  refuseIf (validName name = false) (.invalid "invalid property name")

def validKey (key : Bytes) : Bool := !key.isEmpty && key.length ≤ 127 && !key.contains 0

/-- The key rule of maps and paths; `text` is what the caller throws. -/
def checkKeyAs (text : String) (key : Bytes) : Except Failure Unit := refuseIf (validKey key = false) (.invalid text)

def checkKey (key : Bytes) : Except Failure Unit := checkKeyAs "invalid patch key" key

/-! ## Values -/

mutual

def encodeValue (out : α) (value : AttributeValue) (depth remaining : Nat) : Except Failure (α × Nat) := do
  refuseIf (depth > 8 ∨ remaining = 0) (.length "attribute value depth/node limit")
  let remaining := remaining - 1
  let out := put out value.index 1
  let (out, remaining) ← match value with
    | .integer n => pure (put out n.toUInt64.toNat 8, remaining)
    | .number bits => do
      refuseIf (isFinite bits = false) (.invalid "non-finite attribute")
      pure (put out bits.toNat 8, remaining)
    | .boolean b => pure (put out b.toNat 1, remaining)
    | .text s => do
      refuseIf (s.length > 65536) (.length "property string too large")
      pure (Output.append (put out s.length 4) s, remaining)
    | .fields entries => do
      refuseIf (entries.length = 0 ∨ entries.length > 64) (.length "struct field limit")
      encodeEntries checkName (put out entries.length 1) entries (depth + 1) remaining
    | .map entries => do
      refuseIf (entries.length > 256) (.length "map entry limit")
      encodeEntries (checkKeyAs "invalid map key") (put out entries.length 2) entries (depth + 1) remaining
    | .array items => do
      refuseIf (items.length > 256) (.length "array length limit")
      encodeItems (put out items.length 2) items (depth + 1) remaining
  refuseIf (Output.size out > limit) (.length "attribute image too large")
  pure (out, remaining)

/-- The loop over the entries of a structure or a map. -/
def encodeEntries (check : Bytes → Except Failure Unit) (out : α) (entries : List (Bytes × AttributeValue))
    (depth remaining : Nat) : Except Failure (α × Nat) :=
  match entries with
  | [] => pure (out, remaining)
  | (name, child) :: rest => do
    check name
    let (out, remaining) ← encodeValue (Output.append (put out name.length 1) name) child depth remaining
    encodeEntries check out rest depth remaining

def encodeItems (out : α) (items : List AttributeValue) (depth remaining : Nat) : Except Failure (α × Nat) :=
  match items with
  | [] => pure (out, remaining)
  | child :: rest => do
    let (out, remaining) ← encodeValue out child depth remaining
    encodeItems out rest depth remaining

end

/-- A name preceded by its length in one byte. -/
def readName (truncated : String) (input : Bytes) : Except Failure (Bytes × Bytes) := do
  let (n, input) ← get input 1
  refuseIf (n > input.length) (.invalid truncated)
  let name := input.take n
  checkName name
  pure (name, input.drop n)

/-- A key preceded by its length in one byte; `bounds` is thrown for the length
and `text` for the contents. -/
def readKey (bounds text : String) (input : Bytes) : Except Failure (Bytes × Bytes) := do
  let (n, input) ← get input 1
  refuseIf (n = 0 ∨ n > 127 ∨ n > input.length) (.invalid bounds)
  let key := input.take n
  checkKeyAs text key
  pure (key, input.drop n)

/-- The loop that reads `count` entries into a map. -/
def decodeEntries (readKey : Bytes → Except Failure (Bytes × Bytes)) (duplicate : String)
    (decodeChild : Bytes → Nat → Except Failure (AttributeValue × Bytes × Nat)) :
    Nat → AttributeStruct → Bytes → Nat → Except Failure (AttributeStruct × Bytes × Nat)
  | 0, out, input, remaining => pure (out, input, remaining)
  | count + 1, out, input, remaining => do
    let (key, input) ← readKey input
    let (child, input, remaining) ← decodeChild input remaining
    refuseIf ((Entries.find key out).isSome = true) (.invalid duplicate)
    decodeEntries readKey duplicate decodeChild count (Entries.insert key child out) input remaining

/-- The loop that reads `count` values into a vector. -/
def decodeItems (decodeChild : Bytes → Nat → Except Failure (AttributeValue × Bytes × Nat)) :
    Nat → List AttributeValue → Bytes → Nat → Except Failure (List AttributeValue × Bytes × Nat)
  | 0, out, input, remaining => pure (out, input, remaining)
  | count + 1, out, input, remaining => do
    let (child, input, remaining) ← decodeChild input remaining
    decodeItems decodeChild count (out ++ [child]) input remaining

/-- What `decode_value` reads after the tag, children with `decodeChild`. -/
def decodeBody (decodeChild : Bytes → Nat → Except Failure (AttributeValue × Bytes × Nat)) (tag : Nat) (input : Bytes)
    (remaining : Nat) : Except Failure (AttributeValue × Bytes × Nat) :=
  match tag with
  | 0 => do
    let (n, input) ← get input 8
    pure (.integer (UInt64.ofNat n).toInt64, input, remaining)
  | 1 => do
    let (n, input) ← get input 8
    refuseIf (isFinite (UInt64.ofNat n) = false) (.invalid "non-finite attribute")
    pure (.number (UInt64.ofNat n), input, remaining)
  | 2 => do
    let (b, input) ← get input 1
    refuseIf (b > 1) (.invalid "invalid boolean")
    pure (.boolean (b == 1), input, remaining)
  | 3 => do
    let (length, input) ← get input 4
    refuseIf (length > 65536 ∨ length > input.length) (.invalid "invalid property string")
    pure (.text (input.take length), input.drop length, remaining)
  | 4 => do
    let (count, input) ← get input 1
    refuseIf (count = 0 ∨ count > 64) (.invalid "invalid struct field count")
    let (entries, input, remaining) ← decodeEntries (readName "truncated struct field") "duplicate struct field"
      decodeChild count [] input remaining
    pure (.fields entries, input, remaining)
  | 5 => do
    let (count, input) ← get input 2
    refuseIf (count > 256) (.invalid "invalid array length")
    let (items, input, remaining) ← decodeItems decodeChild count [] input remaining
    pure (.array items, input, remaining)
  | 6 => do
    let (count, input) ← get input 2
    refuseIf (count > 256) (.invalid "invalid map length")
    let (entries, input, remaining) ← decodeEntries (readKey "invalid map key" "invalid map key") "duplicate map key"
      decodeChild count [] input remaining
    pure (.map entries, input, remaining)
  | _ => throw (.invalid "invalid property type")

/-- `decode_value` with `levels = 9 - depth` levels left, on which it recurses. -/
def decodeLevels : Nat → Bytes → Nat → Except Failure (AttributeValue × Bytes × Nat)
  | 0, _, _ => throw (.length "attribute value depth/node limit")
  | levels + 1, input, remaining => do
    refuseIf (remaining = 0) (.length "attribute value depth/node limit")
    let (tag, input) ← get input 1
    decodeBody (decodeLevels levels) tag input (remaining - 1)

def decodeValue (depth remaining : Nat) : Except Failure (AttributeValue × Bytes × Nat) :=
  decodeLevels (9 - depth) input remaining

/-! ## Updates -/

/-- The loop of `encode_image` over the properties. -/
def encodeProperties (out : α) (values : AttributeStruct) (remaining : Nat) : Except Failure (α × Nat) :=
  match values with
  | [] => pure (out, remaining)
  | (name, value) :: rest => do
    checkName name
    let (out, remaining) ← encodeValue (Output.append (put out name.length 1) name) value 0 remaining
    refuseIf (Output.size out > limit) (.length "attribute image too large")
    encodeProperties out rest remaining

def encodeImage (base revision : UInt64) (snapshot : Bool)
    (remaining : Nat) : Except Failure (α × Nat) := do
  refuseIf (values.length > 256 ∨ base > revision ∨ (snapshot = true ∧ base ≠ 0))
    (.invalid "invalid attribute revision or count")
  let out := put (Output.append out (ascii "FSA1")) snapshot.toNat 1
  let out := put (put out base.toNat 8) revision.toNat 8
  encodeProperties (put out values.length 2) values remaining

def fieldPaths : Bool :=
  update.patches.any fun patch => patch.replace || !patch.path.isEmpty

/-- The path of a patch, one component after another. -/
def encodePath (out : α) : List PathPart → Except Failure α
  | [] => pure out
  | .key key :: rest => do
    checkKey key
    encodePath (Output.append (put (put out 1 1) key.length 1) key) rest
  | .index index :: rest => do
    refuseIf (index ≥ 256) (.invalid "invalid patch path index")
    encodePath (put (put out 0 1) index 2) rest

/-- The path with its length, in a record that has paths. -/
def encodePaths (path : List PathPart) : Except Failure α :=
  if paths then encodePath (put out path.length 1) path else pure out

/-- The kind byte of a patch. -/
def patchKind : Nat := if patch.replace then 2 else if patch.map then 1 else 0

/-- What a patch carries after its kind. -/
def encodeEdit : Except Failure (α × Nat) :=
  if patch.replace then do
    refuseIf (patch.map = true ∨ patch.value.isNone = true ∨ patch.key ≠ [] ∨ patch.insert.isEmpty = false ∨
      patch.index ≠ 0 ∨ patch.remove ≠ 0) (.invalid "invalid field replacement")
    match patch.value with
    | some value => encodeValue out value patch.path.length remaining
    | none => pure (out, remaining)
  else if patch.map then do
    checkKey patch.key
    refuseIf (patch.insert.isEmpty = false ∨ patch.index ≠ 0 ∨ patch.remove ≠ 0) (.invalid "invalid map patch")
    let out := put (Output.append (put out patch.key.length 1) patch.key) patch.value.isSome.toNat 1
    match patch.value with
    | some value => encodeValue out value (patch.path.length + 1) remaining
    | none => pure (out, remaining)
  else do
    refuseIf (patch.index > 256 ∨ patch.remove > 256 ∨ patch.insert.length > 256 ∨ patch.key ≠ [] ∨
      patch.value.isSome = true) (.invalid "invalid sequence patch")
    let out := put (put (put out patch.index 2) patch.remove 2) patch.insert.length 2
    encodeItems out patch.insert (patch.path.length + 1) remaining

def encodePatch : Except Failure (α × Nat) := do
  checkName patch.property
  let out := Output.append (put out patch.property.length 1) patch.property
  refuseIf (patch.path.length > 8) (.length "patch path depth limit")
  let out ← encodePaths out paths patch.path
  let (out, remaining) ← encodeEdit (put out (patchKind patch) 1) patch remaining
  refuseIf (Output.size out > limit) (.length "attribute image too large")
  pure (out, remaining)

/-- The loop over the patches of an update. -/
def encodePatches (out : α) (values : AttributeStruct) (paths : Bool) (patches : List AttributePatch)
    (remaining : Nat) : Except Failure (α × Nat) :=
  match patches with
  | [] => pure (out, remaining)
  | patch :: rest => do
    refuseIf ((Entries.find patch.property values).isSome = true) (.invalid "replacement and patch overlap")
    let (out, remaining) ← encodePatch out patch paths remaining
    encodePatches out values paths rest remaining

def encodeUpdate : Except Failure α := do
  let (out, remaining) ← encodeImage out update.values update.base update.revision update.snapshot 4096
  if update.patches.isEmpty then pure out
  else do
    refuseIf (update.snapshot = true ∨ update.patches.length > 256) (.invalid "invalid container patches")
    let (out, _) ← encodePatches (put out update.patches.length 2) update.values (fieldPaths update)
      update.patches remaining
    pure out

def encodeAttributes : Except Failure Bytes := do
  let out ← encodeUpdate ([] : Bytes) update
  if update.patches.isEmpty then pure out
  else pure (out.set 3 (if fieldPaths update then 0x33 else 0x32))

def attributeWireSize : Except Failure Nat := do
  let out ← encodeUpdate (SizeOnly.mk 0) update
  pure out.bytes

/-- `attribute_wire_size` of a whole image. -/
def imageWireSize : Except Failure Nat := do
  let (out, _) ← encodeImage (SizeOnly.mk 0) values 0 0 true 4096
  pure out.bytes

/-! ## Reading updates -/

/-- The loop that reads the components of a path. -/
def decodePath : Nat → List PathPart → Bytes → Except Failure (List PathPart × Bytes)
  | 0, path, input => pure (path, input)
  | depth + 1, path, input => do
    let (tag, input) ← get input 1
    match tag with
    | 0 =>
      let (index, input) ← get input 2
      refuseIf (index ≥ 256) (.invalid "invalid patch path index")
      decodePath depth (path ++ [.index index]) input
    | 1 =>
      let (key, input) ← readKey "invalid path key" "invalid patch key" input
      decodePath depth (path ++ [.key key]) input
    | _ => throw (.invalid "invalid path component")

/-- The path with its length, in a record that has paths. -/
def decodePaths : Except Failure (List PathPart × Bytes) :=
  if paths then do
    let (depth, input) ← get input 1
    refuseIf (depth > 8) (.length "patch path depth limit")
    decodePath depth [] input
  else pure ([], input)

/-- What a patch of the given kind carries. -/
def decodeEdit (property : Bytes) (path : List PathPart) (kind : Nat) (input : Bytes) (remaining : Nat) :
    Except Failure (AttributePatch × Bytes × Nat) :=
  match kind with
  | 2 => do
    let (value, input, remaining) ← decodeValue input path.length remaining
    pure ({ property, path, replace := true, value := some value }, input, remaining)
  | 1 => do
    let (key, input) ← readKey "invalid patch key" "invalid patch key" input
    let (present, input) ← get input 1
    refuseIf (present > 1) (.invalid "invalid patch presence")
    if present = 1 then do
      let (value, input, remaining) ← decodeValue input (path.length + 1) remaining
      pure ({ property, path, map := true, key, value := some value }, input, remaining)
    else pure ({ property, path, map := true, key }, input, remaining)
  | _ => do
    let (index, input) ← get input 2
    let (remove, input) ← get input 2
    let (n, input) ← get input 2
    refuseIf (index > 256 ∨ remove > 256 ∨ n > 256) (.invalid "invalid splice bounds")
    let (insert, input, remaining) ← decodeItems (fun input remaining => decodeValue input (path.length + 1) remaining)
      n [] input remaining
    pure ({ property, path, index, remove, insert }, input, remaining)

def decodePatch :
    Except Failure (AttributePatch × Bytes × Nat) := do
  let (property, input) ← readName "truncated patch property" input
  refuseIf ((Entries.find property values).isSome = true) (.invalid "replacement and patch overlap")
  let (path, input) ← decodePaths paths input
  let (kind, input) ← get input 1
  refuseIf (kind > if paths then 2 else 1) (.invalid "invalid patch kind")
  decodeEdit property path kind input remaining

def decodePatches (values : AttributeStruct) (paths : Bool) :
    Nat → List AttributePatch → Bytes → Nat → Except Failure (List AttributePatch × Bytes × Nat)
  | 0, patches, input, remaining => pure (patches, input, remaining)
  | count + 1, patches, input, remaining => do
    let (patch, input, remaining) ← decodePatch values paths input remaining
    decodePatches values paths count (patches ++ [patch]) input remaining

/-- The patches of a record that has them. -/
def decodeEdits (patched paths snapshot : Bool) (values : AttributeStruct) (input : Bytes) (remaining : Nat) :
    Except Failure (List AttributePatch × Bytes) :=
  if patched then do
    refuseIf (snapshot = true) (.invalid "patch snapshot forbidden")
    let (count, input) ← get input 2
    refuseIf (count = 0 ∨ count > 256) (.invalid "invalid patch count")
    let (patches, input, _) ← decodePatches values paths count [] input remaining
    pure (patches, input)
  else pure ([], input)

def decodeAttributes : Except Failure AttributeUpdate := do
  let paths := (ascii "FSA3").isPrefixOf input
  let patched := paths || (ascii "FSA2").isPrefixOf input
  refuseIf (input.length > limit ∨ (patched = false ∧ (ascii "FSA1").isPrefixOf input = false))
    (.invalid "invalid attribute record")
  let (flag, input) ← get (input.drop 4) 1
  refuseIf (flag > 1) (.invalid "invalid snapshot flag")
  let snapshot := flag == 1
  let (base, input) ← get input 8
  let (revision, input) ← get input 8
  let (count, input) ← get input 2
  refuseIf (count > 256 ∨ base > revision ∨ (snapshot = true ∧ base ≠ 0)) (.invalid "invalid attribute header")
  let (values, input, remaining) ← decodeEntries (readName "truncated attribute name") "duplicate property"
    (fun input remaining => decodeValue input 0 remaining) count [] input 4096
  let (patches, input) ← decodeEdits patched paths snapshot values input remaining
  refuseIf (input.isEmpty = false) (.invalid "trailing attribute bytes")
  pure { base := UInt64.ofNat base, revision := UInt64.ofNat revision, snapshot, values, patches }

/-! ## Overlays -/

/-- The fields of `current` overlaid by `delta`, in the order `validate_overlay`
visits them; `fuel` bounds the fields left on both sides. -/
def mergeFields : Nat → AttributeStruct → AttributeStruct → AttributeStruct
  | 0, _, _ => []
  | _ + 1, [], [] => []
  | fuel + 1, field :: old, [] => field :: mergeFields fuel old []
  | fuel + 1, [], field :: changed => field :: mergeFields fuel [] changed
  | fuel + 1, before :: old, field :: changed =>
    if before.1 < field.1 then before :: mergeFields fuel old (field :: changed)
    else if before.1 = field.1 then field :: mergeFields fuel old changed
    else field :: mergeFields fuel (before :: old) changed

/-- The checks of `validate_overlay` on each field, with its running counts. -/
def validateFields (out : SizeOnly) (nativeBytes count remaining : Nat) : AttributeStruct → Except Failure Nat
  | [] => pure (out.bytes + nativeBytes)
  | (name, value) :: rest => do
    refuseIf (count + 1 > 256) (.invalid "invalid attribute revision or count")
    checkName name
    let (out, remaining) ← encodeValue (Output.append (put out name.length 1) name) value 0 remaining
    validateFields out (nativeBytes + attributeEntryBytes name value) (count + 1) remaining rest

/-- Check the merged image and give its charge, wire and native. -/
def validateOverlay (current delta : AttributeStruct) : Except Failure Nat :=
  validateFields ⟨23⟩ 256 0 4096 (mergeFields (current.length + delta.length) current delta)

end Fsnet
