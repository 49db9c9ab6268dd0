import Fsnet.Attributes.Wire
/-!
# Deltas between images

`attribute_delta` compares two full images and picks the smallest of three
records: whole changed properties, edits of top-level containers, or edits at
paths below the properties. `diff_fields` makes the same choice at every
subtree by the encoded cost of its patches.
-/

namespace Fsnet

open Lib AttributeValue

/-- `map::at`. -/
def lookup (key : Bytes) (entries : AttributeStruct) : Except Failure AttributeValue :=
  match Entries.find key entries with
  | some value => pure value
  | none => throw .outOfRange

def contains (entries : AttributeStruct) (key : Bytes) : Bool := (Entries.find key entries).isSome

/-! ## Container edits -/

/-- How many leading items of two vectors are equal. -/
def commonLead : List AttributeValue → List AttributeValue → Nat
  | before :: rest, after :: rest' => if same before after then commonLead rest rest' + 1 else 0
  | _, _ => 0

/-- How many trailing items past the first `lead` are equal. -/
def commonTail (before after : List AttributeValue) (lead : Nat) : Nat :=
  commonLead (before.drop lead).reverse (after.drop lead).reverse

variable (property : Bytes) (path : List PathPart) (previous next : AttributeUpdate)

/-- The splice that keeps the common ends of two vectors. -/
def splicePatch (before after : List AttributeValue) : AttributePatch :=
  let lead := commonLead before after
  let tail := commonTail before after lead
  { property, path, index := lead, remove := before.length - lead - tail,
    insert := (after.drop lead).take (after.length - lead - tail) }

/-- The patches that erase the keys of `before` missing from `after`. -/
def erasePatches (before after : AttributeStruct) : List AttributePatch :=
  (before.filter fun e => !contains after e.1).map fun e => { property, path, map := true, key := e.1 }

/-- The patch that puts a value under a key. -/
def assignPatch (key : Bytes) (value : AttributeValue) : AttributePatch :=
  { property, path, map := true, key, value := some value }

/-- Absent from the map, or there with another value. -/
def changed (entries : AttributeStruct) (key : Bytes) (value : AttributeValue) : Bool :=
  match Entries.find key entries with
  | some old => !same old value
  | none => true

/-- The edits of one property when it is a vector or a map on both sides. -/
def containerEdits (name : Bytes) (old : Option AttributeValue) (value : AttributeValue) :
    Option (List AttributePatch) :=
  match old, value with
  | some (.array before), .array after => some [splicePatch name [] before after]
  | some (.map before), .map after =>
    some (erasePatches name [] before after ++
      (after.filter fun e => changed before e.1 e.2).map fun e => assignPatch name [] e.1 e.2)
  | _, _ => none

/-- Does the `catch(const std::length_error&)` of the source catch it? -/
def Failure.isLength : Failure → Bool
  | .length _ => true
  | .replicaBudget => true
  | _ => false

/-- `try { if(size) return candidate; } catch(const std::length_error&) {} return best;` -/
def preferSmaller (smaller : Except Failure Bool) (candidate best : AttributeUpdate) : Except Failure AttributeUpdate :=
  match smaller with
  | .ok true => pure candidate
  | .ok false => pure best
  | .error e => if e.isLength then pure best else throw e

/-- The changed properties, whole. -/
def fullDelta : AttributeUpdate :=
  { base := previous.revision, revision := next.revision, snapshot := false,
    values := next.values.filter fun e => changed previous.values e.1 e.2 }

/-- The changed properties, containers as edits. -/
def sparseDelta : AttributeUpdate :=
  let full := fullDelta previous next
  let edits := fun e : Bytes × AttributeValue => containerEdits e.1 (Entries.find e.1 previous.values) e.2
  { full with
    values := full.values.filter fun e => (edits e).isNone
    patches := full.values.flatMap fun e => (edits e).getD [] }

def containerDelta : Except Failure AttributeUpdate := do
  refuseIf (previous.snapshot = false ∨ next.snapshot = false ∨ previous.patches.isEmpty = false ∨
    next.patches.isEmpty = false) (.invalid "delta requires full images")
  if previous.values.any (fun e => !contains next.values e.1) then pure next
  else if next.revision < previous.revision then pure next
  else
    let full := fullDelta previous next
    let sparse := sparseDelta previous next
    if sparse.patches.isEmpty ∨ sparse.patches.length > 256 then pure full
    else do
      let fullSize ← attributeWireSize full
      preferSmaller ((attributeWireSize sparse).map fun n => decide (n < fullSize)) sparse full

/-! ## Field edits -/

def patchCost (patch : AttributePatch) : Except Failure Nat := do
  let (out, _) ← encodePatch (SizeOnly.mk 0) patch true 4096
  pure out.bytes

def totalCost : List AttributePatch → Except Failure Nat
  | [] => pure 0
  | edit :: rest => do
    let cost ← patchCost edit
    let more ← totalCost rest
    pure (cost + more)

/-- `edits.empty() || edits.size()>256 || patch_cost(whole)<=cost`, after the
cost of the edits was added up: the one patch `whole` or the edits. -/
def cheaper (whole : AttributePatch) (edits : List AttributePatch) : Except Failure (List AttributePatch) := do
  let cost ← totalCost edits
  if edits.isEmpty ∨ edits.length > 256 then pure [whole]
  else do
    let single ← patchCost whole
    pure (if single ≤ cost then [whole] else edits)

/-- The difference of two subtrees at a path. -/
abbrev Differ := List PathPart → AttributeValue → AttributeValue → Except Failure (List AttributePatch)

/-- The loop over the fields of two structures with the same keys. -/
def fieldEdits (diff : Differ) (path : List PathPart) (old : AttributeStruct) :
    AttributeStruct → List AttributePatch → Except Failure (List AttributePatch)
  | [], edits => pure edits
  | (key, child) :: rest, edits => do
    let before ← lookup key old
    let children ← diff (path ++ [.key key]) before child
    let edits := edits ++ children
    if edits.length > 256 then pure edits else fieldEdits diff path old rest edits

/-- The loop over the entries of the new map. -/
def entryEdits (diff : Differ) (property : Bytes) (path : List PathPart) (old : AttributeStruct) :
    AttributeStruct → List AttributePatch → Except Failure (List AttributePatch)
  | [], edits => pure edits
  | (key, child) :: rest, edits =>
    if edits.length > 256 then pure edits
    else match Entries.find key old with
      | some before => do
        let children ← diff (path ++ [.key key]) before child
        entryEdits diff property path old rest (edits ++ children)
      | none => entryEdits diff property path old rest (edits ++ [assignPatch property path key child])

/-- The loop over the items that differ, from index `i`. -/
def itemEdits (diff : Differ) (path : List PathPart) :
    Nat → List AttributeValue → List AttributeValue → List AttributePatch → Except Failure (List AttributePatch)
  | i, before :: old, after :: value, edits => do
    let children ← diff (path ++ [.index i]) before after
    let edits := edits ++ children
    if edits.length > 256 then pure edits else itemEdits diff path (i + 1) old value edits
  | _, _, _, edits => pure edits

/-- The edits item by item, for two vectors of the same length. -/
def middleEdits (diff : Differ) (path : List PathPart) (old value : List AttributeValue) :
    Except Failure (List AttributePatch) :=
  let lead := commonLead old value
  let count := value.length - lead - commonTail old value lead
  if old.length = value.length
  then itemEdits diff path lead ((old.drop lead).take count) ((value.drop lead).take count) [] else pure []

/-- The edits inside two containers of the same kind; none otherwise. -/
def innerEdits (diff : Differ) (property : Bytes) (path : List PathPart) (before after : AttributeValue) :
    Except Failure (List AttributePatch) :=
  match before, after with
  | .fields old, .fields value =>
    if old.length = value.length ∧ old.all (fun e => contains value e.1) then fieldEdits diff path old value []
    else pure []
  | .map old, .map value => entryEdits diff property path old value (erasePatches property path old value)
  | .array old, .array value => do
    let edits ← middleEdits diff path old value
    cheaper (splicePatch property path old value) edits
  | _, _ => pure []

/-- One call of `diff_fields`, given the edits inside. -/
def diffStep (inner : Except Failure (List AttributePatch)) (property : Bytes) (path : List PathPart)
    (before after : AttributeValue) : Except Failure (List AttributePatch) :=
  if same before after then pure []
  else do
    let edits ← inner
    cheaper { property, path, replace := true, value := some after } edits

/-- `diff_fields` with `levels = 8 - path.size()` levels left, on which it recurses. -/
def diffLevels : Nat → Bytes → Differ
  | 0, property, path, before, after => diffStep (pure []) property path before after
  | levels + 1, property, path, before, after =>
    diffStep (innerEdits (diffLevels levels property) property path before after) property path before after

def diffFields (before after : AttributeValue) :
    Except Failure (List AttributePatch) :=
  diffLevels (8 - path.length) property path before after

/-! ## The delta -/

/-- A replacement of the whole property. -/
def isRootReplacement : List AttributePatch → Bool
  | [edit] => edit.replace && edit.path.isEmpty
  | _ => false

/-- A property that goes into the record whole. -/
def AttributeUpdate.withValue (update : AttributeUpdate) (name : Bytes) (value : AttributeValue) : AttributeUpdate :=
  { update with values := Entries.insert name value update.values }

/-- The loop of `attribute_delta` over the new properties; `none` when the
patches became too many. -/
def fieldsLoop (previous : AttributeStruct) :
    AttributeStruct → AttributeUpdate → Except Failure (Option AttributeUpdate)
  | [], delta => pure (some delta)
  | (name, value) :: rest, delta =>
    match Entries.find name previous with
    | none => fieldsLoop previous rest (delta.withValue name value)
    | some old =>
      if same old value then fieldsLoop previous rest delta
      else do
        let edits ← diffFields name [] old value
        let delta := if isRootReplacement edits then delta.withValue name value
          else { delta with patches := delta.patches ++ edits }
        if delta.patches.length > 256 then pure none else fieldsLoop previous rest delta

/-- The record with field paths when it is smaller. -/
def preferFields (found : Option AttributeUpdate) (best : AttributeUpdate) : Except Failure AttributeUpdate :=
  match found with
  | none => pure best
  | some delta =>
    if delta.patches.isEmpty then pure best
    else preferSmaller (do
      let size ← attributeWireSize delta
      let bestSize ← attributeWireSize best
      pure (decide (size < bestSize))) delta best

def attributeDelta : Except Failure AttributeUpdate := do
  let best ← containerDelta previous next
  if best.snapshot then pure best
  else do
    let found ← fieldsLoop previous.values next.values
      { base := previous.revision, revision := next.revision, snapshot := false, values := [] }
    preferFields found best

end Fsnet
