import Fsnet.Attributes.Delta
/-!
# The client-side replica

`AttributeReplica::apply`: an update is checked as the encoder would check it,
its patches are run one after another on copies of the properties they touch,
and the result is laid over the held image. Nothing is stored before every
check has passed.
-/

namespace Fsnet

open Lib AttributeValue

/-- The image a client holds; `image` is empty until the first snapshot. -/
structure AttributeReplica where
  image : Option AttributeUpdate := none
  revision : UInt64 := 0
  initialized : Bool := false
  bytes : Nat := 0

namespace AttributeReplica

def values (replica : AttributeReplica) : AttributeStruct :=
  match replica.image with
  | some image => image.values
  | none => []

end AttributeReplica

/-! ## Patches -/

/-- `std::get<AttributeMap>`. -/
def mapOf : AttributeValue → Except Failure AttributeStruct
  | .map entries => pure entries
  | _ => throw .badVariant

/-- `std::get<AttributeArray>`. -/
def arrayOf : AttributeValue → Except Failure (List AttributeValue)
  | .array items => pure items
  | _ => throw .badVariant

/-- What a patch does to the value its path leads to. -/
def editTarget (patch : AttributePatch) (target : AttributeValue) : Except Failure AttributeValue :=
  if patch.replace then
    match patch.value with
    | some value => pure value
    | none => throw .badVariant
  else if patch.map then do
    let entries ← mapOf target
    match patch.value with
    | some value => do
      let entries := Entries.insert patch.key value entries
      refuseIf (entries.length > 256) (.length "map patch size limit")
      pure (.map entries)
    | none => do
      refuseIf (contains entries patch.key = false) (.invalid "missing map patch key")
      let entries := Entries.erase patch.key entries
      refuseIf (entries.length > 256) (.length "map patch size limit")
      pure (.map entries)
  else do
    let items ← arrayOf target
    refuseIf (patch.index > items.length ∨ patch.remove > items.length - patch.index ∨
      items.length - patch.remove + patch.insert.length > 256) (.invalid "splice outside sequence")
    pure (.array (items.take patch.index ++ patch.insert ++ items.drop (patch.index + patch.remove)))

/-- `vector::at`. -/
def itemAt (items : List AttributeValue) (i : Nat) : Except Failure AttributeValue :=
  match items[i]? with
  | some item => pure item
  | none => throw .outOfRange

/-- Follow a path and edit the value it leads to. -/
def patchTarget (edit : AttributeValue → Except Failure AttributeValue) :
    List PathPart → AttributeValue → Except Failure AttributeValue
  | [], target => edit target
  | .key key :: path, .fields entries => do
    let child ← lookup key entries
    let child ← patchTarget edit path child
    pure (.fields (Entries.insert key child entries))
  | .key key :: path, target => do
    let entries ← mapOf target
    let child ← lookup key entries
    let child ← patchTarget edit path child
    pure (.map (Entries.insert key child entries))
  | .index i :: path, target => do
    let items ← arrayOf target
    let child ← itemAt items i
    let child ← patchTarget edit path child
    pure (.array (items.set i child))

def applyPatch (patch : AttributePatch) (target : AttributeValue) : Except Failure AttributeValue :=
  patchTarget (editTarget patch) patch.path target

/-- The property a patch starts from: the one already edited, else the held one. -/
def patchSource (held materialized : AttributeStruct) (property : Bytes) : Except Failure AttributeValue :=
  match Entries.find property materialized with
  | some value => pure value
  | none => lookup property held

/-- The loop over the patches of an update. -/
def materialize (held : AttributeStruct) : List AttributePatch → AttributeStruct → Except Failure AttributeStruct
  | [], materialized => pure materialized
  | patch :: rest, materialized => do
    let source ← patchSource held materialized patch.property
    let value ← applyPatch patch source
    materialize held rest (Entries.insert patch.property value materialized)

/-! ## Applying an update -/

namespace AttributeReplica

variable (replica : AttributeReplica) (update : AttributeUpdate)

/-- Validation and the checks against the held revision; `false` means a gap or
a stale update, which changes nothing. -/
def admits : Except Failure Bool := do
  let _ ← attributeWireSize update
  if update.snapshot = false ∧ (replica.initialized = false ∨ update.base ≠ replica.revision) then pure false
  else if replica.initialized = true ∧ update.revision < replica.revision then pure false
  else pure true

/-- The charge of the image the update leads to. -/
def charge : Except Failure Nat :=
  if update.snapshot then do
    let size ← attributeWireSize update
    pure (size + attributeImageBytes update.values)
  else validateOverlay replica.values update.values

/-- Values laid over an image, one property after another. -/
def overlay (held changed : AttributeStruct) : AttributeStruct :=
  changed.foldl (fun image e => Entries.insert e.1 e.2 image) held

/-- Store an update without patches. -/
def store (maxImageBytes : Nat) :
    Except Failure AttributeReplica := do
  let count ← replica.charge update
  refuseIf (count > maxImageBytes) .replicaBudget
  let values := if update.snapshot then update.values else overlay replica.values update.values
  pure { image := some { base := 0, revision := update.revision, snapshot := true, values }
         revision := update.revision, initialized := true, bytes := count }

def applyWithin (maxImageBytes : Nat) :
    Except Failure (Bool × AttributeReplica) := do
  let admitted ← replica.admits update
  if admitted = false then pure (false, replica)
  else if update.patches.isEmpty then do
    let next ← replica.store update maxImageBytes
    pure (true, next)
  else do
    let values ← materialize replica.values update.patches update.values
    let materialized : AttributeUpdate :=
      { base := update.base, revision := update.revision, snapshot := false, values }
    let admitted ← replica.admits materialized
    if admitted = false then pure (false, replica)
    else do
      let next ← replica.store materialized maxImageBytes
      pure (true, next)

/-- `std::numeric_limits<std::size_t>::max()`. -/
def maxSize : Nat := 2 ^ 64 - 1

def apply : Except Failure (Bool × AttributeReplica) :=
  replica.applyWithin update maxSize

end AttributeReplica

end Fsnet
