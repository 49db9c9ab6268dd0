import Fsnet.Attributes.Wire
import Fsnet.Entity.Identity
/-!
# Entity schemas

The definition of an entity type's attributes, the values a definition admits,
and the image of an entity's attributes as it is restored from storage and
split again into its persistent part.
-/

namespace Fsnet

open Lib

inductive AttributeType where
  | integer
  | number
  | boolean
  | string
  | struct
  | array
  | list
  | map
  | set
  deriving DecidableEq, Repr

/-- The alternative of `AttributeValue` the type asks for. -/
def AttributeType.expected : AttributeType → Nat
  | .integer => 0
  | .number => 1
  | .boolean => 2
  | .string => 3
  | .struct => 4
  | .array | .list | .set => 5
  | .map => 6

/-- `Access`, of servers or clients to an attribute. -/
inductive AttributeAccess where
  | none
  | read
  | write
  | readWrite
  deriving DecidableEq, Repr

def AttributeAccess.reads (access : AttributeAccess) : Bool := access = .read || access = .readWrite

def AttributeAccess.writes (access : AttributeAccess) : Bool := access = .write || access = .readWrite

inductive Visibility where
  | none
  | owner
  | observers
  deriving DecidableEq, Repr

/-- The definition of an attribute. -/
structure AttributeDefinition where
  type : AttributeType
  initial : AttributeValue
  server : AttributeAccess := .readWrite
  client : AttributeAccess := .read
  visibility : Visibility := .owner
  persist : Bool := true
  minimum : Int64 := Int64.minValue
  maximum : Int64 := Int64.maxValue
  fields : List (Bytes × AttributeDefinition) := []
  element : Option AttributeDefinition := none
  length : Nat := 0
  maxItems : Nat := 0

structure EntitySchema where
  attributes : OrdMap Bytes AttributeDefinition

/-! ## Valid values -/

/-- Two equal items, as the loop over a set looks for them. -/
def hasDuplicate : List AttributeValue → Bool
  | [] => false
  | v :: rest => rest.any (fun w => AttributeValue.same w v) || hasDuplicate rest

mutual

/-- `valid`: what is left of the node budget when the definition admits the value. -/
def validValue (d : AttributeDefinition) (v : AttributeValue) (depth remaining : Nat) : Option Nat :=
  if depth > 8 ∨ remaining = 0 ∨ v.index ≠ d.type.expected then none
  else
    match v with
    | .integer n => if d.minimum ≤ n ∧ n ≤ d.maximum then some (remaining - 1) else none
    | .number bits => if isFinite bits then some (remaining - 1) else none
    | .boolean _ => some (remaining - 1)
    | .text s => if s.length ≤ 65536 then some (remaining - 1) else none
    | .fields entries =>
      if entries.length ≠ d.fields.length then none else validFields d.fields entries (depth + 1) (remaining - 1)
    | .array items =>
      match d.element with
      | none => none
      | some element =>
        if (if d.type = .array then items.length ≠ d.length else items.length > d.maxItems) then none
        else if d.type = .set ∧ hasDuplicate items then none
        else validItems element items (depth + 1) (remaining - 1)
    | .map entries =>
      match d.element with
      | none => none
      | some element =>
        if entries.length > d.maxItems then none else validEntries element entries (depth + 1) (remaining - 1)

def validFields (fields : List (Bytes × AttributeDefinition)) (entries : List (Bytes × AttributeValue))
    (depth remaining : Nat) : Option Nat :=
  match entries with
  | [] => some remaining
  | (name, child) :: rest =>
    match Entries.find name fields with
    | none => none
    | some d => (validValue d child depth remaining).bind (validFields fields rest depth)

def validItems (element : AttributeDefinition) (items : List AttributeValue) (depth remaining : Nat) : Option Nat :=
  match items with
  | [] => some remaining
  | child :: rest => (validValue element child depth remaining).bind (validItems element rest depth)

def validEntries (element : AttributeDefinition) (entries : List (Bytes × AttributeValue)) (depth remaining : Nat) :
    Option Nat :=
  match entries with
  | [] => some remaining
  | (key, child) :: rest =>
    if validKey key = false then none
    else (validValue element child depth remaining).bind (validEntries element rest depth)

end

/-- `valid` with a budget of its own. -/
def AttributeDefinition.admits (d : AttributeDefinition) (v : AttributeValue) : Bool := (validValue d v 0 4096).isSome

/-! ## Attribute images -/

/-- `EntityAttributes`: the values of every attribute and the revision they have. -/
structure EntityAttributes where
  schema : EntitySchema
  values : AttributeStruct
  revision : UInt64

namespace EntityAttributes

def new (schema : EntitySchema) : EntityAttributes :=
  ⟨schema, schema.attributes.entries.map fun e => (e.1, e.2.initial), 0⟩

/-- The loop of `restore` and `restore_full`: every value of the image replaces the
current one, if `allowed` and valid for its definition. -/
def overwrite (allowed : AttributeDefinition → Bool) (text : String) (schema : EntitySchema) :
    AttributeStruct → AttributeStruct → Except Failure AttributeStruct
  | [], next => pure next
  | (name, value) :: rest, next =>
    match schema.attributes.find name with
    | none => throw .outOfRange
    | some d => do
      refuseIf (allowed d = false ∨ d.admits value = false) (.invalid text)
      overwrite allowed text schema rest (Entries.insert name value next)

def restoreFull (model : EntityAttributes) (values : AttributeStruct) (revision : UInt64) :
    Except Failure EntityAttributes := do
  let next ← overwrite (fun _ => true) "invalid attribute image" model.schema values model.values
  pure { model with values := next, revision }

def restore (model : EntityAttributes) (values : AttributeStruct) (revision : UInt64) :
    Except Failure EntityAttributes := do
  let next ← overwrite AttributeDefinition.persist "invalid persistent attribute" model.schema values model.values
  pure { model with values := next, revision }

/-- The values of the attributes `keep` selects, in the schema's order. -/
def select (model : EntityAttributes) (keep : AttributeDefinition → Bool) : AttributeStruct :=
  model.schema.attributes.entries.filterMap fun e =>
    if keep e.2 then (Entries.find e.1 model.values).map fun v => (e.1, v) else none

def persistent (model : EntityAttributes) : AttributeStruct := model.select AttributeDefinition.persist

end EntityAttributes

end Fsnet
