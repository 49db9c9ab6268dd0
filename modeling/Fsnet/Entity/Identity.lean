import Fsnet.Lib.Bytes
/-!
# Callers, connections and entity identities

The result of a request, the shape of entity ids and routes, the logical
connection a client is known by, and the policy a method is guarded with. The
liveness callbacks of a caller are outside this model: every check takes their
answer as an argument.
-/

namespace Fsnet

open Lib

inductive Status where
  | ok
  | notFound
  | overloaded
  | timeout
  | disconnected
  | rejected
  | internal
  deriving DecidableEq, Repr

/-- The value of the enumeration, one byte on the wire. -/
def Status.code : Status → Nat
  | .ok => 0
  | .notFound => 1
  | .overloaded => 2
  | .timeout => 3
  | .disconnected => 4
  | .rejected => 5
  | .internal => 6

structure Result where
  status : Status
  data : Bytes
  deriving DecidableEq, Repr

/-! ## Entity identities and routes -/

def isHex (b : UInt8) : Bool := isDigit b || (97 ≤ b && b ≤ 102)

/-- `valid_entity_id`: sixteen lowercase hexadecimal digits, not all zero. -/
def validEntityId (text : Bytes) : Bool :=
  text.length = 16 && text ≠ List.replicate 16 48 && text.all isHex

/-- A part of a route: neither empty nor long, without a dot or a zero byte. -/
def validRoutePart (part : Bytes) : Bool :=
  !part.isEmpty && part.length ≤ 127 && !part.contains 0x2e && !part.contains 0

/-- `valid_entity_method`: a route part that is no framework method. -/
def validEntityMethod (method : Bytes) : Bool := validRoutePart method && method.head? ≠ some 0x24

/-- The route of a method. Types hold no dot, so the source's string `type.method`
splits in one way only. -/
structure Route where
  type : Bytes
  method : Bytes
  deriving DecidableEq, Repr

/-- The string `type.method`. -/
def Route.text (route : Route) : Bytes := route.type ++ 0x2e :: route.method

/-- The length of the string `type.method`. -/
def Route.size (route : Route) : Nat := route.type.length + 1 + route.method.length

/-- The type and id an entity's mailbox is keyed by. -/
structure EntityKey where
  type : Bytes
  id : Bytes
  deriving DecidableEq, Repr

/-! ## Nodes -/

def validEntityNode (node : Bytes) : Bool :=
  !node.isEmpty && node.length ≤ 127 && !node.contains 0x2f && !node.contains 0

/-- `entity_node_matches`: the owner is the node itself or an incarnation `node/...` of it. -/
def entityNodeMatches (owner node : Bytes) : Bool :=
  owner = node || (node.length < owner.length && node.isPrefixOf owner && owner[node.length]? = some 0x2f)

/-- The id of a host process: not empty, at most 256 bytes. Hosts are told apart by it. -/
structure HostId where
  owner : Bytes
  nonempty : owner ≠ []
  short : owner.length ≤ 256
  deriving DecidableEq

/-! ## Connections -/

/-- `std::from_chars` on a whole string: decimal digits that fit 64 bits. -/
def fromChars (text : Bytes) : Option UInt64 :=
  if text ≠ [] ∧ text.all isDigit ∧ ofDecimal text < 2 ^ 64 then some (UInt64.ofNat (ofDecimal text)) else none

def connectionTag : Bytes := ascii "connection/"

def validConnectionKey (key : Bytes) : Bool :=
  connectionTag.isPrefixOf key && 45 ≤ key.length && key.length ≤ 64 &&
    (let rest := key.drop 11
     (rest.take 32).all isHex && rest[32]? = some 0x2f &&
      (let number := rest.drop 33
       !number.isEmpty && number.head? ≠ some 48 && (fromChars number).any (· ≠ 0)))

/-- A client session as transports know it. -/
structure ConnectionRef where
  id : Bytes
  generation : UInt64
  deriving DecidableEq, Repr

namespace ConnectionRef

def none : ConnectionRef := ⟨[], 0⟩

def valid (r : ConnectionRef) : Bool := r.id.length = 32 && r.generation ≠ 0 && r.id.all isHex

/-- `key()`; it throws on a connection that is not valid. -/
def key (r : ConnectionRef) : Option Bytes :=
  if r.valid then some (connectionTag ++ r.id ++ 0x2f :: decimal r.generation.toNat) else Option.none

def matchesKey (r : ConnectionRef) (key : Bytes) : Bool :=
  r.valid && validConnectionKey key && (key.drop 11).take 32 = r.id &&
    fromChars (key.drop 44) = some r.generation

end ConnectionRef

/-! ## Policies -/

inductive Caller where
  | client
  | server
  deriving DecidableEq, Repr

structure CallIdentity where
  caller : Caller
  subject : Bytes
  peer : UInt64 := 0
  connection : ConnectionRef := .none
  deriving DecidableEq, Repr

/-- A caller inside the framework. -/
def framework (subject : String) : CallIdentity := ⟨.server, ascii subject, 0, .none⟩

/-- `owns`: `live` is the answer of the caller's liveness callbacks. -/
def CallIdentity.owns (identity : CallIdentity) (live : Bool) (owner : Bytes) : Bool :=
  live && identity.connection.matchesKey owner

structure RpcPolicy where
  client : Bool
  server : Bool
  ownerOnly : Bool
  deriving DecidableEq, Repr

/-- The role the policy asks for. -/
def RpcPolicy.admitsRole (policy : RpcPolicy) (caller : Caller) : Bool :=
  match caller with
  | .server => policy.server
  | .client => policy.client

def RpcPolicy.allows (policy : RpcPolicy) (identity : CallIdentity) (live : Bool) (owner : Bytes) : Bool :=
  policy.admitsRole identity.caller && (if policy.ownerOnly then identity.owns live owner else live)

end Fsnet
