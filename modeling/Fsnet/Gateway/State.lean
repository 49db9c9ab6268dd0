import Fsnet.Gateway.Packet
/-!
# The state of a client gateway

`ClientGateway` stands between clients, on the front node, and the nodes that
own entities, on the back node. It admits requests of clients and answers them
with what owners reply, and keeps subscriptions alive while entities move from
owner to owner.

Sessions, requests, links and subscriptions are split in two. What is fixed when
the object is made is a record of its own, which callbacks hold as the source's
callbacks hold the shared pointer; the fields that change are kept by id. Ids
and peers are numbered upwards and never used again.

The node runs callbacks while other code of the gateway is still running: a
connection that is closed answers every call that waits on it, and a call may be
refused before it is sent. `stack` is the code still to run, innermost first.
-/

namespace Fsnet.ClientGateway

open Lib Function

structure Limits where
  clients : Nat := 256
  links : Nat := 1024
  subscriptions : Nat := 1024
  perClient : Nat := 32
  requests : Nat := 256
  bytes : Nat := 4 * 1024 * 1024
  requestTimeout : Nat := 3000
  refresh : Nat := 100
  migrationTimeout : Nat := 90000
  -- checked by the constructor
  timeoutPos : 0 < requestTimeout := by decide

/-! ## Objects -/

/-- A connection to an owner node, opened for one client. -/
structure Link where
  peer : Nat
  client : Nat
  index : Nat
  deriving DecidableEq, Repr

/-- Who waits for the reply to a request: a client, or the owner that asked over its link. -/
inductive Destination where
  | client (id : Nat)
  | owner (link : Link)
  deriving DecidableEq, Repr

structure Request where
  id : Nat
  client : Nat
  subject : Bytes
  connection : ConnectionRef
  data : Bytes
  reply : Destination
  deadline : Nat
  -- the type and the entity of a watch
  watches : Option (Bytes × Bytes) := none
  deriving DecidableEq, Repr

/-- The size a request is admitted with. -/
def Request.bytes (r : Request) : Nat := r.data.length

structure Subscription where
  id : Nat
  client : Nat
  type : Bytes
  entity : Bytes
  automatic : Bool := false
  owned : Bool := false
  deriving DecidableEq, Repr

/-- The subscription a watch makes right after it is admitted, and takes with it if it does not succeed. -/
def Request.subscription (r : Request) : Option Subscription :=
  r.watches.map fun key => ⟨r.id + 1, r.client, key.1, key.2, false, false⟩

structure Session where
  subject : Bytes
  connection : ConnectionRef
  links : OrdMap Nat Link := .empty
  controlled : Nat := 0

/-- What a lookup or the opening of a link is waited for. -/
inductive Purpose where
  | routed (r : Request) (entity : Bytes)
  | present (r : Request) (type entity : Bytes)
  | watch (r : Request) (s : Subscription)
  | refresh (s : Subscription)
  deriving DecidableEq, Repr

/-- The id a waiter is kept under. -/
def Purpose.waiter : Purpose → Nat
  | .routed r _ => r.id
  | .present r _ _ => r.id
  | .watch r _ => r.id
  | .refresh s => s.id

def Purpose.client : Purpose → Nat
  | .routed r _ => r.client
  | .present r _ _ => r.client
  | .watch r _ => r.client
  | .refresh s => s.client

/-- The type asked for; none for a call, which names an entity only. -/
def Purpose.type : Purpose → Bytes
  | .routed _ _ => []
  | .present _ type _ => type
  | .watch _ s => s.type
  | .refresh s => s.type

def Purpose.entity : Purpose → Bytes
  | .routed _ entity => entity
  | .present _ _ entity => entity
  | .watch _ s => s.entity
  | .refresh s => s.entity

structure LinkState where
  ready : Bool := false
  opening : Bool := false
  waiters : OrdMap Nat Purpose := .empty

/-- Where a waiter is still to be taken out when its request or subscription ends. -/
inductive Detach where
  | lookup (entity : Bytes)
  | link (peer : Nat)
  deriving DecidableEq, Repr

structure RequestState where
  done : Bool := false
  detach : List Detach := []
  retryAt : Nat := 0
  retry : Option (Bytes × Bytes) := none
  resolvedType : Bytes := []

structure SubscriptionState where
  remote : Nat := 0
  revision : UInt64 := 0
  controlEpoch : Nat := 0
  link : Option Link := none
  controlled : Bool := false
  migrating : Bool := false
  busy : Bool := false
  next : Nat := 0
  deadline : Nat := 0
  detach : List Detach := []

/-- A lookup of an entity's location, of which the gateway reads the type. -/
structure Lookup where
  busy : Bool := false
  expires : Nat := 0
  location : Option Bytes := none
  waiters : OrdMap Nat Purpose := .empty

/-- What is done with the reply of an owner. -/
inductive Callback where
  | delegate
  | forward (r : Request)
  | watch (r : Request) (s : Subscription)
  | restore (s : Subscription) (control : Bool) (epoch : Nat)
  | rewatch (s : Subscription)
  | unpossess (s : Subscription) (epoch : Nat)
  deriving DecidableEq, Repr

structure Call where
  id : Nat
  link : Link
  callback : Callback
  deriving DecidableEq, Repr

inductive Channel where
  | attributes
  | presence
  deriving DecidableEq, Repr

/-- What the gateway sent: a notification to a client about a subscription, the
reply to an admitted request, or the refusal of one that was not admitted.
`origin` is the link the content arrived on; a reply also has the identity the
front node had for the client. -/
inductive Event where
  | notified (client : Nat) (origin : Option Link) (channel : Channel) (subscription : Nat) (data : Bytes)
  | replied (r : Request) (origin : Option Link) (result : Result) (who : Option CallIdentity)
  | refused (reply : Destination) (status : Status)

/-- Code that is still to run. -/
inductive Task where
  | finish (r : Request) (result : Result)
  | reply (r : Request) (result : Result)
  | refuse (reply : Destination) (status : Status)
  | revoke (client : Nat)
  | dropSubscriptions (client : Nat)
  | dropLink (l : Link)
  | located (p : Purpose) (status : Status) (location : Option Bytes)
  | linked (p : Purpose) (result : Except Status Link)
  | answer (call : Call) (result : Result)
  | lose (call : Call)
  | opened (l : Link) (status : Status)
  | failed (l : Link) (status : Status) (waiters : List Purpose)
  | pollLinks
  | pollRequests (time : Nat)
  | pollRequest (r : Request) (time : Nat)
  | pollSchedule (time budget : Nat)
  | pollSubscription (time : Nat)
  | stopSubscriptions
  | stopLinks
  | closeLink (l : Link)
  | stopEnd

inductive PeerState where
  | connecting
  | connected
  | closed
  deriving DecidableEq, Repr

/-! ## The gateway -/

structure Gateway where
  limits : Limits
  now : Nat := 0
  -- the front node: who it knows a client as, and the connections that are closed
  identities : Nat → Option CallIdentity := fun _ => none
  closed : Nat → Bool := fun _ => false
  -- the back node: its connections and the calls that wait for a reply
  peers : Nat → PeerState := fun _ => .closed
  calls : List Call := []
  sessions : OrdMap Nat Session := .empty
  links : OrdMap Nat Link := .empty
  linkStates : Nat → LinkState := fun _ => {}
  subscriptions : OrdMap Nat Subscription := .empty
  subscriptionStates : Nat → SubscriptionState := fun _ => {}
  reverse : Nat → Nat → Option Nat := fun _ _ => none
  requests : OrdMap Nat Request := .empty
  requestStates : Nat → RequestState := fun _ => {}
  lookups : Bytes → Option Lookup := fun _ => none
  exposed : Bytes → List Bytes := fun _ => []
  schedule : List Nat := []
  queuedBytes : Nat := 0
  serial : Nat := 0
  peerSerial : Nat := 0
  callSerial : Nat := 0
  stopped : Bool := false
  draining : Bool := false
  stack : List Task := []
  log : List Event := []
  -- what there ever was: subscriptions, links, requests, the times of polls and the clients revoked
  created : List Subscription := []
  opened : List Link := []
  admitted : List Request := []
  polls : List Nat := []
  revoked : List Nat := []

/-- What the nodes, the storage and the tables answer while one step is taken. -/
structure Oracle where
  /-- does the message fit the queue of its connection, when so many were sent -/
  accepts : Nat → Bool := fun _ => true
  /-- the status a call is refused with at once -/
  refused : Option Status := none
  connects : Bool := true
  /-- the endpoint chosen for an entity -/
  endpoint : Option Nat := none
  /-- is there no room for another lookup -/
  full : Bool := false
  submits : Bool := true
  /-- is the caller of a request still who it was -/
  live : Bool := true
  /-- the order the keys of a table are walked in -/
  shuffle : List Nat → List Nat := id

/-- A table in the order it is walked. -/
def Oracle.order {α : Type} (o : Oracle) (key : α → Nat) (l : List α) : List α := arrange (o.shuffle (l.map key)) key l

/-- The values of a table in the order they are walked. -/
def Oracle.values {V : Type} (o : Oracle) (m : OrdMap Nat V) : List V := (o.order Prod.fst m.entries).map Prod.snd

theorem Oracle.mem_values {V : Type} (o : Oracle) {m : OrdMap Nat V} {v : V} :
    v ∈ o.values m ↔ ∃ k, m.find k = some v := by
  simp only [Oracle.values, Oracle.order, List.mem_map, mem_arrange]
  constructor
  · rintro ⟨e, he, rfl⟩
    exact ⟨e.1, (m.mem_entries_iff e.1 e.2).1 he⟩
  · rintro ⟨k, hk⟩
    exact ⟨(k, v), (m.mem_entries_iff k v).2 hk, rfl⟩

namespace Gateway

/-! ## Small updates -/

variable (g : Gateway) (r : Request) (s : Subscription) (client : Nat)

def push (tasks : List Task) : Gateway := { g with stack := tasks ++ g.stack }

def setSubscription (f : SubscriptionState → SubscriptionState) : Gateway :=
  { g with subscriptionStates := update g.subscriptionStates s.id (f (g.subscriptionStates s.id)) }

def setRequest (f : RequestState → RequestState) : Gateway :=
  { g with requestStates := update g.requestStates r.id (f (g.requestStates r.id)) }

def setLink (l : Link) (f : LinkState → LinkState) : Gateway :=
  { g with linkStates := update g.linkStates l.peer (f (g.linkStates l.peer)) }

def setSession (session : Session) : Gateway :=
  { g with sessions := g.sessions.insert client session }

def setReverse (peer remote : Nat) (id : Option Nat) : Gateway :=
  { g with reverse := fun p r => if p = peer ∧ r = remote then id else g.reverse p r }

/-- `subscriptions.contains(sub->id)`: ids are not used twice, so the id is in the table if the subscription is. -/
def registered : Prop := g.subscriptions.find s.id = some s

instance (g : Gateway) (s : Subscription) : Decidable (g.registered s) := inferInstanceAs (Decidable (_ = _))

def subscription : SubscriptionState := g.subscriptionStates s.id

def request : RequestState := g.requestStates r.id

def link (l : Link) : LinkState := g.linkStates l.peer

def connected (g : Gateway) (l : Link) : Bool := g.peers l.peer = .connected

/-- `front.close`. -/
def close : Gateway := { g with closed := update g.closed client true }

/-- `front.identity`, of a client that is still live. -/
def identity : Option CallIdentity := if g.closed client then none else g.identities client

def current (subject : Bytes) (connection : ConnectionRef) : Bool :=
  match g.identity client with
  | none => false
  | some who =>
    !g.stopped && who.caller = .client && (who.connection.valid || !subject.isEmpty) && who.subject = subject &&
      who.connection = connection

/-- The session of the client is of the subject, and the front node still knows the client as it. -/
def authenticated (subject : Bytes) : Bool :=
  match g.sessions.find client with
  | none => false
  | some session => session.subject = subject && g.current client subject session.connection

/-- The client of a session is still who the session is for. -/
def authentic : Bool :=
  match g.sessions.find client with
  | none => false
  | some session => g.authenticated client session.subject

def authenticRequest : Bool :=
  match g.sessions.find r.client with
  | none => false
  | some session =>
    session.subject = r.subject && session.connection = r.connection && g.current r.client r.subject r.connection

/-- `front.notify`; a client whose message cannot be queued is closed. Says whether it was queued. -/
def notify (o : Oracle) (g : Gateway) (client : Nat) (origin : Option Link) (channel : Channel) (id : Nat)
    (data : Bytes) : Gateway × Bool :=
  if g.closed client || !o.accepts g.log.length then (g.close client, false)
  else ({ g with log := .notified client origin channel id data :: g.log }, true)

/-! ## Waiters -/

/-- `emplace`: a waiter that is there already stays. -/
def emplace (waiters : OrdMap Nat Purpose) (p : Purpose) : OrdMap Nat Purpose :=
  if (waiters.find p.waiter).isSome then waiters else waiters.insert p.waiter p

/-- Take a waiter out where it was put in. -/
def leave (id : Nat) (g : Gateway) : Detach → Gateway
  | .lookup entity =>
    match g.lookups entity with
    | none => g
    | some lookup =>
      { g with lookups := update g.lookups entity (some { lookup with waiters := lookup.waiters.erase id }) }
  | .link peer =>
    let state := { g.linkStates peer with waiters := (g.linkStates peer).waiters.erase id }
    { g with linkStates := update g.linkStates peer state }

def detachWaiters : Gateway :=
  (g.subscription s).detach.foldl (leave s.id) (g.setSubscription s fun t => { t with detach := [] })

/-- Remember where the waiter is. -/
def attachDetach (p : Purpose) (d : Detach) : Gateway :=
  match p with
  | .routed r _ => g.setRequest r fun t => { t with detach := t.detach ++ [d] }
  | .present r _ _ => g.setRequest r fun t => { t with detach := t.detach ++ [d] }
  | .watch r _ => g.setRequest r fun t => { t with detach := t.detach ++ [d] }
  | .refresh s => g.setSubscription s fun t => { t with detach := t.detach ++ [d] }

def waitLookup (p : Purpose) (lookup : Lookup) : Gateway :=
  let lookup := { lookup with waiters := emplace lookup.waiters p }
  { g with lookups := update g.lookups p.entity (some lookup) }.attachDetach p (.lookup p.entity)

def waitLink (p : Purpose) (l : Link) : Gateway :=
  (g.setLink l fun t => { t with waiters := emplace t.waiters p }).attachDetach p (.link l.peer)

/-! ## The back node -/

/-- `back.call`: the call waits for its reply, or is refused at once. -/
def call (o : Oracle) (g : Gateway) (l : Link) (callback : Callback) : Gateway :=
  let call : Call := ⟨g.callSerial + 1, l, callback⟩
  let g := { g with callSerial := g.callSerial + 1 }
  if g.peers l.peer = .closed then g.push [.answer call ⟨.disconnected, []⟩]
  else
    match o.refused with
    | some status => g.push [.answer call ⟨status, []⟩]
    | none => { g with calls := g.calls ++ [call] }

/-- `back.close`: every call that waits on the connection is answered. -/
def closePeer (o : Oracle) (g : Gateway) (peer : Nat) : Gateway :=
  if g.peers peer = .closed then g
  else
    let lost := o.order Call.id (g.calls.filter fun c => c.link.peer = peer)
    { g with peers := update g.peers peer .closed }.push (lost.map .lose)

end Gateway

end Fsnet.ClientGateway
