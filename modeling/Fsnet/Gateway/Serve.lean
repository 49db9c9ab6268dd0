import Fsnet.Gateway.State
/-!
# Requests, lookups and links

The functions of the gateway that admit and answer requests, find the endpoint
of an entity and open links to it. A function that would call back into the
gateway pushes what it calls instead, in the order it would run.
-/

namespace Fsnet.ClientGateway

open Lib Function

namespace Gateway

/-! ## Ending subscriptions and requests -/

variable (o : Oracle) (g : Gateway) (r : Request) (client : Nat) (s : Subscription)

/-- Tell the client that a subscription ended. -/
def announce (status : Status) : Gateway :=
  match encodeReplicationPacket s.id s.type s.entity status none 0 with
  | .error _ => g
  | .ok body =>
    if s.automatic then
      let flags : UInt8 := (if s.owned then 1 else 0) + (if (g.subscription s).controlled then 2 else 0)
      (g.notify o s.client none .presence s.id ([2, flags] ++ body)).1
    else (g.notify o s.client none .attributes s.id body).1

/-- The session no longer controls the subscription. -/
def dropControl : Gateway :=
  match g.sessions.find s.client with
  | none => g
  | some session => if session.controlled = s.id then g.setSession s.client { session with controlled := 0 } else g

def dropReverse : Gateway :=
  match (g.subscription s).link with
  | none => g
  | some l => g.setReverse l.peer (g.subscription s).remote none

def unregister : Gateway :=
  { g with subscriptions := g.subscriptions.erase s.id, schedule := g.schedule.filter (· ≠ s.id) }

/-- `remove`. -/
def remove (status : Status) (notify : Bool) : Gateway :=
  if g.registered s then
    let g := (((g.unregister s).detachWaiters s).dropControl s).dropReverse s
    if notify && g.authentic s.client then g.announce o s status else g
  else g

/-- The reply to an admitted request. The node closes a connection that cannot take it. -/
def reply (o : Oracle) (g : Gateway) (r : Request) (result : Result) (origin : Option Link) : Gateway :=
  let fits := o.accepts g.log.length
  let g := { g with log := .replied r origin result (g.identity r.client) :: g.log }
  if fits then g
  else
    match r.reply with
    | .client client => g.close client
    | .owner l => g.closePeer o l.peer

/-- The reply to a request that was not admitted. -/
def refuse (reply : Destination) (status : Status) : Gateway :=
  let fits := o.accepts g.log.length
  let g := { g with log := .refused reply status :: g.log }
  if fits then g
  else
    match reply with
    | .client client => g.close client
    | .owner l => g.closePeer o l.peer

/-- The request is done and leaves the table and the queue. -/
def markDone : Gateway :=
  { g with requests := g.requests.erase r.id, queuedBytes := g.queuedBytes - r.bytes }.setRequest r fun t =>
    { t with done := true, retry := none, detach := [] }

/-- The request also leaves every list it waits in. -/
def retire : Gateway := (g.request r).detach.foldl (leave r.id) (g.markDone r)

/-- A watch that did not succeed takes its subscription with it. -/
def cancel : Gateway :=
  match r.subscription with
  | none => g
  | some s => g.remove o s .disconnected false

/-- `revoke`. The session goes first, so that nothing that runs meanwhile takes the
client for authenticated. -/
def revoke : Gateway :=
  match g.sessions.find client with
  | none => g
  | some session =>
    let pending := (o.values g.requests).filter fun r => r.client = client
    let g := { g with sessions := g.sessions.erase client, revoked := client :: g.revoked }.close client
    g.push (pending.map (.finish · ⟨.disconnected, []⟩) ++ .dropSubscriptions client ::
      (o.values session.links).map .dropLink)

/-- `finish`. A request whose client changed is answered as disconnected, after the client was revoked. -/
def finish (result : Result) (origin : Option Link) : Gateway :=
  if (g.request r).done then g
  else
    let valid := g.authenticRequest r
    let g := g.retire r
    if valid then
      if result.status = .ok then g.reply o r result origin
      else (g.cancel o r).reply o r result origin
    else ((g.cancel o r).push [.reply r ⟨.disconnected, []⟩]).revoke o r.client

/-! ## Admission -/

/-- The request as it is admitted, for a client that has a session. -/
def admitRequest (who : CallIdentity) (data : Bytes) (reply : Destination)
    (watches : Option (Bytes × Bytes)) : Gateway × Request :=
  let deadline := g.now + g.limits.requestTimeout
  let r : Request := ⟨g.serial + 1, client, who.subject, who.connection, data, reply, deadline, watches⟩
  let g := { g with serial := g.serial + 1, requests := g.requests.insert r.id r }
  let g := { g with queuedBytes := g.queuedBytes + r.bytes, admitted := r :: g.admitted }
  (g.setRequest r fun _ => {}, r)

/-- Revoke the client, then reject its request. -/
def turnAway (reply : Destination) : Gateway :=
  (g.push [.refuse reply .rejected]).revoke o client

/-- `request`: admit the request of a caller and go on with it. -/
def enter (who : CallIdentity) (data : Bytes) (reply : Destination)
    (watches : Option (Bytes × Bytes)) (next : Gateway → Request → Gateway) : Gateway :=
  if g.stopped then g.refuse o reply .disconnected
  else if g.draining then g.refuse o reply .overloaded
  else if o.live = false ∨ g.current client who.subject who.connection = false then g.turnAway o client reply
  else if g.requests.size ≥ g.limits.requests ∨ data.length > g.limits.bytes - g.queuedBytes ∨
      g.serial ≥ 2 ^ 64 - 2 then g.refuse o reply .overloaded
  else
    match g.sessions.find client with
    | none =>
      if g.sessions.size ≥ g.limits.clients then g.refuse o reply .overloaded
      else
        let g := g.setSession client ⟨who.subject, who.connection, .empty, 0⟩
        let entered := g.admitRequest client who data reply watches
        next entered.1 entered.2
    | some session =>
      if session.subject ≠ who.subject ∨ session.connection ≠ who.connection then g.turnAway o client reply
      else
        let entered := g.admitRequest client who data reply watches
        next entered.1 entered.2

/-! ## Links -/

/-- Open a link to an endpoint for the client of the purpose, which waits for it. -/
def openLink (session : Session) (index : Nat) (p : Purpose) : Gateway :=
  if g.links.size ≥ g.limits.links then g.push [.linked p (.error .overloaded)]
  else if o.connects = false then g.push [.linked p (.error .disconnected)]
  else
    let l : Link := ⟨g.peerSerial + 1, p.client, index⟩
    let g := { g with peerSerial := g.peerSerial + 1, opened := l :: g.opened, links := g.links.insert l.peer l }
    let g := { g with peers := update g.peers l.peer .connecting }
    let g := g.setLink l fun _ => { opening := true }
    let g := g.setSession p.client { session with links := session.links.insert index l }
    (g.waitLink p l).call o l .delegate

/-- `acquire`. -/
def acquire (index : Nat) (p : Purpose) : Gateway :=
  match g.sessions.find p.client with
  | none => g.push [.linked p (.error .disconnected)]
  | some session =>
    if g.authenticated p.client session.subject = false then
      (g.push [.linked p (.error .disconnected)]).revoke o p.client
    else
      match session.links.find index with
      | none => g.openLink o session index p
      | some l =>
        if (g.link l).ready && g.connected l then g.push [.linked p (.ok l)]
        else if (g.link l).opening then g.waitLink p l
        else g.openLink o session index p

/-! ## Subscriptions that move -/

def startMigrating : Gateway :=
  if (g.subscription s).migrating then g
  else g.setSubscription s fun t =>
    { t with migrating := true, deadline := g.now + g.limits.migrationTimeout, next := 0 }

def retryMigration : Gateway :=
  g.setSubscription s fun t => { t with next := g.now + min g.limits.refresh 100 }

def expireRoute : Gateway :=
  match g.lookups s.entity with
  | none => g
  | some lookup => { g with lookups := update g.lookups s.entity (some { lookup with expires := 0 }) }

def idle : Gateway := g.setSubscription s fun t => { t with busy := false }

/-! ## Lookups -/

/-- May the call go to an entity of the type? -/
def exposes (data type : Bytes) : Bool :=
  match parseEntityCallView data with
  | none => false
  | some call => (call.expectedType.isEmpty || call.expectedType = type) && (g.exposed type).contains call.method

/-- What is done with the endpoint that was found, or with the failure to find one. -/
def selected (p : Purpose) (result : Except (Status × Bool) Nat) : Gateway :=
  match p, result with
  | .routed r _, .error (status, _) => if (g.request r).done then g else g.finish o r ⟨status, []⟩ none
  | .routed r _, .ok index =>
    if (g.request r).done then g
    else if g.exposes r.data (g.request r).resolvedType then g.acquire o index p
    else g.finish o r ⟨.rejected, []⟩ none
  | .present r type entity, .error (status, _) =>
    if (g.request r).done then g
    else if status = .disconnected ∨ status = .overloaded then
      -- tried again by a later poll
      g.setRequest r fun t => { t with retryAt := g.now + 25, retry := some (type, entity) }
    else g.finish o r ⟨status, []⟩ none
  | .present r _ _, .ok index => if (g.request r).done then g else g.acquire o index p
  | .watch r s, .error (status, _) =>
    if (g.request r).done then g else (g.remove o s status false).finish o r ⟨status, []⟩ none
  | .watch r _, .ok index => if (g.request r).done then g else g.acquire o index p
  | .refresh s, .error (status, exists_) =>
    if g.registered s then
      let g := (g.detachWaiters s).idle s
      if exists_ = false ∧ status ≠ .internal ∧ status ≠ .overloaded then g.remove o s .notFound true
      else (g.startMigrating s).retryMigration s
    else g
  | .refresh s, .ok index =>
    if g.registered s then
      let g := g.detachWaiters s
      if (g.subscription s).link.any (fun l => l.index = index && g.connected l) && !(g.subscription s).migrating then
        g.idle s
      else (g.startMigrating s).acquire o index p
    else g

/-- The request learns the type of the entity it is for. -/
def resolve (p : Purpose) (type : Bytes) : Gateway :=
  match p with
  | .routed r _ => g.setRequest r fun t => { t with resolvedType := type }
  | .present r _ _ => g.setRequest r fun t => { t with resolvedType := type }
  | .watch r _ => g.setRequest r fun t => { t with resolvedType := type }
  | .refresh _ => g

/-- A lookup came back. -/
def located (p : Purpose) (status : Status) (location : Option Bytes) : Gateway :=
  if g.stopped then g.selected o p (.error (.disconnected, false))
  else if status ≠ .ok then g.selected o p (.error (status, location.isSome))
  else
    match location with
    | none => g.selected o p (.error (.notFound, false))
    | some type =>
      if p.type ≠ [] ∧ type ≠ p.type then g.selected o p (.error (.rejected, true))
      else
        match o.endpoint with
        | none => (g.resolve p type).selected o p (.error (.disconnected, true))
        | some index => (g.resolve p type).selected o p (.ok index)

/-- The completion of a lookup; all who wait for it get its outcome. -/
def lookedUp (entity : Bytes) (failed : Bool) (location : Option Bytes) : Gateway :=
  match g.lookups entity with
  | none => g
  | some lookup =>
    if lookup.busy then
      let waiting := lookup.waiters.entries.map Prod.snd
      if g.stopped then
        let lookup := { lookup with busy := false, waiters := .empty }
        { g with lookups := update g.lookups entity (some lookup) }.push
          (waiting.map fun p => .located p .disconnected none)
      else
        let expires := if failed then g.now else g.now + g.limits.refresh
        let lookup : Lookup := ⟨false, expires, location, .empty⟩
        { g with lookups := update g.lookups entity (some lookup) }.push
          (waiting.map fun p => .located p (if failed then .internal else .ok) location)
    else g

def lookUp (p : Purpose) : Gateway :=
  if (g.lookups p.entity).isNone && o.full then g.push [.located p .overloaded none]
  else
    let g := g.waitLookup p { busy := true }
    if o.submits then g else g.lookedUp p.entity true none

/-- `select`. -/
def select (p : Purpose) : Gateway :=
  if validEntityId p.entity = false then g.selected o p (.error (.rejected, false))
  else
    match g.lookups p.entity with
    | none => g.lookUp o p
    | some lookup =>
      if lookup.busy then g.waitLookup p lookup
      else if lookup.location.isSome && g.now < lookup.expires then g.push [.located p .ok lookup.location]
      else g.lookUp o p

/-- `refresh`. -/
def refresh (o : Oracle) (g : Gateway) (s : Subscription) : Gateway :=
  if (g.subscription s).busy then g
  else
    let g := g.detachWaiters s
    (g.setSubscription s fun t => { t with busy := true, next := g.now + g.limits.refresh }).select o (.refresh s)

/-- The link a purpose waited for is there, or could not be opened. -/
def linked (p : Purpose) (result : Except Status Link) : Gateway :=
  match p, result with
  | .routed r _, .error status => if (g.request r).done then g else g.finish o r ⟨status, []⟩ none
  | .routed r _, .ok l => if (g.request r).done then g else g.call o l (.forward r)
  | .present r _ _, .error status => if (g.request r).done then g else g.finish o r ⟨status, []⟩ none
  | .present r _ _, .ok l => if (g.request r).done then g else g.call o l (.forward r)
  | .watch r s, .error status =>
    if (g.request r).done then g else (g.remove o s status false).finish o r ⟨status, []⟩ none
  | .watch r s, .ok l => if (g.request r).done then g else g.call o l (.watch r s)
  | .refresh s, .error _ => if g.registered s then ((g.detachWaiters s).idle s).retryMigration s else g
  | .refresh s, .ok l =>
    if g.registered s then
      let g := g.detachWaiters s
      if s.automatic then g.call o l (.restore s (g.subscription s).controlled (g.subscription s).controlEpoch)
      else g.call o l (.rewatch s)
    else g

end Gateway

end Fsnet.ClientGateway
