import Fsnet.Gateway.Notice
import Fsnet.Lib.Runs
/-!
# The gateway as a machine

The callbacks of the gateway, the code that is still to run as tasks, and the
events of its environment. Clients, owners, the network and the storage do
anything at any time; they get their turn between callbacks. The clock and what
the front node answers about a client may also change while one is running.
-/

namespace Fsnet.ClientGateway

open Lib Function

namespace Gateway

/-! ## Replies of owners -/

variable (o : Oracle) (g : Gateway) (l : Link) (r : Request) (time : Nat)

variable (data : Bytes) (s : Subscription) (status : Status)

def watchRefused : Gateway :=
  (g.remove o s .rejected false).finish o r ⟨.rejected, []⟩ none

/-- Packets of a watch come from the link, starting with the snapshot of the reply. -/
def watching (remote : Nat) (revision : UInt64) (s : Subscription) : Gateway :=
  (g.setSubscription s fun t =>
    { t with link := some l, remote, revision, busy := false, next := g.now + g.limits.refresh }).setReverse
    l.peer remote (some s.id)

/-- Is the packet a snapshot of the subscription's entity? -/
def isSnapshotOf (packet : ReplicationPacketView) (s : Subscription) : Bool :=
  packet.update.any (·.snapshot) && packet.type = s.type && packet.id = s.entity

def watchAnswered (result : Result) : Gateway :=
  if (g.request r).done then g
  else if result.status ≠ .ok then (g.remove o s result.status false).finish o r result (some l)
  else
    match decodeReplicationPacketView result.data with
    | .error _ => g.watchRefused o r s
    | .ok packet =>
      match packet.update with
      | none => g.watchRefused o r s
      | some update =>
        if packet.status = .ok ∧ isSnapshotOf packet s then
          let g := g.watching l packet.subscription update.revision s
          match remapReplicationSubscription result.data s.id 0 with
          | .error _ => g.watchRefused o r s
          | .ok data => g.finish o r ⟨.ok, data⟩ (some l)
        else g.watchRefused o r s

/-- The reply to a restore that failed. -/
def notMoved : Gateway :=
  if status = .rejected ∨ status = .notFound then g.remove o s status true else g.retryMigration s

def moved : Gateway :=
  g.setSubscription s fun t => { t with busy := false, next := g.now + g.limits.refresh }

/-- Does the reply to a restore confirm it, with the control it was asked for? -/
def confirms (control : Bool) : Bool :=
  match data with
  | kind :: flags :: body =>
    match decodeReplicationPacketView body with
    | .error _ => false
    | .ok packet =>
      kind = 1 && flags ≤ 3 && decide (flags &&& 2 ≠ 0) = control && packet.status = .ok && isSnapshotOf packet s
  | _ => false

def restoreAnswered (control : Bool) (epoch : Nat)
    (result : Result) : Gateway :=
  if g.registered s then
    let g := g.moved s
    if (g.subscription s).controlEpoch ≠ epoch then
      -- a new possession came first; the restore is asked for again
      (g.setSubscription s fun t => { t with next := 0 }).expireRoute s
    else if result.status ≠ .ok then g.notMoved o s result.status
    else if confirms result.data s control then g.notice o l.peer .presence result.data true
    else g.remove o s .rejected true
  else g

/-- The subscription goes on with a snapshot from another owner. -/
def rewatched (data : Bytes) : Gateway :=
  match remapReplicationSubscription data s.id 0 with
  | .error _ => g.remove o s .rejected true
  | .ok data =>
    if g.authentic s.client then (g.notify o s.client (some l) .attributes s.id data).1
    else g.revoke o s.client

def rewatchAnswered (result : Result) : Gateway :=
  if g.registered s then
    let g := g.moved s
    if result.status ≠ .ok then g.notMoved o s result.status
    else
      match decodeReplicationPacketView result.data with
      | .error _ => g.remove o s .rejected true
      | .ok packet =>
        match packet.update with
        | none => g.remove o s .rejected true
        | some update =>
          if isSnapshotOf packet s ∧ ¬update.revision < (g.subscription s).revision then
            ((g.attach l packet.subscription update.revision s).expireRoute s).rewatched o l s result.data
          else g.remove o s .rejected true
  else g

def unpossessed (epoch : Nat) (status : Status) : Gateway :=
  if status = .ok ∨ status = .notFound then g
  else if g.registered s ∧ (g.subscription s).controlEpoch = epoch then
    ((g.startMigrating s).expireRoute s).retryMigration s
  else g

/-- The owner accepted the client of the link, or refused it. -/
def linkOpened : Gateway :=
  let waiting := (g.link l).waiters.entries.map Prod.snd
  let g := g.setLink l fun _ => ⟨status = .ok, false, .empty⟩
  if status = .ok then g.push (waiting.map fun p => .linked p (.ok l))
  else (g.push [.failed l status waiting]).closePeer o l.peer

def linkFailed (waiting : List Purpose) : Gateway :=
  { g with links := g.links.erase l.peer }.push (waiting.map fun p => .linked p (.error status))

def delegated : Gateway :=
  if (g.sessions.find l.client).isNone then g.linkOpened o l .disconnected
  else if g.authentic l.client = false then (g.push [.opened l .disconnected]).revoke o l.client
  else g.linkOpened o l status

/-- The reply to a call. -/
def answer (call : Call) (result : Result) : Gateway :=
  match call.callback with
  | .delegate => g.delegated o call.link result.status
  | .forward r => g.finish o r result (some call.link)
  | .watch r s => g.watchAnswered o call.link r s result
  | .restore s control epoch => g.restoreAnswered o call.link s control epoch result
  | .rewatch s => g.rewatchAnswered o call.link s result
  | .unpossess s epoch => g.unpossessed s epoch result.status

/-- The connection of a call was closed; a call that was answered meanwhile is not answered again. -/
def lose (call : Call) : Gateway :=
  if call ∈ g.calls then { g with calls := g.calls.erase call }.answer o call ⟨.disconnected, []⟩ else g

/-! ## Revoking a client -/

def dropSubscriptions (client : Nat) : Gateway :=
  ((o.values g.subscriptions).filter fun s => s.client = client).foldl
    (fun g s => g.remove o s .disconnected false) g

def dropLink : Gateway := { g with links := g.links.erase l.peer }.closePeer o l.peer

/-! ## Polling -/

/-- The first part of `poll`: clients that are no longer who their session is for are revoked. -/
def poll (budget : Nat) : Gateway :=
  if g.stopped then g
  else
    let dead := ((o.order Prod.fst g.sessions.entries).map Prod.fst).filter fun client => g.authentic client = false
    let g : Gateway := { g with polls := g.now :: g.polls }
    g.push (dead.map .revoke ++ [.pollLinks, .pollRequests g.now, .pollSchedule g.now budget])

/-- A link whose connection is gone leaves the tables. -/
def forgetLink : Gateway :=
  if !(g.link l).opening && !g.connected l then
    let g := { g with links := g.links.erase l.peer }
    match g.sessions.find l.client with
    | none => g
    | some session =>
      if session.links.find l.index = some l then
        g.setSession l.client { session with links := session.links.erase l.index }
      else g
  else g

def pollLinks : Gateway := (o.values g.links).foldl forgetLink g

def pollRequests : Gateway :=
  g.push ((o.values g.requests).map (.pollRequest · time))

def pollRequest : Gateway :=
  if time ≥ r.deadline then g.finish o r ⟨.timeout, []⟩ none
  else if g.authenticRequest r = false then g.finish o r ⟨.disconnected, []⟩ none
  else
    match (g.request r).retry with
    | none => g
    | some (type, entity) =>
      if time ≥ (g.request r).retryAt then
        (g.setRequest r fun t => { t with retry := none }).select o (.present r type entity)
      else g

def pollSchedule (time budget : Nat) : Gateway :=
  g.push (List.replicate (min g.schedule.length budget) (.pollSubscription time))

/-- The link of the subscription was ready and is gone. -/
def noticeLoss : Gateway :=
  if (g.subscription s).link.any fun l => (g.link l).ready && !g.connected l then g.startMigrating s else g

def pollSubscription : Gateway :=
  match g.schedule with
  | [] => g
  | id :: rest =>
    match g.subscriptions.find id with
    | none => { g with schedule := rest }
    | some s =>
      let g := { g with schedule := rest ++ [id] }.noticeLoss s
      if (g.subscription s).migrating && time ≥ (g.subscription s).deadline then g.remove o s .timeout true
      else if !(g.subscription s).busy && time ≥ (g.subscription s).next then g.refresh o s
      else g

/-! ## Stopping -/

def stop : Gateway :=
  if g.stopped then g
  else
    let g : Gateway := { g with stopped := true }
    g.push ((o.values g.requests).map (.finish · ⟨.disconnected, []⟩) ++ [.stopSubscriptions, .stopLinks])

def stopSubscriptions : Gateway :=
  (o.values g.subscriptions).foldl (fun g s => g.remove o s .disconnected true) g

def stopLinks : Gateway := g.push ((o.values g.links).map .closeLink ++ [.stopEnd])

def stopEnd : Gateway := { g with links := .empty, sessions := .empty }

/-! ## Requests of clients and owners -/

/-- A call of an entity. -/
def routed (o : Oracle) (g : Gateway) (who : CallIdentity) (data : Bytes) : Gateway :=
  let reply : Destination := .client who.peer.toNat
  match parseEntityCallView data with
  | none => g.refuse o reply .rejected
  | some call => g.enter o who.peer.toNat who data reply none fun g r => g.select o (.routed r (entityIdText call.id))

/-- The entity a watch names, and nothing after it. -/
def watchKey : Option (Bytes × Bytes) :=
  match decodeEntityKey data with
  | .ok (type, entity, []) => if validEntityId entity then some (type, entity) else none
  | _ => none

def watch (o : Oracle) (g : Gateway) (who : CallIdentity) (data : Bytes) : Gateway :=
  let reply : Destination := .client who.peer.toNat
  match watchKey data with
  | none => g.refuse o reply .rejected
  | some (type, entity) =>
    if g.isFull who.peer.toNat then g.refuse o reply .overloaded
    else
      g.enter o who.peer.toNat who data reply (some (type, entity)) fun g r =>
        let s : Subscription := ⟨r.id + 1, r.client, type, entity, false, false⟩
        (g.register s { busy := true }).select o (.watch r s)

inductive ControlRoute where
  | unwatch
  | renew
  | write
  deriving DecidableEq, Repr

/-- The subscription a control request names; only a write has more to say. -/
def controlId (route : ControlRoute) (data : Bytes) : Option Nat :=
  if data.length < 8 ∨ (route ≠ .write ∧ data.length ≠ 8) then none else some (ofBigEndian (data.take 8))

/-- May the caller use the subscription? -/
def mayControl (who : CallIdentity) (s : Subscription) : Bool :=
  match g.sessions.find who.peer.toNat with
  | none => false
  | some session =>
    s.client = who.peer.toNat && session.subject = who.subject && session.connection = who.connection && o.live &&
      g.authenticated who.peer.toNat who.subject

def control (route : ControlRoute) (who : CallIdentity) (data : Bytes) : Gateway :=
  let reply : Destination := .client who.peer.toNat
  match controlId route data with
  | none => g.refuse o reply .rejected
  | some id =>
    match g.subscriptions.find id with
    | none => g.refuse o reply .notFound
    | some s =>
      if g.mayControl o who s = false then g.turnAway o who.peer.toNat reply
      else if route = .unwatch then (g.remove o s .disconnected false).refuse o reply .ok
      else
        match (g.subscription s).link with
        | none => (g.startMigrating s).refuse o reply (if route = .renew then .ok else .overloaded)
        | some l =>
          if (g.subscription s).migrating || !g.connected l then
            (g.startMigrating s).refuse o reply (if route = .renew then .ok else .overloaded)
          else g.enter o who.peer.toNat who data reply none fun g r => g.call o l (.forward r)

/-- The entity an owner wants to present. -/
def presentKey : Option (Bytes × Bytes) :=
  match decodeEntityKey data with
  | .ok (type, entity, [action]) => if validEntityId entity ∧ 1 ≤ action ∧ action ≤ 4 then some (type, entity) else none
  | _ => none

/-- An owner presents an entity of another owner to the client of its link. -/
def present (o : Oracle) (g : Gateway) (peer : Nat) (data : Bytes) : Gateway :=
  match g.links.find peer with
  | none => g
  | some l =>
    let reply : Destination := .owner l
    if (g.link l).ready = false then g.refuse o reply .rejected
    else
      match g.identity l.client with
      | none => g.refuse o reply .disconnected
      | some who =>
        if g.authenticated l.client who.subject = false then g.refuse o reply .disconnected
        else
          match presentKey data with
          | none => g.refuse o reply .rejected
          | some (type, entity) =>
            g.enter o l.client who data reply none fun g r => g.select o (.present r type entity)

end Gateway

/-! ## Steps -/

inductive Action where
  | run
  | tick (time : Nat)
  | identify (client : Nat) (who : Option CallIdentity)
  | leave (client : Nat)
  | connect (peer : Nat)
  | lose (peer : Nat)
  | answer (call : Call) (result : Result)
  | locate (entity : Bytes) (failed : Bool) (location : Option Bytes)
  | routed (who : CallIdentity) (data : Bytes)
  | watch (who : CallIdentity) (data : Bytes)
  | control (route : Gateway.ControlRoute) (who : CallIdentity) (data : Bytes)
  | present (peer : Nat) (data : Bytes)
  | notice (peer : Nat) (channel : Channel) (data : Bytes)
  | poll (budget : Nat)
  | expose (type : Bytes) (methods : List Bytes)
  | drain
  | stop

namespace Gateway

/-- Run a task. -/
def exec (o : Oracle) (g : Gateway) : Task → Gateway
  | .finish r result => g.finish o r result none
  | .reply r result => g.reply o r result none
  | .refuse reply status => g.refuse o reply status
  | .revoke client => g.revoke o client
  | .dropSubscriptions client => g.dropSubscriptions o client
  | .dropLink l => g.dropLink o l
  | .located p status location => g.located o p status location
  | .linked p result => g.linked o p result
  | .answer call result => g.answer o call result
  | .lose call => g.lose o call
  | .opened l status => g.linkOpened o l status
  | .failed l status waiting => g.linkFailed l status waiting
  | .pollLinks => g.pollLinks o
  | .pollRequests time => g.pollRequests o time
  | .pollRequest r time => g.pollRequest o r time
  | .pollSchedule time budget => g.pollSchedule time budget
  | .pollSubscription time => g.pollSubscription o time
  | .stopSubscriptions => g.stopSubscriptions o
  | .stopLinks => g.stopLinks o
  | .closeLink l => g.closePeer o l.peer
  | .stopEnd => g.stopEnd

/-- What comes from outside, between callbacks. -/
def receive (o : Oracle) (g : Gateway) : Action → Gateway
  | .run => g
  | .tick _ => g
  | .identify _ _ => g
  | .leave client => g.close client
  | .connect peer =>
    if g.peers peer = .connecting then { g with peers := update g.peers peer .connected } else g
  | .lose peer => g.closePeer o peer
  | .answer call result =>
    if call ∈ g.calls then { g with calls := g.calls.erase call }.push [.answer call result] else g
  | .locate entity failed location => g.lookedUp entity failed location
  | .routed who data => g.routed o who data
  | .watch who data => g.watch o who data
  | .control route who data => g.control o route who data
  | .present peer data => g.present o peer data
  | .notice peer channel data => g.notice o peer channel data false
  | .poll budget => g.poll o budget
  | .expose type methods => { g with exposed := update g.exposed type (g.exposed type ++ methods) }
  | .drain => { g with draining := true }
  | .stop => g.stop o

def step (g : Gateway) (input : Oracle × Action) : Gateway :=
  match input.2 with
  | .run =>
    match g.stack with
    | [] => g
    | task :: rest => { g with stack := rest }.exec input.1 task
  | .tick time => { g with now := g.now + time }
  | .identify client who => { g with identities := update g.identities client who }
  | action => if g.stack.isEmpty then g.receive input.1 action else g

def init (limits : Limits) : Gateway := { limits }

end Gateway

end Fsnet.ClientGateway
