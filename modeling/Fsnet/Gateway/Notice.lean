import Fsnet.Gateway.Serve
/-!
# Notices of owners

What the gateway does with a notification of an owner, and with the reply to a
restore, which is handled as a confirmed notification. An exception closes the
connection of the client.
-/

namespace Fsnet.ClientGateway

open Lib

/-- A notification that could be read. -/
structure Notice where
  channel : Channel
  kind : UInt8 := 0
  flags : UInt8 := 0
  data : Bytes
  body : Bytes
  packet : ReplicationPacketView

def Notice.controlled (n : Notice) : Bool := n.flags &&& 2 ≠ 0

def Notice.owned (n : Notice) : Bool := n.flags &&& 1 ≠ 0

/-- The bytes in front of the packet. -/
def Notice.skip (n : Notice) : Nat := if n.channel = .presence then 2 else 0

def readNotice (channel : Channel) (data : Bytes) : Option Notice :=
  match channel with
  | .attributes =>
    match decodeReplicationPacketView data with
    | .error _ => none
    | .ok packet => some { channel, data, body := data, packet }
  | .presence =>
    match data with
    | kind :: flags :: body =>
      if kind < 1 ∨ kind > 3 ∨ flags > 3 then none
      else
        match decodeReplicationPacketView body with
        | .error _ => none
        | .ok packet => some { channel, kind, flags, data, body, packet }
    | _ => none

/-- May the packet start or continue the subscription: a snapshot, no older, of the same ownership? -/
def Notice.fits (n : Notice) (revision : UInt64) (owned : Bool) : Bool :=
  match n.packet.update with
  | none => false
  | some update => update.snapshot && !(update.revision < revision) && owned = n.owned

/-- Does the update not follow the revision the client has? -/
def gap (update : ReplicationUpdateHeader) (revision : UInt64) : Bool :=
  if update.snapshot then update.revision < revision else update.base ≠ revision

namespace Gateway

/-! ## Forwarding -/

variable (o : Oracle) (g : Gateway) (l : Link) (n : Notice) (s : Subscription)

/-- Forward the notification under the id of the subscription. -/
def forward : Gateway :=
  match remapReplicationSubscription n.data s.id n.skip with
  | .error _ => g.close l.client
  | .ok data => (g.notify o s.client (some l) n.channel s.id data).1

/-- Where packets of the subscription come from now on. -/
def attach (remote : Nat) (revision : UInt64) (s : Subscription) : Gateway :=
  ((g.dropReverse s).setSubscription s fun t =>
    { t with link := some l, remote, revision, migrating := false }).setReverse l.peer remote (some s.id)

/-! ## Control -/

/-- The packet that tells a client it no longer controls a subscription. -/
def releasePacket (old : Subscription) : Except Failure Bytes := do
  let state : AttributeUpdate := ⟨0, (g.subscription old).revision, true, [], []⟩
  let body ← encodeReplicationPacket old.id old.type old.entity .ok (some state) 30000
  pure ([3, if old.owned then 1 else 0] ++ body)

/-- Control passes from the subscription. Says whether the client is still there. A
call that is refused at once is answered after the notice instead of inside it;
its callback concerns only where the old subscription is looked for. -/
def supersede (old : Subscription) : Gateway × Bool :=
  let g := g.setSubscription old fun t => { t with controlled := false, controlEpoch := t.controlEpoch + 1 }
  match g.releasePacket old with
  | .error _ => (g.close l.client, false)
  | .ok data =>
    let sent := g.notify o old.client none .presence old.id data
    if sent.2 then
      match (sent.1.subscription old).link with
      | none => (sent.1, true)
      | some link =>
        if sent.1.connected link then
          (sent.1.call o link (.unpossess old (sent.1.subscription old).controlEpoch), true)
        else (sent.1, true)
    else (sent.1, false)

/-- The subscription the session controls, if it is another one, gives way. -/
def giveWay (session : Session) (s : Subscription) : Gateway × Bool :=
  match g.subscriptions.find session.controlled with
  | none => (g, true)
  | some old => if session.controlled ≠ 0 ∧ session.controlled ≠ s.id then g.supersede o l old else (g, true)

/-- The client now controls the subscription, and no other one. -/
def possess : Gateway × Bool :=
  match g.sessions.find l.client with
  | none => (g, true)
  | some session =>
    let taken := g.giveWay o l session s
    if taken.2 then (taken.1.setSession l.client { session with controlled := s.id }, true) else taken

/-- The client no longer controls the subscription. -/
def release : Gateway :=
  match g.sessions.find l.client with
  | none => g
  | some session => if session.controlled = s.id then g.setSession l.client { session with controlled := 0 } else g

def setControl (controlled : Bool) : Gateway :=
  g.setSubscription s fun t =>
    { t with controlled, controlEpoch := if t.controlled = controlled then t.controlEpoch else t.controlEpoch + 1 }

/-- Control passes as the presence says, and the client is told. -/
def display : Gateway :=
  if n.controlled then
    let taken := g.possess o l s
    if taken.2 then (taken.1.setControl s true).forward o l n s else taken.1
  else ((g.release l s).setControl s false).forward o l n s

/-! ## Notices -/

/-- A packet for a subscription. -/
def deliver : Gateway :=
  if n.packet.type ≠ s.type ∨ n.packet.id ≠ s.entity then g.close l.client
  else if n.packet.status ≠ .ok then
    if n.packet.status = .disconnected then g.startMigrating s else g.remove o s n.packet.status true
  else if (g.subscription s).migrating then g
  else
    match n.channel with
    | .attributes =>
      match n.packet.update with
      | none => g.close l.client
      | some update =>
        if gap update (g.subscription s).revision then g.close l.client
        else (g.setSubscription s fun t => { t with revision := update.revision }).forward o l n s
    | .presence => g.display o l n s

/-- The subscription is served by the link from now on, with the packet as its snapshot. -/
def settle : Gateway :=
  let revision := match n.packet.update with
    | none => 0
    | some update => update.revision
  let g := g.attach l n.packet.subscription revision s
  (g.setSubscription s fun t =>
    { t with controlled := n.controlled, busy := false, next := g.now + g.limits.refresh }).expireRoute s

/-- A restore of a migrating subscription was confirmed. -/
def restored : Gateway :=
  if n.fits (g.subscription s).revision s.owned then
    let g := g.settle l n s
    match remapReplicationSubscription n.body s.id 0 with
    | .error _ => g.close l.client
    | .ok body =>
      let sent := g.notify o s.client (some l) .attributes s.id body
      if sent.2 then sent.1.deliver o l n s else sent.1
  else g.remove o s .rejected true

/-- How many subscriptions a client has. -/
def clientSubscriptions (client : Nat) : Nat :=
  (g.subscriptions.entries.filter fun e => e.2.client = client).length

def isFull (client : Nat) : Bool :=
  g.subscriptions.size ≥ g.limits.subscriptions || g.clientSubscriptions client ≥ g.limits.perClient

/-- A new subscription enters the tables. -/
def register (state : SubscriptionState) : Gateway :=
  let g := { g with serial := s.id, created := s :: g.created, schedule := g.schedule ++ [s.id] }
  { g with subscriptions := g.subscriptions.insert s.id s }.setSubscription s fun _ => state

/-- An entity became visible to the client. -/
def appeared : Gateway :=
  if g.isFull l.client then g.close l.client
  else
    let s : Subscription := ⟨g.serial + 1, l.client, n.packet.type, n.packet.id, true, n.owned⟩
    let g := g.register s { controlled := n.controlled }
    if n.fits 0 s.owned then (g.settle l n s).deliver o l n s else g.remove o s .rejected true

/-- The subscription a confirmed or live enter is for, if there is one. -/
def resuming (packet : ReplicationPacketView) (found : Option Subscription) :
    Option Subscription :=
  found.or ((o.values g.subscriptions).find? fun s =>
    s.automatic && (g.subscription s).migrating && s.client = l.client && s.type = packet.type && s.entity = packet.id)

/-- The subscription the packets with this remote id are for. -/
def addressee (remote : Nat) : Option Subscription :=
  (g.reverse l.peer remote).bind g.subscriptions.find

/-- A notice that was read, of a client that is still who its session is for. -/
def noticed (confirmed : Bool) : Gateway :=
  let found := g.addressee l n.packet.subscription
  if n.channel = .presence ∧ n.kind = 1 ∧ n.packet.status = .ok ∧ found.all fun s => (g.subscription s).migrating then
    match g.resuming o l n.packet found with
    | none => g.appeared o l n
    -- what an owner shows before the restore is confirmed does not complete it
    | some s => if confirmed then g.restored o l n s else g
  else
    match found with
    | none => g
    | some s => g.deliver o l n s

/-- `notice`. -/
def notice (peer : Nat) (channel : Channel) (data : Bytes) (confirmed : Bool) : Gateway :=
  match g.links.find peer with
  | none => g
  | some l =>
    if (g.link l).ready = false then g
    else if (g.sessions.find l.client).isNone then g
    else if g.authentic l.client = false then g.revoke o l.client
    else
      match readNotice channel data with
      | none => g.close l.client
      | some n => g.noticed o l n confirmed

end Gateway

end Fsnet.ClientGateway
