import Fsnet.Gateway.Stream
/-!
# What holds of a gateway

The invariant has four parts. The wiring: everything that waits, runs or was
sent concerns one client, the one its link was opened for. The streams: the
revision a subscription keeps is that of the last packet its client got. Control:
the session knows the subscription its client controls. The life of requests:
what is admitted is answered once, and what is not answered is in the table.

Each part but the first is broken and mended inside a callback. `owed` names the
subscription or the request the part does not hold of meanwhile.

That a restore never finds its subscription in another state of control than it
was started in, unless that state was changed since, is not always so. It is
part of the invariant as long as `mixed` is false.
-/

namespace Fsnet.ClientGateway

open Lib

/-! ## The wiring -/

/-- What there is: the requests, subscriptions and links that were ever made,
the subscriptions whose client has received a packet or receives nothing more, and
whether the gateway was stopped. -/
structure Known where
  request : Request → Prop
  subscription : Subscription → Prop
  started : Subscription → Prop
  link : Link → Prop
  stopped : Prop

structure Known.Le (k k' : Known) : Prop where
  request : ∀ {r}, k.request r → k'.request r
  subscription : ∀ {s}, k.subscription s → k'.subscription s
  started : ∀ {s}, k.started s → k'.started s
  link : ∀ {l}, k.link l → k'.link l
  stopped : k.stopped → k'.stopped

/-- A known link of the client. -/
def Known.linkOf (k : Known) (client : Nat) (l : Link) : Prop := k.link l ∧ l.client = client

def Purpose.Valid (k : Known) : Purpose → Prop
  | .routed r _ => k.request r ∧ r.subscription = none
  | .present r _ _ => k.request r ∧ r.subscription = none
  | .watch r s => k.request r ∧ r.subscription = some s ∧ k.subscription s
  | .refresh s => k.subscription s ∧ k.started s

def Callback.Valid (k : Known) (l : Link) : Callback → Prop
  | .delegate => True
  | .forward r => k.request r ∧ r.subscription = none ∧ r.client = l.client
  | .watch r s => k.request r ∧ r.subscription = some s ∧ k.subscription s ∧ r.client = l.client
  | .restore s _ _ => k.subscription s ∧ k.started s ∧ s.client = l.client
  | .rewatch s => k.subscription s ∧ k.started s ∧ s.client = l.client
  | .unpossess s _ => k.subscription s ∧ s.client = l.client

def Call.Valid (k : Known) (call : Call) : Prop := k.link call.link ∧ call.callback.Valid k call.link

def Task.Valid (k : Known) : Task → Prop
  | .finish r result => k.request r ∧ result.status ≠ .ok
  | .reply r result => k.request r ∧ result.status ≠ .ok
  | .dropLink l => k.link l
  | .located p _ _ => p.Valid k
  | .linked p (.error status) => p.Valid k ∧ status ≠ .ok
  | .linked p (.ok l) => p.Valid k ∧ k.linkOf p.client l
  | .answer call _ => call.Valid k
  | .opened l _ => k.link l
  | .failed l status waiting => k.link l ∧ status ≠ .ok ∧ ∀ p ∈ waiting, p.Valid k
  | .pollRequest r _ => k.request r
  | .closeLink l => k.link l
  | .stopLinks => k.stopped
  | .stopEnd => k.stopped
  | _ => True

def Destination.Valid (k : Known) (client : Nat) : Destination → Prop
  | .client c => c = client
  | .owner l => k.linkOf client l

def Event.Valid (k : Known) : Event → Prop
  | .notified client origin channel id data =>
    (∃ s, k.subscription s ∧ s.id = id ∧ s.client = client) ∧
      ∀ l, origin = some l → k.linkOf client l ∧ Under id (channel.packet data)
  | .replied r origin result _ =>
    k.request r ∧ (∀ l, origin = some l → k.linkOf r.client l) ∧
      (result.status = .ok → ∀ s, r.subscription = some s → Under s.id result.data)
  | .refused _ _ => True

/-- Every link, callback and subscription is of the client it is kept for. -/
structure Wired (k : Known) (g : Gateway) : Prop where
  links : ∀ {p l}, g.links.find p = some l → l.peer = p ∧ k.link l
  waiters : ∀ {l id p}, l ∈ g.opened → (g.linkStates l.peer).waiters.find id = some p → p.Valid k ∧ p.client = l.client
  lookups : ∀ {entity lookup id p}, g.lookups entity = some lookup → lookup.waiters.find id = some p → p.Valid k
  sessionLinks : ∀ {c session index l}, g.sessions.find c = some session → session.links.find index = some l →
    k.linkOf c l
  subscriptions : ∀ {id s}, g.subscriptions.find id = some s → s.id = id ∧ k.subscription s
  subscriptionLinks : ∀ {s l}, s ∈ g.created → (g.subscription s).link = some l → k.linkOf s.client l
  reverse : ∀ {peer remote id}, g.reverse peer remote = some id →
    ∃ l s, k.link l ∧ l.peer = peer ∧ k.subscription s ∧ s.id = id ∧ s.client = l.client
  calls : ∀ call ∈ g.calls, call.Valid k
  stack : ∀ t ∈ g.stack, t.Valid k
  replies : ∀ r ∈ g.admitted, r.reply.Valid k r.client
  retries : ∀ r ∈ g.admitted, ∀ {key}, (g.request r).retry = some key → r.subscription = none
  log : ∀ e ∈ g.log, e.Valid k

/-- Numbers are given out upwards. -/
structure Numbered (g : Gateway) : Prop where
  peers : (g.opened.map Link.peer).Nodup
  peers_le : ∀ l ∈ g.opened, l.peer ≤ g.peerSerial
  ids : (g.created.map Subscription.id).Nodup
  ids_pos : ∀ s ∈ g.created, 0 < s.id ∧ s.id ≤ g.serial
  requests : (g.admitted.map Request.id).Nodup
  requests_le : ∀ r ∈ g.admitted, r.id ≤ g.serial

namespace Gateway

variable (g : Gateway)

/-- Nothing more reaches the client. -/
def ended (client : Nat) : Prop := g.closed client = true ∨ g.stopped = true

def Started (s : Subscription) : Prop := g.ended s.client ∨ stream s.id g.log ≠ []

def known : Known := ⟨(· ∈ g.admitted), (· ∈ g.created), g.Started, (· ∈ g.opened), g.stopped = true⟩

/-- Packets may come for the subscription. -/
def serving (s : Subscription) : Prop :=
  (g.subscription s).busy = false ∨ s.automatic = true ∨ ∃ peer remote, g.reverse peer remote = some s.id

/-- A finish of the request is still to run. -/
def finishing (r : Request) : Prop := ∃ result, .finish r result ∈ g.stack

/-- The call waits for its reply, or its reply is still to be handled. -/
def awaits (call : Call) : Prop := call ∈ g.calls ∨ ∃ result, .answer call result ∈ g.stack

end Gateway

/-! ## Streams, control and requests -/

structure Streams (owed : Option Nat) (g : Gateway) : Prop where
  continuous : ∀ id, Continuous (stream id g.log)
  revision : ∀ {s}, g.registered s → ¬g.ended s.client → owed ≠ some s.id → ∀ {last rest},
    stream s.id g.log = last :: rest → last.revision = (g.subscription s).revision
  started : ∀ {s}, g.registered s → owed ≠ some s.id → g.serving s → g.Started s
  untouched : ∀ r ∈ g.admitted, ∀ s, r.subscription = some s → (g.request r).done = false → stream s.id g.log = []

/-- A restore was started in the subscription's present state of control, or that state was changed since. -/
def Current (t : SubscriptionState) (control : Bool) (epoch : Nat) : Prop :=
  epoch ≤ t.controlEpoch ∧ (t.controlEpoch = epoch → t.controlled = control)

structure Controls (mixed : Bool) (owed : Option Nat) (g : Gateway) : Prop where
  controlled : ∀ {session s}, g.sessions.find s.client = some session → g.registered s →
    (g.subscription s).controlled = true → g.closed s.client = false → owed ≠ some s.id → session.controlled = s.id
  owner : ∀ {c session}, g.sessions.find c = some session →
    session.controlled = 0 ∨ ∃ s ∈ g.created, s.id = session.controlled ∧ s.client = c
  sessioned : ∀ {s}, g.registered s → g.ended s.client ∨ (g.sessions.find s.client).isSome = true
  restores : mixed = false → ∀ {call}, g.awaits call → ∀ {s control epoch},
    call.callback = .restore s control epoch → Current (g.subscription s) control epoch

structure Serves (owed : Option Nat) (g : Gateway) : Prop where
  table : ∀ {id r}, g.requests.find id = some r → r.id = id ∧ r ∈ g.admitted ∧ (g.request r).done = false
  pending : ∀ r ∈ g.admitted, (g.request r).done = false → g.requests.find r.id = some r
  queued : g.queuedBytes = (g.requests.entries.map fun e => e.2.bytes).sum
  once : (answered g.log ++ replying g.stack).Nodup
  done : ∀ r ∈ g.admitted, (r.id ∈ answered g.log ++ replying g.stack ↔ (g.request r).done = true ∧ owed ≠ some r.id)
  session : ∀ r ∈ g.admitted, (g.request r).done = false → owed ≠ some r.id →
    (∃ session, g.sessions.find r.client = some session ∧ session.subject = r.subject ∧
      session.connection = r.connection) ∨ g.finishing r
  stopped : g.stopped = true → ∀ r ∈ g.admitted, (g.request r).done = false → owed ≠ some r.id → g.finishing r
  revoked : ∀ c ∈ g.revoked, g.closed c = true ∧ g.sessions.find c = none
  polled : ∀ time ∈ g.polls, time ≤ g.now ∧ ∀ r ∈ g.admitted, (g.request r).done = false → owed ≠ some r.id →
    r.deadline ≤ time → .pollRequests time ∈ g.stack ∨ .pollRequest r time ∈ g.stack
  answers : ∀ {r origin result who}, .replied r origin result who ∈ g.log → result.status = .ok →
    ∃ identity, who = some identity ∧ identity.caller = .client ∧ identity.subject = r.subject ∧
      identity.connection = r.connection

structure Sound (mixed : Bool) (x y z : Option Nat) (g : Gateway) : Prop where
  numbered : Numbered g
  wired : Wired g.known g
  streams : Streams x g
  controls : Controls mixed y g
  serves : Serves z g
  watches : ∀ r ∈ g.admitted, ∀ s, r.subscription = some s → s ∈ g.created

/-! ## What is known stays known -/

variable {k k' : Known}

theorem Known.Le.linkOf (h : k.Le k') {client : Nat} {l : Link} (hl : k.linkOf client l) :
    k'.linkOf client l := ⟨h.link hl.1, hl.2⟩

theorem Purpose.Valid.mono (h : k.Le k') {p : Purpose} (hp : p.Valid k) : p.Valid k' := by
  cases p with
  | routed | present => exact ⟨h.request hp.1, hp.2⟩
  | watch => exact ⟨h.request hp.1, hp.2.1, h.subscription hp.2.2⟩
  | refresh => exact ⟨h.subscription hp.1, h.started hp.2⟩

theorem Callback.Valid.mono (h : k.Le k') {l : Link} {c : Callback} (hc : c.Valid k l) : c.Valid k' l := by
  cases c with
  | delegate => trivial
  | forward => exact ⟨h.request hc.1, hc.2⟩
  | watch => exact ⟨h.request hc.1, hc.2.1, h.subscription hc.2.2.1, hc.2.2.2⟩
  | restore | rewatch => exact ⟨h.subscription hc.1, h.started hc.2.1, hc.2.2⟩
  | unpossess => exact ⟨h.subscription hc.1, hc.2⟩

theorem Call.Valid.mono (h : k.Le k') {c : Call} (hc : c.Valid k) : c.Valid k' :=
  ⟨h.link hc.1, hc.2.mono h⟩

theorem Task.Valid.mono (h : k.Le k') {t : Task} (ht : t.Valid k) : t.Valid k' := by
  cases t with
  | finish | reply => exact ⟨h.request ht.1, ht.2⟩
  | dropLink | opened | closeLink => exact h.link ht
  | located => exact Purpose.Valid.mono h ht
  | linked p result =>
    cases result with
    | error => exact ⟨Purpose.Valid.mono h ht.1, ht.2⟩
    | ok => exact ⟨Purpose.Valid.mono h ht.1, h.linkOf ht.2⟩
  | answer => exact Call.Valid.mono h ht
  | failed => exact ⟨h.link ht.1, ht.2.1, fun p hp => (ht.2.2 p hp).mono h⟩
  | pollRequest => exact h.request ht
  | stopLinks | stopEnd => exact h.stopped ht
  | _ => trivial

theorem Destination.Valid.mono (h : k.Le k') {client : Nat} {d : Destination} (hd : d.Valid k client) :
    d.Valid k' client := by
  cases d with
  | client => exact hd
  | owner => exact h.linkOf hd

theorem Event.Valid.mono (h : k.Le k') {e : Event} (he : e.Valid k) : e.Valid k' := by
  cases e with
  | notified =>
    obtain ⟨⟨s, hs, hid⟩, ho⟩ := he
    exact ⟨⟨s, h.subscription hs, hid⟩, fun l hl => ⟨h.linkOf (ho l hl).1, (ho l hl).2⟩⟩
  | replied => exact ⟨h.request he.1, fun l hl => h.linkOf (he.2.1 l hl), he.2.2⟩
  | refused => trivial

theorem Wired.mono (h : k.Le k') {g : Gateway} (hw : Wired k g) : Wired k' g where
  links hl := ⟨(hw.links hl).1, h.link (hw.links hl).2⟩
  waiters hl hp := ⟨(hw.waiters hl hp).1.mono h, (hw.waiters hl hp).2⟩
  lookups hl hp := (hw.lookups hl hp).mono h
  sessionLinks hs hl := h.linkOf (hw.sessionLinks hs hl)
  subscriptions hs := ⟨(hw.subscriptions hs).1, h.subscription (hw.subscriptions hs).2⟩
  subscriptionLinks hs hl := h.linkOf (hw.subscriptionLinks hs hl)
  reverse hr := by
    obtain ⟨l, s, hl, hp, hs, hid, hc⟩ := hw.reverse hr
    exact ⟨l, s, h.link hl, hp, h.subscription hs, hid, hc⟩
  calls call hc := (hw.calls call hc).mono h
  stack t ht := (hw.stack t ht).mono h
  replies r hr := (hw.replies r hr).mono h
  retries := hw.retries
  log e he := (hw.log e he).mono h

end Fsnet.ClientGateway
