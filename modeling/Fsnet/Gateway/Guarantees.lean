import Fsnet.Gateway.Control
import Fsnet.Gateway.Draining
/-!
# What a client gateway guarantees

For every behaviour of clients, owners, the network and the storage, and every
order the gateway's callbacks run in: what a client receives for a subscription is
a stream a replica can follow, nothing reaches a client that arrived on a link of
another one, and a client controls at most one subscription.
-/

namespace Fsnet.ClientGateway

open Lib List

/-- What holds in every state a gateway reaches. -/
theorem holds_run (limits : Limits) (inputs : List (Oracle × Action)) :
    Holds true (run Gateway.step (Gateway.init limits) inputs) :=
  run_inv (fun _ _ h => h.step (by simp)) (Sound.init limits) inputs

/-- And what holds of restores besides, if every step was steady. -/
theorem holds_run_steady (limits : Limits) {inputs : List (Oracle × Action)}
    (h : Along Gateway.step Gateway.Steady (Gateway.init limits) inputs) :
    Holds false (run Gateway.step (Gateway.init limits) inputs) :=
  run_inv_along (fun _ _ hs h => h.step fun _ => hs) (Sound.init limits) h

/-! ## Streams -/

/-- What the gateway sent for a subscription id starts with a snapshot, and every later
packet is a delta to the one before it or a snapshot no older than it. -/
theorem forwarded_stream_continuous (limits : Limits) (inputs : List (Oracle × Action)) (id : Nat) :
    Continuous (stream id (run Gateway.step (Gateway.init limits) inputs).log) :=
  (holds_run limits inputs).streams.continuous id

/-! ## Isolation -/

/-- Where a reply goes: to the client, or back over a link of that client. -/
def Destination.isFor (client : Nat) : Destination → Prop
  | .client c => c = client
  | .owner l => l.client = client

/-- What arrived on a link stays with the client the link was opened for. -/
structure Isolated (g : Gateway) : Prop where
  /-- a packet is sent to the client of the link it came from, under an id of that client -/
  packets : ∀ {client l channel id data}, .notified client (some l) channel id data ∈ g.log →
    l ∈ g.opened ∧ l.client = client ∧ Under id (channel.packet data) ∧ ∃ s ∈ g.created, s.id = id ∧ s.client = client
  /-- so is a reply, and the snapshot in the reply to a watch -/
  replies : ∀ {r l result who}, .replied r (some l) result who ∈ g.log →
    l ∈ g.opened ∧ l.client = r.client ∧ r.reply.isFor r.client ∧
      (result.status = .ok → ∀ s, r.subscription = some s → s ∈ g.created ∧ s.client = r.client ∧
        Under s.id result.data)
  /-- an id was made for one client -/
  ids : ∀ s ∈ g.created, ∀ s' ∈ g.created, s.id = s'.id → s = s'
  /-- and a remote id of a link stands for a subscription of the link's client -/
  reverse : ∀ {l remote id s}, l ∈ g.opened → g.reverse l.peer remote = some id → g.subscriptions.find id = some s →
    s.client = l.client

theorem client_isolation (limits : Limits) (inputs : List (Oracle × Action)) :
    Isolated (run Gateway.step (Gateway.init limits) inputs) := by
  have h := holds_run limits inputs
  refine ⟨?_, ?_, ?_, ?_⟩
  · intro client l _ id _ he
    obtain ⟨⟨s, hs, hid, hc⟩, ho⟩ := h.wired.log _ he
    obtain ⟨hl, hunder⟩ := ho l rfl
    exact ⟨hl.1, hl.2, hunder, s, hs, hid, hc⟩
  · intro r l _ _ he
    obtain ⟨hr, ho, hu⟩ := h.wired.log _ he
    refine ⟨(ho l rfl).1, (ho l rfl).2, ?_, fun hok s hs => ⟨h.watches r hr s hs, ?_, hu hok s hs⟩⟩
    · have hreply := h.wired.replies r hr
      unfold Destination.isFor
      cases hd : r.reply with
      | client =>
        rw [hd] at hreply
        exact hreply
      | owner =>
        rw [hd] at hreply
        exact hreply.2
    · unfold Request.subscription at hs
      obtain ⟨_, -, rfl⟩ := Option.map_eq_some_iff.1 hs
      rfl
  · intro s hs _ hs' hid
    exact h.numbered.subscription_eq hs hs' hid
  · intro l _ id s hl hr hs
    obtain ⟨_, _, hl', hpeer, hs', hid, hc⟩ := h.wired.reverse hr
    obtain rfl := h.numbered.link_eq hl' hl hpeer
    obtain ⟨hsid, hcreated⟩ := h.wired.subscriptions hs
    obtain rfl := h.numbered.subscription_eq hcreated hs' (hsid.trans hid.symm)
    exact hc

/-- What is asked for a client goes over the links that were opened for it. The `unwatch` calls,
whose replies nothing handles, are not modelled. -/
structure Outbound (g : Gateway) : Prop where
  /-- but for the `delegate` of the link itself, a call is made for a request or a subscription of the link's client -/
  calls : ∀ call ∈ g.calls, call.link ∈ g.opened ∧ call.callback.Valid g.known call.link
  waiters : ∀ {l id p}, l ∈ g.opened → (g.linkStates l.peer).waiters.find id = some p → p.client = l.client
  sessions : ∀ {c session index l}, g.sessions.find c = some session → session.links.find index = some l →
    l ∈ g.opened ∧ l.client = c
  subscriptions : ∀ {s l}, s ∈ g.created → (g.subscription s).link = some l → l ∈ g.opened ∧ l.client = s.client

theorem outbound_isolation (limits : Limits) (inputs : List (Oracle × Action)) :
    Outbound (run Gateway.step (Gateway.init limits) inputs) := by
  have h := (holds_run limits inputs).wired
  exact ⟨h.calls, fun hl hp => (h.waiters hl hp).2, h.sessionLinks, h.subscriptionLinks⟩

/-! ## Requests -/

/-- The requests that were admitted and neither answered nor about to be answered by the callback that runs. -/
def Gateway.unanswered (g : Gateway) : List Request :=
  g.admitted.filter fun r => r.id ∉ answered g.log ++ replying g.stack

/-- Every admitted request is answered once, in time and only to the one who made it. -/
structure Accountable (g : Gateway) : Prop where
  once : (answered g.log).Nodup
  /-- between callbacks, a request whose deadline a poll saw or whose client or gateway is gone was answered -/
  due : g.stack = [] → ∀ r ∈ g.admitted,
    ((∃ time ∈ g.polls, r.deadline ≤ time) ∨ r.client ∈ g.revoked ∨ g.stopped = true) → r.id ∈ answered g.log
  /-- and the callbacks under way come to an end, whatever is answered to them -/
  drains : ∀ o : Nat → Oracle, ∃ n, (run Gateway.step g ((List.range n).map fun i => (o i, .run))).stack = []
  queued : g.queuedBytes = (g.unanswered.map Request.bytes).sum
  genuine : ∀ {r origin result who}, .replied r origin result who ∈ g.log → result.status = .ok →
    ∃ identity, who = some identity ∧ identity.caller = .client ∧ identity.subject = r.subject ∧
      identity.connection = r.connection

/-- The table of requests holds those that are unanswered. -/
theorem Sound.perm_unanswered {mixed : Bool} {g : Gateway} (h : Holds mixed g) :
    (g.requests.entries.map Prod.snd).Perm g.unanswered := by
  have htable : (g.requests.entries.map Prod.snd).Nodup := by
    refine List.Nodup.map_on ?_ g.requests.sorted.nodup
    rintro ⟨id, r⟩ he ⟨id', r'⟩ he' heq
    obtain rfl : r = r' := heq
    have hid := (h.serves.table ((g.requests.mem_entries_iff id r).1 he)).1
    have hid' := (h.serves.table ((g.requests.mem_entries_iff id' r).1 he')).1
    rw [← hid, ← hid']
  have hadmitted : g.unanswered.Nodup := (List.Nodup.of_map Request.id h.numbered.requests).filter _
  rw [perm_ext_iff_of_nodup htable hadmitted]
  intro r
  unfold Gateway.unanswered
  rw [mem_filter]
  constructor
  · intro hr
    obtain ⟨⟨id, r'⟩, he, rfl⟩ := mem_map.1 hr
    obtain ⟨-, hmem, hdone⟩ := h.serves.table ((g.requests.mem_entries_iff id r').1 he)
    refine ⟨hmem, ?_⟩
    rw [decide_eq_true_iff, h.serves.done r' hmem, hdone]
    simp
  · rintro ⟨hmem, hnot⟩
    rw [decide_eq_true_iff, h.serves.done r hmem] at hnot
    have hfind := h.serves.pending r hmem (by simpa using hnot)
    exact mem_map.2 ⟨(r.id, r), (g.requests.mem_entries_iff r.id r).2 hfind, rfl⟩

/-- Between callbacks, a request that is due was answered. -/
theorem Sound.answered_of_due {mixed : Bool} {g : Gateway} (h : Holds mixed g) (hg : g.stack = []) {r : Request}
    (hr : r ∈ g.admitted)
    (hdue : (∃ time ∈ g.polls, r.deadline ≤ time) ∨ r.client ∈ g.revoked ∨ g.stopped = true) :
    r.id ∈ answered g.log := by
  have hfinishing : ¬g.finishing r := by
    rintro ⟨_, hmem⟩
    rw [hg] at hmem
    cases hmem
  have hdone : (g.request r).done = true := by
    by_contra hnot
    have hnot : (g.request r).done = false := by simpa using hnot
    rcases hdue with ⟨time, htime, hle⟩ | hrevoked | hstopped
    · rcases (h.serves.polled time htime).2 r hr hnot (by simp) hle with hmem | hmem
      · rw [hg] at hmem
        cases hmem
      · rw [hg] at hmem
        cases hmem
    · rcases h.serves.session r hr hnot (by simp) with ⟨_, hfind, -⟩ | hfin
      · rw [(h.serves.revoked r.client hrevoked).2] at hfind
        cases hfind
      · exact hfinishing hfin
    · exact hfinishing (h.serves.stopped hstopped r hr hnot (by simp))
  have hanswered := (h.serves.done r hr).2 ⟨hdone, by simp⟩
  rw [hg] at hanswered
  simpa [replying] using hanswered

/-- A client that is not closed controls at most one subscription, the one its session records. -/
structure SingleControl (g : Gateway) : Prop where
  recorded : ∀ {session s}, g.sessions.find s.client = some session → g.closed s.client = false → g.registered s →
    (g.subscription s).controlled = true → session.controlled = s.id
  single : ∀ {session s s'}, g.sessions.find s.client = some session → g.closed s.client = false →
    s'.client = s.client →
    g.registered s → g.registered s' → (g.subscription s).controlled = true → (g.subscription s').controlled = true →
    s = s'

/-- The reply to a restore never makes its subscription controlled: the restore asked for
what the subscription was when it started, and nothing else was decided since. -/
def RestoresSafely (g : Gateway) : Prop :=
  ∀ o call result rest s control epoch, g.stack = .answer call result :: rest →
    call.callback = .restore s control epoch →
    (g.subscription s).controlled = false → ((g.step (o, .run)).subscription s).controlled = false

theorem Sound.singleControl {mixed : Bool} {g : Gateway} (h : Holds mixed g) : SingleControl g := by
  have hrecorded : ∀ {session s}, g.sessions.find s.client = some session → g.closed s.client = false → g.registered s →
      (g.subscription s).controlled = true → session.controlled = s.id :=
    fun hf ho hr hc => h.controls.controlled hf hr hc ho (by simp)
  refine ⟨hrecorded, fun {session s s'} hf ho hclient hr hr' hc hc' => ?_⟩
  have hid := (hrecorded hf ho hr hc).symm.trans (hrecorded (hclient ▸ hf) (hclient ▸ ho) hr' hc')
  exact h.numbered.subscription_eq (h.created hr) (h.created hr') hid

theorem Sound.restoresSafely {g : Gateway} (h : Holds false g) : RestoresSafely g := by
  intro o _ result rest s control epoch hg hcall hc
  have hcurrent : Current (g.subscription s) control epoch :=
    h.controls.restores rfl (.inr ⟨result, hg ▸ mem_cons_self⟩) hcall
  unfold Gateway.step
  dsimp only
  rw [hg]
  dsimp only [Gateway.exec]
  unfold Gateway.answer
  rw [hcall]
  exact restoreAnswered_controlled (g := { g with stack := rest }) hcurrent hc result

/-- Control in every state; and for restores, in every run in which no confirmed restore
resumes a subscription that is in another state of control than the one confirmed. -/
theorem control_is_single (limits : Limits) (inputs : List (Oracle × Action)) :
    SingleControl (run Gateway.step (Gateway.init limits) inputs) ∧
      (Along Gateway.step Gateway.Steady (Gateway.init limits) inputs →
        RestoresSafely (run Gateway.step (Gateway.init limits) inputs)) :=
  ⟨(holds_run limits inputs).singleControl, fun h => (holds_run_steady limits h).restoresSafely⟩

namespace Crossing

/-! Two subscriptions of one entity migrate. The owner confirms the restore of the first
under the remote id of the second, which so loses its control with its epoch unchanged;
then the client possesses another entity, and the second restore is confirmed. -/

def player : Bytes := ascii "player"

def alice : CallIdentity := ⟨.client, ascii "alice", 7, ⟨List.replicate 32 97, 1⟩⟩

def entity (last : UInt8) : Bytes := List.replicate 15 48 ++ [last]

def bytes : Except Failure Bytes → Bytes
  | .error _ => []
  | .ok data => data

def shown (remote : Nat) (id : Bytes) : Bytes :=
  bytes (encodeReplicationPacket remote player id .ok (some ⟨0, 1, true, [], []⟩) 0)

def gone (remote : Nat) (id : Bytes) : Bytes := bytes (encodeReplicationPacket remote player id .disconnected none 0)

def link : Link := ⟨1, 7, 0⟩

def first : Subscription := ⟨3, 7, player, entity 50, true, false⟩

def second : Subscription := ⟨4, 7, player, entity 50, true, false⟩

def select : Oracle := { endpoint := some 0 }

/-- Both subscriptions are shown, lost and asked for again, the second one with control. -/
def restoring : List (Oracle × Action) := [
  ({}, .identify 7 (some alice)), ({}, .watch alice (bytes (encodeEntityKey player (entity 49)))),
  ({}, .locate (entity 49) false (some player)), (select, .run), ({}, .connect 1),
  ({}, .answer ⟨1, link, .delegate⟩ ⟨.ok, []⟩), ({}, .run), ({}, .run),
  ({}, .notice 1 .presence ([1, 0] ++ shown 11 (entity 50))),
  ({}, .notice 1 .presence ([1, 2] ++ shown 12 (entity 50))),
  ({}, .notice 1 .attributes (gone 11 (entity 50))), ({}, .notice 1 .attributes (gone 12 (entity 50))),
  ({}, .poll 64), ({}, .run), ({}, .run), ({}, .run), ({}, .run), ({}, .run), ({}, .run), ({}, .run),
  ({}, .locate (entity 50) false (some player)), (select, .run), ({}, .run), (select, .run), ({}, .run)]

def confirmation : Call := ⟨4, link, .restore second true 0⟩

/-- The second restore is confirmed as it should be. -/
def confirmed : Oracle × Action := ({}, .answer confirmation ⟨.ok, [1, 2] ++ shown 12 (entity 50)⟩)

/-- The restore of the first resumes the second instead, and the client possesses a third. -/
def crossed : List (Oracle × Action) := [
  ({}, .answer ⟨3, link, .restore first false 0⟩ ⟨.ok, [1, 0] ++ shown 12 (entity 50)⟩), ({}, .run),
  ({}, .notice 1 .presence ([1, 2] ++ shown 13 (entity 51)))]

def afterCrossing : Gateway := run Gateway.step (Gateway.init {}) (restoring ++ crossed ++ [confirmed])

/-- The reply that is handled next. -/
def nextAnswer : List Task → Option (Call × Result)
  | .answer call result :: _ => some (call, result)
  | _ => none

theorem nextAnswer_eq_some {stack : List Task} {call : Call} {result : Result}
    (h : nextAnswer stack = some (call, result)) : ∃ rest, stack = .answer call result :: rest := by
  unfold nextAnswer at h
  split at h
  · cases h
    exact ⟨_, rfl⟩
  · cases h

def Callback.isRestore : Callback → Bool
  | .restore _ _ _ => true
  | _ => false

/-- The step does not handle the reply to a restore. -/
def passesRestores (g : Gateway) (input : Oracle × Action) : Bool :=
  match input.2 with
  | .run => (nextAnswer g.stack).all fun a => !Callback.isRestore a.1.callback
  | _ => true

theorem steady_of_passesRestores {g : Gateway} {input : Oracle × Action} (h : passesRestores g input = true) :
    g.Steady input := by
  rintro hrun _ _ _ hg ⟨s, _, _, n, _, hcall, -⟩
  simp [passesRestores, hrun, hg, nextAnswer, hcall, Callback.isRestore] at h

end Crossing

open Crossing in
/-- While the second restore is under way nothing has crossed, so its reply is safe. -/
theorem control_is_single_restoring :
    Along Gateway.step Gateway.Steady (Gateway.init {}) (restoring ++ [confirmed]) ∧
      RestoresSafely (run Gateway.step (Gateway.init {}) (restoring ++ [confirmed])) := by
  have h : Along Gateway.step Gateway.Steady (Gateway.init {}) (restoring ++ [confirmed]) := by
    refine Along.mono (fun g _ => steady_of_passesRestores) ?_
    set_option maxRecDepth 100000 in decide +kernel
  exact ⟨h, (control_is_single {} _).2 h⟩

open Crossing in
set_option maxRecDepth 100000 in
/-- After the crossing the control of the second was superseded, and its restore takes it again. -/
theorem crossed_restore_takes_control : ¬RestoresSafely afterCrossing := by
  have hnext : nextAnswer afterCrossing.stack = some (confirmation, ⟨.ok, [1, 2] ++ shown 12 (entity 50)⟩) := by
    decide +kernel
  have hbefore : (afterCrossing.subscription second).controlled = false := by decide +kernel
  have hafter : ((afterCrossing.step ({}, .run)).subscription second).controlled = true := by decide +kernel
  intro h
  obtain ⟨rest, hstack⟩ := nextAnswer_eq_some hnext
  have hsafe := h {} confirmation _ rest second true 0 hstack rfl hbefore
  exact Bool.noConfusion (hsafe.symm.trans hafter)

end Fsnet.ClientGateway
