import Fsnet.Gateway.Routing
/-!
# Notices keep the invariant

A notice arrives on a link and is delivered to a subscription of the link's client.
What the client is sent is the notice with its own id in it, and follows what it
was sent before.
-/

namespace Fsnet.ClientGateway

open Lib Function

variable {mixed : Bool} {x y z : Option Nat} {g : Gateway} {s : Subscription} {l : Link} {n : Notice} {o : Oracle}

/-! ## What a notice carries -/

/-- The parts of a notice are those of its bytes. -/
structure Notice.Reads (n : Notice) : Prop where
  packet : decodeReplicationPacketView n.body = .ok n.packet
  attributes : n.channel = .attributes → n.data = n.body
  presence : n.channel = .presence → n.data = n.kind :: n.flags :: n.body

theorem readNotice_eq_some {channel : Channel} {data : Bytes} (h : readNotice channel data = some n) :
    n.Reads ∧ n.channel = channel := by
  unfold readNotice at h
  cases channel with
  | attributes =>
    dsimp only at h
    split at h
    · cases h
    · rename_i hp
      obtain rfl := Option.some.inj h
      exact ⟨⟨hp, fun _ => rfl, by simp⟩, rfl⟩
  | presence =>
    dsimp only at h
    split at h
    · split at h
      · cases h
      split at h
      · cases h
      · rename_i hp
        obtain rfl := Option.some.inj h
        exact ⟨⟨hp, by simp, fun _ => rfl⟩, rfl⟩
    · cases h

/-- What a notice adds to the stream of the subscription it is forwarded for. -/
def Notice.header (n : Notice) (started : Bool) : Option ReplicationUpdateHeader :=
  match n.channel with
  | .attributes => n.packet.update
  | .presence => if started = false ∧ n.kind = 1 then n.packet.update else none

theorem updateOf_remap {data out : Bytes} {packet : ReplicationPacketView} {id : Nat}
    (h : decodeReplicationPacketView data = .ok packet) (ho : remapReplicationSubscription data id 0 = .ok out) :
    updateOf out = packet.update := by
  unfold updateOf
  rw [decode_remap h ho]

/-- Under the id of the subscription the notice carries what it carried. -/
theorem Notice.Reads.header_eq (hn : n.Reads) {data : Bytes} {id : Nat}
    (h : remapReplicationSubscription n.data id n.skip = .ok data) (client : Nat) (origin : Option Link)
    (started : Bool) :
    (Event.notified client origin n.channel id data).header id started = n.header started := by
  unfold Notice.skip at h
  unfold Notice.header
  cases hc : n.channel with
  | attributes =>
    rw [hc, if_neg (by simp), hn.attributes hc] at h
    simp [Event.header, updateOf_remap hn.packet h]
  | presence =>
    rw [hc, if_pos rfl, hn.presence hc] at h
    obtain ⟨_, rfl, hrest⟩ := remap_presence h
    simp [Event.header, updateOf_remap hn.packet hrest]

theorem Notice.Reads.under (hn : n.Reads) {data : Bytes} {id : Nat}
    (h : remapReplicationSubscription n.data id n.skip = .ok data) : Under id (n.channel.packet data) := by
  unfold Notice.skip at h
  cases hc : n.channel with
  | attributes =>
    rw [hc, if_neg (by simp), hn.attributes hc] at h
    exact .remap hn.packet h
  | presence =>
    rw [hc, if_pos rfl, hn.presence hc] at h
    obtain ⟨_, rfl, hrest⟩ := remap_presence h
    exact .remap hn.packet hrest

/-! ## Whom a notice is for -/

/-- The subscription a remote id of a link stands for is one of the link's client. -/
theorem Sound.addressee (h : Sound mixed x y z g) (hl : l ∈ g.opened) {remote : Nat}
    (ha : g.addressee l remote = some s) : g.registered s ∧ s.client = l.client ∧ g.serving s := by
  obtain ⟨_, hr, hf⟩ := Option.bind_eq_some_iff.1 ha
  obtain ⟨hid, hs⟩ := h.wired.subscriptions hf
  obtain ⟨_, _, hl', hpeer, hs', hid', hc⟩ := h.wired.reverse hr
  obtain rfl := h.numbered.link_eq hl' hl hpeer
  obtain rfl := h.numbered.subscription_eq hs hs' (hid.trans hid'.symm)
  refine ⟨?_, hc, .inr (.inr ⟨_, _, hid ▸ hr⟩)⟩
  unfold Gateway.registered
  rwa [hid]

theorem Sound.resuming (h : Sound mixed x y z g) (hl : l ∈ g.opened) {remote : Nat} {packet : ReplicationPacketView}
    (hr : g.resuming o l packet (g.addressee l remote) = some s) :
    g.registered s ∧ s.client = l.client ∧ g.serving s := by
  unfold Gateway.resuming at hr
  rcases Option.or_eq_some_iff.1 hr with ha | ⟨-, hf⟩
  · exact h.addressee hl ha
  have hp := List.find?_some hf
  obtain ⟨_, hfind⟩ := o.mem_values.1 (List.mem_of_find?_eq_some hf)
  simp only [Bool.and_eq_true, decide_eq_true_eq] at hp
  obtain ⟨⟨⟨⟨hauto, -⟩, hc⟩, -⟩, -⟩ := hp
  refine ⟨?_, hc, .inr (.inl hauto)⟩
  unfold Gateway.registered
  rwa [(h.wired.subscriptions hfind).1]

/-! ## Forwarding -/

/-- The subscription can be sent the notice: it was started, or the notice is its first packet. -/
def Ready (g : Gateway) (n : Notice) (s : Subscription) (x : Option Nat) : Prop :=
  match n.header (!(stream s.id g.log).isEmpty) with
  | none => x = none
  | some header => Extends g s header

theorem Sound.forward (h : Sound mixed x y z g) (hn : n.Reads) (hs : s ∈ g.created) (hl : g.known.linkOf s.client l)
    (hx : Only x s) (hr : Ready g n s x) : Sound mixed none y z (g.forward o l n s) := by
  unfold Gateway.forward
  split
  · have hclosed : (g.close l.client).closed s.client = true := hl.2 ▸ closed_close g l.client
    exact h.close.payStream hs hx fun _ =>
      ⟨fun _ => .inl (.inl hclosed), fun ho => absurd (.inl hclosed) ho⟩
  rename_i data hdata
  have horigin : ∀ l', some l = some l' → g.known.linkOf s.client l' ∧ Under s.id (n.channel.packet data) := by
    rintro _ heq
    exact ⟨Option.some.inj heq ▸ hl, hn.under hdata⟩
  have heq := hn.header_eq hdata s.client (some l) (!(stream s.id g.log).isEmpty)
  unfold Ready at hr
  cases hh : n.header (!(stream s.id g.log).isEmpty) with
  | none =>
    rw [hh] at hr heq
    obtain rfl : x = none := hr
    exact h.notifyQuiet hs horigin heq
  | some =>
    rw [hh] at hr heq
    exact h.notifyPacket hs horigin hx heq hr

/-- Nothing waits for the first packet of a subscription that has had one. -/
theorem Streams.done_of_started (h : Streams x g) (hst : stream s.id g.log ≠ []) :
    ∀ r ∈ g.admitted, ∀ s', r.subscription = some s' → s'.id = s.id → (g.request r).done = true := by
  intro r hr s' hs' hid
  by_contra hd
  have hempty := h.untouched r hr s' hs' (Bool.eq_false_of_not_eq_true hd)
  rw [hid] at hempty
  exact hst hempty

/-- A packet without a gap may follow. -/
theorem Sound.later (h : Sound mixed x y z g) (hs : g.registered s) (hx : x ≠ some s.id) (ho : ¬g.ended s.client)
    {header : ReplicationUpdateHeader} (hgap : gap header (g.subscription s).revision = false)
    {last : ReplicationUpdateHeader} {rest : List ReplicationUpdateHeader} (hst : stream s.id g.log = last :: rest) :
    follows last header := by
  have hrev := h.streams.revision hs ho hx hst
  unfold gap at hgap
  unfold follows
  rw [hrev]
  split
  · rename_i hsnap
    rw [if_pos hsnap, decide_eq_false_iff_not, UInt64.not_lt] at hgap
    exact hgap
  · rename_i hsnap
    rw [if_neg hsnap, decide_eq_false_iff_not, not_not] at hgap
    exact hgap

/-! ## Where packets come from -/

/-- The state of a subscription that a link serves from now on. -/
def attached (t : SubscriptionState) (l : Link) (remote : Nat) (revision : UInt64) : SubscriptionState :=
  { t with link := some l, remote, revision, migrating := false }

theorem attach_eq (g : Gateway) (l : Link) (remote : Nat) (revision : UInt64) (s : Subscription) :
    ∃ reverse, g.attach l remote revision s = { g with
      reverse
      subscriptionStates := update g.subscriptionStates s.id (attached (g.subscription s) l remote revision) } := by
  obtain ⟨_, h⟩ := dropReverse_eq g s
  unfold Gateway.attach
  rw [h]
  exact ⟨_, rfl⟩

theorem Sound.attach (h : Sound mixed x y z g) (hs : s ∈ g.created) (hl : g.known.linkOf s.client l) (hx : Only x s)
    (remote : Nat) (revision : UInt64) : Sound mixed (some s.id) y z (g.attach l remote revision s) := by
  obtain ⟨reverse, heq⟩ := dropReverse_eq g s
  have hdropped := h.dropReverse (s := s)
  unfold Gateway.attach
  rw [heq] at hdropped ⊢
  have hset : Sound mixed (some s.id) y z (Gateway.setSubscription { g with reverse } s fun t =>
      { t with link := some l, remote, revision, migrating := false }) := by
    refine hdropped.setSubscription hs hx (.inr rfl) ⟨?_, .inl rfl, .inr id, fun _ {_ _} hcur => hcur⟩
    rintro _ heq'
    exact Option.some.inj heq' ▸ hl
  exact hset.setReverseSome hl.1 hs hl.2.symm (.inr rfl)

theorem expireRoute_eq (g : Gateway) (s : Subscription) : ∃ lookups, g.expireRoute s = { g with lookups } := by
  unfold Gateway.expireRoute
  split
  · exact ⟨g.lookups, rfl⟩
  · exact ⟨_, rfl⟩

/-- The revision a notice brings. -/
def Notice.revision (n : Notice) : UInt64 :=
  match n.packet.update with
  | none => 0
  | some update => update.revision

/-- The state of a subscription that was settled with a notice. -/
def settled (g : Gateway) (l : Link) (n : Notice) (s : Subscription) : SubscriptionState :=
  { attached (g.subscription s) l n.packet.subscription n.revision with
    controlled := n.controlled, busy := false, next := g.now + g.limits.refresh }

theorem settle_eq (g : Gateway) (l : Link) (n : Notice) (s : Subscription) :
    ∃ reverse lookups, g.settle l n s = { g with
      reverse, lookups, subscriptionStates := update g.subscriptionStates s.id (settled g l n s) } := by
  obtain ⟨reverse, ha⟩ := attach_eq g l n.packet.subscription n.revision s
  obtain ⟨lookups, he⟩ := expireRoute_eq ((g.attach l n.packet.subscription n.revision s).setSubscription s fun t =>
    { t with
      controlled := n.controlled, busy := false
      next := (g.attach l n.packet.subscription n.revision s).now +
        (g.attach l n.packet.subscription n.revision s).limits.refresh }) s
  refine ⟨reverse, lookups, he.trans ?_⟩
  rw [ha]
  simp [Gateway.setSubscription, settled]

/-- A settled subscription is owed its packet and its control. -/
theorem Sound.settle (h : Sound mixed x y z g) (hs : s ∈ g.created) (hl : g.known.linkOf s.client l) (hx : Only x s)
    (hy : Only y s) (hm : mixed = false → (g.subscription s).controlled = n.controlled) :
    Sound mixed (some s.id) (some s.id) z (g.settle l n s) := by
  obtain ⟨_, heq⟩ := attach_eq g l n.packet.subscription n.revision s
  have hattached := h.attach hs hl hx n.packet.subscription n.revision
  unfold Gateway.settle
  refine Sound.expireRoute ?_
  change Sound mixed (some s.id) (some s.id) z
    ((g.attach l n.packet.subscription n.revision s).setSubscription s _)
  have hstate : (g.attach l n.packet.subscription n.revision s).subscription s =
      attached (g.subscription s) l n.packet.subscription n.revision := by
    rw [heq]
    exact update_self _ _ _
  have hs' : s ∈ (g.attach l n.packet.subscription n.revision s).created := by
    rw [heq]
    exact hs
  refine hattached.setSubscription hs' (.inr rfl) hy ⟨?_, .inl rfl, .inl rfl, ?_⟩
  · intro _ hl'
    exact hattached.wired.subscriptionLinks hs' hl'
  · rw [hstate]
    intro hmixed _ _ hcur
    exact ⟨hcur.1, fun he => (hm hmixed).symm.trans (hcur.2 he)⟩

/-! ## Control -/

theorem notify_eq (o : Oracle) (g : Gateway) (client : Nat) (origin : Option Link) (channel : Channel) (id : Nat)
    (data : Bytes) : ∃ closed log, (g.notify o client origin channel id data).1 = { g with closed, log } ∧
      ∀ {id'}, id' ≠ id → stream id' log = stream id' g.log := by
  rcases notify_cases o g client origin channel id data with hn | ⟨-, hn⟩
  · rw [hn]
    exact ⟨_, g.log, rfl, fun _ => rfl⟩
  · rw [hn]
    exact ⟨g.closed, _, rfl, fun hid => stream_cons_of_about_ne fun heq => hid (Option.some.inj heq).symm⟩

theorem call_eq (o : Oracle) (g : Gateway) (l : Link) (callback : Callback) :
    ∃ calls callSerial stack, g.call o l callback = { g with calls, callSerial, stack } := by
  unfold Gateway.call
  dsimp only
  split
  · exact ⟨g.calls, _, _, rfl⟩
  · split
    · exact ⟨g.calls, _, _, rfl⟩
    · exact ⟨_, _, g.stack, rfl⟩

/-- The state of a subscription that control has passed from. -/
def superseded (t : SubscriptionState) : SubscriptionState :=
  { t with controlled := false, controlEpoch := t.controlEpoch + 1 }

theorem supersede_eq (o : Oracle) (g : Gateway) (l : Link) (old : Subscription) :
    ∃ closed log calls callSerial stack,
      (g.supersede o l old).1 = { g with
        subscriptionStates := update g.subscriptionStates old.id (superseded (g.subscription old))
        closed, log, calls, callSerial, stack } ∧
      ∀ {id}, id ≠ old.id → stream id log = stream id g.log := by
  unfold Gateway.supersede
  dsimp only
  split
  · exact ⟨_, g.log, g.calls, g.callSerial, g.stack, rfl, fun _ => rfl⟩
  rename_i data _
  obtain ⟨closed, log, hn, hst⟩ := notify_eq o
    (g.setSubscription old fun t => { t with controlled := false, controlEpoch := t.controlEpoch + 1 })
    old.client none .presence old.id data
  split
  · split
    · rw [hn]
      exact ⟨closed, log, g.calls, g.callSerial, g.stack, rfl, hst⟩
    rename_i link _
    split
    · obtain ⟨calls, callSerial, stack, hc⟩ := call_eq o
        ((g.setSubscription old fun t => { t with controlled := false, controlEpoch := t.controlEpoch + 1 }).notify o
          old.client none .presence old.id data).1 link (.unpossess old _)
      rw [hc, hn]
      exact ⟨closed, log, calls, callSerial, stack, rfl, hst⟩
    · rw [hn]
      exact ⟨closed, log, g.calls, g.callSerial, g.stack, rfl, hst⟩
  · rw [hn]
    exact ⟨closed, log, g.calls, g.callSerial, g.stack, rfl, hst⟩

/-- Control passes from a subscription of the client, or the client is closed. -/
theorem Sound.supersede (h : Sound mixed x y z g) {old : Subscription} (hs : old ∈ g.created)
    (hc : old.client = l.client) :
    Sound mixed x y z (g.supersede o l old).1 ∧
      ((g.supersede o l old).2 = false → (g.supersede o l old).1.closed l.client = true) := by
  have hset : Sound mixed x y z (g.setSubscription old fun t =>
      { t with controlled := false, controlEpoch := t.controlEpoch + 1 }) := by
    refine h.setSubscription hs (.inr rfl) (.inr rfl)
      ⟨h.wired.subscriptionLinks hs, .inr ⟨rfl, .inl⟩, .inr (by simp), ?_⟩
    intro _ control epoch hcur
    refine ⟨hcur.1.trans (Nat.le_succ _), fun he => ?_⟩
    have hle := hcur.1
    have he : (g.subscription old).controlEpoch + 1 = epoch := he
    omega
  unfold Gateway.supersede
  dsimp only
  split
  · exact ⟨hset.close, fun _ => closed_close _ _⟩
  rename_i data hdata
  have hquiet : (Event.notified old.client none .presence old.id data).header old.id
      (!(stream old.id g.log).isEmpty) = none := by
    unfold Gateway.releasePacket at hdata
    simp only [bind_eq_ok] at hdata
    obtain ⟨body, -, hdata⟩ := hdata
    rw [← Except.ok.inj hdata]
    simp [Event.header]
  have hsent := hset.notifyQuiet (o := o) hs (by simp) hquiet
  split
  · split
    · exact ⟨hsent, by simp⟩
    rename_i hlink
    split
    · obtain ⟨closed, log, hn, -⟩ := notify_eq o
        (g.setSubscription old fun t => { t with controlled := false, controlEpoch := t.controlEpoch + 1 })
        old.client none .presence old.id data
      have hs' : old ∈ ((g.setSubscription old fun t =>
          { t with controlled := false, controlEpoch := t.controlEpoch + 1 }).notify o
          old.client none .presence old.id data).1.created := by
        rw [hn]
        exact hs
      have hlinkOf := hsent.wired.subscriptionLinks hs' hlink
      exact ⟨hsent.call hlinkOf.1 ⟨hs', hlinkOf.2.symm⟩ (by simp), by simp⟩
    · exact ⟨hsent, by simp⟩
  · rename_i hfailed
    exact ⟨hsent, fun _ => hc ▸ closed_of_notify (Bool.eq_false_of_not_eq_true hfailed)⟩

end Fsnet.ClientGateway
