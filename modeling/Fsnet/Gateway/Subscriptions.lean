import Fsnet.Gateway.Updates
/-!
# Subscriptions and what their clients are sent

A subscription is given a revision or control before its client is told. In
between the invariant leaves it out: it is owed a packet, or owed control. The
debt is paid by the packet, by the session that records the control, by the end
of the subscription or by the end of the client.
-/

namespace Fsnet.ClientGateway

open Lib List Function

variable {mixed : Bool} {x y z : Option Nat} {g : Gateway} {s : Subscription} {o : Oracle} {client : Nat}

/-- Nothing is owed to another subscription. -/
def Only (owed : Option Nat) (s : Subscription) : Prop := owed = none ∨ owed = some s.id

theorem Only.none : Only none s := .inl rfl

theorem Only.self : Only (some s.id) s := .inr rfl

theorem Only.ne {owed : Option Nat} (h : Only owed s) {id : Nat} (hne : id ≠ s.id) : owed ≠ some id := by
  rintro rfl
  rcases h with h | h
  · cases h
  · exact hne (Option.some.inj h)

/-! ## Debts -/

namespace Sound

theorem payStream (h : Sound mixed x y z g) (hs : s ∈ g.created) (hx : Only x s)
    (hp : g.registered s → (g.serving s → g.Started s) ∧ (¬g.ended s.client → ∀ {last rest},
      stream s.id g.log = last :: rest → last.revision = (g.subscription s).revision)) : Sound mixed none y z g := by
  refine { h with streams := { h.streams with revision := ?_, started := ?_ } }
  · intro s' hs' ho _
    by_cases hid : s'.id = s.id
    · obtain rfl := h.numbered.subscription_eq (h.created hs') hs hid
      exact (hp hs').2 ho
    · exact h.streams.revision hs' ho (hx.ne hid)
  · intro s' hs' _ hcase
    by_cases hid : s'.id = s.id
    · obtain rfl := h.numbered.subscription_eq (h.created hs') hs hid
      exact (hp hs').1 hcase
    · exact h.streams.started hs' (hx.ne hid) hcase

theorem payControl (h : Sound mixed x y z g) (hs : s ∈ g.created) (hy : Only y s)
    (hp : ∀ {session}, g.sessions.find s.client = some session → g.registered s → (g.subscription s).controlled = true →
      g.closed s.client = false → session.controlled = s.id) : Sound mixed x none z g := by
  refine { h with controls := { h.controls with controlled := ?_ } }
  intro _ s' hf hs' hc ho _
  by_cases hid : s'.id = s.id
  · obtain rfl := h.numbered.subscription_eq (h.created hs') hs hid
    exact hp hf hs' hc ho
  · exact h.controls.controlled hf hs' hc ho (hy.ne hid)

/-- A closed client is owed nothing. -/
theorem payClosed (h : Sound mixed x y z g) (hs : s ∈ g.created) (hx : Only x s) (hy : Only y s)
    (hc : g.closed s.client = true) : Sound mixed none none z g := by
  refine (h.payStream hs hx fun _ => ⟨fun _ => .inl (.inl hc), fun ho => absurd (.inl hc) ho⟩).payControl hs hy ?_
  intro _ _ _ _ ho
  rw [hc] at ho
  cases ho

/-- A subscription that is gone is owed nothing. -/
theorem payGone (h : Sound mixed x y z g) (hs : s ∈ g.created) (hx : Only x s) (hy : Only y s)
    (hr : ¬g.registered s) : Sound mixed none none z g :=
  (h.payStream hs hx fun h => absurd h hr).payControl hs hy fun _ h => absurd h hr

end Sound

/-! ## The state of a subscription -/

theorem subscription_setSubscription_self (g : Gateway) (s : Subscription) (f : SubscriptionState → SubscriptionState) :
    (g.setSubscription s f).subscription s = f (g.subscription s) :=
  update_self _ _ _

theorem subscription_setSubscription_ne (g : Gateway) {s s' : Subscription} (f : SubscriptionState → SubscriptionState)
    (h : s'.id ≠ s.id) : (g.setSubscription s f).subscription s' = g.subscription s' :=
  update_of_ne h _ _

/-- An update of a subscription's state, with what it leaves owed. -/
structure Changes (mixed : Bool) (g : Gateway) (s : Subscription) (t : SubscriptionState)
    (x y : Option Nat) : Prop where
  link : ∀ {l}, t.link = some l → g.known.linkOf s.client l
  stream : x = some s.id ∨
    t.revision = (g.subscription s).revision ∧ (t.busy = false → (g.subscription s).busy = false ∨ g.Started s)
  control : y = some s.id ∨ (t.controlled = true → (g.subscription s).controlled = true)
  current : mixed = false → ∀ {control epoch}, Current (g.subscription s) control epoch → Current t control epoch

theorem Sound.setSubscription (h : Sound mixed x y z g) (hs : s ∈ g.created)
    {f : SubscriptionState → SubscriptionState} {x' y' : Option Nat} (hx : x = none ∨ x = x') (hy : y = none ∨ y = y')
    (hf : Changes mixed g s (f (g.subscription s)) x' y') : Sound mixed x' y' z (g.setSubscription s f) := by
  have hself := subscription_setSubscription_self g s f
  have hother {s' : Subscription} (hid : s'.id ≠ s.id) := subscription_setSubscription_ne g f hid
  have hweak {owed owed' : Option Nat} {id : Nat} (ho : owed = none ∨ owed = owed') (hne : owed' ≠ some id) :
      owed ≠ some id := by
    rcases ho with rfl | rfl
    · simp
    · exact hne
  refine ⟨{ h.numbered with }, { h.wired with subscriptionLinks := ?_ },
    { h.streams with revision := ?_, started := ?_ }, { h.controls with controlled := ?_, restores := ?_ },
    { h.serves with }, h.watches⟩
  · intro s' l hs' hl
    by_cases hid : s'.id = s.id
    · obtain rfl := h.numbered.subscription_eq hs' hs hid
      exact hf.link (hself ▸ hl)
    · exact h.wired.subscriptionLinks hs' (hother hid ▸ hl)
  · intro s' hs' ho hne _ _ hst
    by_cases hid : s'.id = s.id
    · obtain rfl := h.numbered.subscription_eq (h.created hs') hs hid
      rw [hself, (hf.stream.resolve_left hne).1]
      exact h.streams.revision hs' ho (hweak hx hne) hst
    · rw [hother hid]
      exact h.streams.revision hs' ho (hweak hx hne) hst
  · rintro s' hs' hne (hb | hcase)
    · by_cases hid : s'.id = s.id
      · obtain rfl := h.numbered.subscription_eq (h.created hs') hs hid
        rw [hself] at hb
        rcases (hf.stream.resolve_left hne).2 hb with hb | hst
        · exact h.streams.started hs' (hweak hx hne) (.inl hb)
        · exact hst
      · rw [hother hid] at hb
        exact h.streams.started hs' (hweak hx hne) (.inl hb)
    · exact h.streams.started hs' (hweak hx hne) (.inr hcase)
  · intro _ s' hfind hs' hc ho hne
    by_cases hid : s'.id = s.id
    · obtain rfl := h.numbered.subscription_eq (h.created hs') hs hid
      rw [hself] at hc
      exact h.controls.controlled hfind hs' (hf.control.resolve_left hne hc) ho (hweak hy hne)
    · rw [hother hid] at hc
      exact h.controls.controlled hfind hs' hc ho (hweak hy hne)
  · intro hm _ ha s' control _ hcall
    have hcur := h.controls.restores hm ha hcall
    by_cases hid : s'.id = s.id
    · have hsame : ∀ g : Gateway, g.subscription s' = g.subscription s := fun g => by
        simp only [Gateway.subscription, hid]
      rw [hsame] at hcur ⊢
      rw [hself]
      exact hf.current hm hcur
    · rwa [hother hid]

/-- An update that neither sends nor controls leaves nothing owed, nor one that serves a started subscription. -/
theorem Sound.setQuiet (h : Sound mixed x y z g) (hs : s ∈ g.created)
    {f : SubscriptionState → SubscriptionState}
    (hf : ∀ t, (f t).link = t.link ∧ (f t).revision = t.revision ∧
      ((f t).busy = false → t.busy = false ∨ g.Started s) ∧ (f t).controlled = t.controlled ∧
      (f t).controlEpoch = t.controlEpoch) :
    Sound mixed x y z (g.setSubscription s f) := by
  obtain ⟨hlink, hrev, hbusy, hctl, hepoch⟩ := hf (g.subscription s)
  refine h.setSubscription hs (.inr rfl) (.inr rfl) ⟨?_, .inr ⟨hrev, hbusy⟩, .inr ?_, ?_⟩
  · intro l hl
    exact h.wired.subscriptionLinks hs (hlink ▸ hl)
  · rw [hctl]
    exact id
  · intro _ _ _ hcur
    unfold Current
    rw [hctl, hepoch]
    exact hcur

/-! ## Clients that are closed -/

theorem ended_close {g : Gateway} {c : Nat} (h : g.ended c) (client : Nat) : (g.close client).ended c := by
  refine h.imp_left fun hc => ?_
  by_cases hid : c = client
  · rw [hid]
    exact update_self _ _ _
  · exact (update_of_ne hid _ _).trans hc

theorem closed_close (g : Gateway) (client : Nat) : (g.close client).closed client = true := update_self _ _ _

theorem closed_of_close {g : Gateway} {client c : Nat} (h : (g.close client).closed c = false) :
    g.closed c = false := by
  by_cases hid : c = client
  · rw [hid, closed_close] at h
    cases h
  · exact (update_of_ne hid _ _).symm.trans h

theorem known_close (g : Gateway) (client : Nat) : g.known.Le (g.close client).known :=
  ⟨id, id, fun h => h.imp_left (ended_close · client), id, id⟩

theorem Sound.close (h : Sound mixed x y z g) : Sound mixed x y z (g.close client) := by
  refine ⟨{ h.numbered with }, { h.wired.mono (known_close g client) with },
    { h.streams with revision := ?_, started := ?_ }, { h.controls with controlled := ?_, sessioned := ?_ },
    { h.serves with revoked := ?_ }, h.watches⟩
  · intro s hs ho
    exact h.streams.revision hs fun h => ho (ended_close h client)
  · intro s hs hx hcase
    exact (known_close g client).started (h.streams.started hs hx hcase)
  · intro _ s hf hs hc ho
    exact h.controls.controlled hf hs hc (closed_of_close ho)
  · intro s hs
    exact (h.controls.sessioned hs).imp_left (ended_close · client)
  · intro c hc
    refine ⟨?_, (h.serves.revoked c hc).2⟩
    by_contra ho
    have hopen := closed_of_close (Bool.eq_false_of_not_eq_true ho)
    rw [(h.serves.revoked c hc).1] at hopen
    cases hopen

/-- The client of a subscription is closed, whatever it is owed. -/
theorem Sound.closeOwed (h : Sound mixed x y z g) (hs : s ∈ g.created) (hx : Only x s) (hy : Only y s) :
    Sound mixed none none z (g.close s.client) :=
  h.close.payClosed hs hx hy (closed_close g s.client)

/-! ## Events -/

theorem known_log (g : Gateway) (e : Event) : g.known.Le ({ g with log := e :: g.log } : Gateway).known :=
  ⟨id, id, fun h => h.imp_right (stream_cons_ne_nil e), id, id⟩

/-- An event that adds nothing to any stream. -/
theorem Streams.log_quiet (h : Streams x g) {e : Event} (hq : ∀ id, e.header id (!(stream id g.log).isEmpty) = none) :
    Streams x { g with log := e :: g.log } := by
  have hst : ∀ id, stream id (e :: g.log) = stream id g.log := fun id => stream_cons_none (hq id)
  refine ⟨?_, ?_, ?_, ?_⟩
  · intro id
    rw [hst]
    exact h.continuous id
  · intro s hs ho hx _ _ hl
    rw [hst] at hl
    exact h.revision hs ho hx hl
  · intro s hs hx hcase
    exact (known_log g e).started (h.started hs hx hcase)
  · intro r hr s hs hd
    rw [hst]
    exact h.untouched r hr s hs hd

/-- May the packet be sent next for the subscription? -/
structure Extends (g : Gateway) (s : Subscription) (header : ReplicationUpdateHeader) : Prop where
  first : stream s.id g.log = [] → header.snapshot = true
  later : ∀ {last rest}, stream s.id g.log = last :: rest → follows last header
  revision : header.revision = (g.subscription s).revision
  done : ∀ r ∈ g.admitted, ∀ s', r.subscription = some s' → s'.id = s.id → (g.request r).done = true

/-- An event that adds a packet to the stream of a subscription. -/
theorem Streams.log_packet (h : Streams x g) (hx : Only x s) {e : Event} (ha : e.about = some s.id)
    {header : ReplicationUpdateHeader} (hh : e.header s.id (!(stream s.id g.log).isEmpty) = some header)
    (he : Extends g s header) : Streams none { g with log := e :: g.log } := by
  have hself : stream s.id (e :: g.log) = header :: stream s.id g.log := stream_cons_some hh
  have hother : ∀ {id}, id ≠ s.id → stream id (e :: g.log) = stream id g.log := fun hid =>
    stream_cons_of_about_ne (by rw [ha]; exact fun heq => hid (Option.some.inj heq).symm)
  refine ⟨?_, ?_, ?_, ?_⟩
  · intro id
    by_cases hid : id = s.id
    · rw [hid, hself]
      have hcont := h.continuous s.id
      cases hst : stream s.id g.log with
      | nil => exact he.first hst
      | cons => exact ⟨he.later hst, hst ▸ hcont⟩
    · rw [hother hid]
      exact h.continuous id
  · intro s' hs' ho _ _ _ hl
    by_cases hid : s'.id = s.id
    · rw [hid, hself] at hl
      cases hl
      show header.revision = (g.subscriptionStates s'.id).revision
      rw [hid]
      exact he.revision
    · rw [hother hid] at hl
      exact h.revision hs' ho (hx.ne hid) hl
  · intro s' hs' _ hcase
    by_cases hid : s'.id = s.id
    · refine .inr ?_
      rw [hid, hself]
      exact cons_ne_nil _ _
    · exact (known_log g e).started (h.started hs' (hx.ne hid) hcase)
  · intro r hr s' hs' hd
    have hid : s'.id ≠ s.id := by
      intro hid
      have hdone := he.done r hr s' hs' hid
      rw [show (g.request r).done = false from hd] at hdone
      cases hdone
    rw [hother hid]
    exact h.untouched r hr s' hs' hd

theorem Serves.log_other (h : Serves z g) {e : Event} (he : ∀ r origin result who, e ≠ .replied r origin result who) :
    Serves z { g with log := e :: g.log } := by
  have ha : answered (e :: g.log) = answered g.log := by
    cases e with
    | replied r origin result who => exact absurd rfl (he r origin result who)
    | _ => rfl
  refine { h with once := ?_, done := ?_, answers := ?_ }
  · rw [ha]
    exact h.once
  · rw [ha]
    exact h.done
  · intro r origin result who hm
    exact h.answers ((mem_cons.1 hm).resolve_left fun heq => he _ _ _ _ heq.symm)

theorem Wired.log_event (h : Wired g.known g) {e : Event} (he : e.Valid g.known) :
    Wired ({ g with log := e :: g.log } : Gateway).known { g with log := e :: g.log } := by
  have hlog : ∀ e' ∈ e :: g.log, e'.Valid ({ g with log := e :: g.log } : Gateway).known :=
    forall_mem_cons.2 ⟨he.mono (known_log g e), fun e' he' => (h.log e' he').mono (known_log g e)⟩
  exact { h.mono (known_log g e) with log := hlog }

/-! ## Notifications -/

section Notify

variable {origin : Option Link} {channel : Channel} {data : Bytes}

theorem notify_cases (o : Oracle) (g : Gateway) (client : Nat) (origin : Option Link) (channel : Channel) (id : Nat)
    (data : Bytes) :
    g.notify o client origin channel id data = (g.close client, false) ∨
      g.closed client = false ∧ g.notify o client origin channel id data =
        ({ g with log := .notified client origin channel id data :: g.log }, true) := by
  unfold Gateway.notify
  split
  · exact .inl rfl
  · rename_i hc
    simp only [Bool.or_eq_true, not_or, Bool.not_eq_true] at hc
    exact .inr ⟨hc.1, rfl⟩

theorem closed_of_notify {o : Oracle} {client id : Nat} (h : (g.notify o client origin channel id data).2 = false) :
    (g.notify o client origin channel id data).1.closed client = true := by
  rcases notify_cases o g client origin channel id data with hn | ⟨-, hn⟩
  · rw [hn]
    exact closed_close g client
  · rw [hn] at h
    cases h

variable (h : Sound mixed x y z g) (hs : s ∈ g.created)
  (ho : ∀ l, origin = some l → g.known.linkOf s.client l ∧ Under s.id (channel.packet data))
include h hs ho

/-- A notification that adds nothing to the stream of its subscription. -/
theorem Sound.notifyQuiet
    (hq : (Event.notified s.client origin channel s.id data).header s.id (!(stream s.id g.log).isEmpty) = none) :
    Sound mixed x y z (g.notify o s.client origin channel s.id data).1 := by
  rcases notify_cases o g s.client origin channel s.id data with hn | ⟨-, hn⟩
  · rw [hn]
    exact h.close
  rw [hn]
  refine ⟨{ h.numbered with }, h.wired.log_event ⟨⟨s, hs, rfl, rfl⟩, ho⟩, h.streams.log_quiet ?_,
    { h.controls with }, h.serves.log_other (by simp), h.watches⟩
  intro id
  by_cases hid : id = s.id
  · rw [hid]
    exact hq
  · exact Event.header_of_about_ne _ fun heq => hid (Option.some.inj heq).symm

/-- A notification that is the next packet of its subscription. -/
theorem Sound.notifyPacket (hx : Only x s) {header : ReplicationUpdateHeader}
    (hh : (Event.notified s.client origin channel s.id data).header s.id (!(stream s.id g.log).isEmpty) = some header)
    (he : Extends g s header) :
    Sound mixed none y z (g.notify o s.client origin channel s.id data).1 := by
  rcases notify_cases o g s.client origin channel s.id data with hn | ⟨-, hn⟩
  · rw [hn]
    have hclosed := closed_close g s.client
    exact h.close.payStream hs hx fun _ =>
      ⟨fun _ => .inl (.inl hclosed), fun ho => absurd (.inl hclosed) ho⟩
  · rw [hn]
    exact ⟨{ h.numbered with }, h.wired.log_event ⟨⟨s, hs, rfl, rfl⟩, ho⟩, h.streams.log_packet hx rfl hh he,
      { h.controls with }, h.serves.log_other (by simp), h.watches⟩

end Notify

/-! ## Subscriptions that come and go -/

theorem not_registered_unregister (g : Gateway) (s : Subscription) : ¬(g.unregister s).registered s := by
  intro hr
  have hnone : (g.subscriptions.erase s.id).find s.id = none := OrdMap.find_erase_self _ _
  rw [show (g.subscriptions.erase s.id).find s.id = some s from hr] at hnone
  cases hnone

theorem Sound.unregister (h : Sound mixed x y z g) (hs : s ∈ g.created) (hx : Only x s) (hy : Only y s) :
    Sound mixed none none z (g.unregister s) := by
  have hfind : ∀ {id s'}, (g.subscriptions.erase s.id).find id = some s' → g.subscriptions.find id = some s' :=
    OrdMap.find_of_erase
  have hkept : Sound mixed x y z (g.unregister s) :=
    ⟨{ h.numbered with }, { h.wired with subscriptions := fun hf => h.wired.subscriptions (hfind hf) },
      { h.streams with
        revision := fun hr => h.streams.revision (hfind hr)
        started := fun hr => h.streams.started (hfind hr) },
      { h.controls with
        controlled := fun hf hr => h.controls.controlled hf (hfind hr)
        sessioned := fun hr => h.controls.sessioned (hfind hr) },
      { h.serves with }, h.watches⟩
  exact hkept.payGone hs hx hy (not_registered_unregister g s)

section Register

variable {state : SubscriptionState}

theorem registered_register (s : Subscription) (state : SubscriptionState) : (g.register s state).registered s :=
  OrdMap.find_insert_self _ _ _

theorem subscription_register_self (s : Subscription) (state : SubscriptionState) :
    (g.register s state).subscription s = state :=
  update_self _ _ _

theorem subscription_register_ne {s s' : Subscription} (state : SubscriptionState) (h : s'.id ≠ s.id) :
    (g.register s state).subscription s' = g.subscription s' :=
  update_of_ne h _ _

theorem registered_of_register {s' : Subscription} (h : (g.register s state).registered s') :
    s' = s ∨ s'.id ≠ s.id ∧ g.registered s' :=
  (OrdMap.find_of_insert h).imp_left And.right

theorem known_register (s : Subscription) (state : SubscriptionState) : g.known.Le (g.register s state).known :=
  ⟨id, mem_cons_of_mem s, id, id, id⟩

theorem Numbered.ne_of_fresh (h : Numbered g) (hid : g.serial < s.id) {s' : Subscription} (hs' : s' ∈ g.created) :
    s'.id ≠ s.id := by
  have := (h.ids_pos s' hs').2
  omega

theorem Numbered.register (h : Numbered g) (hid : g.serial < s.id) : Numbered (g.register s state) := by
  refine { h with ids := ?_, ids_pos := ?_, requests_le := ?_ }
  · show (s.id :: g.created.map Subscription.id).Nodup
    refine nodup_cons.2 ⟨?_, h.ids⟩
    rintro hm
    obtain ⟨s', hs', heq⟩ := mem_map.1 hm
    exact h.ne_of_fresh hid hs' heq
  · refine forall_mem_cons.2 ⟨⟨by omega, le_refl _⟩, fun s' hs' => ?_⟩
    exact ⟨(h.ids_pos s' hs').1, (h.ids_pos s' hs').2.trans hid.le⟩
  · intro r hr
    exact (h.requests_le r hr).trans hid.le

theorem Wired.register (h : Wired g.known g) (hn : Numbered g) (hid : g.serial < s.id) (hl : state.link = none) :
    Wired (g.register s state).known (g.register s state) := by
  refine { h.mono (known_register s state) with subscriptions := ?_, subscriptionLinks := ?_ }
  · intro _ s' hf
    rcases OrdMap.find_of_insert hf with ⟨rfl, rfl⟩ | ⟨-, hf⟩
    · exact ⟨rfl, mem_cons_self⟩
    · exact ⟨(h.subscriptions hf).1, mem_cons_of_mem s (h.subscriptions hf).2⟩
  · intro s' l hs' hlink
    rcases mem_cons.1 hs' with rfl | hs'
    · rw [subscription_register_self, hl] at hlink
      cases hlink
    · rw [subscription_register_ne state (hn.ne_of_fresh hid hs')] at hlink
      exact h.subscriptionLinks hs' hlink

theorem Streams.register (h : Streams none g) : Streams (some s.id) (g.register s state) := by
  refine { h with revision := ?_, started := ?_ }
  · intro s' hr ho hne
    rcases registered_of_register hr with rfl | ⟨hid, hr⟩
    · exact absurd rfl hne
    · rw [subscription_register_ne state hid]
      exact h.revision hr ho (by simp)
  · intro s' hr hne hserving
    rcases registered_of_register hr with rfl | ⟨hid, hr⟩
    · exact absurd rfl hne
    · refine h.started hr (by simp) ?_
      unfold Gateway.serving at hserving ⊢
      rwa [subscription_register_ne state hid] at hserving

theorem Wired.awaits {k : Known} (h : Wired k g) {call : Call} (hc : g.awaits call) : call.Valid k := by
  rcases hc with hc | ⟨_, hc⟩
  · exact h.calls call hc
  · exact h.stack _ hc

theorem Controls.register (h : Controls mixed none g) (hw : Wired g.known g) (hn : Numbered g) (hid : g.serial < s.id)
    (hc : g.ended s.client ∨ (g.sessions.find s.client).isSome = true) :
    Controls mixed (some s.id) (g.register s state) := by
  refine ⟨?_, ?_, ?_, ?_⟩
  · intro session s' hf hr hctl ho hne
    rcases registered_of_register hr with rfl | ⟨hid', hr⟩
    · exact absurd rfl hne
    · rw [subscription_register_ne state hid'] at hctl
      exact h.controlled hf hr hctl ho (by simp)
  · intro c session hf
    refine (h.owner hf).imp_right ?_
    rintro ⟨s', hs', hrest⟩
    exact ⟨s', mem_cons_of_mem s hs', hrest⟩
  · intro s' hr
    rcases registered_of_register hr with rfl | ⟨-, hr⟩
    · exact hc
    · exact h.sessioned hr
  · intro hm _ ha s' _ _ hcall
    have hvalid := (hw.awaits ha).2
    rw [hcall] at hvalid
    rw [subscription_register_ne state (hn.ne_of_fresh hid hvalid.1)]
    exact h.restores hm ha hcall

/-- A new subscription is owed a packet and control. -/
theorem Sound.register (h : Sound mixed none none z g) (hid : g.serial < s.id) (hl : state.link = none)
    (hc : g.ended s.client ∨ (g.sessions.find s.client).isSome = true) :
    Sound mixed (some s.id) (some s.id) z (g.register s state) :=
  ⟨h.numbered.register hid, h.wired.register h.numbered hid hl, h.streams.register,
    h.controls.register h.wired h.numbered hid hc, { h.serves with },
    fun r hr s' hs' => mem_cons_of_mem s (h.watches r hr s' hs')⟩

end Register

/-! ## Sessions -/

section Sessions

variable (h : Sound mixed x y z g) {c : Nat} {session session' : Session}
  (hlinks : ∀ {index l}, session'.links.find index = some l → g.known.linkOf c l)
  (howner : session'.controlled = 0 ∨ ∃ s ∈ g.created, s.id = session'.controlled ∧ s.client = c)
  (hcontrolled : ∀ {s}, s.client = c → g.registered s → (g.subscription s).controlled = true →
    g.closed c = false → y ≠ some s.id → session'.controlled = s.id)
include h hlinks howner hcontrolled

/-- The session of a client is set, to one of the same caller if there was one. -/
theorem Sound.putSession (hrevoked : c ∉ g.revoked) (hsame : ∀ session, g.sessions.find c = some session →
      session'.subject = session.subject ∧ session'.connection = session.connection) :
    Sound mixed x y z (g.setSession c session') := by
  have hfind : ∀ c', (g.setSession c session').sessions.find c' =
      if c' = c then some session' else g.sessions.find c' :=
    fun c' => OrdMap.find_insert _ _ _ _
  refine ⟨{ h.numbered with }, { h.wired with sessionLinks := ?_ }, { h.streams with },
    { h.controls with controlled := ?_, owner := ?_, sessioned := ?_ },
    { h.serves with session := ?_, revoked := ?_ }, h.watches⟩
  · intro c' s' _ l hs hl
    rcases OrdMap.find_of_insert hs with ⟨rfl, rfl⟩ | ⟨-, hs⟩
    · exact hlinks hl
    · exact h.wired.sessionLinks hs hl
  · intro s' s hs hr hctl ho hy
    rcases OrdMap.find_of_insert hs with ⟨hc, rfl⟩ | ⟨-, hs⟩
    · exact hcontrolled hc hr hctl (hc ▸ ho) hy
    · exact h.controls.controlled hs hr hctl ho hy
  · intro c' s' hs
    rcases OrdMap.find_of_insert hs with ⟨rfl, rfl⟩ | ⟨-, hs⟩
    · exact howner
    · exact h.controls.owner hs
  · intro s hr
    refine (h.controls.sessioned hr).imp_right fun hsome => ?_
    rw [hfind]
    split
    · rfl
    · exact hsome
  · intro r hr hd hz
    refine (h.serves.session r hr hd hz).imp_left ?_
    rintro ⟨old, hold, hsub, hcon⟩
    rw [hfind]
    split
    · rename_i hc
      obtain ⟨hsubject, hconnection⟩ := hsame old (hc ▸ hold)
      exact ⟨session', rfl, hsubject.trans hsub, hconnection.trans hcon⟩
    · exact ⟨old, hold, hsub, hcon⟩
  · intro c' hc'
    have hne : c' ≠ c := ne_of_mem_of_not_mem hc' hrevoked
    exact ⟨(h.serves.revoked c' hc').1, (hfind c').trans ((if_neg hne).trans (h.serves.revoked c' hc').2)⟩

theorem Sound.setSession (hf : g.sessions.find c = some session) (hsubject : session'.subject = session.subject)
    (hconnection : session'.connection = session.connection) : Sound mixed x y z (g.setSession c session') := by
  refine h.putSession hlinks howner hcontrolled (fun hc => ?_) (fun _ hold => ?_)
  · have hnone := (h.serves.revoked c hc).2
    rw [hf] at hnone
    cases hnone
  · rw [hf] at hold
    exact Option.some.inj hold ▸ ⟨hsubject, hconnection⟩

omit hlinks howner hcontrolled in
theorem Sound.setSessionLinks (hf : g.sessions.find c = some session) {links : OrdMap Nat Link}
    (hlinks : ∀ {index l}, links.find index = some l → g.known.linkOf c l) :
    Sound mixed x y z (g.setSession c { session with links }) := by
  have howner := h.controls.owner hf
  have hcontrolled : ∀ {s}, s.client = c → g.registered s → (g.subscription s).controlled = true →
      g.closed c = false → y ≠ some s.id → session.controlled = s.id :=
    fun hc hr hctl ho hy => h.controls.controlled (hc.symm ▸ hf) hr hctl (hc.symm ▸ ho) hy
  exact h.setSession hlinks howner hcontrolled hf rfl rfl

end Sessions

end Fsnet.ClientGateway
