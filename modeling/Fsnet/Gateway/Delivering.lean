import Fsnet.Gateway.Noticing
/-!
# Delivered notices keep the invariant

Control is taken from one subscription before another one of the client gets it,
and the session records it before the client is told.
-/

namespace Fsnet.ClientGateway

open Lib Function

variable {mixed : Bool} {x y z : Option Nat} {g : Gateway} {s : Subscription} {l : Link} {n : Notice} {o : Oracle}

section

variable (h : Sound mixed x y z g)
include h

/-! ## Taking control -/

theorem Sound.giveWay {session : Session} (hf : g.sessions.find l.client = some session) :
    Sound mixed x y z (g.giveWay o l session s).1 ∧
      ((g.giveWay o l session s).2 = false → (g.giveWay o l session s).1.closed l.client = true) := by
  unfold Gateway.giveWay
  split
  · exact ⟨h, by simp⟩
  rename_i hold
  split
  · rename_i hother
    obtain ⟨hid, hcreated⟩ := h.wired.subscriptions hold
    obtain ⟨_, hs', hid', hc⟩ := (h.controls.owner hf).resolve_left hother.1
    obtain rfl := h.numbered.subscription_eq hcreated hs' (hid.trans hid'.symm)
    exact h.supersede hs' hc
  · exact ⟨h, by simp⟩

/-- What giving way changes; the subscription that gets control is left alone. -/
theorem Sound.giveWay_eq (o : Oracle) (l : Link) (session : Session) (s : Subscription) :
    ∃ subscriptionStates closed log calls callSerial stack,
      (g.giveWay o l session s).1 = { g with subscriptionStates, closed, log, calls, callSerial, stack } ∧
      subscriptionStates s.id = g.subscriptionStates s.id ∧ stream s.id log = stream s.id g.log := by
  unfold Gateway.giveWay
  split
  · exact ⟨_, _, _, _, _, _, rfl, rfl, rfl⟩
  rename_i old hold
  split
  · rename_i hother
    have hid : s.id ≠ old.id := by
      rw [(h.wired.subscriptions hold).1]
      exact Ne.symm hother.2
    obtain ⟨closed, log, calls, callSerial, stack, heq, hst⟩ := supersede_eq o g l old
    exact ⟨_, closed, log, calls, callSerial, stack, heq, update_of_ne hid _ _, hst hid⟩
  · exact ⟨_, _, _, _, _, _, rfl, rfl, rfl⟩

/-- Once the other one gave way, no subscription of the client is controlled but the one that gets control. -/
theorem Sound.controlled_of_giveWay {session : Session}
    (hf : g.sessions.find l.client = some session) {s' : Subscription} (hc : s'.client = l.client)
    (hr : (g.giveWay o l session s).1.registered s')
    (hctl : ((g.giveWay o l session s).1.subscription s').controlled = true)
    (ho : (g.giveWay o l session s).1.closed l.client = false) (hy : y ≠ some s'.id) : s.id = s'.id := by
  have hsound := (h.giveWay (s := s) (o := o) hf).1
  obtain ⟨states, closed, log, calls, callSerial, stack, heq, hself, -⟩ := h.giveWay_eq o l session s
  have hf' : (g.giveWay o l session s).1.sessions.find s'.client = some session := by
    rw [heq, hc]
    exact hf
  have hrecorded := hsound.controls.controlled hf' hr hctl (hc ▸ ho) hy
  have hr' : g.subscriptions.find session.controlled = some s' := by
    rw [heq] at hr
    rw [hrecorded]
    exact hr
  -- the recorded subscription is the one that gave way, unless it is the new one
  by_contra hne
  have hpos := (h.numbered.ids_pos s' (h.wired.subscriptions hr').2).1
  unfold Gateway.giveWay at hctl
  rw [hr'] at hctl
  dsimp only at hctl
  rw [if_pos ⟨by omega, by omega⟩] at hctl
  obtain ⟨_, _, _, _, _, heq', -⟩ := supersede_eq o g l s'
  rw [heq'] at hctl
  have hstate : update g.subscriptionStates s'.id (superseded (g.subscription s')) s'.id =
      superseded (g.subscription s') := update_self _ _ _
  have hctl : (update g.subscriptionStates s'.id (superseded (g.subscription s')) s'.id).controlled = true := hctl
  rw [hstate] at hctl
  cases hctl

/-- The session records the subscription that gets control, or the client is closed. -/
theorem Sound.possess (hs : s ∈ g.created) (hc : s.client = l.client) :
    Sound mixed x y z (g.possess o l s).1 ∧
      ((g.possess o l s).2 = false → (g.possess o l s).1.closed s.client = true) ∧
      ((g.possess o l s).2 = true → ∀ {session}, (g.possess o l s).1.sessions.find s.client = some session →
        session.controlled = s.id) := by
  unfold Gateway.possess
  split
  · rename_i hf
    refine ⟨h, by simp, fun _ {session} hf' => ?_⟩
    rw [hc, hf] at hf'
    cases hf'
  rename_i session hf
  obtain ⟨hsound, hclosed⟩ := h.giveWay (s := s) (o := o) hf
  obtain ⟨states, closed, log, calls, callSerial, stack, heq, -, -⟩ := h.giveWay_eq o l session s
  dsimp only
  split
  · have hf' : (g.giveWay o l session s).1.sessions.find l.client = some session := by
      rw [heq]
      exact hf
    refine ⟨?_, by simp, fun _ {session'} hf'' => ?_⟩
    · refine hsound.setSession (fun hl => hsound.wired.sessionLinks hf' hl) (.inr ⟨s, ?_, rfl, hc⟩)
        (fun hc' hr hctl ho hy => h.controlled_of_giveWay hf hc' hr hctl ho hy) hf' rfl rfl
      rw [heq]
      exact hs
    · have hf'' : ((g.giveWay o l session s).1.sessions.insert l.client
          { session with controlled := s.id }).find s.client = some session' := hf''
      rw [hc, OrdMap.find_insert_self] at hf''
      exact Option.some.inj hf'' ▸ rfl
  · rename_i hfailed
    have hfailed := Bool.eq_false_of_not_eq_true hfailed
    exact ⟨hsound, fun _ => hc ▸ hclosed hfailed, fun ht => absurd ht (by simp [hfailed])⟩

theorem Sound.possess_eq (o : Oracle) (l : Link) (s : Subscription) :
    ∃ sessions subscriptionStates closed log calls callSerial stack,
      (g.possess o l s).1 = { g with sessions, subscriptionStates, closed, log, calls, callSerial, stack } ∧
      subscriptionStates s.id = g.subscriptionStates s.id ∧ stream s.id log = stream s.id g.log := by
  unfold Gateway.possess
  split
  · exact ⟨_, _, _, _, _, _, _, rfl, rfl, rfl⟩
  rename_i session _
  obtain ⟨states, closed, log, calls, callSerial, stack, heq, hself, hst⟩ := h.giveWay_eq o l session s
  dsimp only
  split
  · rw [heq]
    exact ⟨_, states, closed, log, calls, callSerial, stack, rfl, hself, hst⟩
  · rw [heq]
    exact ⟨g.sessions, states, closed, log, calls, callSerial, stack, rfl, hself, hst⟩

/-! ## Showing control -/

theorem Sound.oweControl (hy : Only y s) : Sound mixed x (some s.id) z g :=
  { h with controls := { h.controls with
    controlled := fun hf hr hctl ho hne =>
      h.controls.controlled hf hr hctl ho (hy.ne fun hid => hne (congrArg some hid.symm)) } }

theorem Sound.setControl (hs : s ∈ g.created) (hy : Only y s) (controlled : Bool) :
    Sound mixed x (some s.id) z (g.setControl s controlled) := by
  refine h.setSubscription hs (.inr rfl) hy ⟨h.wired.subscriptionLinks hs, .inr ⟨rfl, .inl⟩, .inl rfl, ?_⟩
  intro _ control epoch hcur
  by_cases hsame : (g.subscription s).controlled = controlled
  · refine ⟨?_, fun he => ?_⟩
    · rw [if_pos hsame]
      exact hcur.1
    · rw [if_pos hsame] at he
      exact hsame.symm.trans (hcur.2 he)
  have hle := hcur.1
  refine ⟨?_, fun he => ?_⟩
  · rw [if_neg hsame]
    exact hle.trans (Nat.le_succ _)
  · rw [if_neg hsame] at he
    have he : (g.subscription s).controlEpoch + 1 = epoch := he
    omega

end

theorem Sound.release (h : Sound mixed x (some s.id) z g) : Sound mixed x (some s.id) z (g.release l s) := by
  unfold Gateway.release
  split
  · exact h
  rename_i hf
  split
  · rename_i hid
    refine h.setSession (fun hl => h.wired.sessionLinks hf hl) (.inl rfl) ?_ hf rfl rfl
    intro _ hc hr hctl ho hne
    have hrecorded := h.controls.controlled (hc.symm ▸ hf) hr hctl (hc.symm ▸ ho) hne
    exact absurd (congrArg some (hid.symm.trans hrecorded)) hne
  · exact h

theorem release_eq (g : Gateway) (l : Link) (s : Subscription) : ∃ sessions, g.release l s = { g with sessions } := by
  unfold Gateway.release
  split
  · exact ⟨g.sessions, rfl⟩
  · split
    · exact ⟨_, rfl⟩
    · exact ⟨g.sessions, rfl⟩

theorem setControl_subscription (g : Gateway) (s : Subscription) (controlled : Bool) :
    ((g.setControl s controlled).subscription s).controlled = controlled ∧
      ((g.setControl s controlled).subscription s).revision = (g.subscription s).revision := by
  unfold Gateway.setControl
  rw [subscription_setSubscription_self]
  exact ⟨rfl, rfl⟩

/-- A notice that can be sent can be sent once control has passed. -/
theorem Ready.setControl (h : Ready g n s x) {sessions : OrdMap Nat Session}
    {subscriptionStates : Nat → SubscriptionState}
    {closed : Nat → Bool} {log : List Event} {calls : List Call} {callSerial : Nat} {stack : List Task}
    (hself : subscriptionStates s.id = g.subscriptionStates s.id) (hst : stream s.id log = stream s.id g.log)
    (controlled : Bool) :
    Ready (Gateway.setControl
      { g with sessions, subscriptionStates, closed, log, calls, callSerial, stack } s controlled) n s x := by
  have hlog : ∀ g' : Gateway, (g'.setControl s controlled).log = g'.log := fun _ => rfl
  unfold Ready at h ⊢
  rw [hlog, hst]
  split
  · rename_i hh
    rw [hh] at h
    exact h
  rename_i hh
  rw [hh] at h
  refine ⟨?_, ?_, ?_, h.done⟩
  · rw [hlog, hst]
    exact h.first
  · rw [hlog, hst]
    exact h.later
  · rw [(setControl_subscription _ s controlled).2]
    exact h.revision.trans (congrArg SubscriptionState.revision hself.symm)

/-- Control passes and the client is told: whatever the subscription is owed is paid. -/
theorem Sound.display (h : Sound mixed x y z g) (hn : n.Reads) (hs : s ∈ g.created) (hl : g.known.linkOf s.client l)
    (hx : Only x s) (hy : Only y s) (hr : Ready g n s x) : Sound mixed none none z (g.display o l n s) := by
  unfold Gateway.display
  split
  · obtain ⟨hsound, hclosed, hrecorded⟩ := h.possess (o := o) hs hl.2.symm
    obtain ⟨sessions, states, closed, log, calls, callSerial, stack, heq, hself, hst⟩ := h.possess_eq o l s
    rw [heq] at hsound hclosed hrecorded
    dsimp only
    split
    · rename_i htaken
      rw [heq]
      exact ((hsound.setControl hs hy true).payControl hs .self fun hf _ _ _ => hrecorded htaken hf).forward hn hs hl hx
        (hr.setControl hself hst true)
    · rename_i htaken
      rw [heq]
      exact hsound.payClosed hs hx hy (hclosed (Bool.eq_false_of_not_eq_true htaken))
  · obtain ⟨_, heq⟩ := release_eq g l s
    have hreleased := (h.oweControl hy).release (l := l)
    rw [heq] at hreleased ⊢
    refine ((hreleased.setControl hs .self false).payControl hs .self fun _ _ hctl _ => ?_).forward hn hs hl hx
      (hr.setControl rfl rfl false)
    rw [(setControl_subscription _ s false).1] at hctl
    cases hctl

/-! ## Delivering -/

theorem Ready.of_started (hst : stream s.id g.log ≠ []) (hc : n.channel = .presence) : Ready g n s none := by
  have hne : (!(stream s.id g.log).isEmpty) = true := by
    simpa [List.isEmpty_eq_false_iff] using hst
  unfold Ready Notice.header
  rw [hc, hne]
  simp

/-- `deliver`. A subscription that is owed something gets a presence that pays it. -/
theorem Sound.deliver (h : Sound mixed x y z g) (hn : n.Reads) (hs : g.registered s) (hl : g.known.linkOf s.client l)
    (hx : Only x s) (hy : Only y s) (ho : ¬g.ended s.client)
    (howed : x = none ∧ y = none ∨
      n.packet.status = .ok ∧ (g.subscription s).migrating = false ∧ n.channel = .presence)
    (hr : x = none ∧ stream s.id g.log ≠ [] ∨ n.channel = .presence ∧ Ready g n s x) :
    Sound mixed none none z (g.deliver o l n s) := by
  have hcreated := h.created hs
  have hclosed : ∀ {g' : Gateway}, Sound mixed x y z g' → s ∈ g'.created →
      Sound mixed none none z (g'.close l.client) :=
    fun h' hs' => hl.2 ▸ h'.closeOwed hs' hx hy
  unfold Gateway.deliver
  split
  · exact hclosed h hcreated
  split
  · rename_i hstatus
    obtain ⟨rfl, rfl⟩ := howed.resolve_right fun hw => hstatus hw.1
    split
    · exact h.startMigrating hcreated
    · exact h.remove hcreated hx hy
  split
  · rename_i hm
    obtain ⟨rfl, rfl⟩ := howed.resolve_right fun hw => absurd hm (by simp [hw.2.1])
    exact h
  split
  · rename_i hchannel
    obtain ⟨rfl, rfl⟩ := howed.resolve_right fun hw => absurd hchannel (by simp [hw.2.2])
    split
    · exact hclosed h hcreated
    rename_i update hupdate
    split
    · exact hclosed h hcreated
    rename_i hgap
    -- the revision is recorded before the packet is sent
    have hset : Sound mixed (some s.id) none z
        (g.setSubscription s fun t => { t with revision := update.revision }) := by
      refine h.setSubscription hcreated (.inl rfl) (.inl rfl)
        ⟨h.wired.subscriptionLinks hcreated, .inl rfl, .inr id, ?_⟩
      exact fun _ {_ _} hcur => hcur
    have hstate : ((g.setSubscription s fun t => { t with revision := update.revision }).subscription s).revision =
        update.revision := by
      rw [subscription_setSubscription_self]
    have hnonempty := (hr.resolve_right fun hw => absurd hchannel (by simp [hw.1])).2
    refine hset.forward hn hcreated hl .self ?_
    unfold Ready Notice.header
    rw [hchannel]
    dsimp only
    rw [hupdate]
    refine ⟨fun hempty => absurd hempty hnonempty, ?_, hstate.symm, ?_⟩
    · intro _ _ hst
      exact h.later hs (by simp) ho (Bool.eq_false_of_not_eq_true hgap) hst
    · exact h.streams.done_of_started hnonempty
  · rename_i hchannel
    refine h.display hn hcreated hl hx hy ?_
    rcases hr with ⟨rfl, hst⟩ | hr
    · exact .of_started hst hchannel
    · exact hr.2

/-! ## Restoring and appearing -/

theorem Notice.fits_eq_true {revision : UInt64} {owned : Bool} (h : n.fits revision owned = true) :
    ∃ update, n.packet.update = some update ∧ update.snapshot = true ∧ gap update revision = false := by
  unfold Notice.fits at h
  split at h
  · cases h
  rename_i update hu
  simp only [Bool.and_eq_true, Bool.not_eq_true'] at h
  refine ⟨update, hu, h.1.1, ?_⟩
  unfold gap
  rw [if_pos h.1.1]
  exact h.1.2

theorem Notice.revision_eq {update : ReplicationUpdateHeader} (h : n.packet.update = some update) :
    n.revision = update.revision := by
  unfold Notice.revision
  rw [h]

theorem settle_subscription (g : Gateway) (l : Link) (n : Notice) (s : Subscription) :
    (g.settle l n s).subscription s = settled g l n s := by
  obtain ⟨_, _, heq⟩ := settle_eq g l n s
  rw [heq]
  exact update_self _ _ _

/-- `restored`: the client gets the snapshot, then the presence. -/
theorem Sound.restored (h : Holds mixed g) (hn : n.Reads) (hs : g.registered s) (hl : g.known.linkOf s.client l)
    (hserving : g.serving s) (ho : ¬g.ended s.client) (hstatus : n.packet.status = .ok)
    (hchannel : n.channel = .presence)
    (hm : mixed = false → (g.subscription s).controlled = n.controlled) : Holds mixed (g.restored o l n s) := by
  have hcreated := h.created hs
  unfold Gateway.restored
  split
  · rename_i hfits
    obtain ⟨update, hu, hsnap, hgap⟩ := Notice.fits_eq_true hfits
    have hsettled := h.settle hcreated hl .none .none hm
    have hstate := settle_subscription g l n s
    obtain ⟨reverse, lookups, heq⟩ := settle_eq g l n s
    have hs' : s ∈ (g.settle l n s).created := by
      rw [heq]
      exact hcreated
    dsimp only
    split
    · exact hl.2 ▸ hsettled.closeOwed hs' .self .self
    rename_i body hbody
    have hnonempty : stream s.id g.log ≠ [] := (h.streams.started hs (by simp) hserving).resolve_left ho
    have hheader : ∀ started,
        (Event.notified s.client (some l) .attributes s.id body).header s.id started = some update := by
      intro started
      simp [Event.header, updateOf_remap hn.packet hbody, hu]
    have hextends : Extends (g.settle l n s) s update := by
      refine ⟨fun _ => hsnap, ?_, ?_, ?_⟩
      · rw [heq]
        exact fun hst => h.later hs (by simp) ho hgap hst
      · rw [hstate]
        exact (Notice.revision_eq hu).symm
      · rw [heq]
        exact h.streams.done_of_started hnonempty
    have horigin : ∀ l', some l = some l' →
        (g.settle l n s).known.linkOf s.client l' ∧ Under s.id (Channel.packet .attributes body) := by
      rintro _ hl'
      rw [heq]
      exact ⟨Option.some.inj hl' ▸ hl, .remap hn.packet hbody⟩
    have hsent := hsettled.notifyPacket (o := o) hs' horigin .self (hheader _) hextends
    rcases notify_cases o (g.settle l n s) s.client (some l) .attributes s.id body with hcase | ⟨-, hcase⟩
    · rw [hcase] at hsent ⊢
      exact hsent.payClosed hs' .none .self (closed_close _ _)
    rw [hcase] at hsent ⊢
    rw [if_pos rfl]
    refine hsent.deliver hn ?_ ?_ .none .self ?_ (.inr ⟨hstatus, ?_, hchannel⟩) (.inl ⟨rfl, ?_⟩)
    · rw [heq]
      exact hs
    · rw [heq]
      exact hl
    · rw [heq]
      exact ho
    · show ((g.settle l n s).subscription s).migrating = false
      rw [hstate]
      rfl
    · rw [stream_cons_some (hheader _)]
      exact List.cons_ne_nil _ _
  · exact h.remove hcreated .none .none

/-- `appeared`: the presence is the first packet of a new subscription. -/
theorem Sound.appeared (h : Holds mixed g) (hn : n.Reads) (hl : l ∈ g.opened) (ho : ¬g.ended l.client)
    (hsession : (g.sessions.find l.client).isSome = true) (hstatus : n.packet.status = .ok)
    (hchannel : n.channel = .presence) (hkind : n.kind = 1) : Holds mixed (g.appeared o l n) := by
  unfold Gateway.appeared
  split
  · exact h.close
  let s : Subscription := ⟨g.serial + 1, l.client, n.packet.type, n.packet.id, true, n.owned⟩
  let g' := g.register s { controlled := n.controlled }
  have hfresh : g.serial < s.id := Nat.lt_succ_self _
  have howed : Sound mixed (some s.id) (some s.id) none g' := h.register hfresh rfl (.inr hsession)
  have hs : s ∈ g'.created := List.mem_cons_self
  have hempty : stream s.id g.log = [] := h.stream_fresh hfresh
  show Holds mixed (if n.fits 0 s.owned then (g'.settle l n s).deliver o l n s else g'.remove o s .rejected true)
  split
  · rename_i hfits
    obtain ⟨update, hu, hsnap, -⟩ := Notice.fits_eq_true hfits
    have hsettled : Sound mixed (some s.id) (some s.id) none (g'.settle l n s) := by
      refine howed.settle hs ⟨hl, rfl⟩ .self .self fun _ => ?_
      rw [subscription_register_self]
    have hstate := settle_subscription g' l n s
    obtain ⟨reverse, lookups, heq⟩ := settle_eq g' l n s
    refine hsettled.deliver hn ?_ ?_ .self .self ?_ (.inr ⟨hstatus, ?_, hchannel⟩) (.inr ⟨hchannel, ?_⟩)
    · rw [heq]
      exact registered_register s { controlled := n.controlled }
    · rw [heq]
      exact ⟨hl, rfl⟩
    · rw [heq]
      exact ho
    · rw [hstate]
      rfl
    · have hlog : (g'.settle l n s).log = g.log := by
        rw [heq]
        rfl
      unfold Ready Notice.header
      rw [hchannel, hlog, hempty]
      dsimp only
      rw [if_pos ⟨rfl, hkind⟩, hu]
      refine ⟨fun _ => hsnap, ?_, ?_, ?_⟩
      · intro last rest hst
        rw [hlog, hempty] at hst
        cases hst
      · rw [hstate]
        exact (Notice.revision_eq hu).symm
      · rw [heq]
        intro r hr s' hs' hid
        have hle := (h.numbered.ids_pos s' (h.watches r hr s' hs')).2
        omega
  · exact howed.remove hs .self .self

/-! ## Notices -/

/-- A notice that was read. A confirmed one must not give its subscription another state of control. -/
theorem Sound.noticed (h : Holds mixed g) (hn : n.Reads) (hl : l ∈ g.opened) (ho : ¬g.ended l.client)
    (hsession : (g.sessions.find l.client).isSome = true) {confirmed : Bool}
    (hm : mixed = false → confirmed = true → ∀ s,
      g.resuming o l n.packet (g.addressee l n.packet.subscription) = some s →
        (g.subscription s).controlled = n.controlled) : Holds mixed (g.noticed o l n confirmed) := by
  unfold Gateway.noticed
  dsimp only
  split
  · rename_i hcase
    obtain ⟨hchannel, hkind, hstatus, -⟩ := hcase
    split
    · exact h.appeared hn hl ho hsession hstatus hchannel hkind
    rename_i s hs
    split
    · rename_i hconfirmed
      obtain ⟨hr, hc, hserving⟩ := h.resuming hl hs
      exact h.restored hn hr ⟨hl, hc.symm⟩ hserving (hc ▸ ho) hstatus hchannel fun hmixed => hm hmixed hconfirmed s hs
    · exact h
  · split
    · exact h
    rename_i hs
    obtain ⟨hr, hc, hserving⟩ := h.addressee hl hs
    have hst := (h.streams.started hr (by simp) hserving).resolve_left (hc ▸ ho)
    exact h.deliver hn hr ⟨hl, hc.symm⟩ .none .none (hc ▸ ho) (.inl ⟨rfl, rfl⟩) (.inl ⟨rfl, hst⟩)

theorem not_ended_of_authentic {c : Nat} (h : g.authentic c = true) : ¬g.ended c := by
  unfold Gateway.authentic at h
  split at h
  · cases h
  unfold Gateway.authenticated at h
  split at h
  · cases h
  rw [Bool.and_eq_true] at h
  obtain ⟨hclosed, hstopped⟩ := not_ended_of_current h.2
  rintro (ho | ho)
  · rw [hclosed] at ho
    cases ho
  · rw [hstopped] at ho
    cases ho

/-- `notice`. -/
theorem Sound.notice (h : Holds mixed g) {peer : Nat} {channel : Channel} {data : Bytes} {confirmed : Bool}
    (hm : mixed = false → confirmed = true → ∀ l n s, g.links.find peer = some l → readNotice channel data = some n →
      g.resuming o l n.packet (g.addressee l n.packet.subscription) = some s →
        (g.subscription s).controlled = n.controlled) : Holds mixed (g.notice o peer channel data confirmed) := by
  unfold Gateway.notice
  split
  · exact h
  rename_i l hl
  split
  · exact h
  split
  · exact h
  rename_i hsession
  split
  · exact h.revoke
  rename_i hauthentic
  split
  · exact h.close
  rename_i n hread
  refine h.noticed (readNotice_eq_some hread).1 (h.wired.links hl).2
    (not_ended_of_authentic (Bool.eq_true_of_not_eq_false hauthentic)) ?_ ?_
  · simpa [Option.isSome_iff_ne_none] using hsession
  · intro hmixed hconfirmed s hs
    exact hm hmixed hconfirmed l n s hl hread hs

end Fsnet.ClientGateway
