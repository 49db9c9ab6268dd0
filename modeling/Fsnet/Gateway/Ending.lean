import Fsnet.Gateway.Subscriptions
/-!
# Waiters and the end of a subscription

The end of a subscription takes it out of every table it is in. What such a
function leaves alone is said once, as an equation with the fields it changes.
-/

namespace Fsnet.ClientGateway

open Lib

variable {mixed : Bool} {x y z : Option Nat} {g : Gateway} {s : Subscription} {d : Detach} {o : Oracle}
    {status : Status}

/-- The invariant with nothing owed. -/
abbrev Holds (mixed : Bool) (g : Gateway) : Prop := Sound mixed none none none g

/-! ## Waiters -/

theorem find_of_emplace {waiters : OrdMap Nat Purpose} {p q : Purpose} {id : Nat}
    (h : (Gateway.emplace waiters p).find id = some q) : q = p ∨ waiters.find id = some q := by
  unfold Gateway.emplace at h
  split at h
  · exact .inr h
  · exact (OrdMap.find_of_insert h).imp And.right And.right

theorem leave_eq (id : Nat) (g : Gateway) (d : Detach) :
    ∃ lookups linkStates, Gateway.leave id g d = { g with lookups, linkStates } := by
  cases d with
  | lookup =>
    dsimp only [Gateway.leave]
    split
    · exact ⟨g.lookups, g.linkStates, rfl⟩
    · exact ⟨_, g.linkStates, rfl⟩
  | link => exact ⟨g.lookups, _, rfl⟩

theorem foldl_leave_eq (id : Nat) (ds : List Detach) (g : Gateway) :
    ∃ lookups linkStates, ds.foldl (Gateway.leave id) g = { g with lookups, linkStates } := by
  induction ds generalizing g with
  | nil => exact ⟨g.lookups, g.linkStates, rfl⟩
  | cons d _ ih =>
    obtain ⟨_, _, hd⟩ := leave_eq id g d
    obtain ⟨lookups', linkStates', hds⟩ := ih (Gateway.leave id g d)
    refine ⟨lookups', linkStates', ?_⟩
    rw [List.foldl_cons, hds, hd]

theorem detachWaiters_eq (g : Gateway) (s : Subscription) :
    ∃ subscriptionStates lookups linkStates,
      g.detachWaiters s = { g with subscriptionStates, lookups, linkStates } := by
  obtain ⟨lookups, linkStates, h⟩ := foldl_leave_eq s.id (g.subscription s).detach
    (g.setSubscription s fun t => { t with detach := [] })
  exact ⟨_, lookups, linkStates, h⟩

namespace Sound

section

variable (h : Sound mixed x y z g)
include h

theorem leave {id : Nat} : Sound mixed x y z (Gateway.leave id g d) := by
  cases d with
  | lookup entity =>
    dsimp only [Gateway.leave]
    split
    · exact h
    · rename_i hl
      exact h.setLookup fun hp => h.wired.lookups hl (OrdMap.find_of_erase hp)
  | link peer =>
    refine h.rewire { h.wired with waiters := fun {l id' p} hl hp => ?_ }
    by_cases hpeer : l.peer = peer
    · subst hpeer
      simp only [Function.update_self] at hp
      exact h.wired.waiters hl (OrdMap.find_of_erase hp)
    · simp only [Function.update_of_ne hpeer] at hp
      exact h.wired.waiters hl hp

theorem foldl_leave {id : Nat} {ds : List Detach} : Sound mixed x y z (ds.foldl (Gateway.leave id) g) := by
  induction ds generalizing g with
  | nil => exact h
  | cons _ _ ih => exact ih h.leave

theorem detachWaiters (hs : s ∈ g.created) : Sound mixed x y z (g.detachWaiters s) := by
  have hset : Sound mixed x y z (g.setSubscription s fun t => { t with detach := [] }) :=
    h.setQuiet hs fun _ => ⟨rfl, rfl, .inl, rfl, rfl⟩
  exact hset.foldl_leave

theorem attachDetach {p : Purpose} (hp : p.Valid g.known) : Sound mixed x y z (g.attachDetach p d) := by
  unfold Gateway.attachDetach
  cases p with
  | routed | present => exact h.setRequest hp.1 (fun _ => rfl) (.inl hp.2)
  | watch => exact h.setRequest hp.1 (fun _ => rfl) (.inr fun _ => .inl rfl)
  | refresh => exact h.setQuiet hp.1 fun _ => ⟨rfl, rfl, .inl, rfl, rfl⟩

theorem waitLookup {p : Purpose} (hp : p.Valid g.known) {lookup : Lookup}
    (hl : ∀ {id q}, lookup.waiters.find id = some q → q.Valid g.known) : Sound mixed x y z (g.waitLookup p lookup) := by
  refine Sound.attachDetach (h.setLookup fun {id q} hq => ?_) hp
  rcases find_of_emplace hq with rfl | hq
  · exact hp
  · exact hl hq

theorem waitLink {p : Purpose} (hp : p.Valid g.known) {l : Link}
    (hl : g.known.linkOf p.client l) : Sound mixed x y z (g.waitLink p l) := by
  refine Sound.attachDetach (h.setLink hl.1 fun {id q} hq => ?_) hp
  rcases find_of_emplace hq with rfl | hq
  · exact ⟨hp, hl.2.symm⟩
  · exact h.wired.waiters hl.1 hq

end

end Sound

/-! ## The end of a subscription -/

theorem announce_eq (o : Oracle) (g : Gateway) (s : Subscription) (status : Status) :
    ∃ closed log, g.announce o s status = { g with closed, log } := by
  have hnotify : ∀ origin channel data, ∃ closed log,
      (g.notify o s.client origin channel s.id data).1 = { g with closed, log } := by
    intro origin channel data
    rcases notify_cases o g s.client origin channel s.id data with hn | ⟨-, hn⟩
    · rw [hn]
      exact ⟨_, g.log, rfl⟩
    · rw [hn]
      exact ⟨g.closed, _, rfl⟩
  unfold Gateway.announce
  split
  · exact ⟨g.closed, g.log, rfl⟩
  · split
    · exact hnotify none .presence _
    · exact hnotify none .attributes _

theorem dropControl_eq (g : Gateway) (s : Subscription) : ∃ sessions, g.dropControl s = { g with sessions } := by
  unfold Gateway.dropControl
  split
  · exact ⟨g.sessions, rfl⟩
  · split
    · exact ⟨_, rfl⟩
    · exact ⟨g.sessions, rfl⟩

theorem dropReverse_eq (g : Gateway) (s : Subscription) : ∃ reverse, g.dropReverse s = { g with reverse } := by
  unfold Gateway.dropReverse
  split
  · exact ⟨g.reverse, rfl⟩
  · exact ⟨_, rfl⟩

theorem drop_eq (g : Gateway) (s : Subscription) :
    ∃ sessions reverse, (g.dropControl s).dropReverse s = { g with sessions, reverse } := by
  obtain ⟨sessions, hc⟩ := dropControl_eq g s
  obtain ⟨reverse, hr⟩ := dropReverse_eq (g.dropControl s) s
  rw [hr, hc]
  exact ⟨sessions, reverse, rfl⟩

/-- What the end of a subscription changes. -/
theorem remove_eq (o : Oracle) (g : Gateway) (s : Subscription) (status : Status) (notify : Bool) :
    ∃ subscriptions schedule subscriptionStates lookups linkStates sessions reverse closed log,
      g.remove o s status notify = { g with
        subscriptions, schedule, subscriptionStates, lookups, linkStates, sessions, reverse, closed, log } := by
  unfold Gateway.remove
  split
  · obtain ⟨states, lookups, linkStates, hw⟩ := detachWaiters_eq (g.unregister s) s
    obtain ⟨sessions, reverse, hd⟩ := drop_eq ((g.unregister s).detachWaiters s) s
    dsimp only
    split
    · obtain ⟨closed, log, ha⟩ :=
        announce_eq o ((((g.unregister s).detachWaiters s).dropControl s).dropReverse s) s status
      rw [ha, hd, hw]
      exact ⟨_, _, states, lookups, linkStates, sessions, reverse, closed, log, rfl⟩
    · rw [hd, hw]
      exact ⟨_, _, states, lookups, linkStates, sessions, reverse, g.closed, g.log, rfl⟩
  · exact ⟨_, _, _, _, _, _, _, _, _, rfl⟩

theorem kept_remove (o : Oracle) (g : Gateway) (s : Subscription) (status : Status) (notify : Bool) :
    (g.remove o s status notify).admitted = g.admitted ∧ (g.remove o s status notify).created = g.created ∧
      (g.remove o s status notify).opened = g.opened := by
  obtain ⟨_, _, _, _, _, _, _, _, _, heq⟩ := remove_eq o g s status notify
  rw [heq]
  exact ⟨rfl, rfl, rfl⟩

/-- The packet that ends a subscription adds nothing to its stream. -/
theorem updateOf_revocation {subscription lease : Nat} {type id body : Bytes} {status : Status}
    (h : encodeReplicationPacket subscription type id status none lease = .ok body) : updateOf body = none := by
  unfold updateOf
  split
  · rfl
  · rename_i hp
    exact decode_revocation h hp

namespace Sound

theorem announce (h : Sound mixed x y z g) (hs : s ∈ g.created) :
    Sound mixed x y z (g.announce o s status) := by
  unfold Gateway.announce
  split
  · exact h
  rename_i hbody
  split
  · refine h.notifyQuiet hs (by simp) ?_
    simp [Event.header]
  · refine h.notifyQuiet hs (by simp) ?_
    simp [Event.header, updateOf_revocation hbody]

/-- A subscription that is gone is controlled no longer. -/
theorem dropControl (h : Sound mixed x y z g) (hs : s ∈ g.created) (hr : ¬g.registered s) :
    Sound mixed x y z (g.dropControl s) := by
  unfold Gateway.dropControl
  split
  · exact h
  rename_i hf
  split
  · rename_i hid
    refine h.setSession (fun hl => h.wired.sessionLinks hf hl) (.inl rfl) ?_ hf rfl rfl
    intro _ hc hr' hctl ho hy
    have hrec := h.controls.controlled (hc.symm ▸ hf) hr' hctl (hc.symm ▸ ho) hy
    exact absurd (h.numbered.subscription_eq (h.created hr') hs (hrec.symm.trans hid) ▸ hr') hr
  · exact h

theorem dropReverse (h : Sound mixed x y z g) : Sound mixed x y z (g.dropReverse s) := by
  unfold Gateway.dropReverse
  split
  · exact h
  · exact h.setReverseNone

/-- `remove` pays what the subscription is owed. -/
theorem remove (h : Sound mixed x y z g) (hs : s ∈ g.created) (hx : Only x s) (hy : Only y s) :
    Sound mixed none none z (g.remove o s status notify) := by
  unfold Gateway.remove
  split
  · have hdetached := (h.unregister hs hx hy).detachWaiters hs
    obtain ⟨states, lookups, linkStates, hw⟩ := detachWaiters_eq (g.unregister s) s
    have hdropped : Sound mixed none none z (((g.unregister s).detachWaiters s).dropControl s) := by
      refine hdetached.dropControl ?_ ?_
      · rw [hw]
        exact hs
      · rw [hw]
        exact not_registered_unregister g s
    have hcut := hdropped.dropReverse (s := s)
    dsimp only
    split
    · refine hcut.announce ?_
      obtain ⟨sessions, reverse, hd⟩ := drop_eq ((g.unregister s).detachWaiters s) s
      rw [hd, hw]
      exact hs
    · exact hcut
  · rename_i hr
    exact h.payGone hs hx hy hr

end Sound

end Fsnet.ClientGateway
