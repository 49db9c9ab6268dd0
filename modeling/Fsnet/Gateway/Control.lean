import Fsnet.Gateway.Steps
/-!
# Restores and control

A restore that asks for no control gives none: whatever its reply does, no
subscription becomes controlled by it.
-/

namespace Fsnet.ClientGateway

open Lib Function

variable {g g' g'' : Gateway} {s : Subscription} {l : Link} {n : Notice} {o : Oracle}
  {client id : Nat} {origin : Option Link} {channel : Channel} {data : Bytes} {status : Status} {tell confirmed : Bool}

/-- No subscription becomes controlled. -/
def Fades (g g' : Gateway) : Prop :=
  ∀ id, (g.subscriptionStates id).controlled = false → (g'.subscriptionStates id).controlled = false

namespace Fades

theorem refl : Fades g g := fun _ h => h

theorem trans (h : Fades g g') (h' : Fades g' g'') : Fades g g'' := fun id hc => h' id (h id hc)

theorem of_eq (h : g'.subscriptionStates = g.subscriptionStates) : Fades g g' := fun id hc => by rwa [h]

theorem setSubscription {f : SubscriptionState → SubscriptionState}
    (hf : ∀ t, t.controlled = false → (f t).controlled = false) :
    Fades g (g.setSubscription s f) := by
  intro id hc
  by_cases hid : id = s.id
  · subst hid
    show (update g.subscriptionStates s.id _ s.id).controlled = false
    rw [update_self]
    exact hf _ hc
  · show (update g.subscriptionStates s.id _ id).controlled = false
    rw [update_of_ne hid]
    exact hc

theorem detachWaiters : Fades g (g.detachWaiters s) := by
  obtain ⟨_, _, heq⟩ := foldl_leave_eq s.id (g.subscription s).detach
    (g.setSubscription s fun t => { t with detach := [] })
  have hstates : (g.detachWaiters s).subscriptionStates =
      (g.setSubscription s fun t => { t with detach := [] }).subscriptionStates := by
    unfold Gateway.detachWaiters
    rw [heq]
  have hcleared : Fades g (g.setSubscription s fun t => { t with detach := [] }) := setSubscription fun _ h => h
  exact hcleared.trans (of_eq hstates)

theorem notify : Fades g (g.notify o client origin channel id data).1 := by
  obtain ⟨_, _, heq, -⟩ := notify_eq o g client origin channel id data
  rw [heq]
  exact refl

theorem remove : Fades g (g.remove o s status tell) := by
  unfold Gateway.remove
  split
  · have hdetached : Fades g ((g.unregister s).detachWaiters s) :=
      detachWaiters (g := g.unregister s)
    obtain ⟨_, _, hd⟩ := drop_eq ((g.unregister s).detachWaiters s) s
    have hcut : Fades g ((((g.unregister s).detachWaiters s).dropControl s).dropReverse s) := by
      rw [hd]
      exact hdetached
    dsimp only
    split
    · obtain ⟨_, _, ha⟩ := announce_eq o ((((g.unregister s).detachWaiters s).dropControl s).dropReverse s) s status
      rw [ha]
      exact hcut
    · exact hcut
  · exact refl

theorem forward : Fades g (g.forward o l n s) := by
  unfold Gateway.forward
  split
  · exact refl
  · exact notify

theorem startMigrating : Fades g (g.startMigrating s) := by
  unfold Gateway.startMigrating
  split
  · exact refl
  · exact setSubscription fun _ h => h

theorem expireRoute : Fades g (g.expireRoute s) := by
  obtain ⟨_, heq⟩ := expireRoute_eq g s
  rw [heq]
  exact refl

section

variable (hn : n.controlled = false)
include hn

theorem display : Fades g (g.display o l n s) := by
  unfold Gateway.display
  rw [if_neg (by simp [hn])]
  obtain ⟨_, heq⟩ := release_eq g l s
  have hreleased : Fades g (g.release l s) := by
    rw [heq]
    exact refl
  have hcontrol : Fades (g.release l s) ((g.release l s).setControl s false) := by
    unfold Gateway.setControl
    exact setSubscription fun _ _ => rfl
  exact (hreleased.trans hcontrol).trans forward

theorem deliver : Fades g (g.deliver o l n s) := by
  unfold Gateway.deliver
  split
  · exact refl
  split
  · split
    · exact startMigrating
    · exact remove
  split
  · exact refl
  split
  · split
    · exact refl
    split
    · exact refl
    rename_i update _ _
    have hset : Fades g (g.setSubscription s fun t => { t with revision := update.revision }) :=
      setSubscription fun _ h => h
    exact hset.trans forward
  · exact display hn

theorem settle : Fades g (g.settle l n s) := by
  obtain ⟨_, _, heq⟩ := settle_eq g l n s
  rw [heq]
  exact setSubscription (f := fun _ => settled g l n s) fun _ _ => hn

theorem restored : Fades g (g.restored o l n s) := by
  unfold Gateway.restored
  split
  · have hsettled : Fades g (g.settle l n s) := settle hn
    dsimp only
    split
    · exact hsettled
    · split
      · exact (hsettled.trans notify).trans (deliver hn)
      · exact hsettled.trans notify
  · exact remove

theorem appeared : Fades g (g.appeared o l n) := by
  unfold Gateway.appeared
  split
  · exact refl
  have hregistered : ∀ s, Fades g (g.register s { controlled := n.controlled }) := fun s =>
    setSubscription (f := fun _ => { controlled := n.controlled }) fun _ _ => hn
  dsimp only
  split
  · exact ((hregistered _).trans (settle hn)).trans (deliver hn)
  · exact (hregistered _).trans remove

theorem noticed : Fades g (g.noticed o l n confirmed) := by
  unfold Gateway.noticed
  dsimp only
  split
  · split
    · exact appeared hn
    · split
      · exact restored hn
      · exact refl
  · split
    · exact refl
    · exact deliver hn

end

theorem revoke : Fades g (g.revoke o client) := by
  unfold Gateway.revoke
  split
  · exact refl
  · exact refl

theorem notice {peer : Nat} (hn : ∀ n, readNotice channel data = some n → n.controlled = false) :
    Fades g (g.notice o peer channel data confirmed) := by
  unfold Gateway.notice
  split
  · exact refl
  split
  · exact refl
  split
  · exact refl
  split
  · exact revoke
  split
  · exact refl
  · rename_i n hread
    exact noticed (hn n hread)

end Fades

/-- A reply that confirms a restore shows the control it was asked for. -/
theorem controlled_of_confirms {data : Bytes} {control : Bool} (h : Gateway.confirms data s control = true)
    (hn : readNotice .presence data = some n) : n.controlled = control := by
  unfold Gateway.confirms at h
  split at h
  · rename_i kind flags body
    split at h
    · cases h
    rename_i hp
    simp only [Bool.and_eq_true, decide_eq_true_eq] at h
    have hcontrol := h.1.1.2
    unfold readNotice at hn
    dsimp only at hn
    rw [hp] at hn
    split at hn
    · cases hn
    · obtain rfl := Option.some.inj hn
      exact hcontrol
  · cases h

/-- The reply to a restore that was started in the present state of control, or before
that was changed, does not make its subscription controlled. -/
theorem restoreAnswered_controlled {control : Bool} {epoch : Nat} (hc : Current (g.subscription s) control epoch)
    (hs : (g.subscription s).controlled = false) (result : Result) :
    ((g.restoreAnswered o l s control epoch result).subscription s).controlled = false := by
  have hmoved : Fades g (g.moved s) := Fades.setSubscription fun _ h => h
  suffices hfades : Fades g (g.restoreAnswered o l s control epoch result) from hfades s.id hs
  unfold Gateway.restoreAnswered
  split
  · dsimp only
    split
    · have hnext : Fades (g.moved s) ((g.moved s).setSubscription s fun t => { t with next := 0 }) :=
        Fades.setSubscription fun _ h => h
      exact (hmoved.trans hnext).trans (Fades.expireRoute)
    rename_i hepoch
    split
    · unfold Gateway.notMoved
      split
      · exact hmoved.trans (Fades.remove)
      · exact hmoved.trans (Fades.setSubscription fun _ h => h)
    split
    · rename_i hconfirms
      refine hmoved.trans (Fades.notice fun n hn => ?_)
      rw [not_not, (moved_subscription g s s).2.2] at hepoch
      rw [controlled_of_confirms hconfirms hn, ← hc.2 hepoch, hs]
    · exact hmoved.trans (Fades.remove)
  · exact Fades.refl

end Fsnet.ClientGateway
