import Fsnet.Gateway.Delivering
/-!
# Replies of owners keep the invariant

What a reply is for was fixed when the call was made: the request, the
subscription and the client of the link it went out on.
-/

namespace Fsnet.ClientGateway

open Lib Function

variable {mixed : Bool} {x y z : Option Nat} {g : Gateway} {s : Subscription} {r : Request} {l : Link} {o : Oracle}
  {status : Status} {result : Result} {epoch : Nat}

/-! ## Subscriptions that are no longer busy -/

theorem moved_subscription (g : Gateway) (s s' : Subscription) :
    ((g.moved s).subscription s').migrating = (g.subscription s').migrating ∧
      ((g.moved s).subscription s').controlled = (g.subscription s').controlled ∧
      ((g.moved s).subscription s').controlEpoch = (g.subscription s').controlEpoch := by
  unfold Gateway.moved
  by_cases hid : s'.id = s.id
  · have hself := subscription_setSubscription_self g s fun t =>
      { t with busy := false, next := g.now + g.limits.refresh }
    unfold Gateway.subscription at hself ⊢
    rw [hid, hself]
    exact ⟨rfl, rfl, rfl⟩
  · rw [subscription_setSubscription_ne g _ hid]
    exact ⟨rfl, rfl, rfl⟩

theorem resuming_moved (o : Oracle) (g : Gateway) (s : Subscription) (l : Link) (packet : ReplicationPacketView)
    (found : Option Subscription) : (g.moved s).resuming o l packet found = g.resuming o l packet found := by
  unfold Gateway.resuming
  simp only [(moved_subscription g s _).1]
  rfl

namespace Sound

/-! ## Replies to watches -/

theorem watchRefused (h : Sound mixed x none none g) (hr : r ∈ g.admitted) (hs : s ∈ g.created) (hx : Only x s) :
    Holds mixed (g.watchRefused o r s) := by
  unfold Gateway.watchRefused
  refine (h.remove hs hx .none).finishFailed ?_ (by simp) (by simp)
  rw [(kept_remove o g s _ false).1]
  exact hr

theorem watching (h : Holds mixed g) (hs : s ∈ g.created) (hl : g.known.linkOf s.client l) (remote : Nat)
    (revision : UInt64) : Sound mixed (some s.id) none none (g.watching l remote revision s) := by
  have hset : Sound mixed (some s.id) none none (g.setSubscription s fun t =>
      { t with link := some l, remote, revision, busy := false, next := g.now + g.limits.refresh }) := by
    refine h.setSubscription hs (.inl rfl) (.inl rfl) ⟨?_, .inl rfl, .inr id, fun _ {_ _} hcur => hcur⟩
    rintro _ heq
    exact Option.some.inj heq ▸ hl
  exact hset.setReverseSome hl.1 hs hl.2.symm (.inr rfl)

theorem watchAnswered (h : Holds mixed g) (hr : r ∈ g.admitted) (hsub : r.subscription = some s)
    (hs : s ∈ g.created) (hl : g.known.linkOf r.client l) : Holds mixed (g.watchAnswered o l r s result) := by
  have hclient : s.client = r.client := by
    unfold Request.subscription at hsub
    obtain ⟨key, -, rfl⟩ := Option.map_eq_some_iff.1 hsub
    rfl
  unfold Gateway.watchAnswered
  split
  · exact h
  rename_i hundone
  split
  · rename_i hstatus
    refine (h.remove hs .none .none).finishFailed ?_ hstatus ?_
    · rw [(kept_remove o g s _ false).1]
      exact hr
    · rintro l' heq
      refine ⟨?_, Option.some.inj heq ▸ hl.2⟩
      show l' ∈ (g.remove o s result.status false).opened
      rw [(kept_remove o g s _ false).2.2]
      exact Option.some.inj heq ▸ hl.1
  split
  · exact h.watchRefused hr hs .none
  rename_i packet hpacket
  split
  · exact h.watchRefused hr hs .none
  rename_i update hupdate
  split
  · rename_i hsnapshot
    have hwatching := h.watching hs (hclient ▸ hl) packet.subscription update.revision
    dsimp only
    split
    · exact hwatching.watchRefused hr hs .self
    rename_i hdata
    refine hwatching.finish hr (.inl rfl) (fun hd => absurd hd hundone) (.inr ⟨s, hsub, rfl⟩) ?_ ?_
    · rintro _ heq
      exact Option.some.inj heq ▸ hl
    · -- the reply is the snapshot the subscription starts with
      rintro - - _ hs'
      rw [hsub] at hs'
      obtain rfl := Option.some.inj hs'
      refine ⟨.remap hpacket hdata, update, (updateOf_remap hpacket hdata).trans hupdate, ?_, ?_⟩
      · have hsnap := hsnapshot.2
        unfold Gateway.isSnapshotOf at hsnap
        rw [hupdate] at hsnap
        simp only [Option.any_some, Bool.and_eq_true] at hsnap
        exact hsnap.1.1
      · have hstate : (g.watching l packet.subscription update.revision s).subscription s = _ := update_self _ _ _
        rw [hstate]
  · exact h.watchRefused hr hs .none

/-! ## Replies to subscriptions that move -/

theorem notMoved (h : Holds mixed g) (hs : s ∈ g.created) : Holds mixed (g.notMoved o s status) := by
  unfold Gateway.notMoved
  split
  · exact h.remove hs .none .none
  · exact h.retryMigration hs

theorem moved (h : Holds mixed g) (hs : s ∈ g.created) (hst : g.Started s) : Holds mixed (g.moved s) := by
  unfold Gateway.moved
  exact h.setQuiet hs fun _ => ⟨rfl, rfl, fun _ => .inr hst, rfl, rfl⟩

/-- A restore is confirmed as a notice on its link. It must not give the subscription
it resumes another state of control. -/
theorem restoreAnswered (h : Holds mixed g) (hs : s ∈ g.created) (hst : g.Started s) {control : Bool} {epoch : Nat}
    {result : Result}
    (hm : mixed = false → g.registered s → (g.subscription s).controlEpoch = epoch → result.status = .ok →
      Gateway.confirms result.data s control = true → ∀ l' n s', g.links.find l.peer = some l' →
      readNotice .presence result.data = some n →
      g.resuming o l' n.packet (g.addressee l' n.packet.subscription) = some s' →
        (g.subscription s').controlled = n.controlled) :
    Holds mixed (g.restoreAnswered o l s control epoch result) := by
  have hmoved := h.moved hs hst
  unfold Gateway.restoreAnswered
  split
  · rename_i hregistered
    dsimp only
    split
    · have hnext : Holds mixed ((g.moved s).setSubscription s fun t => { t with next := 0 }) :=
        hmoved.setQuiet hs fun _ => ⟨rfl, rfl, .inl, rfl, rfl⟩
      exact hnext.expireRoute
    rename_i hepoch
    split
    · exact hmoved.notMoved hs
    rename_i hstatus
    split
    · rename_i hconfirms
      rw [not_not, (moved_subscription g s s).2.2] at hepoch
      refine hmoved.notice fun hmixed _ l' n s' hl' hn hr => ?_
      rw [resuming_moved] at hr
      rw [(moved_subscription g s s').2.1]
      exact hm hmixed hregistered hepoch (not_not.1 hstatus) hconfirms l' n s' hl' hn hr
    · exact hmoved.remove hs .none .none
  · exact h

/-- After a client was revoked, or was before, it receives nothing more. -/
theorem ended_revoke (h : Sound mixed x y z g) (hs : g.registered s) : (g.revoke o s.client).ended s.client := by
  unfold Gateway.revoke
  split
  · rename_i hf
    refine (h.controls.sessioned hs).resolve_right fun hsome => ?_
    rw [hf] at hsome
    cases hsome
  · exact .inl (closed_close _ _)

theorem created_revoke (o : Oracle) (g : Gateway) (client : Nat) : (g.revoke o client).created = g.created := by
  unfold Gateway.revoke
  split <;> rfl

/-- The snapshot from another owner is sent, or the subscription or its client ends. -/
theorem rewatched (h : Sound mixed (some s.id) none none g) (hs : g.registered s) (hl : g.known.linkOf s.client l)
    {data : Bytes} {header : ReplicationUpdateHeader} (hextends : ¬g.ended s.client → Extends g s header)
    {packet : ReplicationPacketView} (hpacket : decodeReplicationPacketView data = .ok packet)
    (hupdate : packet.update = some header) :
    Holds mixed (g.rewatched o l s data) := by
  have hcreated := h.created hs
  unfold Gateway.rewatched
  split
  · exact h.remove hcreated .self .none
  rename_i hout
  split
  · rename_i hauthentic
    refine h.notifyPacket hcreated ?_ .self ?_ (hextends (not_ended_of_authentic hauthentic))
    · rintro _ heq
      exact ⟨Option.some.inj heq ▸ hl, .remap hpacket hout⟩
    · simp [Event.header, updateOf_remap hpacket hout, hupdate]
  have hover := h.ended_revoke (o := o) hs
  refine h.revoke.payStream ?_ .self fun _ => ⟨fun _ => .inl hover, fun ho => absurd hover ho⟩
  rw [created_revoke]
  exact hcreated

theorem rewatchAnswered (h : Holds mixed g) (hs : s ∈ g.created) (hst : g.Started s)
    (hl : g.known.linkOf s.client l) : Holds mixed (g.rewatchAnswered o l s result) := by
  have hmoved := h.moved hs hst
  unfold Gateway.rewatchAnswered
  split
  · rename_i hregistered
    dsimp only
    split
    · exact hmoved.notMoved hs
    split
    · exact hmoved.remove hs .none .none
    rename_i packet hpacket
    split
    · exact hmoved.remove hs .none .none
    rename_i update hupdate
    split
    · rename_i hfits
      obtain ⟨hsnapshot, hnewer⟩ := hfits
      have hsnap : update.snapshot = true := by
        unfold Gateway.isSnapshotOf at hsnapshot
        rw [hupdate] at hsnapshot
        simp only [Option.any_some, Bool.and_eq_true] at hsnapshot
        exact hsnapshot.1.1
      have hattached := hmoved.attach hs hl .none packet.subscription update.revision
      obtain ⟨_, ha⟩ := attach_eq (g.moved s) l packet.subscription update.revision s
      obtain ⟨_, he⟩ := expireRoute_eq ((g.moved s).attach l packet.subscription update.revision s) s
      refine hattached.expireRoute.rewatched ?_ ?_ (fun ho => ?_) hpacket hupdate
      · rw [he, ha]
        exact hregistered
      · rw [he, ha]
        exact hl
      · rw [he, ha] at ho ⊢
        have hnonempty : stream s.id g.log ≠ [] := hst.resolve_left ho
        refine ⟨fun _ => hsnap, fun hlast => ?_, ?_, h.streams.done_of_started hnonempty⟩
        · refine hmoved.later hregistered (by simp) ho ?_ hlast
          unfold gap
          rw [if_pos hsnap]
          exact decide_eq_false hnewer
        · show update.revision = SubscriptionState.revision (Function.update (g.moved s).subscriptionStates s.id _ s.id)
          rw [update_self]
          rfl
    · exact hmoved.remove hs .none .none
  · exact h

theorem unpossessed (h : Holds mixed g) (hs : s ∈ g.created) : Holds mixed (g.unpossessed s epoch status) := by
  unfold Gateway.unpossessed
  split
  · exact h
  split
  · refine ((h.startMigrating hs).expireRoute).retryMigration ?_
    obtain ⟨_, he⟩ := expireRoute_eq (g.startMigrating s) s
    rw [he]
    exact (congrArg (fun k => k.subscription s) (known_startMigrating g s)).mpr hs
  · exact h

/-! ## Links that open -/

theorem linkOpened (h : Sound mixed x y z g) (hl : l ∈ g.opened) : Sound mixed x y z (g.linkOpened o l status) := by
  have hwaiting : ∀ p ∈ (g.link l).waiters.entries.map Prod.snd, p.Valid g.known ∧ p.client = l.client := by
    intro p hp
    obtain ⟨e, he, rfl⟩ := List.mem_map.1 hp
    exact h.wired.waiters hl ((OrdMap.mem_entries_iff _ e.1 e.2).1 he)
  have hset : Sound mixed x y z (g.setLink l fun _ => ⟨status = .ok, false, .empty⟩) :=
    h.setLink hl fun hp => by cases hp
  unfold Gateway.linkOpened
  dsimp only
  split
  · exact hset.push_map (fun p hp => ⟨(hwaiting p hp).1, hl, (hwaiting p hp).2.symm⟩) fun _ _ => rfl
  rename_i hstatus
  have hfailed : Task.Valid g.known (.failed l status ((g.link l).waiters.entries.map Prod.snd)) :=
    ⟨hl, hstatus, fun p hp => (hwaiting p hp).1⟩
  exact (hset.push_one hfailed rfl).closePeer

theorem linkFailed (h : Sound mixed x y z g) {status : Status} (hs : status ≠ .ok) {waiting : List Purpose}
    (hw : ∀ p ∈ waiting, p.Valid g.known) : Sound mixed x y z (g.linkFailed l status waiting) := by
  unfold Gateway.linkFailed
  exact h.eraseLink.push_map (fun p hp => ⟨hw p hp, hs⟩) fun _ _ => rfl

theorem delegated (h : Holds mixed g) (hl : l ∈ g.opened) : Holds mixed (g.delegated o l status) := by
  unfold Gateway.delegated
  split
  · exact h.linkOpened hl
  split
  · have hpushed : Holds mixed (g.push [.opened l .disconnected]) := h.push_one hl rfl
    exact hpushed.revoke
  · exact h.linkOpened hl

theorem dropLink (h : Sound mixed x y z g) : Sound mixed x y z (g.dropLink o l) := by
  unfold Gateway.dropLink
  exact h.eraseLink.closePeer

end Sound

/-! ## Answers -/

/-- The reply confirms a restore, but the subscription it resumes is in another state of
control than the one confirmed. -/
def Gateway.mixes (o : Oracle) (g : Gateway) (call : Call) (result : Result) : Prop :=
  ∃ s control epoch n s', call.callback = .restore s control epoch ∧ g.registered s ∧
    (g.subscription s).controlEpoch = epoch ∧ result.status = .ok ∧ confirms result.data s control = true ∧
    readNotice .presence result.data = some n ∧
    g.resuming o call.link n.packet (g.addressee call.link n.packet.subscription) = some s' ∧
    (g.subscription s').controlled ≠ n.controlled

namespace Sound

/-- A reply is handled as what it was asked for. -/
theorem answer (h : Holds mixed g) {call : Call} (hv : call.Valid g.known) {result : Result}
    (hm : mixed = false → ¬g.mixes o call result) : Holds mixed (g.answer o call result) := by
  obtain ⟨hl, hc⟩ := hv
  unfold Gateway.answer
  split
  · exact h.delegated hl
  · rename_i hcall
    rw [hcall] at hc
    refine h.finish hc.1 (.inl rfl) (fun _ => ⟨rfl, rfl⟩) (.inl rfl) ?_ ?_
    · rintro l' heq
      exact Option.some.inj heq ▸ ⟨hl, hc.2.2.symm⟩
    · intro _ _ s hs
      rw [hc.2.1] at hs
      cases hs
  · rename_i hcall
    rw [hcall] at hc
    exact h.watchAnswered hc.1 hc.2.1 hc.2.2.1 ⟨hl, hc.2.2.2.symm⟩
  · rename_i s control epoch hcall
    rw [hcall] at hc
    refine h.restoreAnswered hc.1 hc.2.1 fun hmixed hr hepoch hstatus hconfirms l' n s' hl' hn hs' => ?_
    obtain ⟨hpeer, hl'⟩ := h.wired.links hl'
    obtain rfl := h.numbered.link_eq hl' hl hpeer
    by_contra hne
    exact hm hmixed ⟨s, control, epoch, n, s', hcall, hr, hepoch, hstatus, hconfirms, hn, hs', hne⟩
  · rename_i hcall
    rw [hcall] at hc
    exact h.rewatchAnswered hc.1 hc.2.1 ⟨hl, hc.2.2.symm⟩
  · rename_i hcall
    rw [hcall] at hc
    exact h.unpossessed hc.1

/-- A call whose connection was closed is answered if it was not. -/
theorem lose (h : Holds mixed g) {call : Call} : Holds mixed (g.lose o call) := by
  unfold Gateway.lose
  split
  · rename_i hin
    refine Sound.answer h.eraseCall (h.wired.calls call hin) fun _ => ?_
    rintro ⟨_, _, _, _, _, _, _, _, hok, _⟩
    cases hok
  · exact h

end Sound

end Fsnet.ClientGateway
