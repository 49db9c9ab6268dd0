import Mathlib.Algebra.BigOperators.Group.List.Basic
import Fsnet.Gateway.Ending
/-!
# Requests keep the invariant

A request is admitted into the table and leaves it when it is answered. Between
leaving the table and the reply it is owed the reply; a request whose `finish`
was taken from the stack is owed that.
-/

namespace Fsnet.ClientGateway

open Lib List Function

variable {mixed : Bool} {x y z : Option Nat} {g : Gateway} {r : Request} {o : Oracle} {d : Destination}
  {origin : Option Link} {result : Result} {status : Status} {client : Nat}

/-! ## Replies -/

theorem Numbered.ne_of_done (h : Numbered g) (hr : r ∈ g.admitted) (hd : (g.request r).done = true) {r' : Request}
    (hr' : r' ∈ g.admitted) (hd' : (g.request r').done = false) : some r.id ≠ some r'.id := by
  intro heq
  obtain rfl := h.request_eq hr hr' (Option.some.inj heq)
  rw [hd] at hd'
  cases hd'

/-- The reply settles what its request is owed. -/
theorem Serves.log_reply (h : Serves (some r.id) g) (hn : Numbered g) (hr : r ∈ g.admitted)
    (hd : (g.request r).done = true) {origin : Option Link} {result : Result} {who : Option CallIdentity}
    (ha : result.status = .ok → ∃ identity, who = some identity ∧ identity.caller = .client ∧
      identity.subject = r.subject ∧ identity.connection = r.connection) :
    Serves none { g with log := .replied r origin result who :: g.log } := by
  have hfresh : r.id ∉ answered g.log ++ replying g.stack := fun hm => ((h.done r hr).1 hm).2 rfl
  refine { h with once := ?_, done := ?_, session := ?_, stopped := ?_, polled := ?_, answers := ?_ }
  · exact nodup_cons.2 ⟨hfresh, h.once⟩
  · intro r' hr'
    by_cases hid : r'.id = r.id
    · obtain rfl := hn.request_eq hr' hr hid
      exact ⟨fun _ => ⟨hd, by simp⟩, fun _ => mem_cons_self⟩
    have hlist := h.done r' hr'
    have hz : some r.id ≠ some r'.id := fun heq => hid (Option.some.inj heq).symm
    constructor
    · intro hm
      exact ⟨(hlist.1 ((mem_cons.1 hm).resolve_left hid)).1, by simp⟩
    · intro hdone
      exact mem_cons_of_mem _ (hlist.2 ⟨hdone.1, hz⟩)
  · intro r' hr' hd' _
    exact h.session r' hr' hd' (hn.ne_of_done hr hd hr' hd')
  · intro hs r' hr' hd' _
    exact h.stopped hs r' hr' hd' (hn.ne_of_done hr hd hr' hd')
  · intro time ht
    exact ⟨(h.polled time ht).1, fun r' hr' hd' _ => (h.polled time ht).2 r' hr' hd' (hn.ne_of_done hr hd hr' hd')⟩
  · intro r' _ _ _ hm hok
    rcases mem_cons.1 hm with heq | hm
    · cases heq
      exact ha hok
    · exact h.answers hm hok

/-- Nothing is owed to a subscription but the one the request makes. -/
def OnlyWatch (owed : Option Nat) (r : Request) : Prop := owed = none ∨ ∃ s, r.subscription = some s ∧ owed = some s.id

theorem OnlyWatch.only {s : Subscription} (h : OnlyWatch x r) (hs : r.subscription = some s) : Only x s := by
  refine h.imp_right ?_
  rintro ⟨_, hs', hx⟩
  rw [hs] at hs'
  rw [hx, Option.some.inj hs']

namespace Sound

/-- The connection that could not take a reply is closed. -/
theorem closeReply {fits : Bool} (h : Sound mixed x y z g) :
    Sound mixed x y z (if fits then g else
      match d with
      | .client client => g.close client
      | .owner l => g.closePeer o l.peer) := by
  split
  · exact h
  · cases d with
    | client => exact h.close
    | owner => exact h.closePeer

section

variable (h : Sound mixed x y (some r.id) g) (hr : r ∈ g.admitted) (hd : (g.request r).done = true)
  (ho : ∀ l, origin = some l → g.known.linkOf r.client l) (hx : OnlyWatch x r)
  (hbad : result.status ≠ .ok → x = none)
  (hok : result.status = .ok → ∀ s, r.subscription = some s →
    Under s.id result.data ∧ ∃ header, updateOf result.data = some header ∧ Extends g s header)
include h hr hd ho hx hbad hok

theorem logReply {who : Option CallIdentity}
    (ha : result.status = .ok → ∃ identity, who = some identity ∧ identity.caller = .client ∧
      identity.subject = r.subject ∧ identity.connection = r.connection) :
    Sound mixed none y none { g with log := .replied r origin result who :: g.log } := by
  refine ⟨{ h.numbered with }, h.wired.log_event ⟨hr, ho, fun hs s hsub => (hok hs s hsub).1⟩, ?_, { h.controls with },
    h.serves.log_reply h.numbered hr hd ha, h.watches⟩
  by_cases hstatus : result.status = .ok
  · cases hsub : r.subscription with
    | none =>
      obtain rfl : x = none := hx.resolve_right (by simp [hsub])
      refine h.streams.log_quiet fun id => ?_
      simp [Event.header, hsub]
    | some s =>
      obtain ⟨-, header, hu, he⟩ := hok hstatus s hsub
      exact h.streams.log_packet (hx.only hsub) (by simp [Event.about, hsub])
        (by simp [Event.header, hsub, hstatus, hu]) he
  · obtain rfl := hbad hstatus
    refine h.streams.log_quiet fun id => ?_
    simp [Event.header, hstatus]

theorem reply (ha : result.status = .ok → ∃ identity, g.identity r.client = some identity ∧ identity.caller = .client ∧
      identity.subject = r.subject ∧ identity.connection = r.connection) :
    Sound mixed none y none (g.reply o r result origin) :=
  (h.logReply hr hd ho hx hbad hok ha).closeReply

end

theorem refuse (h : Sound mixed x y z g) : Sound mixed x y z (g.refuse o d status) := by
  have hlog : Sound mixed x y z { g with log := .refused d status :: g.log } :=
    ⟨{ h.numbered with }, h.wired.log_event trivial, h.streams.log_quiet fun _ => rfl, { h.controls with },
      h.serves.log_other (by simp), h.watches⟩
  exact hlog.closeReply

end Sound

/-! ## Requests that are done -/

theorem sum_bytes_erase {requests : OrdMap Nat Request} (hf : requests.find r.id = some r) :
    ((requests.erase r.id).entries.map fun e => e.2.bytes).sum =
      (requests.entries.map fun e => e.2.bytes).sum - r.bytes := by
  have hperm := (Entries.perm_erase requests.sorted hf).map fun e => e.2.bytes
  rw [hperm.sum_eq, map_cons, sum_cons, Nat.add_sub_cancel_left]
  rfl

theorem markDone_done (g : Gateway) (r r' : Request) :
    ((g.markDone r).request r').done = (decide (r'.id = r.id) || (g.request r').done) := by
  by_cases hid : r'.id = r.id
  · have hself : (g.markDone r).request r' = _ := (congrArg _ hid).trans (update_self _ _ _)
    rw [hself, decide_eq_true hid]
    rfl
  · have hother : (g.markDone r).request r' = g.request r' := update_of_ne hid _ _
    rw [hother, decide_eq_false hid]
    rfl

/-- A request that is not done is not the one that was marked. -/
theorem undone_of_markDone {g : Gateway} {r r' : Request} (h : ((g.markDone r).request r').done = false) :
    r'.id ≠ r.id ∧ (g.request r').done = false := by
  rw [markDone_done] at h
  simpa using h

theorem retry_of_markDone {g : Gateway} {r r' : Request} {key : Bytes × Bytes}
    (h : ((g.markDone r).request r').retry = some key) : (g.request r').retry = some key := by
  by_cases hid : r'.id = r.id
  · have hself : (g.markDone r).request r' = _ := (congrArg _ hid).trans (update_self _ _ _)
    rw [hself] at h
    cases h
  · have hother : (g.markDone r).request r' = g.request r' := update_of_ne hid _ _
    rwa [hother] at h

/-- A request leaves the table and is owed its reply. -/
theorem Serves.markDone (h : Serves z g) (hn : Numbered g) (hr : r ∈ g.admitted) (hd : (g.request r).done = false)
    (hz : z = none ∨ z = some r.id) : Serves (some r.id) (g.markDone r) := by
  have howed : ∀ {r' : Request}, r'.id ≠ r.id → z ≠ some r'.id := by
    rintro r' hid rfl
    rcases hz with hz | hz
    · cases hz
    · exact hid (Option.some.inj hz)
  refine { h with table := ?_, pending := ?_, queued := ?_, done := ?_, session := ?_, stopped := ?_, polled := ?_ }
  · intro id r' hfind
    have hfind : (g.requests.erase r.id).find id = some r' := hfind
    rw [OrdMap.find_erase] at hfind
    split at hfind
    · cases hfind
    rename_i hid
    obtain ⟨hid', hr', hd'⟩ := h.table hfind
    refine ⟨hid', hr', ?_⟩
    rw [markDone_done, hd', decide_eq_false (hid' ▸ hid)]
    rfl
  · intro r' hr' hd'
    obtain ⟨hid, hd'⟩ := undone_of_markDone hd'
    exact (OrdMap.find_erase_ne _ hid).trans (h.pending r' hr' hd')
  · show g.queuedBytes - r.bytes = ((g.requests.erase r.id).entries.map fun e => e.2.bytes).sum
    rw [h.queued, sum_bytes_erase (h.pending r hr hd)]
  · intro r' hr'
    rw [markDone_done]
    by_cases hid : r'.id = r.id
    · obtain rfl := hn.request_eq hr' hr hid
      constructor
      · intro hm
        have hdone := ((h.done r' hr').1 hm).1
        rw [hd] at hdone
        cases hdone
      · intro hdone
        exact absurd rfl hdone.2
    · rw [decide_eq_false hid, Bool.false_or]
      have hlist := h.done r' hr'
      constructor
      · intro hm
        exact ⟨(hlist.1 hm).1, fun heq => hid (Option.some.inj heq).symm⟩
      · intro hdone
        exact hlist.2 ⟨hdone.1, howed hid⟩
  · intro r' hr' hd' _
    obtain ⟨hid, hd'⟩ := undone_of_markDone hd'
    exact h.session r' hr' hd' (howed hid)
  · intro hs r' hr' hd' _
    obtain ⟨hid, hd'⟩ := undone_of_markDone hd'
    exact h.stopped hs r' hr' hd' (howed hid)
  · intro time ht
    refine ⟨(h.polled time ht).1, fun r' hr' hd' _ => ?_⟩
    obtain ⟨hid, hd'⟩ := undone_of_markDone hd'
    exact (h.polled time ht).2 r' hr' hd' (howed hid)

/-- What a request that is done changes. -/
theorem retire_eq (g : Gateway) (r : Request) :
    ∃ lookups linkStates, g.retire r = { g.markDone r with lookups, linkStates } :=
  foldl_leave_eq r.id (g.request r).detach (g.markDone r)

theorem retire_done (g : Gateway) {r r' : Request} (h : r'.id = r.id) : ((g.retire r).request r').done = true := by
  obtain ⟨_, _, heq⟩ := retire_eq g r
  rw [heq]
  exact (markDone_done g r r').trans (by rw [decide_eq_true h]; rfl)

namespace Sound

theorem retire (h : Sound mixed x y z g) (hr : r ∈ g.admitted) (hd : (g.request r).done = false)
    (hz : z = none ∨ z = some r.id) : Sound mixed x y (some r.id) (g.retire r) := by
  have hmarked : Sound mixed x y (some r.id) (g.markDone r) :=
    ⟨{ h.numbered with },
      { h.wired with retries := fun r' hr' _ hkey => h.wired.retries r' hr' (retry_of_markDone hkey) },
      { h.streams with
        untouched := fun r' hr' s hs hd' => h.streams.untouched r' hr' s hs (undone_of_markDone hd').2 },
      { h.controls with }, h.serves.markDone h.numbered hr hd hz, h.watches⟩
  exact hmarked.foldl_leave

/-- The reply is sent later, after what is pushed on top of it. -/
theorem pushReply (h : Sound mixed x y (some r.id) g) (hr : r ∈ g.admitted) (hd : (g.request r).done = true)
    (hs : result.status ≠ .ok) : Sound mixed x y none (g.push [.reply r result]) := by
  have hstack : ∀ t ∈ .reply r result :: g.stack, t.Valid g.known := forall_mem_cons.2 ⟨⟨hr, hs⟩, h.wired.stack⟩
  have hmem : ∀ {id}, id ∈ answered g.log ++ r.id :: replying g.stack ↔
      id = r.id ∨ id ∈ answered g.log ++ replying g.stack := by
    intro id
    simp only [mem_append, mem_cons]
    tauto
  refine ⟨{ h.numbered with }, { h.wired with stack := hstack }, { h.streams with }, h.controls.restack ?_,
    h.serves.exchange ?_ ?_ fun r' hr' hd' _ => ⟨h.numbered.ne_of_done hr hd hr' hd', ?_, ?_⟩, h.watches⟩
  · intro call result' ha
    exact .inr ⟨result', (mem_cons.1 ha).resolve_left (by simp)⟩
  · show (answered g.log ++ r.id :: replying g.stack).Nodup
    rw [nodup_middle, nodup_cons]
    exact ⟨fun hm => ((h.serves.done r hr).1 hm).2 rfl, h.serves.once⟩
  · intro r' hr'
    refine hmem.trans ?_
    by_cases hid : r'.id = r.id
    · obtain rfl := h.numbered.request_eq hr' hr hid
      exact ⟨fun _ => ⟨hd, by simp⟩, fun _ => .inl rfl⟩
    · have hz : some r.id ≠ some r'.id := fun heq => hid (Option.some.inj heq).symm
      rw [or_iff_right hid, h.serves.done r' hr', and_iff_left hz]
      exact (and_iff_left (by simp)).symm
  · exact fun hm => ⟨_, mem_cons_of_mem _ hm⟩
  · exact fun _ hm => hm.imp (mem_cons_of_mem _) (mem_cons_of_mem _)

/-- A watch that failed takes its subscription with it, and what that was owed. -/
theorem cancel (h : Sound mixed x none z g) (hr : r ∈ g.admitted) (hx : OnlyWatch x r) :
    Sound mixed none none z (g.cancel o r) := by
  unfold Gateway.cancel
  cases hsub : r.subscription with
  | none =>
    obtain rfl : x = none := hx.resolve_right (by simp [hsub])
    exact h
  | some s =>
    exact h.remove (h.watches r hr s hsub) (hx.only hsub) .none

/-! ## Clients that are revoked -/

/-- `revoke`: every request of the client is finished by what is pushed. -/
theorem revoke (h : Sound mixed x y z g) : Sound mixed x y z (g.revoke o client) := by
  unfold Gateway.revoke
  split
  · exact h
  rename_i session hf
  have hfind : ∀ {c s}, (g.sessions.erase client).find c = some s → g.sessions.find c = some s := OrdMap.find_of_erase
  let tasks : List Task := ((o.values g.requests).filter fun r => r.client = client).map
    (.finish · ⟨.disconnected, []⟩) ++ .dropSubscriptions client :: (o.values session.links).map .dropLink
  have hvalid : ∀ t ∈ tasks, t.Valid (g.close client).known ∧ t.quiet = true := by
    intro t ht
    simp only [tasks, mem_append, mem_cons, mem_map, mem_filter, Oracle.mem_values] at ht
    rcases ht with ⟨r, ⟨⟨id, hr⟩, -⟩, rfl⟩ | rfl | ⟨l, ⟨index, hl⟩, rfl⟩
    · exact ⟨⟨(h.serves.table hr).2.1, by simp⟩, rfl⟩
    · exact ⟨trivial, rfl⟩
    · exact ⟨(h.wired.sessionLinks hf hl).1, rfl⟩
  have hp : Sound mixed x y z ((g.close client).push tasks) :=
    h.close.push (fun t ht => (hvalid t ht).1) (fun t ht => (hvalid t ht).2)
  -- What is pushed stands on a gateway that still has the session: only what depends on that is left.
  refine ⟨{ hp.numbered with }, { hp.wired with sessionLinks := ?_ }, { hp.streams with },
    { hp.controls with controlled := ?_, owner := ?_, sessioned := ?_ },
    { hp.serves with session := ?_, revoked := ?_ }, hp.watches⟩
  · intro c s index l hs hl
    exact hp.wired.sessionLinks (hfind hs) hl
  · intro s _ hs
    exact hp.controls.controlled (hfind hs)
  · intro c s hs
    exact hp.controls.owner (hfind hs)
  · intro s hs
    by_cases hid : s.client = client
    · exact .inl (.inl (hid ▸ closed_close g client))
    refine (hp.controls.sessioned hs).imp_right fun hsome => ?_
    show ((g.sessions.erase client).find s.client).isSome = true
    rw [OrdMap.find_erase_ne _ hid]
    exact hsome
  · intro r hr hd hz
    by_cases hid : r.client = client
    · refine .inr ⟨_, mem_append_left _ (mem_append_left _ (mem_map_of_mem ?_))⟩
      exact mem_filter.2 ⟨(Oracle.mem_values o).2 ⟨r.id, h.serves.pending r hr hd⟩, by simpa using hid⟩
    · refine (hp.serves.session r hr hd hz).imp_left ?_
      rintro ⟨s, hs, hrest⟩
      exact ⟨s, (OrdMap.find_erase_ne _ hid).trans hs, hrest⟩
  · refine forall_mem_cons.2 ⟨⟨closed_close g client, OrdMap.find_erase_self _ _⟩, fun c hcr => ?_⟩
    refine ⟨(hp.serves.revoked c hcr).1, ?_⟩
    show (g.sessions.erase client).find c = none
    rw [OrdMap.find_erase]
    split
    · rfl
    · exact (h.serves.revoked c hcr).2

end Sound

/-! ## Finishing -/

theorem identity_of_current {c : Nat} {subject : Bytes} {connection : ConnectionRef}
    (h : g.current c subject connection = true) :
    ∃ who, g.identity c = some who ∧ who.caller = .client ∧ who.subject = subject ∧ who.connection = connection := by
  unfold Gateway.current at h
  split at h
  · cases h
  · rename_i who hw
    simp only [Bool.and_eq_true, decide_eq_true_eq] at h
    exact ⟨who, hw, h.1.1.1.2, h.1.2, h.2⟩

theorem not_ended_of_current {c : Nat} {subject : Bytes} {connection : ConnectionRef}
    (h : g.current c subject connection = true) : g.closed c = false ∧ g.stopped = false := by
  unfold Gateway.current at h
  split at h
  · cases h
  rename_i hw
  unfold Gateway.identity at hw
  split at hw
  · cases hw
  · rename_i hc
    simp only [Bool.and_eq_true, Bool.not_eq_true'] at h
    exact ⟨Bool.eq_false_of_not_eq_true hc, h.1.1.1.1⟩

theorem current_of_authenticRequest (h : g.authenticRequest r = true) :
    g.current r.client r.subject r.connection = true := by
  unfold Gateway.authenticRequest at h
  split at h
  · cases h
  · simp only [Bool.and_eq_true] at h
    exact h.2

theorem cancel_eq (o : Oracle) (g : Gateway) (r : Request) :
    ∃ subscriptions schedule subscriptionStates lookups linkStates sessions reverse closed log,
      g.cancel o r = { g with
        subscriptions, schedule, subscriptionStates, lookups, linkStates, sessions, reverse, closed, log } := by
  unfold Gateway.cancel
  split
  · exact ⟨_, _, _, _, _, _, _, _, _, rfl⟩
  · exact remove_eq o g _ _ _

/-- The reply to a watch is the first packet of its subscription. -/
theorem Sound.firstPacket (h : Sound mixed x y z g) (hr : r ∈ g.admitted) (hd : (g.request r).done = false)
    {s : Subscription} (hs : r.subscription = some s) {header : ReplicationUpdateHeader}
    (hsnap : header.snapshot = true)
    (hrev : header.revision = (g.subscription s).revision) : Extends (g.retire r) s header := by
  have hempty := h.streams.untouched r hr s hs hd
  have hid : ∀ {r' : Request} {s'}, r'.subscription = some s' → s'.id = r'.id + 1 := by
    intro r' s' hs'
    unfold Request.subscription at hs'
    obtain ⟨key, -, rfl⟩ := Option.map_eq_some_iff.1 hs'
    rfl
  obtain ⟨lookups, linkStates, heq⟩ := retire_eq g r
  refine ⟨fun _ => hsnap, ?_, ?_, ?_⟩
  · intro last rest hl
    rw [heq] at hl
    rw [show stream s.id g.log = last :: rest from hl] at hempty
    cases hempty
  · rw [heq]
    exact hrev
  · intro r' hr' s' hs' hsame
    refine retire_done g ?_
    rw [hid hs', hid hs] at hsame
    omega

/-- `finish`: the request is answered, now or by what is pushed, or was answered before. -/
theorem Sound.finish (h : Sound mixed x none z g) (hr : r ∈ g.admitted) (hz : z = none ∨ z = some r.id)
    (hu : (g.request r).done = true → x = none ∧ z = none) (hx : OnlyWatch x r)
    (ho : ∀ l, origin = some l → g.known.linkOf r.client l)
    (hok : result.status = .ok → (g.request r).done = false → ∀ s, r.subscription = some s →
      Under s.id result.data ∧ ∃ header, updateOf result.data = some header ∧ header.snapshot = true ∧
        header.revision = (g.subscription s).revision) :
    Holds mixed (g.finish o r result origin) := by
  unfold Gateway.finish
  split
  · rename_i hd
    obtain ⟨rfl, rfl⟩ := hu hd
    exact h
  rename_i hd
  replace hd := Bool.eq_false_of_not_eq_true hd
  have hretired := h.retire hr hd hz
  have hdone := retire_done g (rfl : r.id = r.id)
  obtain ⟨lookups, linkStates, heq⟩ := retire_eq g r
  have hr' : r ∈ (g.retire r).admitted := by
    rw [heq]
    exact hr
  have ho' : ∀ l, origin = some l → (g.retire r).known.linkOf r.client l := by
    rw [heq]
    exact ho
  -- a failed request gives up its subscription first
  have hcancelled := hretired.cancel (o := o) hr' hx
  obtain ⟨_, _, _, _, _, _, _, closed, log, hc⟩ := cancel_eq o (g.retire r) r
  have hdone' : (((g.retire r).cancel o r).request r).done = true := by
    rw [hc]
    exact hdone
  have hr'' : r ∈ ((g.retire r).cancel o r).admitted := by
    rw [hc]
    exact hr'
  dsimp only
  split
  · rename_i hvalid
    split
    · rename_i hstatus
      refine hretired.reply hr' hdone ho' hx (fun hne => absurd hstatus hne) (fun _ s hs => ?_) (fun _ => ?_)
      · obtain ⟨hunder, header, hupdate, hsnap, hrev⟩ := hok hstatus hd s hs
        exact ⟨hunder, header, hupdate, h.firstPacket hr hd hs hsnap hrev⟩
      · rw [heq]
        exact identity_of_current (current_of_authenticRequest hvalid)
    · rename_i hstatus
      refine hcancelled.reply hr'' hdone' ?_ (.inl rfl) (fun _ => rfl) (absurd · hstatus) (absurd · hstatus)
      rw [hc]
      exact ho'
  · exact (hcancelled.pushReply hr'' hdone' (by simp)).revoke

/-- A request that fails is finished whatever it was for. -/
theorem Sound.finishFailed (h : Holds mixed g) (hr : r ∈ g.admitted) (hs : result.status ≠ .ok)
    (ho : ∀ l, origin = some l → g.known.linkOf r.client l) :
    Holds mixed (g.finish o r result origin) :=
  h.finish hr (.inl rfl) (fun _ => ⟨rfl, rfl⟩) (.inl rfl) ho (absurd · hs)

end Fsnet.ClientGateway
