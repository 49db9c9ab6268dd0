import Fsnet.Gateway.Answering
/-!
# Admitted requests keep the invariant

A request is admitted under a new id, for a client whose session is of the caller's
subject and connection. A watch is admitted together with its subscription, which
waits for the reply as its first packet.
-/

namespace Fsnet.ClientGateway

open Lib List Function

variable {mixed : Bool} {x y z : Option Nat} {g : Gateway} {o : Oracle}

/-! ## New ids -/

theorem Sound.stream_fresh (h : Sound mixed x y z g) {id : Nat} (hid : g.serial < id) : stream id g.log = [] := by
  have hle : ∀ s ∈ g.created, s.id ≠ id := by
    intro s hs heq
    have := (h.numbered.ids_pos s hs).2
    omega
  refine stream_eq_nil fun e he habout => ?_
  have hvalid := h.wired.log e he
  cases e with
  | notified =>
    obtain ⟨⟨s, hs, hsid, -⟩, -⟩ := hvalid
    exact hle s hs (hsid.trans (Option.some.inj habout))
  | replied r =>
    obtain ⟨s, hs, hsid⟩ := Option.map_eq_some_iff.1 habout
    exact hle s (h.watches r hvalid.1 s hs) hsid
  | refused => cases habout

theorem Sound.answered_le (h : Sound mixed x y z g) {id : Nat} (hm : id ∈ answered g.log ++ replying g.stack) :
    id ≤ g.serial := by
  rcases mem_append.1 hm with hm | hm
  · obtain ⟨r, _, result, _, he, rfl⟩ := mem_answered.1 hm
    exact h.numbered.requests_le r (h.wired.log _ he).1
  · obtain ⟨r, _, ht, rfl⟩ := mem_replying.1 hm
    exact h.numbered.requests_le r (h.wired.stack _ ht).1

/-! ## Sessions -/

theorem Sound.newSession (h : Sound mixed x y z g) {c : Nat} (hf : g.sessions.find c = none) (hc : g.closed c = false)
    (hs : g.stopped = false) {subject : Bytes} {connection : ConnectionRef} :
    Sound mixed x y z (g.setSession c ⟨subject, connection, .empty, 0⟩) := by
  refine h.putSession (fun hl => by cases hl) (.inl rfl) ?_ (fun hrevoked => ?_) (fun session hold => ?_)
  -- a client without a session that is not over has no subscriptions
  · rintro s rfl hr
    rcases h.controls.sessioned hr with (ho | ho) | hsome
    · rw [hc] at ho
      cases ho
    · rw [hs] at ho
      cases ho
    · rw [hf] at hsome
      cases hsome
  · have hclosed := (h.serves.revoked c hrevoked).1
    rw [hc] at hclosed
    cases hclosed
  · rw [hf] at hold
    cases hold

/-! ## Requests -/

section Admit

variable {client : Nat} {who : CallIdentity} {data : Bytes} {reply : Destination} {watches : Option (Bytes × Bytes)}

/-- The caller's request as it would be admitted. -/
def Gateway.draft (g : Gateway) (client : Nat) (who : CallIdentity) (data : Bytes) (reply : Destination)
    (watches : Option (Bytes × Bytes)) : Request :=
  (g.admitRequest client who data reply watches).2

theorem draft_ne (hn : Numbered g) {r : Request} (hr : r ∈ g.admitted) :
    r.id ≠ (g.draft client who data reply watches).id := by
  have := hn.requests_le r hr
  show r.id ≠ g.serial + 1
  omega

theorem request_admit_ne {r : Request} (h : r.id ≠ (g.draft client who data reply watches).id) :
    (g.admitRequest client who data reply watches).1.request r = g.request r :=
  update_of_ne h _ _

theorem known_admit (g : Gateway) (client : Nat) (who : CallIdentity) (data : Bytes) (reply : Destination)
    (watches : Option (Bytes × Bytes)) : g.known.Le (g.admitRequest client who data reply watches).1.known :=
  ⟨mem_cons_of_mem _, id, id, id, id⟩

theorem Numbered.admitRequest (h : Numbered g) : Numbered (g.admitRequest client who data reply watches).1 := by
  refine { h with ids_pos := ?_, requests := ?_, requests_le := ?_ }
  · intro s hs
    exact ⟨(h.ids_pos s hs).1, (h.ids_pos s hs).2.trans (Nat.le_succ _)⟩
  · refine nodup_cons.2 ⟨fun hm => ?_, h.requests⟩
    obtain ⟨r, hr, heq⟩ := mem_map.1 hm
    exact draft_ne h hr heq
  · refine forall_mem_cons.2 ⟨le_refl _, fun r hr => ?_⟩
    exact (h.requests_le r hr).trans (Nat.le_succ _)

theorem Wired.admitRequest (h : Wired g.known g) (hn : Numbered g) (hv : reply.Valid g.known client) :
    Wired (g.admitRequest client who data reply watches).1.known (g.admitRequest client who data reply watches).1 := by
  have hle := known_admit g client who data reply watches
  refine { h.mono hle with
    replies := forall_mem_cons.2 ⟨hv.mono hle, fun r hr => (h.replies r hr).mono hle⟩
    retries := forall_mem_cons.2 ⟨fun {key} hkey => ?_, fun r hr {key} hkey => ?_⟩ }
  · have hstate : (g.admitRequest client who data reply watches).1.request
        (g.draft client who data reply watches) = {} :=
      update_self _ _ _
    have hnone := congrArg RequestState.retry hstate
    rw [show ((g.admitRequest client who data reply watches).1.request
      (g.draft client who data reply watches)).retry = some key
      from hkey] at hnone
    cases hnone
  · rw [request_admit_ne (draft_ne hn hr)] at hkey
    exact h.retries r hr hkey

theorem Streams.admitRequest (h : Streams x g) (hn : Numbered g) (hfresh : stream (g.serial + 2) g.log = []) :
    Streams x (g.admitRequest client who data reply watches).1 := by
  refine { h with untouched := forall_mem_cons.2 ⟨fun s hs _ => ?_, fun r hr s hs hd => ?_⟩ }
  · obtain ⟨_, -, rfl⟩ := Option.map_eq_some_iff.1 hs
    exact hfresh
  · rw [request_admit_ne (draft_ne hn hr)] at hd
    exact h.untouched r hr s hs hd

theorem Serves.admitRequest (h : Serves none g) (hn : Numbered g) (hs : g.stopped = false) {session : Session}
    (hf : g.sessions.find client = some session) (hsubject : session.subject = who.subject)
    (hconnection : session.connection = who.connection)
    (hfresh : ∀ id ∈ answered g.log ++ replying g.stack, id ≤ g.serial) :
    Serves none (g.admitRequest client who data reply watches).1 := by
  have hother {r : Request} (hr : r ∈ g.admitted) :
      (g.admitRequest client who data reply watches).1.request r = g.request r :=
    request_admit_ne (draft_ne hn hr)
  have hself : ((g.admitRequest client who data reply watches).1.request
      (g.draft client who data reply watches)).done = false := by
    have hstate : (g.admitRequest client who data reply watches).1.request
        (g.draft client who data reply watches) = {} :=
      update_self _ _ _
    rw [hstate]
  have hnew : g.requests.find (g.serial + 1) = none := by
    rw [Option.eq_none_iff_forall_ne_some]
    intro r hr
    obtain ⟨hid, hr, -⟩ := h.table hr
    have := hn.requests_le r hr
    omega
  refine ⟨?_, forall_mem_cons.2 ⟨?_, ?_⟩, ?_, h.once, forall_mem_cons.2 ⟨?_, ?_⟩,
    forall_mem_cons.2 ⟨?_, ?_⟩, ?_, h.revoked, ?_, h.answers⟩
  · intro id r hr
    rcases OrdMap.find_of_insert hr with ⟨rfl, rfl⟩ | ⟨-, hr⟩
    · exact ⟨rfl, mem_cons_self, hself⟩
    obtain ⟨hid, hm, hd⟩ := h.table hr
    refine ⟨hid, mem_cons_of_mem _ hm, ?_⟩
    rw [hother hm]
    exact hd
  · intro _
    exact OrdMap.find_insert_self _ _ _
  · intro r hr hd
    rw [hother hr] at hd
    exact (OrdMap.find_insert_ne _ _ (draft_ne hn hr)).trans (h.pending r hr hd)
  · have hperm := (Entries.insert_perm (g.draft client who data reply watches) hnew).map fun e => e.2.bytes
    have hqueued : g.queuedBytes + (g.draft client who data reply watches).bytes =
        ((Entries.insert (g.serial + 1) (g.draft client who data reply watches) g.requests.entries).map
          fun e => e.2.bytes).sum := by
      rw [hperm.sum_eq, map_cons, sum_cons, h.queued, Nat.add_comm]
    exact hqueued
  · refine ⟨fun hm => ?_, fun hd => ?_⟩
    · have := hfresh _ hm
      exact absurd this (by show ¬g.serial + 1 ≤ g.serial; omega)
    · cases hself.symm.trans hd.1
  · intro r hr
    rw [hother hr]
    exact h.done r hr
  · intro _ _
    exact .inl ⟨session, hf, hsubject, hconnection⟩
  · intro r hr hd hz
    rw [hother hr] at hd
    exact h.session r hr hd hz
  · intro hstop
    rw [show g.stopped = true from hstop] at hs
    cases hs
  · intro time ht
    obtain ⟨hle, hdue⟩ := h.polled time ht
    refine ⟨hle, forall_mem_cons.2 ⟨fun _ _ hd => ?_, fun r hr hd hz hlate => ?_⟩⟩
    · -- a request is due only after the polls before it
      have hd : g.now + g.limits.requestTimeout ≤ time := hd
      have := g.limits.timeoutPos
      omega
    · rw [hother hr] at hd
      exact hdue r hr hd hz hlate

/-- What a caller must be for its request to be admitted. -/
structure Admits (g : Gateway) (client : Nat) (who : CallIdentity) (reply : Destination) : Prop where
  running : g.stopped = false
  reply : reply.Valid g.known client
  session : ∃ session, g.sessions.find client = some session ∧ session.subject = who.subject ∧
    session.connection = who.connection

theorem Sound.admitRequest (h : Holds mixed g) (ha : Admits g client who reply) :
    Holds mixed (g.admitRequest client who data reply none).1 := by
  obtain ⟨session, hf, hsubject, hconnection⟩ := ha.session
  refine ⟨h.numbered.admitRequest, h.wired.admitRequest h.numbered ha.reply,
    h.streams.admitRequest h.numbered (h.stream_fresh (by omega)),
    { h.controls with }, h.serves.admitRequest h.numbered ha.running hf hsubject hconnection fun _ => h.answered_le,
    forall_mem_cons.2 ⟨fun s hs => ?_, h.watches⟩⟩
  cases hs

/-- A watch and its subscription, which is not served before the reply. -/
theorem Sound.admitWatch (h : Holds mixed g) (ha : Admits g client who reply) :
    Holds mixed ((g.admitRequest client who data reply (some (type, entity))).1.register
      ⟨g.serial + 2, client, type, entity, false, false⟩ { busy := true }) := by
  obtain ⟨session, hf, hsubject, hconnection⟩ := ha.session
  let s : Subscription := ⟨g.serial + 2, client, type, entity, false, false⟩
  let g' := (g.admitRequest client who data reply (some (type, entity))).1
  have hn : Numbered g' := h.numbered.admitRequest
  have hw : Wired g'.known g' := h.wired.admitRequest h.numbered ha.reply
  have hid : g'.serial < s.id := Nat.lt_succ_self _
  have hempty : stream s.id g.log = [] := h.stream_fresh (by show _ < g.serial + 2; omega)
  have hc : Controls mixed none g' := { h.controls with }
  have hserves : Serves none g' :=
    h.serves.admitRequest h.numbered ha.running hf hsubject hconnection fun _ => h.answered_le
  have howed : Sound mixed (some s.id) (some s.id) none (g'.register s { busy := true }) := by
    refine ⟨hn.register hid, hw.register hn hid rfl, (h.streams.admitRequest h.numbered hempty).register,
      hc.register hw hn hid (.inr (Option.isSome_iff_exists.2 ⟨session, hf⟩)), { hserves with },
      forall_mem_cons.2 ⟨fun s' hs' => ?_, fun r hr s' hs' => ?_⟩⟩
    · obtain rfl : s = s' := Option.some.inj hs'
      exact mem_cons_self
    · exact mem_cons_of_mem _ (h.watches r hr s' hs')
  have hstate := subscription_register_self (g := g') s { busy := true }
  have hs : s ∈ (g'.register s { busy := true }).created := mem_cons_self
  refine (howed.payStream hs .self fun _ => ⟨?_, ?_⟩).payControl hs .self ?_
  · rintro (hb | ha | ⟨peer, remote, hr⟩)
    · rw [hstate] at hb
      cases hb
    · cases ha
    · obtain ⟨l, s', -, -, hs', hid', -⟩ := h.wired.reverse hr
      have := (h.numbered.ids_pos s' hs').2
      have hid' : s'.id = g.serial + 2 := hid'
      omega
  · intro _ last rest hl
    rw [show stream s.id g.log = last :: rest from hl] at hempty
    cases hempty
  · intro _ _ _ hctl
    rw [hstate] at hctl
    cases hctl

theorem Sound.turnAway (h : Holds mixed g) : Holds mixed (g.turnAway o client reply) :=
  (h.push_one (t := .refuse reply .rejected) trivial rfl).revoke

/-- `request`: what is done with an admitted request has to keep the invariant; everything else does. -/
theorem Sound.enter (h : Holds mixed g) (hv : reply.Valid g.known client) {next : Gateway → Request → Gateway}
    (hnext : ∀ sessions, Holds mixed { g with sessions } → Admits { g with sessions } client who reply →
      Holds mixed (next (Gateway.admitRequest { g with sessions } client who data reply watches).1
        (Gateway.admitRequest { g with sessions } client who data reply watches).2)) :
    Holds mixed (g.enter o client who data reply watches next) := by
  unfold Gateway.enter
  split
  · exact h.refuse
  split
  · exact h.refuse
  split
  · exact h.turnAway
  rename_i _ hcaller
  rw [not_or, Bool.not_eq_false] at hcaller
  obtain ⟨hclosed, hrunning⟩ := not_ended_of_current (Bool.eq_true_of_not_eq_false hcaller.2)
  split
  · exact h.refuse
  split
  · rename_i hf
    split
    · exact h.refuse
    · exact hnext _ (h.newSession hf hclosed hrunning)
        ⟨hrunning, hv, _, OrdMap.find_insert_self _ _ _, rfl, rfl⟩
  rename_i session hf
  split
  · exact h.turnAway
  · rename_i hsame
    rw [not_or, not_not, not_not] at hsame
    exact hnext g.sessions h ⟨hrunning, hv, session, hf, hsame⟩

end Admit

end Fsnet.ClientGateway
