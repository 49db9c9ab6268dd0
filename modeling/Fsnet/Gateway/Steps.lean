import Fsnet.Gateway.Running
/-!
# Every step of the gateway keeps the invariant

The tasks on the stack and the events of the environment, and from them every run.
A task a request depends on is taken from the stack and leaves the request owed
what the task is about to do.
-/

namespace Fsnet.ClientGateway

open Lib List

variable {mixed : Bool} {g : Gateway} {r : Request} {o : Oracle} {l : Link}
  {status : Status} {result : Result} {client time budget peer : Nat} {who : CallIdentity} {data : Bytes}

/-! ## Tables that are walked -/

namespace Sound

section

variable (h : Holds mixed g)
include h

theorem foldl_remove {subscriptions : List Subscription} (hs : ∀ s ∈ subscriptions, s ∈ g.created) :
    Holds mixed (subscriptions.foldl (fun g s => g.remove o s status notify) g) := by
  induction subscriptions generalizing g with
  | nil => exact h
  | cons s _ ih =>
    rw [forall_mem_cons] at hs
    refine ih (h.remove hs.1 .none .none) fun s' hs' => ?_
    rw [(kept_remove o g s status notify).2.1]
    exact hs.2 s' hs'

theorem values_created (o : Oracle) : ∀ s ∈ o.values g.subscriptions, s ∈ g.created := by
  intro s hs
  obtain ⟨_, hf⟩ := o.mem_values.1 hs
  exact (h.wired.subscriptions hf).2

theorem dropSubscriptions : Holds mixed (g.dropSubscriptions o client) :=
  h.foldl_remove (fun s hs => h.values_created o s (mem_of_mem_filter hs))

theorem stopSubscriptions : Holds mixed (g.stopSubscriptions o) :=
  h.foldl_remove (h.values_created o)

theorem forgetLink : Holds mixed (g.forgetLink l) := by
  unfold Gateway.forgetLink
  split
  · have herased : Holds mixed { g with links := g.links.erase l.peer } := h.eraseLink
    dsimp only
    split
    · exact herased
    rename_i hf
    split
    · exact herased.setSessionLinks hf fun hl => h.wired.sessionLinks hf (OrdMap.find_of_erase hl)
    · exact herased
  · exact h

theorem pollLinks : Holds mixed (g.pollLinks o) := by
  unfold Gateway.pollLinks
  generalize o.values g.links = links
  induction links generalizing g with
  | nil => exact h
  | cons _ _ ih => exact ih h.forgetLink

/-! ## Polling -/

/-- After a poll every request that is due has a task that will finish it. -/
theorem poll : Holds mixed (g.poll o budget) := by
  unfold Gateway.poll
  split
  · exact h
  have hpushed : Holds mixed (g.push
      ((((o.order Prod.fst g.sessions.entries).map Prod.fst).filter fun client =>
        g.authentic client = false).map Task.revoke ++
        [.pollLinks, .pollRequests g.now, .pollSchedule g.now budget])) := by
    refine h.push (fun t ht => ?_) (fun t ht => ?_)
    all_goals
      simp only [mem_append, mem_map, mem_cons, not_mem_nil, or_false] at ht
      rcases ht with ⟨_, -, rfl⟩ | rfl | rfl | rfl
      all_goals first | rfl | trivial
  refine ⟨{ hpushed.numbered with }, { hpushed.wired with }, { hpushed.streams with }, { hpushed.controls with },
    { hpushed.serves with polled := forall_mem_cons.2 ⟨⟨le_refl _, fun r _ _ _ _ => ?_⟩, hpushed.serves.polled⟩ },
    hpushed.watches⟩
  refine .inl (mem_append_left _ (mem_append_right _ ?_))
  simp

theorem pollSchedule : Holds mixed (g.pollSchedule time budget) := by
  unfold Gateway.pollSchedule
  refine h.push (fun t ht => ?_) (fun t ht => ?_)
  · rw [eq_of_mem_replicate ht]
    trivial
  · rw [eq_of_mem_replicate ht]
    rfl

theorem noticeLoss {s : Subscription} (hs : s ∈ g.created) : Holds mixed (g.noticeLoss s) := by
  unfold Gateway.noticeLoss
  split
  · exact h.startMigrating hs
  · exact h

theorem pollSubscription : Holds mixed (g.pollSubscription o time) := by
  unfold Gateway.pollSubscription
  split
  · exact h
  rename_i id rest _
  split
  · exact h.setSchedule
  rename_i s hs
  have hregistered : g.registered s := by
    unfold Gateway.registered
    rwa [(h.wired.subscriptions hs).1]
  have hloss : Holds mixed (Gateway.noticeLoss { g with schedule := rest ++ [id] } s) :=
    h.setSchedule.noticeLoss (h.created hregistered)
  have hkept : (Gateway.noticeLoss { g with schedule := rest ++ [id] } s).registered s ∧
      s ∈ (Gateway.noticeLoss { g with schedule := rest ++ [id] } s).created := by
    unfold Gateway.noticeLoss Gateway.startMigrating
    split
    · split <;> exact ⟨hregistered, h.created hregistered⟩
    · exact ⟨hregistered, h.created hregistered⟩
  dsimp only
  split
  · exact hloss.remove hkept.2 .none .none
  split
  · exact hloss.refresh hkept.1
  · exact hloss

end

end Sound

/-! ## Tasks that requests depend on -/

/-- The task concerns no request but this one, and sends no reply. -/
def Task.concerns (r : Request) : Task → Prop
  | .finish r' _ => r' = r
  | .pollRequest r' _ => r' = r
  | .reply _ _ => False
  | .pollRequests _ => False
  | _ => True

namespace Sound

variable {rest : List Task} {time : Nat}

section

variable (h : Holds mixed g)
include h

/-- The task of a request is taken: a request that is not done is owed what it does. -/
theorem popConcerning (hr : r ∈ g.admitted) {t : Task} (hg : g.stack = t :: rest) (ht : t.concerns r)
    {owed : Option Nat}
    (ho : (g.request r).done = true ∧ owed = none ∨ (g.request r).done = false ∧ owed = some r.id) :
    Sound mixed none none owed { g with stack := rest } := by
  have hreplying : replying rest = replying g.stack := by
    rw [hg]
    cases t with
    | reply => cases ht
    | _ => rfl
  have hother : ∀ {r'}, (g.request r').done = false → owed ≠ some r'.id → r' ≠ r := by
    rintro r' hd hne rfl
    rcases ho with ⟨hdone, -⟩ | ⟨-, rfl⟩
    · rw [hdone] at hd
      cases hd
    · exact hne rfl
  have hmem {t' : Task} (hm : t' ∈ g.stack) : t' = t ∨ t' ∈ rest := mem_cons.1 (hg ▸ hm)
  refine h.restack (fun t ht => .inl (hg ▸ mem_cons_of_mem _ ht))
    (h.serves.exchange ?_ ?_ fun r' hr' hd hne => ⟨by simp, fun hm => ?_, fun _ hm => ?_⟩)
  · rw [hreplying]
    exact h.serves.once
  · intro r' hr'
    rw [hreplying]
    refine (h.serves.done r' hr').trans ?_
    constructor
    · rintro ⟨hd, -⟩
      refine ⟨hd, ?_⟩
      rcases ho with ⟨-, rfl⟩ | ⟨hundone, rfl⟩
      · simp
      · exact (h.numbered.ne_of_done hr' hd hr hundone).symm
    · rintro ⟨hd, -⟩
      exact ⟨hd, by simp⟩
  · refine ⟨_, (hmem hm).resolve_left ?_⟩
    rintro rfl
    exact hother hd hne ht
  · refine hm.imp (fun hm => (hmem hm).resolve_left ?_) (fun hm => (hmem hm).resolve_left ?_)
    · rintro rfl
      exact ht
    · rintro rfl
      exact hother hd hne ht

/-- A task that fails a request, taken from the stack and run. -/
theorem popFinish (hr : r ∈ g.admitted) {t : Task} (hg : g.stack = t :: rest) (ht : t.concerns r) {result : Result}
    (hs : result.status ≠ .ok) :
    Holds mixed (Gateway.finish o { g with stack := rest } r result none) := by
  by_cases hd : (g.request r).done = true
  · exact (h.popConcerning hr hg ht (.inl ⟨hd, rfl⟩)).finishFailed hr hs (by simp)
  · refine (h.popConcerning hr hg ht (.inr ⟨Bool.eq_false_of_not_eq_true hd, rfl⟩)).finish hr (.inr rfl)
      (absurd · hd) (.inl rfl) (by simp) (absurd · hs)

/-- A reply that was put off is sent. -/
theorem popReply {result : Result} (hg : g.stack = .reply r result :: rest) :
    Holds mixed (Gateway.reply o { g with stack := rest } r result none) := by
  have hvalid : Task.Valid g.known (.reply r result) := h.wired.stack _ (hg ▸ mem_cons_self)
  have hlist : r.id ∈ answered g.log ++ replying g.stack := by
    rw [hg]
    exact mem_append_right _ mem_cons_self
  have hdone := ((h.serves.done r hvalid.1).1 hlist).1
  have honce := h.serves.once
  rw [hg, replying, nodup_middle, nodup_cons] at honce
  have hmem : ∀ {id}, id ∈ answered g.log ++ replying g.stack ↔ id = r.id ∨ id ∈ answered g.log ++ replying rest := by
    intro id
    rw [hg, replying]
    simp only [mem_append, mem_cons]
    tauto
  have hkept : ∀ t ∈ g.stack, t.quiet = true → t ∈ rest := by
    intro t ht hq
    rw [hg] at ht
    rcases mem_cons.1 ht with rfl | ht
    · cases hq
    · exact ht
  have hpopped : Sound mixed none none (some r.id) { g with stack := rest } := by
    refine h.restack (fun t ht => .inl (hg ▸ mem_cons_of_mem _ ht)) (h.serves.exchange honce.2 ?_ fun r' _ _ _ =>
      ⟨by simp, fun hm => ⟨_, hkept _ hm rfl⟩, fun _ hm => hm.imp (hkept _ · rfl) (hkept _ · rfl)⟩)
    intro r' hr'
    have hiff := (h.serves.done r' hr').symm.trans hmem
    by_cases hid : r'.id = r.id
    · rw [hid]
      exact ⟨fun hm => absurd hm honce.1, fun hd => absurd rfl hd.2⟩
    · rw [or_iff_right hid] at hiff
      refine hiff.symm.trans ⟨fun hd => ⟨hd.1, fun heq => hid (Option.some.inj heq).symm⟩, fun hd => ⟨hd.1, by simp⟩⟩
  exact hpopped.reply hvalid.1 hdone (by simp) (.inl rfl) (fun _ => rfl) (absurd · hvalid.2) (absurd · hvalid.2)

/-- Every request that is not done gets its own task. -/
theorem popPollRequests (hg : g.stack = .pollRequests time :: rest) :
    Holds mixed (Gateway.pollRequests o { g with stack := rest } time) := by
  let tasks : List Task := (o.values g.requests).map (.pollRequest · time)
  have htask : ∀ t ∈ tasks, t.Valid g.known ∧ t.quiet = true := by
    intro t ht
    obtain ⟨r, hr, rfl⟩ := mem_map.1 ht
    obtain ⟨id, hf⟩ := o.mem_values.1 hr
    exact ⟨(h.serves.table hf).2.1, rfl⟩
  have hreplying : replying (tasks ++ rest) = replying g.stack := by
    rw [replying_append, replying_of_quiet fun t ht => (htask t ht).2, hg]
    rfl
  have hmem {t : Task} (hm : t ∈ g.stack) : t = .pollRequests time ∨ t ∈ tasks ++ rest :=
    (mem_cons.1 (hg ▸ hm)).imp_right (mem_append_right tasks)
  show Holds mixed { g with stack := tasks ++ rest }
  refine h.restack (fun t ht => ?_)
    (h.serves.exchange ?_ ?_ fun r hr hd hz => ⟨hz, fun hm => ⟨_, (hmem hm).resolve_left (by simp)⟩, fun _ hm => ?_⟩)
  · exact (mem_append.1 ht).symm.imp (fun ht => hg ▸ mem_cons_of_mem _ ht) (htask t)
  · rw [hreplying]
    exact h.serves.once
  · rw [hreplying]
    exact h.serves.done
  · rcases hm with hm | hm
    · rcases hmem hm with heq | hm
      · cases heq
        refine .inr (mem_append_left _ (mem_map_of_mem ?_))
        exact o.mem_values.2 ⟨r.id, h.serves.pending r hr hd⟩
      · exact .inl hm
    · exact .inr ((hmem hm).resolve_left (by simp))

/-- The task of a request that is not due is taken. -/
theorem popEarly (hg : g.stack = .pollRequest r time :: rest)
    (hearly : ¬time ≥ r.deadline) : Holds mixed { g with stack := rest } := by
  have hreplying : replying rest = replying g.stack := by
    rw [hg]
    rfl
  have hmem {t : Task} (hm : t ∈ g.stack) : t = .pollRequest r time ∨ t ∈ rest := mem_cons.1 (hg ▸ hm)
  refine h.restack (fun t ht => .inl (hg ▸ mem_cons_of_mem _ ht)) (h.serves.exchange ?_ ?_ fun _ _ _ hz =>
    ⟨hz, fun hm => ⟨_, (hmem hm).resolve_left (by simp)⟩, fun hdue hm =>
      hm.imp (fun hm => (hmem hm).resolve_left (by simp)) fun hm => (hmem hm).resolve_left ?_⟩)
  · rw [hreplying]
    exact h.serves.once
  · rw [hreplying]
    exact h.serves.done
  · intro heq
    cases heq
    exact hearly hdue

theorem popPollRequest (hg : g.stack = .pollRequest r time :: rest) :
    Holds mixed (Gateway.pollRequest o { g with stack := rest } r time) := by
  have hr : r ∈ g.admitted := h.wired.stack (.pollRequest r time) (hg ▸ mem_cons_self)
  unfold Gateway.pollRequest
  split
  · exact h.popFinish hr hg rfl (by simp)
  rename_i hearly
  have hpopped := h.popEarly hg hearly
  split
  · exact hpopped.finishFailed hr (by simp) (by simp)
  split
  · exact hpopped
  rename_i type entity hretry
  have hnone : r.subscription = none := h.wired.retries r hr hretry
  split
  · have hcleared : Holds mixed (Gateway.setRequest { g with stack := rest } r fun t => { t with retry := none }) :=
      hpopped.setRequest hr (fun _ => rfl) (.inl hnone)
    have hvalid : (Purpose.present r type entity).Valid g.known := ⟨hr, hnone⟩
    exact hcleared.select hvalid
  · exact hpopped

/-! ## Stopping -/

omit h in
theorem known_stop (g : Gateway) : g.known.Le ({ g with stopped := true } : Gateway).known :=
  ⟨id, id, fun h => h.imp_left fun ho => ho.imp_right fun _ => rfl, id, fun _ => rfl⟩

/-- `stop`: every request is finished by what is pushed. -/
theorem stop : Holds mixed (g.stop o) := by
  unfold Gateway.stop
  split
  · exact h
  let tasks : List Task := (o.values g.requests).map (.finish · ⟨.disconnected, []⟩) ++ [.stopSubscriptions, .stopLinks]
  have htask : ∀ t ∈ tasks, t.Valid ({ g with stopped := true } : Gateway).known ∧ t.quiet = true := by
    intro t ht
    simp only [tasks, mem_append, mem_map, mem_cons, not_mem_nil, or_false, Oracle.mem_values] at ht
    rcases ht with ⟨r, ⟨id, hr⟩, rfl⟩ | rfl | rfl
    · exact ⟨⟨(h.serves.table hr).2.1, by simp⟩, rfl⟩
    · exact ⟨trivial, rfl⟩
    · exact ⟨rfl, rfl⟩
  have hreplying : replying (tasks ++ g.stack) = replying g.stack := by
    rw [replying_append, replying_of_quiet fun t ht => (htask t ht).2, nil_append]
  have hfinishing : ∀ r ∈ g.admitted, (g.request r).done = false → ∃ result, .finish r result ∈ tasks ++ g.stack := by
    intro r hr hd
    refine ⟨_, mem_append_left _ (mem_append_left _ (mem_map_of_mem ?_))⟩
    exact o.mem_values.2 ⟨r.id, h.serves.pending r hr hd⟩
  have hw := h.wired.mono (known_stop g)
  have hs : Serves none { g with stack := tasks ++ g.stack } :=
    h.serves.restack hreplying fun t ht _ => mem_append_right tasks ht
  have hc : Controls mixed none { g with stack := tasks ++ g.stack } := by
    refine h.controls.restack fun _ result ha => ?_
    rcases mem_append.1 ha with ha | ha
    · cases (htask _ ha).2
    · exact .inr ⟨result, ha⟩
  refine ⟨{ h.numbered with }, { hw with stack := ?_ }, { h.streams with revision := ?_, started := ?_ },
    { hc with sessioned := ?_ }, { hs with session := ?_, stopped := ?_ }, h.watches⟩
  · intro t ht
    exact (mem_append.1 ht).elim (fun ht => (htask t ht).1) (hw.stack t)
  · intro s _ ho
    exact absurd (.inr rfl) ho
  · intro s _ _ _
    exact .inl (.inr rfl)
  · intro s _
    exact .inl (.inr rfl)
  · intro r hr hd _
    exact .inr (hfinishing r hr hd)
  · intro _ r hr hd _
    exact hfinishing r hr hd

theorem stopLinks (hs : g.stopped = true) : Holds mixed (g.stopLinks o) := by
  unfold Gateway.stopLinks
  refine h.push (fun t ht => ?_) (fun t ht => ?_)
  all_goals
    simp only [mem_append, mem_map, mem_singleton, Oracle.mem_values] at ht
  · rcases ht with ⟨l, ⟨_, hl⟩, rfl⟩ | rfl
    · exact (h.wired.links hl).2
    · exact hs
  · rcases ht with ⟨l, -, rfl⟩ | rfl
    · rfl
    · rfl

/-- Nothing needs a session once the gateway is stopped. -/
theorem stopEnd (hs : g.stopped = true) : Holds mixed g.stopEnd := by
  refine ⟨{ h.numbered with }, { h.wired with links := ?_, sessionLinks := ?_ }, { h.streams with },
    { h.controls with controlled := ?_, owner := ?_, sessioned := ?_ },
    { h.serves with session := ?_, revoked := ?_ }, h.watches⟩
  · intro p l hl
    cases hl
  · intro c session _ l hf
    cases hf
  · intro session s hf
    cases hf
  · intro c session hf
    cases hf
  · intro s _
    exact .inl (.inr hs)
  · intro r hr hd hz
    exact .inr (h.serves.stopped hs r hr hd hz)
  · intro c hc
    exact ⟨(h.serves.revoked c hc).1, rfl⟩

/-! ## Requests of clients and owners -/

theorem routed : Holds mixed (g.routed o who data) := by
  unfold Gateway.routed
  dsimp only
  split
  · exact h.refuse
  rename_i call _
  have hreply : (Destination.client who.peer.toNat).Valid g.known who.peer.toNat := rfl
  refine h.enter hreply (fun sessions hs ha => ?_)
  have hvalid : (Purpose.routed
    (Gateway.admitRequest { g with sessions } who.peer.toNat who data (.client who.peer.toNat) none).2
      (entityIdText call.id)).Valid
      (Gateway.admitRequest { g with sessions } who.peer.toNat who data (.client who.peer.toNat) none).1.known :=
    ⟨mem_cons_self, rfl⟩
  exact (hs.admitRequest ha).select hvalid

theorem watch : Holds mixed (g.watch o who data) := by
  unfold Gateway.watch
  dsimp only
  split
  · exact h.refuse
  rename_i type entity _
  split
  · exact h.refuse
  have hreply : (Destination.client who.peer.toNat).Valid g.known who.peer.toNat := rfl
  refine h.enter hreply (fun sessions hs ha => ?_)
  let entered := Gateway.admitRequest { g with sessions } who.peer.toNat who data (.client who.peer.toNat)
    (some (type, entity))
  let s : Subscription := ⟨g.serial + 2, who.peer.toNat, type, entity, false, false⟩
  have hvalid : (Purpose.watch entered.2 s).Valid (entered.1.register s { busy := true }).known :=
    ⟨mem_cons_self, rfl, mem_cons_self⟩
  exact (hs.admitWatch ha).select hvalid

theorem control : Holds mixed (g.control o route who data) := by
  unfold Gateway.control
  dsimp only
  split
  · exact h.refuse
  split
  · exact h.refuse
  rename_i s hs
  obtain ⟨hid, hcreated⟩ := h.wired.subscriptions hs
  split
  · exact h.turnAway
  rename_i hmay
  split
  · exact (h.remove hcreated .none .none).refuse
  split
  · exact (h.startMigrating hcreated).refuse
  rename_i hl
  split
  · exact (h.startMigrating hcreated).refuse
  have hreply : (Destination.client who.peer.toNat).Valid g.known who.peer.toNat := rfl
  refine h.enter hreply (fun _ hsound ha => ?_)
  have hclient : s.client = who.peer.toNat := by
    unfold Gateway.mayControl at hmay
    split at hmay
    · exact absurd rfl hmay
    · simp only [Bool.not_eq_false, Bool.and_eq_true, decide_eq_true_eq] at hmay
      exact hmay.1.1.1.1
  have hlink := h.wired.subscriptionLinks hcreated hl
  exact (hsound.admitRequest ha).call hlink.1 ⟨mem_cons_self, rfl, hclient.symm.trans hlink.2.symm⟩ (by simp)

theorem present : Holds mixed (g.present o peer data) := by
  unfold Gateway.present
  split
  · exact h
  rename_i l hl
  have hlink := (h.wired.links hl).2
  dsimp only
  split
  · exact h.refuse
  split
  · exact h.refuse
  rename_i who _
  split
  · exact h.refuse
  split
  · exact h.refuse
  rename_i type entity _
  have hreply : (Destination.owner l).Valid g.known l.client := ⟨hlink, rfl⟩
  refine h.enter hreply (fun sessions hs ha => ?_)
  have hvalid : (Purpose.present (Gateway.admitRequest { g with sessions } l.client who data (.owner l) none).2
      type entity).Valid (Gateway.admitRequest { g with sessions } l.client who data (.owner l) none).1.known :=
    ⟨mem_cons_self, rfl⟩
  exact (hs.admitRequest ha).select hvalid

end

end Sound

/-! ## Steps -/

/-- The step does not confirm a restore for a subscription in another state of control. -/
def Gateway.Steady (g : Gateway) (input : Oracle × Action) : Prop :=
  input.2 = .run → ∀ call result rest, g.stack = .answer call result :: rest → ¬g.mixes input.1 call result

namespace Sound

/-- The task on top of the stack is run. -/
theorem exec (h : Holds mixed g) {t : Task} {rest : List Task} (hg : g.stack = t :: rest)
    (hm : mixed = false → ∀ call result, t = .answer call result → ¬g.mixes o call result) :
    Holds mixed (Gateway.exec o { g with stack := rest } t) := by
  have hvalid : t.Valid g.known := h.wired.stack t (hg ▸ mem_cons_self)
  unfold Gateway.exec
  cases t with
  | finish => exact h.popFinish hvalid.1 hg rfl hvalid.2
  | reply => exact h.popReply hg
  | refuse => exact (h.pop hg rfl).refuse
  | revoke => exact (h.pop hg rfl).revoke
  | dropSubscriptions => exact (h.pop hg rfl).dropSubscriptions
  | dropLink => exact (h.pop hg rfl).dropLink
  | located => exact (h.pop hg rfl).located hvalid
  | linked => exact (h.pop hg rfl).linked hvalid
  | answer call result => exact (h.pop hg rfl).answer hvalid fun hmixed => hm hmixed call result rfl
  | lose => exact (h.pop hg rfl).lose
  | opened => exact (h.pop hg rfl).linkOpened hvalid
  | failed => exact (h.pop hg rfl).linkFailed hvalid.2.1 hvalid.2.2
  | pollLinks => exact (h.pop hg rfl).pollLinks
  | pollRequests => exact h.popPollRequests hg
  | pollRequest => exact h.popPollRequest hg
  | pollSchedule => exact (h.pop hg rfl).pollSchedule
  | pollSubscription => exact (h.pop hg rfl).pollSubscription
  | stopSubscriptions => exact (h.pop hg rfl).stopSubscriptions
  | stopLinks => exact (h.pop hg rfl).stopLinks hvalid
  | closeLink => exact (h.pop hg rfl).closePeer
  | stopEnd => exact (h.pop hg rfl).stopEnd hvalid

/-- What comes from outside. -/
theorem receive (h : Holds mixed g) : Holds mixed (g.receive o action) := by
  unfold Gateway.receive
  cases action with
  | run | tick | identify => exact h
  | leave => exact h.close
  | connect =>
    dsimp only
    split
    · exact h.setPeers
    · exact h
  | lose => exact h.closePeer
  | answer call result =>
    dsimp only
    split
    · rename_i hin
      refine h.eraseCall.pushAnswer (h.wired.calls call hin) (fun hmixed {_ _ _} hcall => ?_)
      exact h.controls.restores hmixed (.inl hin) hcall
    · exact h
  | locate => exact h.lookedUp
  | routed => exact h.routed
  | watch => exact h.watch
  | control => exact h.control
  | present => exact h.present
  | notice => exact h.notice fun _ hc => by cases hc
  | poll => exact h.poll
  | expose | drain =>
    exact ⟨{ h.numbered with }, { h.wired with }, { h.streams with }, { h.controls with }, { h.serves with }, h.watches⟩
  | stop => exact h.stop

theorem tick (h : Holds mixed g) : Holds mixed { g with now := g.now + time } := by
  refine ⟨{ h.numbered with }, { h.wired with }, { h.streams with }, { h.controls with },
    { h.serves with polled := fun t ht => ⟨?_, (h.serves.polled t ht).2⟩ }, h.watches⟩
  exact (h.serves.polled t ht).1.trans (Nat.le_add_right _ _)

/-- Every step keeps the invariant; a steady one also what it says of restores. -/
theorem step (h : Holds mixed g) {input : Oracle × Action} (hm : mixed = false → g.Steady input) :
    Holds mixed (g.step input) := by
  have hreceive : ∀ action, Holds mixed (if g.stack.isEmpty then g.receive input.1 action else g) := by
    intro action
    split
    · exact h.receive
    · exact h
  unfold Gateway.step
  split
  · rename_i haction
    split
    · exact h
    rename_i rest hg
    refine h.exec hg fun hmixed call result ht => ?_
    subst ht
    exact hm hmixed haction call result rest hg
  · exact h.tick
  · exact ⟨{ h.numbered with }, { h.wired with }, { h.streams with }, { h.controls with }, { h.serves with }, h.watches⟩
  · exact hreceive _

theorem init (limits : Limits) : Holds mixed (Gateway.init limits) := by
  constructor
  · constructor <;> simp [Gateway.init]
  · constructor <;> simp [Gateway.init]
  · constructor <;> simp [Gateway.init, stream, Continuous, Gateway.registered]
  · constructor <;> simp [Gateway.init, Gateway.registered, Gateway.awaits]
  · constructor <;> first | rfl | simp [Gateway.init, answered, replying]
  · simp [Gateway.init]

end Sound

end Fsnet.ClientGateway
