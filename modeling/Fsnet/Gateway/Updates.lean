import Mathlib.Data.List.Nodup
import Fsnet.Gateway.Invariant
/-!
# Small updates keep the invariant

One lemma for each update the functions of the gateway are made of. What an
update does not touch holds as it did; only the parts that name the changed field
are proved.
-/

namespace Fsnet.ClientGateway

open Lib List Function

variable {mixed : Bool} {x y z : Option Nat} {g : Gateway} {peers : Nat → PeerState} {schedule : List Nat}
  {peer remote : Nat} {entity : Bytes} {result : Result}

/-! ## Names of things -/

theorem Numbered.subscription_eq (h : Numbered g) {s s' : Subscription} (hs : s ∈ g.created) (hs' : s' ∈ g.created)
    (hid : s.id = s'.id) : s = s' :=
  inj_on_of_nodup_map h.ids hs hs' hid

theorem Numbered.link_eq (h : Numbered g) {l l' : Link} (hl : l ∈ g.opened) (hl' : l' ∈ g.opened)
    (hp : l.peer = l'.peer) : l = l' :=
  inj_on_of_nodup_map h.peers hl hl' hp

theorem Numbered.request_eq (h : Numbered g) {r r' : Request} (hr : r ∈ g.admitted) (hr' : r' ∈ g.admitted)
    (hid : r.id = r'.id) : r = r' :=
  inj_on_of_nodup_map h.requests hr hr' hid

theorem Sound.created (h : Sound mixed x y z g) {s : Subscription} (hs : g.registered s) : s ∈ g.created :=
  (h.wired.subscriptions hs).2

/-! ## Tables that only the wiring names -/

namespace Sound

section

variable (h : Sound mixed x y z g)
include h

/-- The tables that only the wiring looks at are replaced. -/
theorem rewire {links : OrdMap Nat Link} {lookups : Bytes → Option Lookup} {linkStates : Nat → LinkState}
    (hw : Wired g.known { g with peers, schedule, links, lookups, linkStates }) :
    Sound mixed x y z { g with peers, schedule, links, lookups, linkStates } :=
  ⟨{ h.numbered with }, hw, { h.streams with }, { h.controls with }, { h.serves with }, h.watches⟩

theorem setPeers : Sound mixed x y z { g with peers } := h.rewire { h.wired with }

theorem setSchedule : Sound mixed x y z { g with schedule } := h.rewire { h.wired with }

theorem eraseLink : Sound mixed x y z { g with links := g.links.erase peer } :=
  h.rewire { h.wired with links := fun hl => h.wired.links (OrdMap.find_of_erase hl) }

/-- A lookup is replaced by one whose waiters are in order. -/
theorem setLookup {lookup : Lookup} (hl : ∀ {id p}, lookup.waiters.find id = some p → p.Valid g.known) :
    Sound mixed x y z { g with lookups := update g.lookups entity (some lookup) } := by
  refine h.rewire { h.wired with lookups := fun {e lookup' id p} he hp => ?_ }
  by_cases hentity : e = entity
  · subst hentity
    simp only [update_self] at he
    obtain rfl := Option.some.inj he
    exact hl hp
  · simp only [update_of_ne hentity] at he
    exact h.wired.lookups he hp

theorem setLink {l : Link} (hl : l ∈ g.opened) {f : LinkState → LinkState}
    (hf : ∀ {id p}, (f (g.link l)).waiters.find id = some p → p.Valid g.known ∧ p.client = l.client) :
    Sound mixed x y z (g.setLink l f) := by
  refine h.rewire { h.wired with waiters := fun {l' id p} hl' hp => ?_ }
  by_cases hpeer : l'.peer = l.peer
  · obtain rfl := h.numbered.link_eq hl' hl hpeer
    simp only [update_self] at hp
    exact hf hp
  · simp only [update_of_ne hpeer] at hp
    exact h.wired.waiters hl' hp

theorem setReverseNone : Sound mixed x y z (g.setReverse peer remote none) := by
  have hsub : ∀ {p r id}, (g.setReverse peer remote none).reverse p r = some id → g.reverse p r = some id := by
    intro p r id hr
    simp only [Gateway.setReverse] at hr
    split at hr
    · cases hr
    · exact hr
  have hstarted : ∀ {s}, g.registered s → x ≠ some s.id → (g.setReverse peer remote none).serving s → g.Started s := by
    rintro s hs hx (hb | ha | ⟨p, r, hr⟩)
    · exact h.streams.started hs hx (.inl hb)
    · exact h.streams.started hs hx (.inr (.inl ha))
    · exact h.streams.started hs hx (.inr (.inr ⟨p, r, hsub hr⟩))
  exact ⟨{ h.numbered with }, { h.wired with reverse := fun hr => h.wired.reverse (hsub hr) },
    { h.streams with started := hstarted }, { h.controls with }, { h.serves with }, h.watches⟩

/-- Packets of a link go to a subscription of its client. -/
theorem setReverseSome {l : Link} {s : Subscription} (hl : l ∈ g.opened) (hs : s ∈ g.created)
    (hc : s.client = l.client) (hst : g.Started s ∨ x = some s.id) :
    Sound mixed x y z (g.setReverse l.peer remote (some s.id)) := by
  have hrev : ∀ {p r id}, (g.setReverse l.peer remote (some s.id)).reverse p r = some id →
      (p = l.peer ∧ id = s.id) ∨ g.reverse p r = some id := by
    intro p r id hr
    simp only [Gateway.setReverse] at hr
    split at hr
    · rename_i hk
      exact .inl ⟨hk.1, (Option.some.inj hr).symm⟩
    · exact .inr hr
  have hwired : ∀ {p r id}, (g.setReverse l.peer remote (some s.id)).reverse p r = some id →
      ∃ l s, g.known.link l ∧ l.peer = p ∧ g.known.subscription s ∧ s.id = id ∧ s.client = l.client := by
    intro p r id hr
    rcases hrev hr with ⟨rfl, rfl⟩ | hr
    · exact ⟨l, s, hl, rfl, hs, rfl, hc⟩
    · exact h.wired.reverse hr
  have hstarted : ∀ {s'}, g.registered s' → x ≠ some s'.id →
      (g.setReverse l.peer remote (some s.id)).serving s' → g.Started s' := by
    rintro s' hs' hx (hb | ha | ⟨p, r, hr⟩)
    · exact h.streams.started hs' hx (.inl hb)
    · exact h.streams.started hs' hx (.inr (.inl ha))
    · rcases hrev hr with ⟨-, hid⟩ | hr
      · obtain rfl := h.numbered.subscription_eq (h.created hs') hs hid
        exact hst.resolve_right hx
      · exact h.streams.started hs' hx (.inr (.inr ⟨p, r, hr⟩))
  exact ⟨{ h.numbered with }, { h.wired with reverse := hwired }, { h.streams with started := hstarted },
    { h.controls with }, { h.serves with }, h.watches⟩

/-! ## Requests that stay as done as they were -/

theorem setRequestStates {requestStates : Nat → RequestState}
    (hd : ∀ id, (requestStates id).done = (g.requestStates id).done)
    (hr : ∀ r ∈ g.admitted, ∀ {key}, (requestStates r.id).retry = some key → r.subscription = none) :
    Sound mixed x y z { g with requestStates } := by
  have hdone : ∀ r, (({ g with requestStates } : Gateway).request r).done = (g.request r).done := fun r => hd r.id
  refine ⟨{ h.numbered with }, { h.wired with retries := hr }, { h.streams with untouched := ?_ }, { h.controls with },
    { h.serves with table := ?_, pending := ?_, done := ?_, session := ?_, stopped := ?_, polled := ?_ }, h.watches⟩
  all_goals simp only [hdone]
  · exact h.streams.untouched
  · exact h.serves.table
  · exact h.serves.pending
  · exact h.serves.done
  · exact h.serves.session
  · exact h.serves.stopped
  · exact h.serves.polled

/-- A request is retried only if it makes no subscription. -/
theorem setRequest {r : Request} (hr : r ∈ g.admitted) {f : RequestState → RequestState}
    (hd : ∀ t, (f t).done = t.done)
    (hf : r.subscription = none ∨ ∀ t, (f t).retry = t.retry ∨ (f t).retry = none) :
    Sound mixed x y z (g.setRequest r f) := by
  refine h.setRequestStates (fun id => ?_) (fun r' hr' _ hkey => ?_)
  · by_cases hid : id = r.id
    · rw [hid, update_self, hd]
    · rw [update_of_ne hid]
  · by_cases hid : r'.id = r.id
    · obtain rfl := h.numbered.request_eq hr' hr hid
      rw [update_self] at hkey
      rcases hf with hnone | hf
      · exact hnone
      rcases hf (g.requestStates r'.id) with heq | heq
      · exact h.wired.retries r' hr' (heq.symm.trans hkey)
      · rw [heq] at hkey
        cases hkey
    · rw [update_of_ne hid] at hkey
      exact h.wired.retries r' hr' hkey

end

end Sound

/-! ## The stack -/

/-- A task that neither replies nor answers a call: any number of them may be pushed. -/
def Task.quiet : Task → Bool
  | .reply _ _ => false
  | .answer _ _ => false
  | _ => true

/-- A task some request depends on. -/
def Task.serves : Task → Bool
  | .finish _ _ => true
  | .reply _ _ => true
  | .pollRequests _ => true
  | .pollRequest _ _ => true
  | _ => false

theorem replying_of_quiet {tasks : List Task} (h : ∀ t ∈ tasks, t.quiet = true) : replying tasks = [] := by
  induction tasks with
  | nil => rfl
  | cons t _ ih =>
    rw [forall_mem_cons] at h
    cases t with
    | reply => cases h.1
    | _ => exact ih h.2

/-- What will finish a request is on the other stack as well. -/
structure Serves.Keeps (r : Request) (stack stack' : List Task) : Prop where
  finish : ∀ {result}, .finish r result ∈ stack → ∃ result, .finish r result ∈ stack'
  poll : ∀ {time}, r.deadline ≤ time → .pollRequests time ∈ stack ∨ .pollRequest r time ∈ stack →
    .pollRequests time ∈ stack' ∨ .pollRequest r time ∈ stack'

/-- Another stack serves the requests that were served, but for the one that is owed something. -/
theorem Serves.exchange (h : Serves z g) {stack : List Task} {z' : Option Nat}
    (ho : (answered g.log ++ replying stack).Nodup)
    (hd : ∀ r ∈ g.admitted, (r.id ∈ answered g.log ++ replying stack ↔ (g.request r).done = true ∧ z' ≠ some r.id))
    (hk : ∀ r ∈ g.admitted, (g.request r).done = false → z' ≠ some r.id → z ≠ some r.id ∧ Keeps r g.stack stack) :
    Serves z' { g with stack } := by
  refine { h with once := ho, done := hd, session := ?_, stopped := ?_, polled := ?_ }
  · intro r hr hd hz
    obtain ⟨hz, hk⟩ := hk r hr hd hz
    exact (h.session r hr hd hz).imp_right fun ⟨_, hm⟩ => hk.finish hm
  · intro hs r hr hd hz
    obtain ⟨hz, hk⟩ := hk r hr hd hz
    obtain ⟨_, hm⟩ := h.stopped hs r hr hd hz
    exact hk.finish hm
  · intro time ht
    refine ⟨(h.polled time ht).1, fun r hr hd hz hdue => ?_⟩
    obtain ⟨hz, hk⟩ := hk r hr hd hz
    exact hk.poll hdue ((h.polled time ht).2 r hr hd hz hdue)

/-- The requests do not notice a stack with the same replies and everything they depend on. -/
theorem Serves.restack (h : Serves z g) {stack : List Task} (hr : replying stack = replying g.stack)
    (hk : ∀ t ∈ g.stack, t.serves = true → t ∈ stack) : Serves z { g with stack } := by
  refine h.exchange ?_ ?_ fun r _ _ hz => ⟨hz, fun hm => ⟨_, hk _ hm rfl⟩, fun _ hm => hm.imp (hk _ · rfl) (hk _ · rfl)⟩
  · rw [hr]
    exact h.once
  · rw [hr]
    exact h.done

/-- Restores do not notice a stack without new replies to calls. -/
theorem Controls.restack (h : Controls mixed y g) {stack : List Task}
    (hk : ∀ call result, .answer call result ∈ stack → g.awaits call) : Controls mixed y { g with stack } := by
  refine { h with restores := ?_ }
  rintro hm call (hc | ⟨result, ha⟩)
  · exact h.restores hm (.inl hc)
  · exact h.restores hm (hk call result ha)

namespace Sound

section

variable (h : Sound mixed x y z g)
include h

/-- Another stack that serves the requests, with nothing new but tasks that are quiet. -/
theorem restack {stack : List Task} {z' : Option Nat}
    (hv : ∀ t ∈ stack, t ∈ g.stack ∨ t.Valid g.known ∧ t.quiet = true) (hs : Serves z' { g with stack }) :
    Sound mixed x y z' { g with stack } := by
  refine ⟨{ h.numbered with }, { h.wired with stack := fun t ht => (hv t ht).elim (h.wired.stack t) And.left },
    { h.streams with }, h.controls.restack fun _ result ha => ?_, hs, h.watches⟩
  rcases hv _ ha with ha | ha
  · exact .inr ⟨result, ha⟩
  · cases ha.2

theorem push {tasks : List Task} (hv : ∀ t ∈ tasks, t.Valid g.known)
    (hq : ∀ t ∈ tasks, t.quiet = true) : Sound mixed x y z (g.push tasks) := by
  refine h.restack (fun t ht => (mem_append.1 ht).symm.imp_right fun ht => ⟨hv t ht, hq t ht⟩)
    (h.serves.restack ?_ fun t ht _ => mem_append_right tasks ht)
  rw [replying_append, replying_of_quiet hq, nil_append]

theorem push_map {α : Type} {items : List α} {f : α → Task} (hv : ∀ a ∈ items, (f a).Valid g.known)
    (hq : ∀ a ∈ items, (f a).quiet = true) :
    Sound mixed x y z (g.push (items.map f)) := by
  refine h.push (fun t ht => ?_) (fun t ht => ?_)
  · obtain ⟨a, ha, rfl⟩ := mem_map.1 ht
    exact hv a ha
  · obtain ⟨a, ha, rfl⟩ := mem_map.1 ht
    exact hq a ha

theorem push_one {t : Task} (hv : t.Valid g.known) (hq : t.quiet = true) : Sound mixed x y z (g.push [t]) :=
  h.push (by simpa using hv) (by simpa using hq)

/-- A task no request depends on leaves the stack. -/
theorem pop {t : Task} {rest : List Task} (hg : g.stack = t :: rest) (ht : t.serves = false) :
    Sound mixed x y z { g with stack := rest } := by
  refine h.restack (fun t ht => .inl (hg ▸ mem_cons_of_mem _ ht)) (h.serves.restack ?_ ?_)
  · rw [hg]
    cases t with
    | reply => cases ht
    | _ => rfl
  · intro _ ht' hs
    rw [hg] at ht'
    rcases mem_cons.1 ht' with rfl | hm
    · rw [ht] at hs
      cases hs
    · exact hm

/-! ## Calls -/

/-- The reply to a call is put on the stack. -/
theorem pushAnswer {call : Call} (hv : call.Valid g.known)
    (hc : mixed = false → ∀ {s control epoch}, call.callback = .restore s control epoch →
      Current (g.subscription s) control epoch) :
    Sound mixed x y z (g.push [.answer call result]) := by
  have hstack : ∀ t ∈ .answer call result :: g.stack, t.Valid g.known := forall_mem_cons.2 ⟨hv, h.wired.stack⟩
  refine ⟨{ h.numbered with }, { h.wired with stack := hstack }, { h.streams with }, { h.controls with restores := ?_ },
    h.serves.restack rfl fun t ht _ => mem_cons_of_mem _ ht, h.watches⟩
  rintro hm call' (hin | ⟨result', ha⟩) s control epoch hcall
  · exact h.controls.restores hm (.inl hin) hcall
  · rcases mem_cons.1 ha with heq | ha
    · cases heq
      exact hc hm hcall
    · exact h.controls.restores hm (.inr ⟨result', ha⟩) hcall

/-- `back.call`, whatever the node answers. -/
theorem call {o : Oracle} {l : Link} {callback : Callback} (hl : l ∈ g.opened) (hv : callback.Valid g.known l)
    (hc : mixed = false → ∀ {s control epoch}, callback = .restore s control epoch →
      Current (g.subscription s) control epoch) : Sound mixed x y z (g.call o l callback) := by
  have hserial : Sound mixed x y z { g with callSerial := g.callSerial + 1 } :=
    ⟨{ h.numbered with }, { h.wired with }, { h.streams with }, { h.controls with }, { h.serves with }, h.watches⟩
  have hvalid : Call.Valid g.known ⟨g.callSerial + 1, l, callback⟩ := ⟨hl, hv⟩
  unfold Gateway.call
  dsimp only
  split
  · exact hserial.pushAnswer hvalid hc
  split
  · exact hserial.pushAnswer hvalid hc
  have hcalls : ∀ c ∈ g.calls ++ [⟨g.callSerial + 1, l, callback⟩], c.Valid g.known := by
    intro c hin
    rcases mem_append.1 hin with hin | hin
    · exact h.wired.calls c hin
    · rwa [mem_singleton.1 hin]
  refine ⟨{ h.numbered with }, { h.wired with calls := hcalls }, { h.streams with },
    { h.controls with restores := ?_ }, { h.serves with }, h.watches⟩
  rintro hm call (hin | ha) s control epoch hcall
  · rcases mem_append.1 hin with hin | hin
    · exact h.controls.restores hm (.inl hin) hcall
    · rw [mem_singleton.1 hin] at hcall
      exact hc hm hcall
  · exact h.controls.restores hm (.inr ha) hcall

theorem eraseCall {call : Call} : Sound mixed x y z { g with calls := g.calls.erase call } := by
  refine ⟨{ h.numbered with }, { h.wired with calls := fun c hc => h.wired.calls c (mem_of_mem_erase hc) },
    { h.streams with }, { h.controls with restores := ?_ }, { h.serves with }, h.watches⟩
  rintro hm call' (hin | ha)
  · exact h.controls.restores hm (.inl (mem_of_mem_erase hin))
  · exact h.controls.restores hm (.inr ha)

theorem closePeer {o : Oracle} : Sound mixed x y z (g.closePeer o peer) := by
  unfold Gateway.closePeer
  split
  · exact h
  · exact h.setPeers.push_map (fun _ _ => trivial) (fun _ _ => rfl)

end

end Sound

end Fsnet.ClientGateway
