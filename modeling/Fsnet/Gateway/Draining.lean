import Mathlib.Algebra.Order.BigOperators.Group.List
import Fsnet.Gateway.Steps
/-!
# Callbacks come to an end

Every task that runs is paid for: what it pushes weighs less than it does, what it
leaves waiting on a connection or a link is counted as well, and only a poll, a stop
or the end of a session makes more work than that. Nothing that runs starts a poll or
a session, so from every state the stack is empty after enough steps.
-/

namespace Fsnet.ClientGateway

open Lib List Function

variable {g g' g'' : Gateway} {k m : Nat}

/-! ## Work -/

/-- What a call that waits for its reply may still cause. -/
def Callback.weight : Callback → Nat
  | .unpossess _ _ => 2
  | _ => 4

def Task.weight : Task → Nat
  | .finish _ _ => 2
  | .located _ _ _ => 10
  | .linked _ _ => 5
  | .answer call _ => call.callback.weight - 1
  | .lose call => call.callback.weight
  | .opened _ _ => 2
  | .failed _ _ waiters => 1 + 5 * waiters.length
  | .pollRequest _ _ => 11
  | .pollSubscription _ => 11
  | _ => 1

/-- Does the task push one for every entry of a table? -/
def Task.sweeps : Task → Bool
  | .pollRequests _ => true
  | .pollSchedule _ _ => true
  | .stopLinks => true
  | _ => false

def stackWork (stack : List Task) : Nat := (stack.map Task.weight).sum

/-- The calls that are answered when their connection is closed. -/
def callWork (peers : Nat → PeerState) (calls : List Call) : Nat :=
  ((calls.filter fun c => peers c.link.peer ≠ .closed).map fun c => c.callback.weight).sum

/-- Those who wait for a link to open. -/
def linkWork (serial : Nat) (states : Nat → LinkState) : Nat :=
  5 * ((List.range (serial + 1)).map fun peer => (states peer).waiters.size).sum

def Gateway.work (g : Gateway) : Nat :=
  stackWork g.stack + callWork g.peers g.calls + linkWork g.peerSerial g.linkStates

def Gateway.sweeps (g : Gateway) : Nat := (g.stack.filter Task.sweeps).length

theorem stackWork_append (tasks rest : List Task) : stackWork (tasks ++ rest) = stackWork tasks + stackWork rest := by
  simp [stackWork]

/-- Where work is left. -/
def Gateway.load (g : Gateway) :=
  (g.stack, g.sessions, g.calls, g.peers, g.peerSerial, g.linkStates)

/-- The calls are on connections that were numbered already. -/
def Gateway.Numbers (g : Gateway) : Prop := ∀ c ∈ g.calls, c.link.peer ≤ g.peerSerial

/-- At most so much work was added, unless a session ended. -/
structure Costs (k : Nat) (g g' : Gateway) : Prop where
  sweeps : g'.sweeps ≤ g.sweeps
  paid : g'.sessions.size < g.sessions.size ∨ g'.sessions.size = g.sessions.size ∧ g'.work ≤ g.work + k

namespace Costs

variable {o : Oracle} {client peer id remote index time epoch : Nat} {session : Session} {l : Link}
  {origin : Option Link} {s old : Subscription} {r : Request} {p : Purpose} {d : Detach} {n : Notice} {lookup : Lookup}
  {channel : Channel} {status : Status} {result : Result} {destination : Destination}
  {data type : Bytes} {location : Option Bytes} {revision : UInt64} {waiting : List Purpose}
  {tell failed confirmed control : Bool}

theorem refl : Costs k g g := ⟨le_rfl, .inr ⟨rfl, Nat.le_add_right _ _⟩⟩

theorem mono (h : Costs k g g') (hk : k ≤ m) : Costs m g g' :=
  ⟨h.sweeps, h.paid.imp_right fun ⟨hs, hw⟩ => ⟨hs, by omega⟩⟩

theorem any (h : Costs 0 g g') : Costs k g g' := h.mono (Nat.zero_le k)

theorem add (h : Costs k g g') (h' : Costs m g' g'') : Costs (k + m) g g'' := by
  refine ⟨h'.sweeps.trans h.sweeps, ?_⟩
  have hpaid := h.paid
  have hpaid' := h'.paid
  omega

theorem trans (h : Costs 0 g g') (h' : Costs k g' g'') : Costs k g g'' := (h.add h').mono (by omega)

theorem free (h : Costs k g g') (h' : Costs 0 g' g'') : Costs k g g'' := h.add h'

/-- Only fields that hold no work were changed. -/
theorem of_eq (h : g'.load = g.load) : Costs k g g' := by
  simp only [Gateway.load, Prod.mk.injEq] at h
  obtain ⟨hstack, hsessions, hcalls, hpeers, hserial, hlinks⟩ := h
  refine ⟨by simp [Gateway.sweeps, hstack], .inr ⟨by rw [hsessions], ?_⟩⟩
  simp [Gateway.work, hstack, hcalls, hpeers, hserial, hlinks]

theorem push (tasks : List Task) (h : ∀ t ∈ tasks, t.sweeps = false) (g : Gateway) :
    Costs (stackWork tasks) g (g.push tasks) := by
  have hnone : tasks.filter Task.sweeps = [] := filter_eq_nil_iff.2 fun t ht => by simp [h t ht]
  refine ⟨by simp [Gateway.sweeps, Gateway.push, hnone], .inr ⟨rfl, ?_⟩⟩
  dsimp only [Gateway.work, Gateway.push]
  rw [stackWork_append]
  omega

theorem pushOne {t : Task} (h : t.sweeps = false) : Costs t.weight g (g.push [t]) := by
  simpa [stackWork] using push [t] (by simpa using h) g

theorem foldl {α : Type} {f : Gateway → α → Gateway} (h : ∀ g a, Costs 0 g (f g a)) (l : List α) (g : Gateway) :
    Costs 0 g (l.foldl f g) := by
  induction l generalizing g with
  | nil => exact refl
  | cons a l ih => exact (h g a).trans (ih (f g a))

/-! ## Sessions -/

theorem setSession {client : Nat} (h : (g.sessions.find client).isSome = true) :
    Costs 0 g (g.setSession client session) := by
  have hsize : (g.sessions.insert client session).size = g.sessions.size :=
    Entries.length_insert_of_find session h g.sessions.sorted
  exact ⟨le_rfl, .inr ⟨hsize, le_rfl⟩⟩

/-- The end of a session may push anything. -/
theorem endSession (h : g'.sweeps ≤ g.sweeps) (hs : g'.sessions.size < g.sessions.size) : Costs 0 g g' := ⟨h, .inl hs⟩

/-! ## Waiters and connections -/

theorem sum_update_eq (f : Nat → Nat) (k : Nat) {peer : Nat} {l : List Nat} (hl : l.Nodup) (hp : peer ∈ l) :
    (l.map (update f peer k)).sum + f peer = (l.map f).sum + k := by
  induction l with
  | nil => cases hp
  | cons a l ih =>
    obtain ⟨ha, hl⟩ := nodup_cons.1 hl
    rw [map_cons, map_cons, sum_cons, sum_cons]
    rcases mem_cons.1 hp with rfl | hp
    · have hrest : l.map (update f peer k) = l.map f :=
        map_congr_left fun b hb => update_of_ne (ne_of_mem_of_not_mem hb ha) k f
      rw [update_self, hrest]
      omega
    · have := ih hl hp
      rw [update_of_ne (ne_of_mem_of_not_mem hp ha).symm]
      omega

theorem sum_update_le (f : Nat → Nat) (peer k : Nat) {l : List Nat} (hl : l.Nodup) :
    (l.map (update f peer k)).sum ≤ (l.map f).sum + (k - f peer) := by
  by_cases hp : peer ∈ l
  · have := sum_update_eq f k hl hp
    omega
  · rw [map_congr_left fun a ha => update_of_ne (ne_of_mem_of_not_mem ha hp) k f]
    omega

/-- The state of a link is set to one with no more than so many waiters above what it had. -/
theorem setLinkState {state : LinkState} (h : state.waiters.size ≤ (g.linkStates peer).waiters.size + k) :
    Costs (5 * k) g { g with linkStates := update g.linkStates peer state } := by
  refine ⟨le_rfl, .inr ⟨rfl, ?_⟩⟩
  have hwaiting : (fun p => (update g.linkStates peer state p).waiters.size) =
      update (fun p => (g.linkStates p).waiters.size) peer state.waiters.size := by
    funext p
    by_cases hp : p = peer
    · subst hp
      simp
    · simp [update_of_ne hp]
  have hsum := sum_update_le (fun p => (g.linkStates p).waiters.size) peer state.waiters.size
    (nodup_range (n := g.peerSerial + 1))
  dsimp only [Gateway.work, linkWork]
  rw [hwaiting]
  omega

theorem leave : Costs 0 g (Gateway.leave id g d) := by
  cases d with
  | lookup =>
    dsimp only [Gateway.leave]
    split
    · exact refl
    · exact of_eq rfl
  | link => exact setLinkState (k := 0) (length_filter_le _ _)

theorem setSubscription (f : SubscriptionState → SubscriptionState) : Costs 0 g (g.setSubscription s f) := of_eq rfl

theorem setRequest (f : RequestState → RequestState) : Costs 0 g (g.setRequest r f) :=
  of_eq rfl

theorem close : Costs 0 g (g.close client) := of_eq rfl

theorem detachWaiters : Costs 0 g (g.detachWaiters s) :=
  (setSubscription _).trans (foldl (fun _ _ => leave) _ _)

/-- The calls on a connection that is closed are answered from the stack. -/
theorem closePeer : Costs 0 g (g.closePeer o peer) := by
  unfold Gateway.closePeer
  split
  · exact refl
  rename_i hopen
  dsimp only
  have hwork : ∀ l : List Call, ((l.filter fun c => c.link.peer = peer).map fun c => Task.weight (.lose c)).sum +
      ((l.filter fun c => update g.peers peer .closed c.link.peer ≠ .closed).map fun c => c.callback.weight).sum =
      ((l.filter fun c => g.peers c.link.peer ≠ .closed).map fun c => c.callback.weight).sum := by
    intro l
    induction l with
    | nil => rfl
    | cons c l ih =>
      by_cases hc : c.link.peer = peer
      · simp only [hc, update_self, filter_cons, decide_true, ne_eq, not_true_eq_false, decide_false,
          hopen, not_false_eq_true, if_true, map_cons, sum_cons, Task.weight] at ih ⊢
        simp only [Bool.false_eq_true, if_false]
        omega
      simp only [hc, update_of_ne hc, filter_cons, decide_false, Bool.false_eq_true, if_false] at ih ⊢
      split
      · simp only [map_cons, sum_cons]
        omega
      · exact ih
  have hlost : stackWork ((o.order Call.id (g.calls.filter fun c => c.link.peer = peer)).map .lose) =
      ((g.calls.filter fun c => c.link.peer = peer).map fun c => Task.weight (.lose c)).sum := by
    rw [stackWork, map_map]
    exact (arrange_perm.map _).sum_eq
  have hcost := push ((o.order Call.id (g.calls.filter fun c => c.link.peer = peer)).map .lose)
    (forall_mem_map.2 fun _ _ => rfl) g
  refine ⟨hcost.sweeps, .inr ⟨rfl, ?_⟩⟩
  have hcalls := hwork g.calls
  dsimp only [Gateway.work, Gateway.push, callWork]
  rw [stackWork_append]
  omega

theorem notify : Costs 0 g (g.notify o client origin channel id data).1 := by
  unfold Gateway.notify
  split <;> exact of_eq rfl

/-! ## The end of subscriptions and requests -/

theorem announce : Costs 0 g (g.announce o s status) := by
  unfold Gateway.announce
  split
  · exact refl
  · split
    · exact notify
    · exact notify

theorem dropControl : Costs 0 g (g.dropControl s) := by
  unfold Gateway.dropControl
  split
  · exact refl
  rename_i hf
  split
  · exact setSession (Option.isSome_of_eq_some hf)
  · exact refl

theorem dropReverse : Costs 0 g (g.dropReverse s) := by
  unfold Gateway.dropReverse
  split
  · exact refl
  · exact of_eq rfl

theorem remove : Costs 0 g (g.remove o s status tell) := by
  unfold Gateway.remove
  split
  · have hunregister : Costs 0 g (g.unregister s) := of_eq rfl
    have hgone := ((hunregister.trans (detachWaiters (s := s))).trans (dropControl (s := s))).trans
      (dropReverse (s := s))
    dsimp only
    split
    · exact hgone.trans announce
    · exact hgone
  · exact refl

theorem reply : Costs 0 g (g.reply o r result origin) := by
  have hlog : Costs 0 g { g with log := .replied r origin result (g.identity r.client) :: g.log } :=
    of_eq rfl
  unfold Gateway.reply
  dsimp only
  split
  · exact hlog
  · split
    · exact of_eq rfl
    · exact hlog.trans closePeer

theorem refuse : Costs 0 g (g.refuse o destination status) := by
  have hlog : Costs 0 g { g with log := .refused destination status :: g.log } := of_eq rfl
  unfold Gateway.refuse
  dsimp only
  split
  · exact hlog
  · split
    · exact of_eq rfl
    · exact hlog.trans closePeer

theorem cancel : Costs 0 g (g.cancel o r) := by
  unfold Gateway.cancel
  split
  · exact refl
  · exact remove

theorem revoke : Costs 0 g (g.revoke o client) := by
  unfold Gateway.revoke
  split
  · exact refl
  rename_i hf
  refine endSession ?_ ?_
  · refine (push _ ?_ _).sweeps
    rw [forall_mem_append, forall_mem_cons, forall_mem_map, forall_mem_map]
    exact ⟨fun _ _ => rfl, rfl, fun _ _ => rfl⟩
  · have hperm := (Entries.perm_erase g.sessions.sorted hf).length_eq
    change (Entries.erase client g.sessions.entries).length < g.sessions.entries.length
    rw [hperm]
    exact Nat.lt_succ_self _

theorem finish : Costs (k + 1) g (g.finish o r result origin) := by
  unfold Gateway.finish
  split
  · exact refl
  have hmark : Costs 0 g (g.markDone r) := of_eq rfl
  have hretire : Costs 0 g (g.retire r) := hmark.trans (foldl (fun _ _ => leave) _ _)
  dsimp only
  split
  · split
    · exact (hretire.trans reply).any
    · exact ((hretire.trans cancel).trans reply).any
  · have hpushed := (hretire.trans (cancel (o := o) (r := r))).trans (pushOne (t := .reply r ⟨.disconnected, []⟩) rfl)
    exact (hpushed.free revoke).mono (Nat.le_add_left 1 k)

/-! ## Calls and links -/

theorem call (callback : Callback) : Costs callback.weight g (g.call o l callback) := by
  have hserial : Costs 0 g { g with callSerial := g.callSerial + 1 } := of_eq rfl
  have hanswer : ∀ result : Result, Costs callback.weight g
      ({ g with callSerial := g.callSerial + 1 }.push [.answer ⟨g.callSerial + 1, l, callback⟩ result]) := fun result =>
    (hserial.trans (pushOne (t := .answer ⟨g.callSerial + 1, l, callback⟩ result) rfl)).mono (by
      dsimp only [Task.weight]
      omega)
  unfold Gateway.call
  dsimp only
  split
  · exact hanswer _
  split
  · exact hanswer _
  -- the call waits, and is paid for as if it were lost
  refine ⟨le_rfl, .inr ⟨rfl, ?_⟩⟩
  have hcalls : callWork g.peers (g.calls ++ [⟨g.callSerial + 1, l, callback⟩]) ≤
      callWork g.peers g.calls + callback.weight := by
    unfold callWork
    rw [filter_append, map_append, sum_append]
    refine Nat.add_le_add_left ?_ _
    rw [filter_cons]
    split <;> simp
  dsimp only [Gateway.work]
  omega

theorem attachDetach : Costs 0 g (g.attachDetach p d) := by
  cases p <;> exact of_eq rfl

theorem size_emplace_le (waiters : OrdMap Nat Purpose) (p : Purpose) :
    (Gateway.emplace waiters p).size ≤ waiters.size + 1 := by
  unfold Gateway.emplace
  split
  · exact Nat.le_succ _
  · exact Entries.length_insert_le _ _ _

theorem waitLink : Costs 5 g (g.waitLink p l) :=
  (setLinkState (k := 1) (size_emplace_le _ p)).free attachDetach

/-- A new connection has no calls, and nobody waits for its link yet. -/
theorem connect (opened : List Link) (links : OrdMap Nat Link) (hl : l.peer = g.peerSerial + 1) (h : g.Numbers)
    (opening : Bool) :
    Costs 0 g (Gateway.setLink
      { g with peerSerial := g.peerSerial + 1, opened, links, peers := update g.peers l.peer .connecting }
      l fun _ => { opening }) := by
  refine ⟨le_rfl, .inr ⟨rfl, ?_⟩⟩
  have hcalls : callWork (update g.peers l.peer .connecting) g.calls = callWork g.peers g.calls := by
    unfold callWork
    congr 2
    refine filter_congr fun c hc => ?_
    have hne : c.link.peer ≠ l.peer := by
      have := h c hc
      omega
    rw [update_of_ne hne]
  have hlinks : linkWork (g.peerSerial + 1) (update g.linkStates l.peer { opening }) =
      linkWork g.peerSerial g.linkStates := by
    have hsame : (List.range l.peer).map (fun p =>
        (update g.linkStates l.peer ({ opening } : LinkState) p).waiters.size) =
        (List.range l.peer).map fun p => (g.linkStates p).waiters.size := by
      refine map_congr_left fun p hp => ?_
      rw [update_of_ne (mem_range.1 hp).ne]
    unfold linkWork
    rw [range_succ, map_append, sum_append, ← hl, hsame]
    simp [OrdMap.size, OrdMap.empty]
  dsimp only [Gateway.work, Gateway.setLink]
  omega

theorem openLink {session : Session} (hs : g.sessions.find p.client = some session) (h : g.Numbers) :
    Costs 9 g (g.openLink o session index p) := by
  unfold Gateway.openLink
  split
  · exact (pushOne (t := .linked p (.error .overloaded)) rfl).mono (by simp [Task.weight])
  split
  · exact (pushOne (t := .linked p (.error .disconnected)) rfl).mono (by simp [Task.weight])
  dsimp only
  have hconnect := connect (l := ⟨g.peerSerial + 1, p.client, index⟩) (⟨g.peerSerial + 1, p.client, index⟩ :: g.opened)
    (g.links.insert (g.peerSerial + 1) ⟨g.peerSerial + 1, p.client, index⟩) rfl h true
  refine ((hconnect.trans (setSession ?_)).trans waitLink).add (call .delegate)
  exact Option.isSome_of_eq_some hs

theorem acquire (h : g.Numbers) : Costs 9 g (g.acquire o index p) := by
  have hlinked : ∀ result, Costs 9 g (g.push [.linked p result]) := fun result =>
    (pushOne (t := .linked p result) rfl).mono (by simp [Task.weight])
  unfold Gateway.acquire
  split
  · exact hlinked _
  rename_i session hs
  split
  · exact (hlinked _).free revoke
  split
  · exact openLink hs h
  split
  · exact hlinked _
  · split
    · exact waitLink.mono (by omega)
    · exact openLink hs h

theorem startMigrating : Costs 0 g (g.startMigrating s) := by
  unfold Gateway.startMigrating
  split
  · exact refl
  · exact setSubscription _

theorem expireRoute : Costs 0 g (g.expireRoute s) := by
  unfold Gateway.expireRoute
  split
  · exact refl
  · exact of_eq rfl

/-! ## Lookups -/

theorem selected (result : Except (Status × Bool) Nat) (h : g.Numbers) : Costs 9 g (g.selected o p result) := by
  unfold Gateway.selected
  split
  · split
    · exact refl
    · exact finish
  · split
    · exact refl
    · split
      · exact acquire h
      · exact finish
  · split
    · exact refl
    · split
      · exact (setRequest _).any
      · exact finish
  · split
    · exact refl
    · exact acquire h
  · split
    · exact refl
    · exact remove.trans finish
  · split
    · exact refl
    · exact acquire h
  · rename_i s _ _
    split
    · have hidle := (detachWaiters (g := g) (s := s)).trans (setSubscription (s := s) fun t => { t with busy := false })
      dsimp only
      split
      · exact (hidle.trans remove).any
      · exact ((hidle.trans startMigrating).trans (setSubscription _)).any
    · exact refl
  · rename_i s _
    split
    · obtain ⟨_, _, _, heq⟩ := detachWaiters_eq g s
      dsimp only
      split
      · exact (detachWaiters.trans (setSubscription _)).any
      refine (detachWaiters.trans startMigrating).trans (acquire ?_)
      rw [heq]
      unfold Gateway.startMigrating
      split <;> exact h
    · exact refl

theorem resolve : Costs 0 g (g.resolve p type) := by
  cases p <;> exact of_eq rfl

theorem located (h : g.Numbers) : Costs 9 g (g.located o p status location) := by
  have hresolve : ∀ type result, Costs 9 g ((g.resolve p type).selected o p result) := by
    intro type result
    refine resolve.trans (selected result ?_)
    cases p <;> exact h
  unfold Gateway.located
  split
  · exact selected _ h
  split
  · exact selected _ h
  split
  · exact selected _ h
  split
  · exact selected _ h
  · split
    · exact hresolve _ _
    · exact hresolve _ _

theorem waitLookup : Costs 0 g (g.waitLookup p lookup) := by
  have hlookups : Costs 0 g { g with
      lookups := update g.lookups p.entity (some { lookup with waiters := Gateway.emplace lookup.waiters p }) } :=
    of_eq rfl
  exact hlookups.trans attachDetach

theorem stackWork_map {task : Purpose → Task} (waiting : List Purpose) (ht : ∀ p, (task p).weight = k) :
    stackWork (waiting.map task) = k * waiting.length := by
  induction waiting with
  | nil => rfl
  | cons p waiting ih =>
    simp only [stackWork, map_cons, sum_cons, length_cons, ht, Nat.mul_succ] at ih ⊢
    omega

/-- Everyone who waits for a lookup gets its outcome. -/
theorem lookedUp {entity : Bytes} {lookup : Lookup} (hl : g.lookups entity = some lookup) :
    Costs (10 * lookup.waiters.size) g (g.lookedUp entity failed location) := by
  have hpush : ∀ lookups status location, Costs (10 * lookup.waiters.size) g
      ({ g with lookups }.push ((lookup.waiters.entries.map Prod.snd).map fun p => .located p status location)) := by
    intro lookups status location
    have hlookups : Costs 0 g { g with lookups } := of_eq rfl
    have htasks := push ((lookup.waiters.entries.map Prod.snd).map fun p => .located p status location)
      (forall_mem_map.2 fun _ _ => rfl) { g with lookups }
    refine (hlookups.trans htasks).mono ?_
    rw [stackWork_map _ fun _ => by rw [Task.weight], length_map, OrdMap.size]
  unfold Gateway.lookedUp
  rw [hl]
  dsimp only
  split
  · split
    · exact hpush _ _ _
    · exact hpush _ _ _
  · exact refl

theorem lookUp : Costs 10 g (g.lookUp o p) := by
  unfold Gateway.lookUp
  split
  · exact pushOne (t := .located p .overloaded none) rfl
  have hwait : Costs 0 g (g.waitLookup p { busy := true }) := waitLookup
  dsimp only
  split
  · exact hwait.any
  -- the lookup is a new one, so only this purpose waits for it
  have hfound : (g.waitLookup p { busy := true }).lookups p.entity =
      some { busy := true, waiters := Gateway.emplace .empty p } := by
    cases p <;> exact update_self _ _ _
  exact hwait.trans ((lookedUp hfound).mono (Nat.mul_le_mul_left 10 (size_emplace_le .empty p)))

theorem select (h : g.Numbers) : Costs 10 g (g.select o p) := by
  unfold Gateway.select
  split
  · exact (selected _ h).mono (by omega)
  split
  · exact lookUp
  split
  · exact waitLookup.any
  · split
    · exact pushOne (t := .located p .ok _) rfl
    · exact lookUp

theorem refresh (h : g.Numbers) : Costs 10 g (g.refresh o s) := by
  unfold Gateway.refresh
  split
  · exact refl
  obtain ⟨_, _, _, heq⟩ := detachWaiters_eq g s
  refine (detachWaiters.trans (setSubscription _)).trans (select ?_)
  rw [heq]
  exact h

theorem linked (result : Except Status Link) : Costs 4 g (g.linked o p result) := by
  unfold Gateway.linked
  split
  · split
    · exact refl
    · exact finish
  · split
    · exact refl
    · exact call (.forward _)
  · split
    · exact refl
    · exact finish
  · split
    · exact refl
    · exact call (.forward _)
  · split
    · exact refl
    · exact remove.trans finish
  · split
    · exact refl
    · exact call (.watch _ _)
  · rename_i s status
    split
    · exact ((detachWaiters.trans (setSubscription _)).trans (setSubscription _)).any
    · exact refl
  rename_i s _
  split
  · dsimp only
    split
    · exact detachWaiters.trans (call (.restore s _ _))
    · exact detachWaiters.trans (call (.rewatch s))
  · exact refl

/-! ## Notices -/

theorem forward : Costs 0 g (g.forward o l n s) := by
  unfold Gateway.forward
  split
  · exact close
  · exact notify

theorem attach : Costs 0 g (g.attach l remote revision s) := by
  have hreverse : ∀ g : Gateway, Costs 0 g (g.setReverse l.peer remote (some s.id)) := fun g =>
    of_eq rfl
  exact (dropReverse.trans (setSubscription _)).trans (hreverse _)

theorem supersede : Costs 2 g (g.supersede o l old).1 := by
  have hset := setSubscription (g := g) (s := old)
    (fun t => { t with controlled := false, controlEpoch := t.controlEpoch + 1 })
  unfold Gateway.supersede
  dsimp only
  split
  · exact (hset.trans close).any
  split
  · split
    · exact (hset.trans notify).any
    · split
      · exact (hset.trans notify).trans (call (.unpossess old _))
      · exact (hset.trans notify).any
  · exact (hset.trans notify).any

theorem giveWay : Costs 2 g (g.giveWay o l session s).1 ∧ (g.giveWay o l session s).1.sessions = g.sessions := by
  unfold Gateway.giveWay
  split
  · exact ⟨refl, rfl⟩
  rename_i old _
  split
  · obtain ⟨_, _, _, _, _, heq, -⟩ := supersede_eq o g l old
    exact ⟨supersede, by rw [heq]⟩
  · exact ⟨refl, rfl⟩

theorem possess : Costs 2 g (g.possess o l s).1 := by
  unfold Gateway.possess
  split
  · exact refl
  rename_i hf
  obtain ⟨htaken, hsessions⟩ := giveWay
  dsimp only
  split
  · refine htaken.free (setSession ?_)
    rw [hsessions]
    exact Option.isSome_of_eq_some hf
  · exact htaken

theorem release : Costs 0 g (g.release l s) := by
  unfold Gateway.release
  split
  · exact refl
  rename_i hf
  split
  · exact setSession (Option.isSome_of_eq_some hf)
  · exact refl

theorem display : Costs 2 g (g.display o l n s) := by
  have hcontrol : ∀ controlled g, Costs 0 g (Gateway.setControl g s controlled) := fun _ g => setSubscription _
  unfold Gateway.display
  split
  · dsimp only
    split
    · exact (possess.free (hcontrol true _)).free forward
    · exact possess
  · exact ((release.trans (hcontrol false _)).trans forward).any

theorem deliver : Costs 2 g (g.deliver o l n s) := by
  have hclose : Costs 2 g (g.close l.client) := close.any
  unfold Gateway.deliver
  split
  · exact hclose
  split
  · split
    · exact startMigrating.any
    · exact remove.any
  split
  · exact refl
  split
  · split
    · exact hclose
    · split
      · exact hclose
      · exact ((setSubscription _).trans forward).any
  · exact display

theorem settle : Costs 0 g (g.settle l n s) :=
  (attach.trans (setSubscription _)).trans expireRoute

theorem restored : Costs 2 g (g.restored o l n s) := by
  unfold Gateway.restored
  split
  · have hsettle := settle (g := g) (l := l) (n := n) (s := s)
    dsimp only
    split
    · exact (hsettle.trans close).any
    split
    · exact (hsettle.trans notify).trans deliver
    · exact (hsettle.trans notify).any
  · exact remove.any

theorem appeared : Costs 2 g (g.appeared o l n) := by
  unfold Gateway.appeared
  split
  · exact close.any
  have hregister : ∀ s state, Costs 0 g (g.register s state) := fun s state => of_eq rfl
  dsimp only
  split
  · exact ((hregister _ _).trans settle).trans deliver
  · exact ((hregister _ _).trans remove).any

theorem notice : Costs 2 g (g.notice o peer channel data confirmed) := by
  unfold Gateway.notice
  split
  · exact refl
  split
  · exact refl
  split
  · exact refl
  split
  · exact revoke.any
  split
  · exact close.any
  unfold Gateway.noticed
  dsimp only
  split
  · split
    · exact appeared
    · split
      · exact restored
      · exact refl
  · split
    · exact refl
    · exact deliver

/-! ## Answers -/

theorem watchAnswered : Costs 1 g (g.watchAnswered o l r s result) := by
  have hrefused : ∀ g, Costs 1 g (Gateway.watchRefused o g r s) := fun g => remove.trans finish
  unfold Gateway.watchAnswered
  split
  · exact refl
  split
  · exact remove.trans finish
  split
  · exact hrefused g
  split
  · exact hrefused g
  split
  · have hwatching : ∀ remote revision, Costs 0 g (g.watching l remote revision s) := fun _ _ =>
      of_eq rfl
    dsimp only
    split
    · exact (hwatching _ _).trans (hrefused _)
    · exact (hwatching _ _).trans finish
  · exact hrefused g

theorem retryMigration : Costs 0 g (g.retryMigration s) := setSubscription _

theorem notMoved : Costs 0 g (g.notMoved o s status) := by
  unfold Gateway.notMoved
  split
  · exact remove
  · exact retryMigration

theorem moved : Costs 0 g (g.moved s) := setSubscription _

theorem restoreAnswered : Costs 2 g (g.restoreAnswered o l s control epoch result) := by
  unfold Gateway.restoreAnswered
  split
  · have hmoved := moved (g := g) (s := s)
    dsimp only
    split
    · exact ((hmoved.trans (setSubscription _)).trans expireRoute).any
    split
    · exact (hmoved.trans notMoved).any
    · split
      · exact hmoved.trans notice
      · exact (hmoved.trans remove).any
  · exact refl

theorem rewatched : Costs 0 g (g.rewatched o l s data) := by
  unfold Gateway.rewatched
  split
  · exact remove
  · split
    · exact notify
    · exact revoke

theorem rewatchAnswered : Costs 0 g (g.rewatchAnswered o l s result) := by
  unfold Gateway.rewatchAnswered
  split
  · have hmoved := moved (g := g) (s := s)
    dsimp only
    split
    · exact hmoved.trans notMoved
    split
    · exact hmoved.trans remove
    split
    · exact hmoved.trans remove
    · split
      · exact ((hmoved.trans attach).trans expireRoute).trans rewatched
      · exact hmoved.trans remove
  · exact refl

theorem unpossessed : Costs 0 g (g.unpossessed s epoch status) := by
  unfold Gateway.unpossessed
  split
  · exact refl
  · split
    · exact (startMigrating.trans expireRoute).trans retryMigration
    · exact refl

/-- Those who waited for the link are told from the stack. -/
theorem linkOpened (hl : l.peer ≤ g.peerSerial) : Costs 1 g (g.linkOpened o l status) := by
  have hlinks : ∀ ready, linkWork g.peerSerial (update g.linkStates l.peer ⟨ready, false, .empty⟩) +
      5 * (g.linkStates l.peer).waiters.size = linkWork g.peerSerial g.linkStates := by
    intro ready
    have hwaiting : (fun p => (update g.linkStates l.peer ⟨ready, false, .empty⟩ p).waiters.size) =
        update (fun p => (g.linkStates p).waiters.size) l.peer 0 := by
      funext p
      by_cases hp : p = l.peer
      · subst hp
        simp [OrdMap.size, OrdMap.empty]
      · simp [update_of_ne hp]
    have hsum := sum_update_eq (fun p => (g.linkStates p).waiters.size) 0 (nodup_range (n := g.peerSerial + 1))
      (mem_range.2 (Nat.lt_succ_of_le hl))
    unfold linkWork
    rw [hwaiting]
    omega
  have hsize : ((g.linkStates l.peer).waiters.entries.map Prod.snd).length = (g.linkStates l.peer).waiters.size :=
    length_map _
  unfold Gateway.linkOpened
  dsimp only
  split
  · refine ⟨(push _ (forall_mem_map.2 fun _ _ => rfl) _).sweeps, .inr ⟨rfl, ?_⟩⟩
    have := hlinks (decide (status = .ok))
    dsimp only [Gateway.work, Gateway.push, Gateway.setLink, Gateway.link]
    rw [stackWork_append, stackWork_map _ fun _ => by rw [Task.weight], hsize]
    omega
  have hfailed : Costs 1 g ((g.setLink l fun _ => ⟨decide (status = .ok), false, .empty⟩).push
      [.failed l status ((g.link l).waiters.entries.map Prod.snd)]) := by
    refine ⟨(pushOne (t := .failed l status _) rfl).sweeps, .inr ⟨rfl, ?_⟩⟩
    have := hlinks (decide (status = .ok))
    dsimp only [Gateway.work, Gateway.push, Gateway.setLink, Gateway.link]
    have hweight : stackWork [.failed l status ((g.linkStates l.peer).waiters.entries.map Prod.snd)] =
        1 + 5 * (g.linkStates l.peer).waiters.size := by
      simp [stackWork, Task.weight, OrdMap.size]
    rw [stackWork_append, hweight]
    omega
  exact hfailed.free closePeer

theorem linkFailed : Costs (5 * waiting.length) g (g.linkFailed l status waiting) := by
  have hlinks : Costs 0 g { g with links := g.links.erase l.peer } := of_eq rfl
  have htasks := push (waiting.map fun p => .linked p (.error status)) (forall_mem_map.2 fun _ _ => rfl)
    { g with links := g.links.erase l.peer }
  rw [stackWork_map _ fun _ => by rw [Task.weight]] at htasks
  exact hlinks.trans htasks

theorem delegated (hl : l.peer ≤ g.peerSerial) : Costs 2 g (g.delegated o l status) := by
  unfold Gateway.delegated
  split
  · exact (linkOpened hl).mono (by omega)
  · split
    · exact (pushOne (t := .opened l .disconnected) rfl).free revoke
    · exact (linkOpened hl).mono (by omega)

/-- Handling a reply costs less than the call did. -/
theorem answer (call : Call) (hl : call.link.peer ≤ g.peerSerial) :
    Costs (call.callback.weight - 2) g (g.answer o call result) := by
  unfold Gateway.answer
  split
  · rename_i h
    rw [h]
    exact delegated hl
  · rename_i h
    rw [h]
    exact finish
  · rename_i h
    rw [h]
    exact watchAnswered.mono (by simp [Callback.weight])
  · rename_i h
    rw [h]
    exact restoreAnswered
  · rename_i h
    rw [h]
    exact rewatchAnswered.mono (by simp [Callback.weight])
  · rename_i h
    rw [h]
    exact unpossessed

theorem eraseCall (call : Call) : Costs 0 g { g with calls := g.calls.erase call } := by
  refine ⟨le_rfl, .inr ⟨rfl, ?_⟩⟩
  have hcalls : callWork g.peers (g.calls.erase call) ≤ callWork g.peers g.calls :=
    ((erase_sublist.filter _).map _).sum_le_sum fun _ _ => Nat.zero_le _
  dsimp only [Gateway.work]
  omega

theorem lose (call : Call) (h : g.Numbers) : Costs (call.callback.weight - 2) g (g.lose o call) := by
  unfold Gateway.lose
  split
  · rename_i hc
    refine (eraseCall call).trans (answer call ?_)
    exact h call hc
  · exact refl

/-! ## Polling and stopping -/

theorem forgetLink : Costs 0 g (g.forgetLink l) := by
  unfold Gateway.forgetLink
  split
  · have hlinks : Costs 0 g { g with links := g.links.erase l.peer } := of_eq rfl
    dsimp only
    split
    · exact hlinks
    rename_i hf
    split
    · refine hlinks.trans (setSession ?_)
      exact Option.isSome_of_eq_some hf
    · exact hlinks
  · exact refl

theorem pollRequest (h : g.Numbers) : Costs 10 g (g.pollRequest o r time) := by
  unfold Gateway.pollRequest
  split
  · exact finish
  split
  · exact finish
  split
  · exact refl
  · split
    · exact (setRequest _).trans (select h)
    · exact refl

theorem noticeLoss : Costs 0 g (g.noticeLoss s) := by
  unfold Gateway.noticeLoss
  split
  · exact startMigrating
  · exact refl

theorem pollSubscription (h : g.Numbers) : Costs 10 g (g.pollSubscription o time) := by
  unfold Gateway.pollSubscription
  split
  · exact refl
  rename_i id rest _
  split
  · exact (of_eq rfl : Costs 0 g { g with schedule := rest }).any
  rename_i s _
  have hloss : Costs 0 g (Gateway.noticeLoss { g with schedule := rest ++ [id] } s) :=
    (of_eq rfl : Costs 0 g { g with schedule := rest ++ [id] }).trans noticeLoss
  dsimp only
  split
  · exact (hloss.trans remove).any
  split
  · refine hloss.trans (refresh ?_)
    unfold Gateway.noticeLoss Gateway.startMigrating
    split
    · split <;> exact h
    · exact h
  · exact hloss.any

/-! ## Tasks -/

/-- A task that does not go over a table costs less than it weighs. -/
theorem exec {t : Task} (ht : t.sweeps = false) (hcalls : g.Numbers)
    (hanswer : ∀ call result, t = .answer call result → call.link.peer ≤ g.peerSerial)
    (hopened : ∀ l status, t = .opened l status → l.peer ≤ g.peerSerial) :
    ∃ n < t.weight, Costs n g (g.exec o t) := by
  unfold Gateway.exec
  cases t with
  | finish => exact ⟨1, by simp [Task.weight], finish⟩
  | reply => exact ⟨0, by simp [Task.weight], reply⟩
  | refuse => exact ⟨0, by simp [Task.weight], refuse⟩
  | revoke => exact ⟨0, by simp [Task.weight], revoke⟩
  | dropSubscriptions | stopSubscriptions => exact ⟨0, by simp [Task.weight], foldl (fun g s => remove) _ g⟩
  | dropLink l =>
    have hlinks : Costs 0 g { g with links := g.links.erase l.peer } := of_eq rfl
    exact ⟨0, by simp [Task.weight], hlinks.trans closePeer⟩
  | located => exact ⟨9, by simp [Task.weight], located hcalls⟩
  | linked p result => exact ⟨4, by simp [Task.weight], linked result⟩
  | answer call result =>
    refine ⟨_, ?_, answer call (hanswer call result rfl)⟩
    cases hc : call.callback <;> simp [Task.weight, Callback.weight, hc]
  | lose call =>
    refine ⟨_, ?_, lose call hcalls⟩
    cases hc : call.callback <;> simp [Task.weight, Callback.weight, hc]
  | opened l status => exact ⟨1, by simp [Task.weight], linkOpened (hopened l status rfl)⟩
  | failed l status waiting =>
    refine ⟨5 * waiting.length, ?_, linkFailed⟩
    simp only [Task.weight]
    omega
  | pollLinks => exact ⟨0, by simp [Task.weight], foldl (fun g l => forgetLink) _ g⟩
  | pollRequest => exact ⟨10, by simp [Task.weight], pollRequest hcalls⟩
  | pollSubscription => exact ⟨10, by simp [Task.weight], pollSubscription hcalls⟩
  | closeLink => exact ⟨0, by simp [Task.weight], closePeer⟩
  | stopEnd =>
    refine ⟨0, by simp [Task.weight], le_rfl, ?_⟩
    rcases Nat.eq_zero_or_pos g.sessions.size with hs | hs
    · exact .inr ⟨hs.symm, le_rfl⟩
    · exact .inl hs
  | pollRequests | pollSchedule | stopLinks => cases ht

/-- And one that does leaves no other such task. -/
theorem exec_sweeps {t : Task} (ht : t.sweeps = true) : (g.exec o t).sweeps ≤ g.sweeps := by
  unfold Gateway.exec
  cases t with
  | pollRequests => exact (push _ (forall_mem_map.2 fun _ _ => rfl) g).sweeps
  | pollSchedule =>
    refine (push _ ?_ g).sweeps
    intro t ht
    rw [eq_of_mem_replicate ht]
    rfl
  | stopLinks =>
    refine (push _ ?_ g).sweeps
    rw [forall_mem_append, forall_mem_map]
    exact ⟨fun _ _ => rfl, by simp [Task.sweeps]⟩
  | _ => cases ht

end Costs

/-! ## The stack drains -/

/-- The states in which less is left to do. -/
def Gateway.Lighter : Gateway → Gateway → Prop :=
  InvImage (Prod.Lex (· < ·) (Prod.Lex (· < ·) (· < ·))) fun g => (g.sweeps, g.sessions.size, g.work)

theorem Gateway.wellFounded_lighter : WellFounded Gateway.Lighter :=
  InvImage.wf _ (WellFounded.prod_lex Nat.lt_wfRel.wf (WellFounded.prod_lex Nat.lt_wfRel.wf Nat.lt_wfRel.wf))

theorem Sound.lighter {mixed : Bool} (h : Holds mixed g) {t : Task} {rest : List Task} (hg : g.stack = t :: rest)
    (o : Oracle) :
    Gateway.Lighter (Gateway.exec o { g with stack := rest } t) g := by
  have hpeer : ∀ l ∈ g.opened, l.peer ≤ g.peerSerial := h.numbered.peers_le
  have hcalls : ∀ c ∈ g.calls, c.link.peer ≤ g.peerSerial := fun c hc => hpeer _ (h.wired.calls c hc).1
  have hsweeps : g.sweeps = Gateway.sweeps { g with stack := rest } + if t.sweeps then 1 else 0 := by
    unfold Gateway.sweeps
    rw [hg, filter_cons]
    split <;> simp
  have hwork : g.work = t.weight + Gateway.work { g with stack := rest } := by
    simp only [Gateway.work, hg, stackWork, map_cons, sum_cons]
    omega
  cases ht : t.sweeps with
  | true =>
    refine Prod.Lex.left _ _ ?_
    have := Costs.exec_sweeps (g := { g with stack := rest }) (o := o) ht
    simp only [ht, if_true] at hsweeps
    omega
  | false =>
    have hvalid : t.Valid g.known := h.wired.stack t (hg ▸ mem_cons_self)
    obtain ⟨n, hn, hcost⟩ := Costs.exec (g := { g with stack := rest }) (o := o) ht hcalls
      (by
        rintro call result rfl
        exact hpeer _ hvalid.1)
      (by
        rintro l status rfl
        exact hpeer _ hvalid)
    simp only [ht, Bool.false_eq_true, if_false, Nat.add_zero] at hsweeps
    have hle := hcost.sweeps
    rw [← hsweeps] at hle
    rcases Nat.lt_or_eq_of_le hle with hlt | heq
    · exact Prod.Lex.left _ _ hlt
    unfold Gateway.Lighter InvImage
    dsimp only
    rw [heq]
    refine Prod.Lex.right _ ?_
    rcases hcost.paid with hlt | ⟨hs, hw⟩
    · exact Prod.Lex.left _ _ hlt
    · rw [hs]
      refine Prod.Lex.right _ ?_
      omega

/-- From every state a gateway reaches, whatever the nodes, the storage and the tables
answer, the callbacks that are under way come to an end. -/
theorem Sound.drains (h : Holds true g) (o : Nat → Oracle) :
    ∃ n, (run Gateway.step g ((List.range n).map fun i => (o i, .run))).stack = [] := by
  induction g using Gateway.wellFounded_lighter.induction generalizing o with
  | _ g ih =>
    cases hg : g.stack with
    | nil => exact ⟨0, hg⟩
    | cons t rest =>
      have hstep : g.step (o 0, .run) = Gateway.exec (o 0) { g with stack := rest } t := by
        unfold Gateway.step
        dsimp only
        rw [hg]
      obtain ⟨n, hn⟩ := ih _ (h.lighter hg (o 0)) (hstep ▸ h.step (by simp)) fun i => o (i + 1)
      refine ⟨n + 1, ?_⟩
      rw [range_succ_eq_map, map_cons, map_map, run_cons, hstep]
      exact hn

end Fsnet.ClientGateway
