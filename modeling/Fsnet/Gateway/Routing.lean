import Fsnet.Gateway.Admission
/-!
# Lookups and links keep the invariant

From the entity a purpose names to the link it is served over. Every link is
opened for the client of the purpose that asked for it, and only purposes of that
client wait for it.
-/

namespace Fsnet.ClientGateway

open Lib List Function

variable {mixed : Bool} {x y z : Option Nat} {g : Gateway} {p : Purpose} {s : Subscription} {o : Oracle}
  {index : Nat} {status : Status} {type entity : Bytes} {location : Option Bytes} {failed : Bool}

/-! ## Links -/

/-- A new link of a client, with nothing waiting for it yet. -/
theorem Sound.newLink (h : Sound mixed x y z g) (client index : Nat) (peers : Nat → PeerState) :
    Sound mixed x y z { g with
      peerSerial := g.peerSerial + 1
      opened := ⟨g.peerSerial + 1, client, index⟩ :: g.opened
      links := g.links.insert (g.peerSerial + 1) ⟨g.peerSerial + 1, client, index⟩
      peers
      linkStates := update g.linkStates (g.peerSerial + 1) { opening := true } } := by
  let l : Link := ⟨g.peerSerial + 1, client, index⟩
  have hne : ∀ l' ∈ g.opened, l'.peer ≠ l.peer := by
    intro l' hl' heq
    have := h.numbered.peers_le l' hl'
    have heq : l'.peer = g.peerSerial + 1 := heq
    omega
  have hle : g.known.Le ⟨(· ∈ g.admitted), (· ∈ g.created), g.Started, (· ∈ l :: g.opened), g.stopped = true⟩ :=
    ⟨id, id, id, mem_cons_of_mem _, id⟩
  refine ⟨{ h.numbered with peers := ?_, peers_le := ?_ }, { h.wired.mono hle with links := ?_, waiters := ?_ },
    { h.streams with }, { h.controls with }, { h.serves with }, h.watches⟩
  · refine nodup_cons.2 ⟨fun hm => ?_, h.numbered.peers⟩
    obtain ⟨l', hl', heq⟩ := mem_map.1 hm
    exact hne l' hl' heq
  · refine forall_mem_cons.2 ⟨le_refl _, fun l' hl' => ?_⟩
    exact (h.numbered.peers_le l' hl').trans (Nat.le_succ _)
  · intro peer l' hf
    rcases OrdMap.find_of_insert hf with ⟨rfl, rfl⟩ | ⟨-, hf⟩
    · exact ⟨rfl, mem_cons_self⟩
    · exact ⟨(h.wired.links hf).1, mem_cons_of_mem _ (h.wired.links hf).2⟩
  · intro l' id q hl' hq
    rcases mem_cons.1 hl' with rfl | hl'
    · have hq : (update g.linkStates l.peer { opening := true } l.peer).waiters.find id = some q := hq
      rw [update_self] at hq
      cases hq
    · have hq : (update g.linkStates l.peer { opening := true } l'.peer).waiters.find id = some q := hq
      rw [update_of_ne (hne l' hl')] at hq
      exact ⟨(h.wired.waiters hl' hq).1.mono hle, (h.wired.waiters hl' hq).2⟩

namespace Sound

theorem openLink (h : Holds mixed g) {session : Session} (hf : g.sessions.find p.client = some session)
    (hp : p.Valid g.known) : Holds mixed (g.openLink o session index p) := by
  unfold Gateway.openLink
  split
  · exact h.push_one ⟨hp, by simp⟩ rfl
  split
  · exact h.push_one ⟨hp, by simp⟩ rfl
  let l : Link := ⟨g.peerSerial + 1, p.client, index⟩
  have hle : g.known.Le ⟨(· ∈ g.admitted), (· ∈ g.created), g.Started, (· ∈ l :: g.opened), g.stopped = true⟩ :=
    ⟨id, id, id, mem_cons_of_mem _, id⟩
  have hlinks : ∀ {index' l'}, (session.links.insert index l).find index' = some l' →
      l' ∈ l :: g.opened ∧ l'.client = p.client := by
    intro index' l' hl
    rcases OrdMap.find_of_insert hl with ⟨-, rfl⟩ | ⟨-, hl⟩
    · exact ⟨mem_cons_self, rfl⟩
    · exact hle.linkOf (h.wired.sessionLinks hf hl)
  have hnew := h.newLink p.client index (update g.peers l.peer .connecting)
  have hwait := (hnew.setSessionLinks hf hlinks).waitLink (hp.mono hle) ⟨mem_cons_self, rfl⟩
  refine hwait.call ?_ trivial (by simp)
  cases p <;> exact mem_cons_self

/-- `acquire`: the purpose gets a link of its client. -/
theorem acquire (h : Holds mixed g) (hp : p.Valid g.known) : Holds mixed (g.acquire o index p) := by
  unfold Gateway.acquire
  split
  · exact h.push_one ⟨hp, by simp⟩ rfl
  rename_i hf
  split
  · have hpushed : Holds mixed (g.push [.linked p (.error .disconnected)]) := h.push_one ⟨hp, by simp⟩ rfl
    exact hpushed.revoke
  split
  · exact h.openLink hf hp
  rename_i hl
  have hlink := h.wired.sessionLinks hf hl
  split
  · exact h.push_one ⟨hp, hlink⟩ rfl
  split
  · exact h.waitLink hp hlink
  · exact h.openLink hf hp

section

variable (h : Sound mixed x y z g)
include h

/-! ## Subscriptions that move -/

theorem startMigrating (hs : s ∈ g.created) : Sound mixed x y z (g.startMigrating s) := by
  unfold Gateway.startMigrating
  split
  · exact h
  · exact h.setQuiet hs fun _ => ⟨rfl, rfl, .inl, rfl, rfl⟩

theorem retryMigration (hs : s ∈ g.created) : Sound mixed x y z (g.retryMigration s) := by
  unfold Gateway.retryMigration
  exact h.setQuiet hs fun _ => ⟨rfl, rfl, .inl, rfl, rfl⟩

theorem expireRoute : Sound mixed x y z (g.expireRoute s) := by
  unfold Gateway.expireRoute
  split
  · exact h
  · rename_i hl
    exact h.setLookup fun hp => h.wired.lookups hl hp

theorem idle (hs : s ∈ g.created) (hst : g.Started s) : Sound mixed x y z (g.idle s) := by
  unfold Gateway.idle
  exact h.setQuiet hs fun _ => ⟨rfl, rfl, fun _ => .inr hst, rfl, rfl⟩

end

end Sound

/-- A purpose stays valid when a subscription waits for nothing. -/
theorem Purpose.Valid.detach (h : p.Valid g.known) (s : Subscription) : p.Valid (g.detachWaiters s).known := by
  obtain ⟨_, _, _, heq⟩ := detachWaiters_eq g s
  rw [heq]
  exact h

theorem known_startMigrating (g : Gateway) (s : Subscription) : (g.startMigrating s).known = g.known := by
  unfold Gateway.startMigrating
  split <;> rfl

/-! ## Lookups -/

namespace Sound

/-- A watch that cannot be served ends with its subscription. -/
theorem failWatch {r : Request} (h : Holds mixed g) (hp : (Purpose.watch r s).Valid g.known) (hs : status ≠ .ok) :
    Holds mixed ((g.remove o s status false).finish o r ⟨status, []⟩ none) := by
  refine Sound.finishFailed (h.remove hp.2.2 .none .none) ?_ hs (by simp)
  rw [(kept_remove o g s status false).1]
  exact hp.1

theorem selected (h : Holds mixed g) (hp : p.Valid g.known) {result : Except (Status × Bool) Nat}
    (hs : ∀ status found, result = .error (status, found) → status ≠ .ok) :
    Holds mixed (g.selected o p result) := by
  unfold Gateway.selected
  split
  -- a call
  · rename_i status found
    split
    · exact h
    · exact h.finishFailed hp.1 (hs status found rfl) (by simp)
  · rename_i r entity index
    split
    · exact h
    · split
      · exact h.acquire hp
      · exact h.finishFailed hp.1 (by simp) (by simp)
  -- a presentation
  · rename_i status found
    split
    · exact h
    · split
      · exact h.setRequest hp.1 (fun _ => rfl) (.inl hp.2)
      · exact h.finishFailed hp.1 (hs status found rfl) (by simp)
  · rename_i r type entity index
    split
    · exact h
    · exact h.acquire hp
  -- a watch
  · rename_i status found
    split
    · exact h
    · exact h.failWatch hp (hs status found rfl)
  · rename_i r s index
    split
    · exact h
    · exact h.acquire hp
  -- a subscription that moves
  · rename_i s _ _
    split
    · have hp' := hp.detach s
      have hidle := (h.detachWaiters hp.1).idle hp'.1 hp'.2
      dsimp only
      split
      · exact hidle.remove hp'.1 .none .none
      · refine (hidle.startMigrating hp'.1).retryMigration ?_
        have hknown := known_startMigrating ((g.detachWaiters s).idle s) s
        exact (congrArg (fun k => k.subscription s) hknown).mpr hp'.1
    · exact h
  · rename_i s _
    split
    · have hdetached := h.detachWaiters hp.1
      have hp' := hp.detach s
      dsimp only
      split
      · exact hdetached.idle hp'.1 hp'.2
      · refine (hdetached.startMigrating hp'.1).acquire ?_
        rw [known_startMigrating]
        exact hp'
    · exact h

theorem resolve (h : Sound mixed x y z g) (hp : p.Valid g.known) : Sound mixed x y z (g.resolve p type) := by
  unfold Gateway.resolve
  cases p with
  | routed | present => exact h.setRequest hp.1 (fun _ => rfl) (.inl hp.2)
  | watch => exact h.setRequest hp.1 (fun _ => rfl) (.inr fun _ => .inl rfl)
  | refresh => exact h

theorem located (h : Holds mixed g) (hp : p.Valid g.known) : Holds mixed (g.located o p status location) := by
  have hresolved : ∀ type, p.Valid (g.resolve p type).known := by
    intro type
    cases p <;> exact hp
  unfold Gateway.located
  split
  · exact h.selected hp (by simp)
  split
  · rename_i hstatus
    refine h.selected hp ?_
    rintro status' found heq
    cases heq
    exact hstatus
  split
  · exact h.selected hp (by simp)
  rename_i type
  split
  · exact h.selected hp (by simp)
  split <;> exact (h.resolve hp).selected (hresolved type) (by simp)

/-- All who wait for a lookup get its outcome. -/
theorem lookedUp (h : Sound mixed x y z g) : Sound mixed x y z (g.lookedUp entity failed location) := by
  unfold Gateway.lookedUp
  split
  · exact h
  rename_i lookup hl
  have hwaiting : ∀ p ∈ lookup.waiters.entries.map Prod.snd, p.Valid g.known := by
    intro p hm
    obtain ⟨e, he, rfl⟩ := mem_map.1 hm
    exact h.wired.lookups hl ((lookup.waiters.mem_entries_iff e.1 e.2).1 he)
  split
  · dsimp only
    split <;> exact Sound.push_map (h.setLookup fun hp => by cases hp) hwaiting fun _ _ => rfl
  · exact h

theorem lookUp (h : Sound mixed x y z g) (hp : p.Valid g.known) : Sound mixed x y z (g.lookUp o p) := by
  unfold Gateway.lookUp
  split
  · exact h.push_one hp rfl
  have hwait : Sound mixed x y z (g.waitLookup p { busy := true }) := h.waitLookup hp fun hq => by cases hq
  dsimp only
  split
  · exact hwait
  · exact hwait.lookedUp

/-- `select`. -/
theorem select (h : Holds mixed g) (hp : p.Valid g.known) : Holds mixed (g.select o p) := by
  unfold Gateway.select
  split
  · exact h.selected hp (by simp)
  split
  · exact h.lookUp hp
  rename_i hl
  split
  · exact h.waitLookup hp fun hq => h.wired.lookups hl hq
  split
  · exact h.push_one hp rfl
  · exact h.lookUp hp

/-- `refresh`: a subscription that waits for nothing was started. -/
theorem refresh (h : Holds mixed g) (hs : g.registered s) : Holds mixed (g.refresh o s) := by
  unfold Gateway.refresh
  split
  · exact h
  rename_i hb
  have hst : g.Started s := h.streams.started hs (by simp) (.inl (Bool.eq_false_of_not_eq_true hb))
  have hvalid := Purpose.Valid.detach (p := .refresh s) ⟨h.created hs, hst⟩ s
  have hbusy : Holds mixed ((g.detachWaiters s).setSubscription s fun t =>
      { t with busy := true, next := (g.detachWaiters s).now + (g.detachWaiters s).limits.refresh }) :=
    (h.detachWaiters (h.created hs)).setQuiet hvalid.1 fun _ => ⟨rfl, rfl, by simp, rfl, rfl⟩
  exact hbusy.select hvalid

theorem linked (h : Holds mixed g) {result : Except Status Link} (hv : Task.Valid g.known (.linked p result)) :
    Holds mixed (g.linked o p result) := by
  unfold Gateway.linked
  split
  · split
    · exact h
    · exact h.finishFailed hv.1.1 hv.2 (by simp)
  · split
    · exact h
    · exact h.call hv.2.1 ⟨hv.1.1, hv.1.2, hv.2.2.symm⟩ (by simp)
  · split
    · exact h
    · exact h.finishFailed hv.1.1 hv.2 (by simp)
  · split
    · exact h
    · exact h.call hv.2.1 ⟨hv.1.1, hv.1.2, hv.2.2.symm⟩ (by simp)
  · split
    · exact h
    · exact h.failWatch hv.1 hv.2
  · split
    · exact h
    · exact h.call hv.2.1 ⟨hv.1.1, hv.1.2.1, hv.1.2.2, hv.2.2.symm⟩ (by simp)
  · rename_i s _
    split
    · have hp' := hv.1.detach s
      exact ((h.detachWaiters hv.1.1).idle hp'.1 hp'.2).retryMigration hp'.1
    · exact h
  · rename_i s l
    split
    · have hdetached := h.detachWaiters hv.1.1
      have hvalid : (Purpose.refresh s).Valid (g.detachWaiters s).known ∧
          (g.detachWaiters s).known.linkOf s.client l := by
        obtain ⟨_, _, _, heq⟩ := detachWaiters_eq g s
        rw [heq]
        exact hv
      dsimp only
      split
      · refine hdetached.call hvalid.2.1 ⟨hvalid.1.1, hvalid.1.2, hvalid.2.2.symm⟩ (fun _ _ _ _ heq => ?_)
        cases heq
        exact ⟨le_refl _, fun _ => rfl⟩
      · exact hdetached.call hvalid.2.1 ⟨hvalid.1.1, hvalid.1.2, hvalid.2.2.symm⟩ (by simp)
    · exact h

end Sound

end Fsnet.ClientGateway
