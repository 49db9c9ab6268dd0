import Fsnet.Node.Handshake
/-!
# Mutual authentication

For every interleaving of any number of sessions and everything an attacker without the
token can do: whoever is authenticated has a partner of its own, of the other role, that
agrees on both nonces, and nothing of the application passes before that.
-/

namespace Fsnet.Node

open Lib List

variable {P : Bool → Block → Block → Prop} {s s' : Session} {nonce : Nat}

/-! ## Steps of a session -/

/-- What a session did stays, and the nonce it draws is the one it is given. -/
structure Moves (nonce : Nat) (s s' : Session) : Prop where
  keeps : ∀ {e}, e ∈ s.log → e ∈ s'.log
  drew : s'.drew = s.drew ∨ s'.drew = some nonce
  unproved : Unproved s → Unproved s'

theorem Quiet.moves (h : Quiet s s') (nonce : Nat) : Moves nonce s s' := ⟨h.keeps, .inl h.drew, h.unproved⟩

namespace Quiet

theorem sent (s : Session) (error : Bool) : Quiet s (s.sent error) := by
  unfold Session.sent
  split
  · exact refl s
  split
  · exact refl s
  split
  · exact close s
  dsimp only
  split
  · exact (queue s _ s.output _ none).trans (write _)
  · exact (queue s _ _ s.authenticationOutput none).trans (write _)

theorem reply (s : Session) (call : Nat) (status : Status) (data : Data) : Quiet s (s.reply call status data) := by
  unfold Session.reply
  split
  · exact refl s
  · have hleft : Quiet s { s with inflight := s.inflight.erase call } := { refl s with }
    exact hleft.trans (respond _ _ _)

theorem dispatch (o : Answers) (s : Session) (f : Frame) : Quiet s (s.dispatch o f) := by
  have hd : Quiet s (s.record (.dispatched f)) := (refl s).recorded fun r a b heq => nomatch heq
  exact Session.dispatch_keeps (refl s) hd (fun t ht => ht.trans (close t))
    (fun t _ ht => ht.trans (respond t _ _)) fun _ _ ht => { ht with }

end Quiet

theorem close_closed (s : Session) : s.close.closed = true := by
  unfold Session.close
  split
  · assumption
  · rfl

namespace Moves

/-- A session that is closed, or past its proof, may have proved itself. -/
theorem of_past (hkeeps : ∀ {e}, e ∈ s.log → e ∈ s'.log) (hdrew : s'.drew = s.drew ∨ s'.drew = some nonce)
    (hpast : s'.closed = true ∨ s'.authentication = .serverProof ∨ s'.authentication = .complete) :
    Moves nonce s s' := by
  refine ⟨hkeeps, hdrew, fun _ hopen hearly => ?_⟩
  rcases hpast with hc | hp | hp
  · rw [hopen] at hc
    cases hc
  · simp [hp] at hearly
  · simp [hp] at hearly

theorem authenticate (hkeeps : ∀ {e}, e ∈ s.log → e ∈ s'.log)
    (hdrew : s'.drew = s.drew ∨ s'.drew = some nonce) : Moves nonce s s'.authenticate.write := by
  have hw := Quiet.write s'.authenticate
  refine of_past (fun he => hw.keeps (mem_cons_of_mem _ (hkeeps he))) ?_ (.inr (.inr hw.authentication))
  rw [hw.drew]
  exact hdrew

variable (o : Answers) (s : Session) (nonce : Nat) (data : Data)

theorem ready (random : Bool) : Moves nonce s (s.ready nonce random) := by
  unfold Session.ready
  split
  · exact (Quiet.refl s).moves nonce
  dsimp only
  split
  · split
    · -- the challenge is queued after the nonce was drawn
      have hdrawn : ∀ {t : Session}, Quiet (s.challenging nonce) t → Moves nonce s t := fun ht =>
        ⟨fun he => ht.keeps he, .inr ht.drew, fun hu => ht.unproved hu⟩
      split
      · exact hdrawn ((Quiet.enqueue _ _ _).trans (Quiet.write _))
      · exact hdrawn ((Quiet.enqueue _ _ _).trans (Quiet.close _))
    · have hclose := Quiet.close { s with active := true }
      exact ⟨fun he => hclose.keeps he, .inl hclose.drew, fun hu => hclose.unproved hu⟩
  · have hwrite := Quiet.write { s with active := true }
    exact ⟨fun he => hwrite.keeps he, .inl hwrite.drew, fun hu => hwrite.unproved hu⟩

theorem answerChallenge :
    Moves nonce s (s.answerChallenge o nonce data) := by
  have hclose : ∀ a b drew, (drew = s.drew ∨ drew = some nonce) →
      Moves nonce s (Session.close { s with serverNonce := a, clientNonce := b, drew }) := by
    intro a b drew hdrew
    have hq := Quiet.close { s with serverNonce := a, clientNonce := b, drew }
    refine of_past (fun he => hq.keeps he) ?_ (.inl (close_closed _))
    rw [hq.drew]
    exact hdrew
  unfold Session.answerChallenge
  split
  · exact (Quiet.close s).moves nonce
  dsimp only
  split
  · split
    · have hq := Quiet.respond (s.responding data nonce)
        (frame 0 .ok 0 [] (.blocks 2 [.random nonce, .mac false (data.block 0) (.random nonce)])) true
      exact of_past (fun he => hq.keeps (mem_cons_of_mem _ he)) (.inr hq.drew)
        (.inr (.inl hq.authentication))
    · exact hclose _ _ _ (.inr rfl)
  · exact hclose _ _ _ (.inl rfl)

theorem checkClient : Moves nonce s (s.checkClient o data) := by
  unfold Session.checkClient
  split
  · exact (Quiet.close s).moves nonce
  dsimp only
  split
  · have hq := Quiet.enqueue (s.accepting data)
      (proofFrame s.serverNonce (data.block 0)) true
    have hkeeps : ∀ {e}, e ∈ s.log → e ∈ _ := fun he =>
      hq.keeps (mem_cons_of_mem _ (mem_cons_of_mem _ he))
    split
    · exact authenticate hkeeps (.inl hq.drew)
    · have hc := hq.trans (Quiet.close _)
      exact of_past (fun he => (Quiet.close _).keeps (hkeeps he)) (.inl hc.drew) (.inl (close_closed _))
  · have hc := Quiet.close { s with clientNonce := data.block 0 }
    exact of_past (fun he => hc.keeps he) (.inl hc.drew) (.inl (close_closed _))

theorem checkServer : Moves nonce s (s.checkServer o data) := by
  unfold Session.checkServer
  split
  · exact (Quiet.close s).moves nonce
  · split
    · exact authenticate id (.inl rfl)
    · exact (Quiet.close s).moves nonce

theorem receive (f : Frame) : Moves nonce s (s.receive o nonce f) := by
  refine Session.receive_keeps ((Quiet.refl s).moves nonce) ((Quiet.close s).moves nonce)
    (fun _ => (Quiet.dispatch o s f).moves nonce) fun _ _ => ?_
  cases s.authentication with
  | challenge => exact answerChallenge o s nonce f.data
  | clientProof => exact checkClient o s nonce f.data
  | serverProof => exact checkServer o s nonce f.data
  | complete => trivial

end Moves

/-! ## Steps of the network -/

/-- Some session made the proof. -/
def Proven (n : Network) (r : Bool) (a b : Block) : Prop := ∃ t ∈ n.sessions, .proved r a b ∈ t.log

structure Sound (n : Network) : Prop where
  sessions : ∀ s ∈ n.sessions, Holds (Proven n) s ∧ Unproved s
  nonces : ∀ s ∈ n.sessions, ∀ k, s.drew = some k → k < n.nonces
  distinct : ∀ {i j : Nat} {s t k}, n.sessions[i]? = some s → n.sessions[j]? = some t → s.drew = some k →
    t.drew = some k →
    i = j

variable {n : Network}

theorem Holds.mono {Q : Bool → Block → Block → Prop} (h : Holds P s) (hP : ∀ r a b, P r a b → Q r a b) : Holds Q s :=
  { h with
    output := fun f hf => ⟨(h.output f hf).1, fun r a b hm => hP r a b ((h.output f hf).2 r a b hm)⟩
    handshake := fun f hf => ⟨(h.handshake f hf).1, fun r a b hm => hP r a b ((h.handshake f hf).2 r a b hm)⟩
    wrote := fun f hf r a b hm => hP r a b (h.wrote f hf r a b hm)
    proved := fun r a b he =>
      have hp := h.proved r a b he
      ⟨hp.1, hp.2.1, hp.2.2.1, hP r a b hp.2.2.2⟩
    trusts := fun ha => hP _ _ _ (h.trusts ha) }

namespace Sound

/-- What the attacker delivers carries only proofs that were made. -/
theorem carries (h : Sound n) {d : Data} (hd : n.producible d = true) (r : Bool) (a b : Block)
    (hmem : .mac r a b ∈ d.content) : Proven n r a b := by
  unfold Network.producible at hd
  have hwrote := all_eq_true.1 hd _ hmem
  simp only [Block.isMac, Bool.not_true, Bool.false_or, Network.wrote, any_eq_true] at hwrote
  obtain ⟨s, hs, e, he, hshows⟩ := hwrote
  cases e with
  | wrote f =>
    simp only [Event.shows, contains_iff_mem] at hshows
    exact (h.sessions s hs).1.wrote f he r a b hshows
  | _ => cases hshows

/-- One session moves. -/
theorem act (h : Sound n) (i : Nat) {f : Session → Session} {count : Nat} (hcount : n.nonces ≤ count)
    (hmoves : ∀ s, Moves n.nonces s (f s)) (hdraws : ∀ s, (f s).drew = s.drew ∨ n.nonces < count)
    (hholds : ∀ s P, (∀ r a b, Proven n r a b → P r a b) → Holds P s → Unproved s →
      (∀ r a b, .proved r a b ∈ (f s).log → P r a b) → Holds P (f s)) :
    Sound { n.act i f with nonces := count } := by
  unfold Network.act
  split
  · exact { h with
      nonces := fun s hs k hk => Nat.lt_of_lt_of_le (h.nonces s hs k hk) hcount
      distinct := h.distinct }
  rename_i s hs
  have hmem : s ∈ n.sessions := mem_of_getElem? hs
  have hmove := hmoves s
  have hset : f s ∈ n.sessions.set i (f s) := by
    refine mem_set ?_ _
    exact (List.getElem?_eq_some_iff.1 hs).1
  have hproven : ∀ r a b, Proven n r a b →
      Proven { n with sessions := n.sessions.set i (f s), nonces := count } r a b := by
    rintro r a b ⟨t, ht, he⟩
    obtain ⟨j, hj⟩ := mem_iff_getElem?.1 ht
    by_cases hij : i = j
    · subst hij
      rw [hs] at hj
      cases hj
      exact ⟨f s, hset, hmove.keeps he⟩
    · refine ⟨t, mem_of_getElem? (i := j) ?_, he⟩
      rw [getElem?_set_ne hij]
      exact hj
  have hdrew : ∀ k, (f s).drew = some k → k < count ∧ (s.drew = some k ∨ k = n.nonces) := by
    intro k hk
    rcases hmove.drew with heq | heq
    · rw [heq] at hk
      exact ⟨Nat.lt_of_lt_of_le (h.nonces s hmem k hk) hcount, .inl hk⟩
    rcases hdraws s with hsame | hless
    · rw [hsame] at hk
      exact ⟨Nat.lt_of_lt_of_le (h.nonces s hmem k hk) hcount, .inl hk⟩
    · rw [hk] at heq
      cases heq
      exact ⟨hless, .inr rfl⟩
  refine ⟨?_, ?_, ?_⟩
  · intro t ht
    rcases mem_or_eq_of_mem_set ht with ht | rfl
    · exact ⟨(h.sessions t ht).1.mono hproven, (h.sessions t ht).2⟩
    · refine ⟨hholds s _ hproven ((h.sessions s hmem).1.mono hproven) (h.sessions s hmem).2 ?_, ?_⟩
      · exact fun r a b he => ⟨f s, hset, he⟩
      · exact hmove.unproved (h.sessions s hmem).2
  · intro t ht k hk
    rcases mem_or_eq_of_mem_set ht with ht | rfl
    · exact Nat.lt_of_lt_of_le (h.nonces t ht k hk) hcount
    · exact (hdrew k hk).1
  · -- the nonce a session draws was drawn by no other
    have hother : ∀ {j : Nat} {t k}, i ≠ j → n.sessions[j]? = some t → t.drew = some k → (f s).drew ≠ some k := by
      intro j t k hij hj ht hk
      rcases (hdrew k hk).2 with hk | rfl
      · exact hij (h.distinct hs hj hk ht)
      · exact Nat.lt_irrefl _ (h.nonces t (mem_of_getElem? hj) _ ht)
    intro j j' t t' k hj hj' hk hk'
    by_contra hne
    by_cases hij : i = j
    · subst hij
      have hj' : n.sessions[j']? = some t' := by rwa [getElem?_set_ne hne] at hj'
      rw [getElem?_set_self (List.getElem?_eq_some_iff.1 hs).1] at hj
      cases hj
      exact hother hne hj' hk' hk
    have hj : n.sessions[j]? = some t := by rwa [getElem?_set_ne hij] at hj
    by_cases hij' : i = j'
    · subst hij'
      rw [getElem?_set_self (List.getElem?_eq_some_iff.1 hs).1] at hj'
      cases hj'
      exact hother hij hj hk hk'
    · rw [getElem?_set_ne hij'] at hj'
      exact hne (h.distinct hj hj' hk hk')

theorem actQuiet (h : Sound n) (i : Nat) {f : Session → Session} (hquiet : ∀ s, Quiet s (f s))
    (hholds : ∀ s P, (∀ r a b, Proven n r a b → P r a b) → Holds P s → Holds P (f s)) : Sound (n.act i f) := by
  have hact : Sound { n.act i f with nonces := n.nonces } :=
    h.act i (Nat.le_refl _) (fun s => (hquiet s).moves _) (fun s => .inl (hquiet s).drew)
      fun s P hP hs _ _ => hholds s P hP hs
  have hsame : (n.act i f).nonces = n.nonces := by
    unfold Network.act
    split <;> rfl
  rwa [← hsame] at hact

/-- A new session has done nothing. -/
theorem enter (h : Sound n) {s : Session} (hlog : s.log = []) (hdrew : s.drew = none)
    (hs : ∀ P, Holds P s) : Sound { n with sessions := n.sessions ++ [s] } := by
  have hproven : ∀ r a b, Proven n r a b → Proven { n with sessions := n.sessions ++ [s] } r a b := by
    rintro r a b ⟨t, ht, he⟩
    exact ⟨t, mem_append_left _ ht, he⟩
  refine ⟨?_, ?_, ?_⟩
  · intro t ht
    rcases mem_append.1 ht with ht | ht
    · exact ⟨(h.sessions t ht).1.mono hproven, (h.sessions t ht).2⟩
    · rw [mem_singleton.1 ht]
      exact ⟨hs _, fun _ _ r a b he => by simp [hlog] at he⟩
  · intro t ht k hk
    rcases mem_append.1 ht with ht | ht
    · exact h.nonces t ht k hk
    · rw [mem_singleton.1 ht, hdrew] at hk
      cases hk
  · have hold : ∀ {j : Nat} {t : Session} {k}, (n.sessions ++ [s])[j]? = some t → t.drew = some k →
        n.sessions[j]? = some t := by
      intro j t k hj hk
      rw [getElem?_append] at hj
      split at hj
      · exact hj
      · have hmem := mem_of_getElem? hj
        rw [mem_singleton.1 hmem, hdrew] at hk
        cases hk
    intro i j t _ k hi hj hk hk'
    exact h.distinct (hold hi hk) (hold hj hk') hk hk'

theorem step (h : Sound n) (a : Action) : Sound (n.step a) := by
  have hcall : ∀ {kind status id route} {d : Data}, n.producible d = true → kind ≠ 0 → ∀ i,
      Sound (n.act i fun s => (s.enqueue (frame kind status id route d) false).1) := by
    intro kind status id route d hd hkind i
    refine h.actQuiet i (fun s => Quiet.enqueue _ _ _) fun s P hP hs => hs.enqueue ?_ ?_
    · exact fun r a b hmem => hP r a b (h.carries hd r a b hmem)
    · exact decide_eq_true hkind
  cases a with
  | accept | connect =>
    refine h.enter rfl rfl fun P => ?_
    constructor <;> simp [Guarded]
  | ready i random =>
    refine h.act i (Nat.le_succ _) (fun s => ?_) (fun s => .inr (Nat.lt_succ_self _)) ?_
    · dsimp only
      split
      · exact (Quiet.refl s).moves _
      · exact Moves.ready s _ random
    · intro s P _ hs hu _
      dsimp only
      split
      · exact hs
      · rename_i hactive
        exact hs.ready hu (by simpa using hactive) _ random
  | deliver i f o =>
    dsimp only [Network.step]
    split
    · rename_i hd
      refine h.act i (Nat.le_succ _) (fun s => Moves.receive o s _ f) (fun s => .inr (Nat.lt_succ_self _)) ?_
      intro s P hP hs hu hnew
      exact hs.receive hu o _ (fun r a b hmem => hP r a b (h.carries hd r a b hmem)) hnew
    · exact h
  | sent i error => exact h.actQuiet i (fun s => Quiet.sent s error) fun s P _ hs => hs.sent error
  | call i | notify i =>
    dsimp only [Network.step]
    split
    · rename_i hd
      exact hcall hd (by simp) i
    · exact h
  | reply i call status data =>
    dsimp only [Network.step]
    split
    · rename_i hd
      refine h.actQuiet i (fun s => Quiet.reply s call status data) fun s P hP hs => hs.reply call status ?_
      exact fun r a b hmem => hP r a b (h.carries hd r a b hmem)
    · exact h
  | close i => exact h.actQuiet i Quiet.close fun s P _ hs => hs.close

end Sound

/-! ## Agreement -/

/-- Every authenticated session of the role has a partner of its own: a session of the
other role that did this for both nonces of it. -/
def Agrees (n : Network) (server : Bool) (did : Block → Block → Event) : Prop :=
  ∃ partner : Nat → Nat,
    (∀ i s, n.sessions[i]? = some s → s.server = server → s.authenticated = true →
      ∃ t, n.sessions[partner i]? = some t ∧ t.server = !server ∧ did s.serverNonce s.clientNonce ∈ t.log) ∧
    ∀ i j s t, n.sessions[i]? = some s → n.sessions[j]? = some t → s.server = server → t.server = server →
      s.authenticated = true → t.authenticated = true → partner i = partner j → i = j

structure Authentic (n : Network) : Prop where
  /-- the partner of a server made the proof of a client for the same nonces -/
  servers : Agrees n true (.proved false)
  /-- the partner of a client is a server that accepted the same nonces -/
  clients : Agrees n false .accepted
  /-- a proof that is seen anywhere was made by a session of the role in it -/
  origins : ∀ s ∈ n.sessions, ∀ f, .wrote f ∈ s.log → ∀ r a b, .mac r a b ∈ f.data.content →
    ∃ t ∈ n.sessions, t.server = r ∧ .proved r a b ∈ t.log
  /-- nothing of the application passes before, and the proof of a server goes first -/
  guarded : ∀ s ∈ n.sessions, Guarded s.server s.log

namespace Sound

/-- A session made its proof for its own nonces. -/
theorem eq_of_proved (h : Sound n) {t : Session} (ht : t ∈ n.sessions) {r : Bool} {a b : Block}
    (he : .proved r a b ∈ t.log) :
    r = t.server ∧ a = t.serverNonce ∧ b = t.clientNonce :=
  have hp := (h.sessions t ht).1.proved r a b he
  ⟨hp.1, hp.2.1, hp.2.2.1⟩

/-- Two authenticated sessions of a role with the same nonces are one. -/
theorem index_eq (h : Sound n) {i j : Nat} {s t : Session} (hi : n.sessions[i]? = some s) (hj : n.sessions[j]? = some t)
    (hrole : s.server = t.server) (hs : s.authenticated = true) (ht : t.authenticated = true)
    (hserver : s.serverNonce = t.serverNonce) (hclient : s.clientNonce = t.clientNonce) : i = j := by
  have hsound := (h.sessions s (mem_of_getElem? hi)).1
  have htound := (h.sessions t (mem_of_getElem? hj)).1
  obtain ⟨k, hk, hown⟩ := hsound.drew _ _ _ (hsound.proves (.inr hs))
  obtain ⟨_, hk', hown'⟩ := htound.drew _ _ _ (htound.proves (.inr ht))
  rw [hrole, hserver, hclient, hown'] at hown
  cases hown
  exact h.distinct hi hj hk hk'

/-- Both roles agree, for what a session of the other role did when it made its proof. -/
theorem agrees (h : Sound n) (server : Bool) {did : Block → Block → Event}
    (hdid : ∀ t ∈ n.sessions, ∀ a b, .proved (!server) a b ∈ t.log → did a b ∈ t.log) : Agrees n server did := by
  have hpartner : ∀ i : Nat, ∃ j : Nat, ∀ s, n.sessions[i]? = some s → s.server = server → s.authenticated = true →
      ∃ t, n.sessions[j]? = some t ∧ .proved (!server) s.serverNonce s.clientNonce ∈ t.log := by
    intro i
    by_cases hi : ∃ s, n.sessions[i]? = some s ∧ s.server = server ∧ s.authenticated = true
    · obtain ⟨s, hs, hrole, ha⟩ := hi
      obtain ⟨t, ht, he⟩ := (h.sessions s (mem_of_getElem? hs)).1.trusts ha
      obtain ⟨j, hj⟩ := mem_iff_getElem?.1 ht
      refine ⟨j, fun _ hs' _ _ => ⟨t, hj, ?_⟩⟩
      rw [hs] at hs'
      cases hs'
      exact hrole ▸ he
    · exact ⟨0, fun s hs hrole ha => absurd ⟨s, hs, hrole, ha⟩ hi⟩
  choose partner hp using hpartner
  refine ⟨partner, ?_, ?_⟩
  · intro i s hs hrole ha
    obtain ⟨t, ht, he⟩ := hp i s hs hrole ha
    have hmem := mem_of_getElem? ht
    exact ⟨t, ht, (h.eq_of_proved hmem he).1.symm, hdid t hmem _ _ he⟩
  · intro i j s t hi hj hs ht has hat heq
    obtain ⟨u, hu, hes⟩ := hp i s hi hs has
    obtain ⟨_, hu', het⟩ := hp j t hj ht hat
    rw [heq, hu'] at hu
    cases hu
    have hmem := mem_of_getElem? hu'
    obtain ⟨-, ha, hb⟩ := h.eq_of_proved hmem hes
    obtain ⟨-, ha', hb'⟩ := h.eq_of_proved hmem het
    exact h.index_eq hi hj (hs.trans ht.symm) has hat (ha.trans ha'.symm) (hb.trans hb'.symm)

theorem authentic (h : Sound n) : Authentic n where
  servers := h.agrees true fun _ _ _ _ he => he
  clients := h.agrees false fun t ht a b he => (h.sessions t ht).1.accepted a b he
  origins s hs f hf r a b hmem := by
    obtain ⟨t, ht, he⟩ := (h.sessions s hs).1.wrote f hf r a b hmem
    exact ⟨t, ht, (h.eq_of_proved ht he).1.symm, he⟩
  guarded s hs := (h.sessions s hs).1.guarded

end Sound

/-- Whatever the attacker and the applications do, sessions are authenticated only in
agreement; and what an HMAC is computed from tells the roles and the nonces apart. -/
theorem node_authentication (actions : List Action) :
    Authentic (run Network.step {} actions) ∧
      Function.Injective fun p : Bool × Nonce × Nonce => transcript p.1 p.2.1 p.2.2 := by
  have hinit : Sound {} := ⟨by simp, by simp, by simp⟩
  exact ⟨(run_inv (fun _ a h => h.step a) hinit actions).authentic, transcript_injective⟩

/-- A client and a server whose frames the attacker passes on are both authenticated. -/
example : (run Network.step {} [.accept {}, .connect {}, .ready 0 true, .ready 1 true,
    .deliver 1 (frame 0 .ok 0 [] (.blocks 1 [.random 0])) {},
    .deliver 0 (frame 0 .ok 0 [] (.blocks 2 [.random 2, .mac false (.random 0) (.random 2)])) {},
    .sent 0 false, .deliver 1 (proofFrame (.random 0) (.random 2)) {}]).sessions.map Session.authenticated =
      [true, true] := by
  decide +kernel

end Fsnet.Node
