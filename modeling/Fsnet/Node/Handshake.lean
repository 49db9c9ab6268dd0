import Fsnet.Node.Network
/-!
# What a session keeps to

The invariant of one session, relative to the proofs `P` that some session made: the
frames it queues and writes carry no other proofs, it is authenticated only by a proof
of the other role for its own nonces, and its frames go out in the order of `Guarded`.
-/

namespace Fsnet.Node

open Lib List

variable {P : Bool → Block → Block → Prop} {s : Session}

/-- Every proof in the frame is one of these. -/
def Carries (P : Bool → Block → Block → Prop) (f : Frame) : Prop := ∀ r a b, .mac r a b ∈ f.data.content → P r a b

/-- Frames without blocks carry nothing. -/
theorem carries_bytes (kind : Nat) (status : Status) (id : Nat) (route data : Bytes) :
    Carries P (frame kind status id route (.bytes data)) := fun _ _ _ hmem => absurd hmem not_mem_nil

/-- The frame with the proof of a server. -/
def proofFrame (a b : Block) : Frame := frame 0 .ok 0 [] (.blocks 3 [.mac true a b])

/-- Nothing of the application is handled or written before the session is
authenticated, and a server writes its proof before anything of the application. -/
def Guarded (server : Bool) : List Event → Prop
  | [] => True
  | .wrote f :: log => Guarded server log ∧ (f.isApplication = true →
      .authenticated ∈ log ∧ (server = true → ∃ a b, .wrote (proofFrame a b) ∈ log))
  | .dispatched _ :: log => Guarded server log ∧ .authenticated ∈ log
  | _ :: log => Guarded server log

structure Holds (P : Bool → Block → Block → Prop) (s : Session) : Prop where
  output : ∀ f ∈ s.output, f.isApplication = true ∧ Carries P f
  handshake : ∀ f ∈ s.authenticationOutput, f.isApplication = false ∧ Carries P f
  wrote : ∀ f, .wrote f ∈ s.log → Carries P f
  writing : ∀ b f, s.writing = some (b, f) → .wrote f ∈ s.log ∧
    (s.closed = false → (if b then s.authenticationOutput else s.output).head? = some f)
  logged : s.authenticated = true → .authenticated ∈ s.log
  complete : s.authenticated = true ↔ s.authentication = .complete
  isServer : s.authentication = .clientProof → s.server = true
  isClient : s.authentication = .challenge ∨ s.authentication = .serverProof → s.server = false
  proved : ∀ r a b, .proved r a b ∈ s.log → r = s.server ∧ a = s.serverNonce ∧ b = s.clientNonce ∧ P r a b
  accepted : ∀ a b, .proved true a b ∈ s.log → .accepted a b ∈ s.log
  proves : s.authentication = .serverProof ∨ s.authenticated = true →
    .proved s.server s.serverNonce s.clientNonce ∈ s.log
  waits : s.server = true → s.active = false → s.authentication = .clientProof
  challenger : s.server = true → s.active = true → s.closed = false → ∃ k, s.drew = some k ∧ s.serverNonce = .random k
  drew : ∀ r a b, .proved r a b ∈ s.log → ∃ k, s.drew = some k ∧ (if r then a else b) = .random k
  trusts : s.authenticated = true → P (!s.server) s.serverNonce s.clientNonce
  shows : s.server = true → s.authenticated = true → s.closed = false →
    (∃ a b, proofFrame a b ∈ s.authenticationOutput) ∨ ∃ a b, .wrote (proofFrame a b) ∈ s.log
  guarded : Guarded s.server s.log

/-- A session that has still to prove itself has not done so. -/
def Unproved (s : Session) : Prop :=
  s.closed = false → s.authentication = .challenge ∨ s.authentication = .clientProof → ∀ r a b, .proved r a b ∉ s.log

/-! ## What writing changes -/

/-- Only frames were queued and written. -/
structure Quiet (s s' : Session) : Prop where
  server : s'.server = s.server
  active : s'.active = s.active
  authenticated : s'.authenticated = s.authenticated
  authentication : s'.authentication = s.authentication
  serverNonce : s'.serverNonce = s.serverNonce
  clientNonce : s'.clientNonce = s.clientNonce
  drew : s'.drew = s.drew
  closes : s.closed = true → s'.closed = true
  keeps : ∀ {e}, e ∈ s.log → e ∈ s'.log
  proved : ∀ {r a b}, .proved r a b ∈ s'.log → .proved r a b ∈ s.log

namespace Quiet

theorem refl (s : Session) : Quiet s s := ⟨rfl, rfl, rfl, rfl, rfl, rfl, rfl, id, id, id⟩

theorem trans {s s' s'' : Session} (h : Quiet s s') (h' : Quiet s' s'') : Quiet s s'' where
  server := h'.server.trans h.server
  active := h'.active.trans h.active
  authenticated := h'.authenticated.trans h.authenticated
  authentication := h'.authentication.trans h.authentication
  serverNonce := h'.serverNonce.trans h.serverNonce
  clientNonce := h'.clientNonce.trans h.clientNonce
  drew := h'.drew.trans h.drew
  closes hc := h'.closes (h.closes hc)
  keeps he := h'.keeps (h.keeps he)
  proved he := h.proved (h'.proved he)

theorem close (s : Session) : Quiet s s.close := by
  unfold Session.close
  split
  · exact refl s
  · exact { refl s with closes := fun _ => rfl }

theorem queue (s : Session) (queued : Nat) (output authenticationOutput : List Frame)
    (writing : Option (Bool × Frame)) :
    Quiet s { s with queued, output, authenticationOutput, writing } := { refl s with }

theorem recorded {s s' : Session} (h : Quiet s s') {e : Event} (he : ∀ r a b, e ≠ .proved r a b) :
    Quiet s (s'.record e) :=
  { h with
    keeps := fun hmem => mem_cons_of_mem _ (h.keeps hmem)
    proved := fun hmem => h.proved ((mem_cons.1 hmem).resolve_left fun heq => he _ _ _ heq.symm) }

theorem write (s : Session) : Quiet s s.write := by
  unfold Session.write
  split
  · exact refl s
  split
  · exact (queue s s.queued s.output s.authenticationOutput _).recorded fun r a b heq => nomatch heq
  split
  · split
    · exact (queue s s.queued s.output s.authenticationOutput _).recorded fun r a b heq => nomatch heq
    · exact refl s
  · exact refl s

theorem enqueue (s : Session) (f : Frame) (handshake : Bool) : Quiet s (s.enqueue f handshake).1 := by
  refine Session.enqueue_keeps (refl s) (fun _ => ?_) fun t ht => ht.trans (write t)
  cases handshake
  · exact queue s _ _ s.authenticationOutput s.writing
  · exact queue s _ s.output _ s.writing

theorem respond (s : Session) (f : Frame) (handshake : Bool) : Quiet s (s.respond f handshake) := by
  unfold Session.respond
  dsimp only
  split
  · exact enqueue s f handshake
  · exact (enqueue s f handshake).trans (close _)

/-- What only queues and writes leaves a session that has not proved itself so. -/
theorem unproved {s s' : Session} (h : Quiet s s') (hu : Unproved s) : Unproved s' := by
  intro hc ha r a b he
  rw [h.authentication] at ha
  refine hu ?_ ha r a b (h.proved he)
  by_contra hclosed
  have := h.closes (by simpa using hclosed)
  rw [hc] at this
  cases this

end Quiet

theorem write_authenticationOutput (s : Session) : s.write.authenticationOutput = s.authenticationOutput := by
  unfold Session.write
  split
  · rfl
  split
  · rfl
  · split
    · split <;> rfl
    · rfl

theorem enqueue_authenticationOutput {s : Session} {f : Frame} (h : (s.enqueue f true).2 = true) :
    f ∈ (s.enqueue f true).1.authenticationOutput := by
  unfold Session.enqueue at h ⊢
  split at h
  · cases h
  rename_i hopen
  rw [if_neg hopen]
  dsimp only
  rw [if_pos rfl]
  split
  · rw [write_authenticationOutput]
    exact mem_append_right _ mem_cons_self
  · exact mem_append_right _ mem_cons_self

/-! ## Queueing and writing -/

namespace Holds

section

variable (h : Holds P s)
include h

theorem close : Holds P s.close := by
  unfold Session.close
  split
  · exact h
  exact { h with
    output := fun f hf => absurd hf not_mem_nil
    handshake := fun f hf => absurd hf not_mem_nil
    writing := fun b f hw => ⟨(h.writing b f hw).1, fun hc => (nomatch hc)⟩
    challenger := fun _ _ hc => (nomatch hc)
    shows := fun _ _ hc => (nomatch hc) }

/-- An event that is no proof, in its place. -/
theorem record {e : Event} (he : ∀ r a b, e ≠ .proved r a b) (hw : ∀ f, e = .wrote f → Carries P f)
    (hg : Guarded s.server (e :: s.log)) : Holds P (s.record e) := by
  have hother : ∀ {e'}, e' ∈ s.log → e' ∈ e :: s.log := fun hmem => mem_cons_of_mem _ hmem
  have hproved : ∀ {r x y}, .proved r x y ∈ e :: s.log → .proved r x y ∈ s.log := fun hmem =>
    (mem_cons.1 hmem).resolve_left fun heq => he _ _ _ heq.symm
  exact { h with
    wrote := fun f hf => (mem_cons.1 hf).elim (fun heq => hw f heq.symm) (h.wrote f)
    writing := fun b f hwriting => ⟨hother (h.writing b f hwriting).1, (h.writing b f hwriting).2⟩
    logged := fun ha => hother (h.logged ha)
    proved := fun r x y hmem => h.proved r x y (hproved hmem)
    accepted := fun x y hmem => hother (h.accepted x y (hproved hmem))
    proves := fun ha => hother (h.proves ha)
    drew := fun r x y hmem => h.drew r x y (hproved hmem)
    shows := fun hs ha hc => (h.shows hs ha hc).imp_right fun ⟨x, y, hmem⟩ => ⟨x, y, hother hmem⟩
    guarded := hg }

/-- A frame goes out. -/
theorem record_wrote {b : Bool} {f : Frame} (hf : Carries P f)
    (hhead : (if b then s.authenticationOutput else s.output).head? = some f)
    (happ : f.isApplication = true → .authenticated ∈ s.log ∧
    (s.server = true → ∃ x y, .wrote (proofFrame x y) ∈ s.log)) :
    Holds P ({ s with writing := some (b, f) }.record (.wrote f)) := by
  have hrecorded : Holds P (s.record (.wrote f)) :=
    h.record (by simp) (fun f' heq => by cases heq; exact hf) ⟨h.guarded, happ⟩
  refine { hrecorded with writing := fun _ f' heq => ?_ }
  cases heq
  exact ⟨mem_cons_self, fun _ => hhead⟩

theorem write : Holds P s.write := by
  unfold Session.write
  split
  · exact h
  rename_i hopen
  push Not at hopen
  have hclosed : s.closed = false := by simpa using hopen.1
  split
  · rename_i f _ hq
    have hf := h.handshake f (hq ▸ mem_cons_self)
    refine h.record_wrote hf.2 (by simp [hq]) fun happ => ?_
    rw [hf.1] at happ
    cases happ
  rename_i hq
  split
  · rename_i hauth
    split
    · rename_i f _ ho
      have hf := h.output f (ho ▸ mem_cons_self)
      refine h.record_wrote hf.2 (by simp [ho]) fun _ => ⟨h.logged hauth, fun hserver => ?_⟩
      -- nothing of the handshake waits, so the proof was written
      rcases h.shows hserver hauth hclosed with ⟨x, y, hmem⟩ | hwrote
      · rw [hq] at hmem
        cases hmem
      · exact hwrote
    · exact h
  · exact h

theorem sent (error : Bool) : Holds P (s.sent error) := by
  unfold Session.sent
  split
  · exact h
  rename_i handshake f hw
  split
  · exact h
  rename_i hopen
  have hclosed : s.closed = false := by simpa using hopen
  split
  · exact h.close
  obtain ⟨hwrote, hhead⟩ := h.writing handshake f hw
  have hhead := hhead hclosed
  dsimp only
  split
  · rename_i hhs
    refine Holds.write { h with handshake := ?_, writing := fun b f hn => (nomatch hn), shows := ?_ }
    · intro f' hf'
      exact h.handshake f' (mem_of_mem_tail hf')
    · intro hserver ha _
      rw [if_pos hhs] at hhead
      rcases h.shows hserver ha hclosed with ⟨x, y, hmem⟩ | hshown
      · -- the frame that was sent is the first of the queue
        obtain ⟨rest, hrest⟩ : ∃ rest, s.authenticationOutput = f :: rest := head?_eq_some_iff.1 hhead
        rw [hrest] at hmem ⊢
        rcases mem_cons.1 hmem with heq | hmem
        · exact .inr ⟨x, y, heq ▸ hwrote⟩
        · exact .inl ⟨x, y, hmem⟩
      · exact .inr hshown
  · refine Holds.write { h with output := ?_, writing := fun b f hn => (nomatch hn) }
    intro f' hf'
    exact h.output f' (mem_of_mem_tail hf')

theorem enqueue {f : Frame} (hf : Carries P f) {handshake : Bool}
    (hkind : f.isApplication = !handshake) : Holds P (s.enqueue f handshake).1 := by
  refine Session.enqueue_keeps h (fun _ => ?_) fun t ht => ht.write
  cases handshake with
  | true =>
    refine { h with handshake := ?_, writing := ?_, shows := ?_ }
    · intro f' hf'
      rcases mem_append.1 hf' with hf' | hf'
      · exact h.handshake f' hf'
      · rw [mem_singleton.1 hf']
        exact ⟨hkind, hf⟩
    · intro b f' hw
      refine ⟨(h.writing b f' hw).1, fun hc => ?_⟩
      have hfirst := (h.writing b f' hw).2 hc
      cases b with
      | true => exact mem_head?_append_of_mem_head? hfirst
      | false => exact hfirst
    · intro hserver ha hc
      refine (h.shows hserver ha hc).imp_left ?_
      rintro ⟨x, y, hmem⟩
      exact ⟨x, y, mem_append_left _ hmem⟩
  | false =>
    refine { h with output := ?_, writing := ?_ }
    · intro f' hf'
      rcases mem_append.1 hf' with hf' | hf'
      · exact h.output f' hf'
      · rw [mem_singleton.1 hf']
        exact ⟨hkind, hf⟩
    · intro b f' hw
      refine ⟨(h.writing b f' hw).1, fun hc => ?_⟩
      have hfirst := (h.writing b f' hw).2 hc
      cases b with
      | true => exact hfirst
      | false => exact mem_head?_append_of_mem_head? hfirst

theorem respond {f : Frame} (hf : Carries P f) {handshake : Bool}
    (hkind : f.isApplication = !handshake) : Holds P (s.respond f handshake) := by
  unfold Session.respond
  dsimp only
  split
  · exact h.enqueue hf hkind
  · exact (h.enqueue hf hkind).close

/-! ## Frames of the application -/

theorem dispatch (ha : s.authenticated = true) (o : Answers) (f : Frame) : Holds P (s.dispatch o f) := by
  have hd : Holds P (s.record (.dispatched f)) := h.record (by simp) (by simp) ⟨h.guarded, h.logged ha⟩
  exact Session.dispatch_keeps h hd (fun _ ht => ht.close)
    (fun _ _ ht => ht.respond (carries_bytes _ _ _ _ _) rfl) fun _ _ ht => { ht with }

theorem reply (call : Nat) (status : Status) {data : Data}
    (hdata : ∀ r a b, .mac r a b ∈ data.content → P r a b) : Holds P (s.reply call status data) := by
  unfold Session.reply
  split
  · exact h
  have hleft : Holds P { s with inflight := s.inflight.erase call } := { h with }
  dsimp only
  split
  · exact hleft.respond (carries_bytes _ _ _ _ _) rfl
  · exact hleft.respond (f := frame 2 status call [] data) hdata rfl

/-! ## The handshake -/

/-- The end of a session that could not draw or compute what it needed. -/
theorem close_with (hu : ∀ r a b, .proved r a b ∉ s.log) (ha : s.authentication ≠ .complete)
    (hp : s.authentication ≠ .serverProof) (active : Bool) (serverNonce clientNonce : Block) (drew : Option Nat)
    (hactive : s.active = true → active = true) :
    Holds P (Session.close { s with active, serverNonce, clientNonce, drew }) := by
  have hunauth : s.authenticated ≠ true := fun hc => ha (h.complete.1 hc)
  have hended : Holds P { s with active, serverNonce, clientNonce, drew, closed := true } := { h with
    writing := fun b f hw => ⟨(h.writing b f hw).1, fun hc => (nomatch hc)⟩
    proved := fun r a b he => absurd he (hu r a b)
    proves := fun hc => hc.elim (fun hc => absurd hc hp) fun hc => absurd hc hunauth
    waits := fun hs hc => h.waits hs (by
      by_contra hne
      rw [hactive (by simpa using hne)] at hc
      cases hc)
    challenger := fun _ _ hc => (nomatch hc)
    drew := fun r a b he => absurd he (hu r a b)
    trusts := fun hc => absurd hc hunauth
    shows := fun _ _ hc => (nomatch hc) }
  unfold Session.close
  split
  · rename_i hclosed
    rwa [← show s.closed = true from hclosed] at hended
  · exact { hended with
      output := fun f hf => absurd hf not_mem_nil
      handshake := fun f hf => absurd hf not_mem_nil
      writing := fun b f hw => ⟨(h.writing b f hw).1, fun hc => (nomatch hc)⟩
      shows := fun _ _ hc => (nomatch hc) }

theorem ready (hu : Unproved s) (hactive : s.active = false) (nonce : Nat) (random : Bool) :
    Holds P (s.ready nonce random) := by
  unfold Session.ready
  split
  · exact h
  rename_i hopen
  have hclosed : s.closed = false := by simpa using hopen
  dsimp only
  split
  · rename_i hauth
    have hnone := hu hclosed (.inr hauth)
    have hunauth : s.authenticated ≠ true := fun ha => by
      rw [h.complete.1 ha] at hauth
      cases hauth
    split
    · have hdrawn : Holds P (s.challenging nonce) := by
        exact { h with
          proved := fun r a b he => absurd he (hnone r a b)
          proves := fun hp => hp.elim (fun hp => absurd (hauth.symm.trans hp) (by simp)) fun ha => absurd ha hunauth
          waits := fun _ hc => (nomatch hc)
          challenger := fun _ _ _ => ⟨nonce, rfl, rfl⟩
          drew := fun r a b he => absurd he (hnone r a b)
          trusts := fun ha => absurd ha hunauth }
      have hchallenge : Carries P (frame 0 .ok 0 [] (.blocks 1 [.random nonce])) := by
        intro r a b hmem
        cases mem_singleton.1 hmem
      split
      · exact (hdrawn.enqueue hchallenge rfl).write
      · exact (hdrawn.enqueue hchallenge rfl).close
    · exact h.close_with hnone (by simp [hauth]) (by simp [hauth]) true s.serverNonce s.clientNonce s.drew fun _ => rfl
  · rename_i hauth
    refine Holds.write { h with waits := fun _ hc => (nomatch hc), challenger := fun hs _ _ => ?_ }
    exact absurd (h.waits hs hactive) hauth

theorem answerChallenge (hclosed : s.closed = false) (hu : Unproved s)
    (hauth : s.authentication = .challenge) (o : Answers) (nonce : Nat) (data : Data)
    (hP : ∀ r a b, .proved r a b ∈ (s.answerChallenge o nonce data).log → P r a b) :
    Holds P (s.answerChallenge o nonce data) := by
  have hnone := hu hclosed (.inl hauth)
  have hclient := h.isClient (.inl hauth)
  have hcomplete : s.authentication ≠ .complete := by simp [hauth]
  have hproof : s.authentication ≠ .serverProof := by simp [hauth]
  revert hP
  unfold Session.answerChallenge
  split
  · exact fun _ => h.close
  dsimp only
  split
  · split
    · intro hP
      have hunauth : s.authenticated ≠ true := fun ha => hcomplete (h.complete.1 ha)
      have hnew : P false (data.block 0) (.random nonce) :=
        hP false _ _ ((Quiet.respond _ _ _).keeps mem_cons_self)
      have hproved : ∀ r a b, .proved r a b ∈ .proved false (data.block 0) (.random nonce) :: s.log →
          r = false ∧ a = data.block 0 ∧ b = .random nonce := by
        intro r a b he
        cases (mem_cons.1 he).resolve_right (hnone r a b)
        exact ⟨rfl, rfl, rfl⟩
      have hother : ∀ {e : Event}, e ∈ s.log → e ∈ .proved false (data.block 0) (.random nonce) :: s.log :=
        fun he => mem_cons_of_mem _ he
      have hs : Holds P (s.responding data nonce) := by
        refine { h with
          wrote := fun f hf => h.wrote f ((mem_cons.1 hf).resolve_left (by simp))
          writing := fun b f hw => ⟨hother (h.writing b f hw).1, (h.writing b f hw).2⟩
          logged := fun ha => absurd ha hunauth
          complete := ⟨fun ha => absurd ha hunauth, fun hc => (nomatch hc)⟩
          isServer := fun hc => (nomatch hc)
          isClient := fun _ => hclient
          proved := ?_
          accepted := ?_
          proves := ?_
          waits := fun hs _ => absurd (hclient.symm.trans hs) (by simp)
          challenger := fun hs => absurd (hclient.symm.trans hs) (by simp)
          drew := ?_
          trusts := fun ha => absurd ha hunauth
          shows := fun _ ha => absurd ha hunauth
          guarded := h.guarded }
        · intro r a b he
          obtain ⟨rfl, rfl, rfl⟩ := hproved r a b he
          exact ⟨hclient.symm, rfl, rfl, hnew⟩
        · intro a b he
          cases (hproved _ a b he).1
        · intro _
          change Event.proved s.server _ _ ∈ _
          rw [hclient]
          exact mem_cons_self
        · intro r a b he
          obtain ⟨rfl, rfl, rfl⟩ := hproved r a b he
          exact ⟨nonce, rfl, rfl⟩
      refine hs.respond ?_ rfl
      intro r a b hmem
      simp only [frame, Data.content, mem_cons, not_mem_nil, or_false] at hmem
      rcases hmem with hmem | hmem
      · cases hmem
      · cases hmem
        exact hnew
    · exact fun _ => h.close_with hnone hcomplete hproof s.active _ _ _ id
  · exact fun _ => h.close_with hnone hcomplete hproof s.active _ _ s.drew id

/-- The session is authenticated, by a proof that was made. -/
theorem authenticate (hactive : s.active = true)
    (hproves : .proved s.server s.serverNonce s.clientNonce ∈ s.log)
    (htrusts : P (!s.server) s.serverNonce s.clientNonce)
    (hshows : s.server = true → ∃ a b, proofFrame a b ∈ s.authenticationOutput) :
    Holds P s.authenticate := by
  have hrecorded : Holds P (s.record .authenticated) := h.record (by simp) (by simp) h.guarded
  exact { hrecorded with
    logged := fun _ => mem_cons_self
    complete := ⟨fun _ => rfl, fun _ => rfl⟩
    isServer := fun hc => (nomatch hc)
    isClient := fun hc => hc.elim (fun hc => (nomatch hc)) fun hc => (nomatch hc)
    proves := fun _ => mem_cons_of_mem _ hproves
    waits := fun _ hc => absurd (hactive.symm.trans hc) (by simp)
    trusts := fun _ => htrusts
    shows := fun hs _ _ => .inl (hshows hs) }

theorem checkClient (hclosed : s.closed = false) (hactive : s.active = true) (hu : Unproved s)
    (hauth : s.authentication = .clientProof) (o : Answers) (data : Data)
    (hdata : ∀ r a b, data.block 1 = .mac r a b → P r a b)
    (hP : ∀ r a b, .proved r a b ∈ (s.checkClient o data).log → P r a b) : Holds P (s.checkClient o data) := by
  have hnone := hu hclosed (.inr hauth)
  have hserver := h.isServer hauth
  have hcomplete : s.authentication ≠ .complete := by simp [hauth]
  have hproof : s.authentication ≠ .serverProof := by simp [hauth]
  have hunauth : s.authenticated ≠ true := fun ha => hcomplete (h.complete.1 ha)
  obtain ⟨k, hdrew, hrandom⟩ := h.challenger hserver hactive hclosed
  revert hP
  unfold Session.checkClient
  split
  · exact fun _ => h.close
  dsimp only
  split
  · rename_i hchecks
    have hclient := hdata _ _ _ hchecks.2
    -- what the session is like once the proof of the client was accepted and its own was made
    have hbase : P true s.serverNonce (data.block 0) → Holds P (s.accepting data) := by
      intro hnew
      have hother : ∀ {e : Event}, e ∈ s.log → e ∈ .proved true s.serverNonce (data.block 0) ::
          .accepted s.serverNonce (data.block 0) :: s.log := fun he =>
        mem_cons_of_mem _ (mem_cons_of_mem _ he)
      have hproved : ∀ r a b, .proved r a b ∈ .proved true s.serverNonce (data.block 0) ::
          .accepted s.serverNonce (data.block 0) :: s.log → r = true ∧ a = s.serverNonce ∧ b = data.block 0 := by
        intro r a b he
        rcases mem_cons.1 he with heq | he
        · cases heq
          exact ⟨rfl, rfl, rfl⟩
        · rcases mem_cons.1 he with heq | he
          · cases heq
          · exact absurd he (hnone r a b)
      refine { h with
        wrote := ?_
        writing := fun b f hw => ⟨hother (h.writing b f hw).1, (h.writing b f hw).2⟩
        logged := fun ha => absurd ha hunauth
        proved := ?_
        accepted := ?_
        proves := fun hc => hc.elim (fun hc => absurd hc hproof) fun hc => absurd hc hunauth
        drew := ?_
        trusts := fun ha => absurd ha hunauth
        shows := fun _ ha => absurd ha hunauth
        guarded := h.guarded }
      · intro f hf
        rcases mem_cons.1 hf with heq | hf
        · cases heq
        · rcases mem_cons.1 hf with heq | hf
          · cases heq
          · exact h.wrote f hf
      · intro r a b he
        obtain ⟨rfl, rfl, rfl⟩ := hproved r a b he
        exact ⟨hserver.symm, rfl, rfl, hnew⟩
      · intro a b he
        obtain ⟨-, rfl, rfl⟩ := hproved true a b he
        exact mem_cons_of_mem _ mem_cons_self
      · intro r a b he
        obtain ⟨rfl, rfl, rfl⟩ := hproved r a b he
        exact ⟨k, hdrew, hrandom⟩
    have hcarries : P true s.serverNonce (data.block 0) → Carries P (proofFrame s.serverNonce (data.block 0)) := by
      intro hnew r a b hmem
      cases mem_singleton.1 hmem
      exact hnew
    split
    · rename_i hqueued
      intro hP
      have hquiet := Quiet.enqueue (s.accepting data)
        (proofFrame s.serverNonce (data.block 0)) true
      have hmem := hquiet.keeps (e := .proved true s.serverNonce (data.block 0)) mem_cons_self
      have hnew : P true s.serverNonce (data.block 0) :=
        hP _ _ _ ((Quiet.write _).keeps (mem_cons_of_mem _ hmem))
      refine (((hbase hnew).enqueue (hcarries hnew) rfl).authenticate ?_ ?_ ?_ ?_).write
      · rw [hquiet.active]
        exact hactive
      · rw [hquiet.server, hquiet.serverNonce, hquiet.clientNonce]
        have hevent : Event.proved s.server s.serverNonce (data.block 0) =
            .proved true s.serverNonce (data.block 0) := by
          rw [hserver]
        change Event.proved s.server s.serverNonce (data.block 0) ∈ _
        rw [hevent]
        exact hmem
      · rw [hquiet.server, hquiet.serverNonce, hquiet.clientNonce]
        change P (!s.server) _ _
        rw [hserver]
        exact hclient
      · exact fun _ => ⟨_, _, enqueue_authenticationOutput hqueued⟩
    · intro hP
      have hquiet := (Quiet.enqueue (s.accepting data)
        (proofFrame s.serverNonce (data.block 0)) true).trans (Quiet.close _)
      have hnew : P true s.serverNonce (data.block 0) := hP _ _ _ (hquiet.keeps mem_cons_self)
      exact ((hbase hnew).enqueue (hcarries hnew) rfl).close
  · exact fun _ => h.close_with hnone hcomplete hproof s.active _ _ s.drew id

theorem checkServer (hactive : s.active = true) (hauth : s.authentication = .serverProof) (o : Answers)
    (data : Data) (hdata : ∀ r a b, data.block 0 = .mac r a b → P r a b) : Holds P (s.checkServer o data) := by
  have hclient := h.isClient (.inr hauth)
  unfold Session.checkServer
  split
  · exact h.close
  split
  · rename_i hchecks
    refine (h.authenticate hactive (h.proves (.inl hauth)) ?_ fun hs => ?_).write
    · rw [hclient]
      exact hdata _ _ _ hchecks.2
    · rw [hclient] at hs
      cases hs
  · exact h.close

end

/-- A block of the data is known if all of them are. -/
theorem block_known {data : Data} (hdata : ∀ r a b, .mac r a b ∈ data.content → P r a b) (i : Nat)
    (r : Bool) (a b : Block)
    (h : data.block i = .mac r a b) : P r a b := by
  cases data with
  | bytes => cases h
  | blocks _ content =>
    dsimp only [Data.block] at h
    rw [getD_eq_getElem?_getD] at h
    cases hi : content[i]? with
    | none =>
      rw [hi] at h
      cases h
    | some =>
      rw [hi] at h
      exact hdata r a b (h ▸ mem_of_getElem? hi)

theorem receive (h : Holds P s) (hu : Unproved s) (o : Answers) (nonce : Nat) {f : Frame} (hf : Carries P f)
    (hP : ∀ r a b, .proved r a b ∈ (s.receive o nonce f).log → P r a b) : Holds P (s.receive o nonce f) := by
  revert hP
  refine Session.receive_keeps (I := fun t => (∀ r a b, .proved r a b ∈ t.log → P r a b) → Holds P t)
    (fun _ => h) (fun _ => h.close) (fun ha _ => h.dispatch ha o f) fun hclosed hactive => ?_
  cases hauth : s.authentication with
  | challenge => exact h.answerChallenge hclosed hu hauth o nonce f.data
  | clientProof => exact h.checkClient hclosed hactive hu hauth o f.data (block_known hf 1)
  | serverProof => exact fun _ => h.checkServer hactive hauth o f.data (block_known hf 0)
  | complete => trivial

end Holds

end Fsnet.Node
