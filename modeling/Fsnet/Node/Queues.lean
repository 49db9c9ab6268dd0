import Fsnet.Node.Authentication
/-!
# The queues of a session

Requests are queued before the session is authenticated, in the same budget as the
frames of the handshake. The reserve that only the requests have to leave is enough
for the handshake in both roles, whatever was written of it so far.
-/

namespace Fsnet.Node

open Lib List

/-- The limits a node is made with. -/
structure Limits.Admissible (limits : Limits) : Prop where
  frame : 14 + 65 ≤ limits.frameBytes ∧ limits.frameBytes ≤ 16 * 1024 * 1024
  queue : limits.frameBytes + 4 ≤ limits.queuedBytes
  reserve : authenticationQueueReserve ≤ limits.queuedBytes
  inflight : limits.inflightRequests ≠ 0

/-- What happens to a session; `enqueue` is a request or a notification of the application. -/
inductive Move where
  | ready (nonce : Nat) (random : Bool)
  | receive (o : Answers) (nonce : Nat) (f : Frame)
  | sent (error : Bool)
  | enqueue (f : Frame)
  | reply (call : Nat) (status : Status) (data : Data)
  | close

namespace Session

def start (server : Bool) (limits : Limits) : Session :=
  { server, limits, authentication := if server then .clientProof else .challenge }

def step (s : Session) : Move → Session
  | .ready nonce random => if s.active then s else s.ready nonce random
  | .receive o nonce f => s.receive o nonce f
  | .sent error => s.sent error
  | .enqueue f => (s.enqueue f false).1
  | .reply call status data => s.reply call status data
  | .close => s.close

/-- The frames of the handshake that are handed to `enqueue`, with the session at that moment. -/
inductive Offers (s : Session) : Session → Frame → Prop
  | challenge (nonce : Nat) (ha : s.active = false) (hp : s.authentication = .clientProof) :
    Offers s (s.challenging nonce) (frame 0 .ok 0 [] (.blocks 1 [.random nonce]))
  | response (nonce : Nat) (data : Data) (hp : s.authentication = .challenge) :
    Offers s (s.responding data nonce)
      (frame 0 .ok 0 [] (.blocks 2 [(s.responding data nonce).clientNonce,
        .mac false (s.responding data nonce).serverNonce (s.responding data nonce).clientNonce]))
  | proof (data : Data) (ha : s.active = true) (hp : s.authentication = .clientProof) :
    Offers s (s.accepting data)
      (frame 0 .ok 0 [] (.blocks 3 [.mac true (s.accepting data).serverNonce (s.accepting data).clientNonce]))

/-- How much of the handshake can be queued. -/
def allowance (s : Session) : Nat :=
  match s.authentication with
  | .challenge => 0
  | .clientProof => if s.active then 18 + 33 else 0
  | .serverProof | .complete => 18 + 65

end Session

def total (queue : List Frame) : Nat := (queue.map Frame.size).sum

/-- The budget of a session of which `room` bytes are for the handshake. -/
structure Fair (limits : Limits) (room : Nat) (s : Session) : Prop where
  limits : s.limits = limits
  complete : s.authenticated = true → s.authentication = .complete
  queued : s.queued = total s.output + total s.authenticationOutput
  bounded : s.queued ≤ s.limits.queuedBytes
  writing : ∀ b f, s.writing = some (b, f) → s.closed = false →
    (if b then s.authenticationOutput else s.output).head? = some f
  reserve : s.closed = false → s.authenticated = false →
    total s.output + authenticationQueueReserve ≤ s.limits.queuedBytes
  paced : s.closed = false → s.authenticated = false → total s.authenticationOutput ≤ room

namespace Fair

variable {limits : Limits} {s t : Session} {f : Frame} {room : Nat}

theorem start (server : Bool) (hl : limits.Admissible) : Fair limits 0 (.start server limits) :=
  ⟨rfl, nofun, rfl, Nat.zero_le _, nofun, fun _ _ => hl.reserve, fun _ _ => le_rfl⟩

section

variable (h : Fair limits room s)
include h

/-- The handshake always finds room. -/
theorem accepts (hc : s.closed = false) (ha : s.authenticated = false)
    (hf : room + f.size ≤ authenticationQueueReserve) :
    (s.enqueue f true).2 = true := by
  have hreserve := h.reserve hc ha
  have hpaced := h.paced hc ha
  have hfits : s.overfull f true = false := by
    simp only [Session.overfull, h.queued]
    simp
    omega
  simp [Session.enqueue, hc, hfits]

theorem close {room' : Nat} : Fair limits room' s.close := by
  unfold Session.close
  split
  · rename_i hc
    exact { h with paced := fun ho => absurd (hc.symm.trans ho) (by simp) }
  · exact ⟨h.limits, h.complete, rfl, Nat.zero_le _, fun _ _ _ ho => (nomatch ho), fun ho => (nomatch ho),
      fun ho => (nomatch ho)⟩

theorem write : Fair limits room s.write := by
  unfold Session.write
  split
  · exact h
  split
  · rename_i hq
    refine { h with writing := ?_ }
    rintro _ _ ⟨⟩ _
    simp [Session.record, hq]
  split
  · split
    · rename_i hq
      refine { h with writing := ?_ }
      rintro _ _ ⟨⟩ _
      simp [Session.record, hq]
    · exact h
  · exact h

theorem sent (error : Bool) : Fair limits room (s.sent error) := by
  unfold Session.sent
  split
  · exact h
  rename_i b f hw
  split
  · exact h
  rename_i hopen
  split
  · exact h.close
  have hqueued := h.queued
  have hbounded := h.bounded
  have hhead := h.writing b f hw (by simpa using hopen)
  cases b with
  | true =>
    obtain ⟨rest, hrest⟩ : ∃ rest, s.authenticationOutput = f :: rest := head?_eq_some_iff.1 hhead
    have hpart : total s.authenticationOutput = f.size + total rest := by simp [hrest, total]
    refine Fair.write ⟨h.limits, h.complete, ?_, ?_, nofun, h.reserve, fun hc ha => ?_⟩
    all_goals simp only [hrest, tail_cons]
    · omega
    · omega
    · have := h.paced hc ha
      omega
  | false =>
    obtain ⟨rest, hrest⟩ : ∃ rest, s.output = f :: rest := head?_eq_some_iff.1 hhead
    have hpart : total s.output = f.size + total rest := by simp [hrest, total]
    refine Fair.write ⟨h.limits, h.complete, ?_, ?_, nofun, fun hc ha => ?_, h.paced⟩
    all_goals simp only [hrest, tail_cons]
    · omega
    · omega
    · have := h.reserve hc ha
      omega

theorem enqueue {f : Frame} {handshake : Bool} {room' : Nat} (hr : room ≤ room')
    (hf : handshake = true → room + f.size ≤ room') : Fair limits room' (s.enqueue f handshake).1 := by
  have hqueued := h.queued
  have hwider : Fair limits room' s := { h with paced := fun hc ha => (h.paced hc ha).trans hr }
  refine Session.enqueue_keeps hwider (fun hfits => ?_) fun t ht => ht.write
  simp only [Session.overfull, Bool.or_eq_false_iff, decide_eq_false_iff_not] at hfits
  cases handshake with
  | true =>
    refine ⟨h.limits, h.complete, ?_, ?_, fun b f' hw hc => ?_, h.reserve, fun hc ha => ?_⟩
    · simp [total] at hqueued ⊢
      omega
    · simp at hfits ⊢
      omega
    · have hold := h.writing b f' hw hc
      cases b with
      | true => exact mem_head?_append_of_mem_head? hold
      | false => exact hold
    · have hpaced := h.paced hc ha
      have hroom := hf rfl
      simp [total] at hpaced ⊢
      omega
  | false =>
    refine ⟨h.limits, h.complete, ?_, ?_, fun b f' hw hc => ?_, fun _ ha => ?_, hwider.paced⟩
    · simp [total] at hqueued ⊢
      omega
    · simp at hfits ⊢
      omega
    · have hold := h.writing b f' hw hc
      cases b with
      | true => exact hold
      | false => exact mem_head?_append_of_mem_head? hold
    · have ha : s.authenticated = false := ha
      simp [ha, total] at hfits hqueued ⊢
      omega

theorem respond (f : Frame) : Fair limits room (s.respond f false) := by
  have hqueued : Fair limits room (s.enqueue f false).1 := h.enqueue le_rfl nofun
  unfold Session.respond
  dsimp only
  split
  · exact hqueued
  · exact hqueued.close

theorem reply (call : Nat) (status : Status) (data : Data) : Fair limits room (s.reply call status data) := by
  unfold Session.reply
  split
  · exact h
  · have hleft : Fair limits room { s with inflight := s.inflight.erase call } := { h with }
    exact hleft.respond _

theorem dispatch (o : Answers) (f : Frame) : Fair limits room (s.dispatch o f) := by
  have hd : Fair limits room (s.record (.dispatched f)) := { h with }
  exact Session.dispatch_keeps h hd (fun _ ht => ht.close) (fun _ _ ht => ht.respond _) fun _ _ ht => { ht with }

end

/-! ## The handshake -/

theorem of_quiet (hq : Quiet s t) (h : Fair limits s.allowance t) : Fair limits t.allowance t := by
  have hsame : t.allowance = s.allowance := by simp only [Session.allowance, hq.authentication, hq.active]
  rwa [hsame]

theorem authenticate {room' : Nat} (h : Fair limits room s) : Fair limits room' s.authenticate :=
  { h with complete := fun _ => rfl, reserve := fun _ ha => (nomatch ha), paced := fun _ ha => (nomatch ha) }

theorem size_blocks (label : UInt8) (content : List Block) :
    (frame 0 .ok 0 [] (.blocks label content)).size = 19 + 32 * content.length := by
  simp only [frame, Frame.size, Frame.bodySize, Data.size, length_nil]
  omega

section

variable (h : Fair limits s.allowance s)
include h

/-- No frame of the handshake is refused. -/
theorem offered (hc : s.closed = false) (ho : s.Offers t f) :
    (t.enqueue f true).2 = true ∧ Fair limits (s.allowance + f.size) (t.enqueue f true).1 := by
  have hearly : s.authentication ≠ .complete → s.authenticated = false := by
    intro hp
    by_contra ha
    exact hp (h.complete (by simpa using ha))
  obtain ⟨ht, hclosed, ha, hroom⟩ : Fair limits s.allowance t ∧ t.closed = false ∧ t.authenticated = false ∧
      s.allowance + f.size ≤ authenticationQueueReserve := by
    cases ho with
    | response _ _ hp =>
      have ha := hearly (by simp [hp])
      refine ⟨{ h with complete := fun hc => absurd (ha.symm.trans hc) (by simp) }, hc, ha, ?_⟩
      simp [Session.allowance, hp, size_blocks, authenticationQueueReserve]
    | challenge _ hactive hp | proof _ hactive hp =>
      refine ⟨{ h with }, hc, hearly (by simp [hp]), ?_⟩
      simp [Session.allowance, hp, hactive, size_blocks, authenticationQueueReserve]
  exact ⟨ht.accepts hclosed ha hroom, ht.enqueue (Nat.le_add_right _ _) fun _ => le_rfl⟩

theorem ready (hactive : s.active = false) (nonce : Nat) (random : Bool) :
    Fair limits (s.ready nonce random).allowance (s.ready nonce random) := by
  unfold Session.ready
  split
  · exact h
  rename_i hopen
  dsimp only
  split
  · rename_i hp
    split
    · obtain ⟨haccepted, hqueued⟩ := h.offered (by simpa using hopen) (.challenge nonce hactive hp)
      rw [if_pos haccepted]
      refine of_quiet ((Quiet.enqueue (s.challenging nonce) _ _).trans (Quiet.write _)) (Fair.write ?_)
      have hroom : (s.challenging nonce).allowance = s.allowance + 51 := by
        simp [Session.allowance, show s.authentication = .clientProof from hp, hactive]
      rw [hroom]
      exact hqueued
    · apply Fair.close
      exact { h with }
  · rename_i hp
    have hs : Fair limits (Session.allowance { s with active := true }) { s with active := true } := by
      have hroom : Session.allowance { s with active := true } = s.allowance := by
        cases hs : s.authentication <;> simp_all [Session.allowance]
      rw [hroom]
      exact { h with }
    exact of_quiet (Quiet.write _) hs.write

theorem answerChallenge (hc : s.closed = false) (hp : s.authentication = .challenge) (o : Answers) (nonce : Nat)
    (data : Data) : Fair limits (s.answerChallenge o nonce data).allowance (s.answerChallenge o nonce data) := by
  unfold Session.answerChallenge
  split
  · exact h.close
  dsimp only
  split
  · split
    · obtain ⟨haccepted, hqueued⟩ := h.offered hc (.response nonce data hp)
      rw [Session.respond, if_pos haccepted]
      refine of_quiet (Quiet.enqueue (s.responding data nonce) _ _) ?_
      have hroom : s.allowance = 0 := by simp [Session.allowance, hp]
      rw [hroom] at hqueued
      exact hqueued
    · apply Fair.close
      exact { h with }
  · apply Fair.close
    exact { h with }

theorem checkClient (hc : s.closed = false) (hactive : s.active = true) (hp : s.authentication = .clientProof)
    (o : Answers) (data : Data) : Fair limits (s.checkClient o data).allowance (s.checkClient o data) := by
  unfold Session.checkClient
  split
  · exact h.close
  dsimp only
  split
  · obtain ⟨haccepted, hqueued⟩ := h.offered hc (.proof data hactive hp)
    rw [if_pos haccepted]
    exact of_quiet (Quiet.write _) hqueued.authenticate.write
  · apply Fair.close
    exact { h with }

theorem checkServer (o : Answers) (data : Data) :
    Fair limits (s.checkServer o data).allowance (s.checkServer o data) := by
  unfold Session.checkServer
  split
  · exact h.close
  split
  · exact of_quiet (Quiet.write _) h.authenticate.write
  · exact h.close

theorem receive (o : Answers) (nonce : Nat) (f : Frame) :
    Fair limits (s.receive o nonce f).allowance (s.receive o nonce f) := by
  refine Session.receive_keeps (I := fun t => Fair limits t.allowance t) h h.close
    (fun _ => of_quiet (Quiet.dispatch _ _ _) (h.dispatch _ _)) fun hc ha => ?_
  cases hp : s.authentication with
  | challenge => exact h.answerChallenge hc hp _ _ _
  | clientProof => exact h.checkClient hc ha hp _ _
  | serverProof => exact h.checkServer _ _
  | complete => trivial

theorem step (m : Move) : Fair limits (s.step m).allowance (s.step m) := by
  cases m with
  | ready nonce random =>
    simp only [Session.step]
    split
    · exact h
    · rename_i hactive
      exact h.ready (by simpa using hactive) nonce random
  | receive o nonce f => exact h.receive o nonce f
  | sent error => exact of_quiet (Quiet.sent _ _) (h.sent error)
  | enqueue => exact of_quiet (Quiet.enqueue _ _ _) (h.enqueue le_rfl nofun)
  | reply call status data => exact of_quiet (Quiet.reply _ _ _ _) (h.reply call status data)
  | close => exact h.close

end

end Fair

/-- The queues are accounted for, and the handshake goes on. -/
structure Unstarved (limits : Limits) (s : Session) : Prop where
  queued : s.queued = total s.output + total s.authenticationOutput
  bounded : s.queued ≤ limits.queuedBytes
  accepted : s.closed = false → ∀ t f, s.Offers t f → (t.enqueue f true).2 = true

/-- Whatever is queued before the session is authenticated, no frame of the handshake is refused. -/
theorem handshake_unstarved (server : Bool) {limits : Limits} (hl : limits.Admissible) (moves : List Move) :
    Unstarved limits (run Session.step (.start server limits) moves) := by
  have hstart : Fair limits (Session.start server limits).allowance (.start server limits) := by
    cases server <;> exact Fair.start _ hl
  have h := run_inv (I := fun s => Fair limits s.allowance s) (fun _ m h => h.step m) hstart moves
  exact ⟨h.queued, h.bounded.trans_eq (congrArg Limits.queuedBytes h.limits), fun hc t f ho => (h.offered hc ho).1⟩

theorem handshake_unstarved_requests :
    Unstarved {} (run Session.step (.start true {}) [.enqueue (frame 1 .ok 1 [1] (.bytes [])), .ready 0 true]) :=
  handshake_unstarved true ⟨by decide, by decide, by decide, by decide⟩ _

end Fsnet.Node
