import Mathlib.Data.List.Perm.Basic
import Mathlib.Algebra.Order.BigOperators.Group.List
import Fsnet.Entity.Identity
import Fsnet.Lib.OrdMap
import Fsnet.Lib.Runs
/-!
# Calls of a node

`Node::call` and what completes a call: a response, its timer, the loss of its peer,
a full queue and the end of the node. The reply of a call is code of the application,
which may call, close and stop again while the node is in a loop over its calls or its
sessions. So the loops are frames of a stack, and anything may happen between two turns
of a loop.
-/

namespace Fsnet.Calls

open Lib List

structure Limits where
  frameBytes : Nat
  connections : Nat
  pendingCalls : Nat

/-- `max_call_timeout`, in milliseconds. -/
def maxCallTimeout : Int := 30000

structure Pending where
  peer : Nat
  /-- the number of the `call` whose reply it holds -/
  reply : Nat

/-- What is left of a loop. -/
inductive Frame where
  | lost (failed : List Nat)
  | stop (sessions : List Nat)

/-- A reply that was invoked, and the session whose response it handed on. -/
structure Reply where
  call : Nat
  result : Result
  origin : Option Nat

structure Node where
  limits : Limits
  stopped : Bool := false
  peerSerial : Nat := 0
  callSerial : Nat := 0
  /-- the session the next connection is accepted with -/
  accepting : Option Nat := none
  /-- the sessions that are not closed -/
  sessions : OrdMap Nat Unit := .empty
  calls : OrdMap Nat Pending := .empty
  stack : List Frame := []
  /-- the peers of the calls that were made -/
  made : List Nat := []
  replies : List Reply := []

namespace Node

variable (n : Node) (peer : Nat)

/-- The reply is invoked; what it throws is caught. -/
def deliver (reply : Nat) (result : Result) (origin : Option Nat) : Node :=
  { n with replies := ⟨reply, result, origin⟩ :: n.replies }

def finish (id : Nat) (result : Result) (origin : Option Nat) : Node :=
  match n.calls.find id with
  | none => n
  | some pending => deliver { n with calls := n.calls.erase id } pending.reply result origin

/-- The calls that wait for the peer. -/
def failed : List Nat := (n.calls.entries.filter fun e => e.2.peer = peer).map Prod.fst

/-- `lost`, up to its loop. -/
def lost (n : Node) (peer : Nat) (order : List Nat) : Node :=
  { n with sessions := n.sessions.erase peer, stack := .lost (arrange order id (n.failed peer)) :: n.stack }

/-- `close` of a session, whoever asks for it. -/
def close (order : List Nat) : Node :=
  if (n.sessions.find peer).isSome then n.lost peer order else n

def connect : Node :=
  if n.stopped ∨ n.sessions.size ≥ n.limits.connections then n
  else { n with peerSerial := n.peerSerial + 1, sessions := n.sessions.insert (n.peerSerial + 1) () }

def accept : Node :=
  if n.stopped then n else { n with peerSerial := n.peerSerial + 1, accepting := some (n.peerSerial + 1) }

def listen : Node := if n.stopped ∨ n.accepting.isSome then n else n.accept

/-- The handler of `async_accept`. -/
def accepted (error : Bool) : Node :=
  match n.accepting with
  | none => n
  | some peer =>
    if n.stopped then n
    else if error = false ∧ n.sessions.size < n.limits.connections then
      accept { n with sessions := n.sessions.insert peer () }
    else n.accept

/-- The branch of `receive` for the response to a call. -/
def receive (session id : Nat) (result : Result) : Node :=
  if (n.sessions.find session).isNone then n
  else
    match n.calls.find id with
    | none => n
    | some pending => if pending.peer = session then n.finish id result (some session) else n

/-- `call` with a reply; `queued` is what `enqueue` returns. -/
def call (route data : Bytes) (timeout : Int) (queued : Bool) : Node :=
  let reply := n.made.length
  let n := { n with made := n.made ++ [peer] }
  if route = [] ∨ route.length > 256 ∨ 0 ∈ route ∨ route.length + data.length > n.limits.frameBytes - 14 ∨
      timeout ≤ 0 ∨ timeout > maxCallTimeout then n.deliver reply ⟨.rejected, []⟩ none
  else if n.stopped ∨ (n.sessions.find peer).isNone then n.deliver reply ⟨.disconnected, []⟩ none
  else if n.calls.size ≥ n.limits.pendingCalls then n.deliver reply ⟨.overloaded, []⟩ none
  else if n.callSerial = 2 ^ 64 - 1 then n.deliver reply ⟨.overloaded, []⟩ none
  else
    let id := n.callSerial + 1
    let n := { n with callSerial := id, calls := n.calls.insert id ⟨peer, reply⟩ }
    if queued then n else n.finish id ⟨.overloaded, []⟩ none

/-- `stop`, up to its loop. -/
def stop (n : Node) (order : List Nat) : Node :=
  if n.stopped then n
  else { n with stopped := true, stack := .stop (arrange order id (n.sessions.entries.map Prod.fst)) :: n.stack }

/-- The next turn of the innermost loop. -/
def resume (order : List Nat) : Node :=
  match n.stack with
  | [] => n
  | .lost [] :: rest => { n with stack := rest }
  | .lost (id :: failed) :: rest => finish { n with stack := .lost failed :: rest } id ⟨.disconnected, []⟩ none
  | .stop [] :: rest => { n with stack := rest }
  | .stop (peer :: peers) :: rest => close { n with stack := .stop peers :: rest } peer order

end Node

inductive Action where
  | connect
  | listen
  | accepted (error : Bool)
  | call (peer : Nat) (route data : Bytes) (timeout : Int) (queued : Bool)
  | close (peer : Nat) (order : List Nat)
  | response (session id : Nat) (result : Result)
  | timeout (id : Nat)
  | stop (order : List Nat)
  | resume (order : List Nat)

def Node.step (n : Node) : Action → Node
  | .connect => n.connect
  | .listen => n.listen
  | .accepted error => n.accepted error
  | .call peer route data timeout queued => n.call peer route data timeout queued
  | .close peer order => n.close peer order
  | .response session id result => n.receive session id result
  | .timeout id => n.finish id ⟨.timeout, []⟩ none
  | .stop order => n.stop order
  | .resume order => n.resume order

/-! ## The invariant -/

variable {n : Node} {id peer reply : Nat} {p : Pending} {result : Result} {origin : Option Nat} {order : List Nat}

theorem mem_failed (h : n.calls.find id = some p) : id ∈ n.failed p.peer :=
  mem_map.2 ⟨(id, p), mem_filter.2 ⟨(n.calls.mem_entries_iff id p).2 h, by simp⟩, rfl⟩

/-- A loop will fail the call. -/
def Node.failing (n : Node) (id : Nat) : Prop := ∃ failed, .lost failed ∈ n.stack ∧ id ∈ failed

/-- A loop will close the session. -/
def Node.closing (n : Node) (peer : Nat) : Prop := ∃ peers, .stop peers ∈ n.stack ∧ peer ∈ peers

/-- Every call was replied to or is in the table; what is in the table waits for a session
or for a loop. A loop leaves out the call or the session it has taken up. -/
structure Sound (call session : Option Nat) (n : Node) : Prop where
  places : (n.replies.map Reply.call ++ n.calls.entries.map fun e => e.2.reply).Perm (List.range n.made.length)
  serials : ∀ id p, n.calls.find id = some p → id ≤ n.callSerial
  peers : ∀ id p, n.calls.find id = some p → n.made[p.reply]? = some p.peer
  origins : ∀ r ∈ n.replies, ∀ s, r.origin = some s → n.made[r.call]? = some s
  alive : ∀ id p, n.calls.find id = some p → call ≠ some id → (n.sessions.find p.peer).isSome = true ∨ n.failing id
  stopping : n.stopped = true → ∀ s, (n.sessions.find s).isSome = true → session ≠ some s → n.closing s

namespace Sound

variable {c s : Option Nat}

theorem finish (h : Sound c s n) (hc : c = none ∨ c = some id)
    (ho : ∀ p, n.calls.find id = some p → ∀ o, origin = some o → o = p.peer) :
    Sound none s (n.finish id result origin) := by
  have hspared : ∀ {k : Nat}, k ≠ id → c ≠ some k := by
    rintro k hk rfl
    rcases hc with hc | hc
    · cases hc
    · exact hk (Option.some.inj hc)
  unfold Node.finish
  split
  · rename_i hnone
    refine { h with alive := fun k p hk _ => h.alive k p hk (hspared ?_) }
    rintro rfl
    rw [hnone] at hk
    cases hk
  rename_i p hp
  have hsub : ∀ {k q}, (n.calls.erase id).find k = some q → k ≠ id ∧ n.calls.find k = some q := by
    intro k q hq
    rw [OrdMap.find_erase] at hq
    split_ifs at hq with hk
    exact ⟨hk, hq⟩
  refine ⟨?_, fun k q hq => h.serials k q (hsub hq).2, fun k q hq => h.peers k q (hsub hq).2,
    forall_mem_cons.2 ⟨fun o heq => ?_, h.origins⟩, fun k q hq _ => ?_, h.stopping⟩
  · -- the reply of the call goes from the table to the replies
    refine .trans ?_ h.places
    refine perm_middle.symm.trans (.append_left _ ?_)
    exact ((Entries.perm_erase n.calls.sorted hp).map fun e => e.2.reply).symm
  · rw [ho p hp o heq]
    exact h.peers id p hp
  · exact h.alive k q (hsub hq).2 (hspared (hsub hq).1)

theorem close (h : Sound c s n) (hs : s = none ∨ s = some peer) (order : List Nat) :
    Sound c none (n.close peer order) := by
  have hspared : ∀ {k : Nat}, k ≠ peer → s ≠ some k := by
    rintro k hk rfl
    rcases hs with hs | hs
    · cases hs
    · exact hk (Option.some.inj hs)
  unfold Node.close
  split
  · refine ⟨h.places, h.serials, h.peers, h.origins, fun k q hq hk => ?_, fun hstop k hk _ => ?_⟩
    · by_cases hpeer : q.peer = peer
      · exact .inr ⟨_, mem_cons_self, by rw [mem_arrange, ← hpeer]; exact mem_failed hq⟩
      refine (h.alive k q hq hk).imp (fun hin => ?_) fun ⟨l, hl, hin⟩ => ⟨l, mem_cons_of_mem _ hl, hin⟩
      dsimp only [Node.lost]
      rwa [OrdMap.find_erase_ne _ hpeer]
    · have hne : k ≠ peer := by
        rintro rfl
        simp [Node.lost] at hk
      simp only [Node.lost, OrdMap.find_erase_ne _ hne] at hk
      obtain ⟨l, hl, hin⟩ := h.stopping hstop k hk (hspared hne)
      exact ⟨l, mem_cons_of_mem _ hl, hin⟩
  · rename_i hgone
    refine { h with stopping := fun hstop k hk _ => h.stopping hstop k hk (hspared ?_) }
    rintro rfl
    exact hgone hk

theorem getElem?_made {l : List Nat} {k q : Nat} (h : l[k]? = some q) (x : Nat) : (l ++ [x])[k]? = some q := by
  rw [getElem?_append_left (List.getElem?_eq_some_iff.1 h).1]
  exact h

theorem refuse (h : Sound c s n) (peer : Nat) (result : Result) :
    Sound c s (Node.deliver { n with made := n.made ++ [peer] } n.made.length result none) := by
  refine ⟨?_, h.serials, fun k q hq => getElem?_made (h.peers k q hq) peer, forall_mem_cons.2 ⟨nofun, ?_⟩, h.alive,
    h.stopping⟩
  · dsimp only [Node.deliver]
    rw [length_append, length_singleton, range_succ]
    exact (h.places.cons _).trans (perm_append_singleton _ _).symm
  · exact fun r hr o ho => getElem?_made (h.origins r hr o ho) peer

theorem enter (h : Sound none s n) (hpeer : (n.sessions.find peer).isSome = true) :
    Sound none s
      { n with
        made := n.made ++ [peer]
        callSerial := n.callSerial + 1
        calls := n.calls.insert (n.callSerial + 1) ⟨peer, n.made.length⟩ } := by
  have hnew : n.calls.find (n.callSerial + 1) = none := by
    cases hf : n.calls.find (n.callSerial + 1) with
    | none => rfl
    | some p => exact absurd (h.serials _ p hf) (Nat.not_succ_le_self _)
  have hcases : ∀ {k q}, (n.calls.insert (n.callSerial + 1) ⟨peer, n.made.length⟩).find k = some q →
      k = n.callSerial + 1 ∧ q = ⟨peer, n.made.length⟩ ∨ n.calls.find k = some q := by
    intro k q hq
    exact (OrdMap.find_of_insert hq).imp_right And.right
  refine ⟨?_, fun k q hq => ?_, fun k q hq => ?_, fun r hr o ho => getElem?_made (h.origins r hr o ho) peer,
    fun k q hq _ => ?_, h.stopping⟩
  · rw [length_append, length_singleton, range_succ]
    refine .trans (.append_left _ ((Entries.insert_perm _ hnew).map fun e => e.2.reply)) ?_
    exact (perm_middle.trans (h.places.cons _)).trans (perm_append_singleton _ _).symm
  · rcases hcases hq with ⟨rfl, -⟩ | hq
    · exact Nat.le_refl _
    · exact Nat.le_succ_of_le (h.serials k q hq)
  · rcases hcases hq with ⟨-, rfl⟩ | hq
    · simp
    · exact getElem?_made (h.peers k q hq) peer
  · rcases hcases hq with ⟨-, rfl⟩ | hq
    · exact .inl hpeer
    · exact h.alive k q hq (by simp)

section

variable (h : Sound none none n)
include h

theorem call (peer : Nat) (route data : Bytes) (timeout : Int) (queued : Bool) :
    Sound none none (n.call peer route data timeout queued) := by
  unfold Node.call
  dsimp only
  split
  · exact h.refuse peer _
  split
  · exact h.refuse peer _
  rename_i hsession
  split
  · exact h.refuse peer _
  split
  · exact h.refuse peer _
  have hpeer : (n.sessions.find peer).isSome = true :=
    Option.isSome_iff_ne_none.2 (by simpa using (not_or.1 hsession).2)
  have hentered := h.enter hpeer
  split
  · exact hentered
  · exact hentered.finish (.inl rfl) (by simp)

/-- A session is opened while the node runs. -/
theorem join (hstopped : ¬n.stopped = true) (peer serial : Nat) (accepting : Option Nat) :
    Sound none none { n with sessions := n.sessions.insert peer (), peerSerial := serial, accepting } := by
  refine { h with
    alive := fun k q hq hk => (h.alive k q hq hk).imp_left fun hin => ?_
    stopping := fun hs => absurd hs hstopped }
  dsimp only
  rw [OrdMap.find_insert]
  split
  · rfl
  · exact hin

theorem accept : Sound none none n.accept := by
  unfold Node.accept
  split
  · exact h
  · exact { h with }

theorem accepted (error : Bool) : Sound none none (n.accepted error) := by
  unfold Node.accepted
  split
  · exact h
  split
  · exact h
  rename_i hrunning
  split
  · exact (h.join hrunning _ n.peerSerial n.accepting).accept
  · exact h.accept

theorem stop (order : List Nat) : Sound none none (n.stop order) := by
  unfold Node.stop
  split
  · exact h
  refine { h with alive := fun k q hq hk => ?_, stopping := fun _ k hk _ => ?_ }
  · exact (h.alive k q hq hk).imp_right fun ⟨l, hl, hin⟩ => ⟨l, mem_cons_of_mem _ hl, hin⟩
  · refine ⟨_, mem_cons_self, mem_arrange.2 ?_⟩
    exact Entries.isSome_find_iff.1 hk

/-- The frame on top of the stack is replaced by one that leaves out a call or a session at most. -/
theorem retop {frame : Frame} {rest : List Frame} (hstack : n.stack = frame :: rest)
    {stack : List Frame} (hrest : ∀ f ∈ rest, f ∈ stack)
    (hc : ∀ failed, frame = .lost failed → ∀ k ∈ failed, c = some k ∨ ∃ l, .lost l ∈ stack ∧ k ∈ l)
    (hs : ∀ peers, frame = .stop peers → ∀ k ∈ peers, s = some k ∨ ∃ l, .stop l ∈ stack ∧ k ∈ l) :
    Sound c s { n with stack } := by
  refine { h with alive := fun k q hq hk => ?_, stopping := fun hstop k hin hk => ?_ }
  · refine (h.alive k q hq (by simp)).imp_right fun ⟨l, hl, hin⟩ => ?_
    rw [hstack] at hl
    rcases mem_cons.1 hl with rfl | hl
    · exact (hc l rfl k hin).resolve_left hk
    · exact ⟨l, hrest _ hl, hin⟩
  · obtain ⟨l, hl, hmem⟩ := h.stopping hstop k hin (by simp)
    rw [hstack] at hl
    rcases mem_cons.1 hl with rfl | hl
    · exact (hs l rfl k hmem).resolve_left hk
    · exact ⟨l, hrest _ hl, hmem⟩

theorem resume (order : List Nat) : Sound none none (n.resume order) := by
  unfold Node.resume
  split
  · exact h
  · rename_i hstack
    exact h.retop hstack (fun _ hf => hf) (by rintro _ ⟨⟩; simp) (by simp)
  · rename_i id failed _ hstack
    refine Sound.finish (c := some id) (h.retop hstack (fun _ hf => mem_cons_of_mem _ hf) ?_ (by simp)) (.inr rfl)
      (by simp)
    rintro _ ⟨⟩ k hk
    rcases mem_cons.1 hk with rfl | hk
    · exact .inl rfl
    · exact .inr ⟨failed, mem_cons_self, hk⟩
  · rename_i hstack
    exact h.retop hstack (fun _ hf => hf) (by simp) (by rintro _ ⟨⟩; simp)
  · rename_i peer peers _ hstack
    refine Sound.close (s := some peer) (h.retop hstack (fun _ hf => mem_cons_of_mem _ hf) (by simp) ?_) (.inr rfl)
      order
    rintro _ ⟨⟩ k hk
    rcases mem_cons.1 hk with rfl | hk
    · exact .inl rfl
    · exact .inr ⟨peers, mem_cons_self, hk⟩

end

theorem step (n : Node) (a : Action) (h : Sound none none n) : Sound none none (n.step a) := by
  cases a with
  | connect =>
    dsimp only [Node.step, Node.connect]
    split
    · exact h
    · rename_i hopen
      exact h.join (not_or.1 hopen).1 _ _ _
  | listen =>
    dsimp only [Node.step, Node.listen]
    split
    · exact h
    · exact h.accept
  | accepted error => exact h.accepted error
  | call peer route data timeout queued => exact h.call peer route data timeout queued
  | close _ order => exact h.close (.inl rfl) order
  | response session id result =>
    dsimp only [Node.step, Node.receive]
    split
    · exact h
    split
    · exact h
    rename_i hp
    split
    · rename_i hpeer
      refine h.finish (.inl rfl) fun q hq o ho => ?_
      rw [hp] at hq
      rw [← Option.some.inj ho, ← hpeer, Option.some.inj hq]
    · exact h
  | timeout => exact h.finish (.inl rfl) (by simp)
  | stop order => exact h.stop order
  | resume order => exact h.resume order

end Sound

/-! ## Loops end -/

/-- The turns a loop takes at most when so many calls are in the table. -/
def Frame.turns (calls : Nat) : Frame → Nat
  | .lost failed => failed.length + 1
  | .stop peers => peers.length * (calls + 2) + 1

def Node.turns (n : Node) : Nat := (n.stack.map (Frame.turns n.calls.size)).sum

theorem Frame.turns_mono {k m : Nat} (h : k ≤ m) (f : Frame) : f.turns k ≤ f.turns m := by
  cases f with
  | lost => exact le_rfl
  | stop => exact Nat.succ_le_succ (Nat.mul_le_mul_left _ (Nat.add_le_add_right h 2))

theorem turns_finish_le (n : Node) (id : Nat) (result : Result) (origin : Option Nat) :
    (n.finish id result origin).turns ≤ n.turns := by
  unfold Node.finish
  split
  · exact le_rfl
  · exact sum_le_sum fun f _ => f.turns_mono (length_filter_le _ _)

theorem turns_resume (n : Node) (order : List Nat) : (n.resume order).turns ≤ n.turns - 1 := by
  unfold Node.resume
  split
  · rename_i hstack
    simp [Node.turns, hstack]
  · rename_i hstack
    simp [Node.turns, hstack, Frame.turns]
  · rename_i id failed rest hstack
    refine (turns_finish_le _ _ _ _).trans ?_
    simp only [Node.turns, hstack, map_cons, sum_cons, Frame.turns, length_cons]
    omega
  · rename_i hstack
    simp [Node.turns, hstack, Frame.turns]
  · rename_i peer peers rest hstack
    -- closing the session starts a loop over calls of the table
    have hfailed : (arrange order id (n.failed peer)).length ≤ n.calls.size := by
      rw [arrange_perm.length_eq, Node.failed, length_map]
      exact length_filter_le _ _
    unfold Node.close
    split
    · simp only [Node.lost, Node.turns, hstack, map_cons, sum_cons, Frame.turns, length_cons, Nat.succ_mul]
      exact Nat.le_sub_of_add_le (by change (arrange order id (n.failed peer)).length + 1 + _ + 1 ≤ _; omega)
    · simp only [Node.turns, hstack, map_cons, sum_cons, Frame.turns, length_cons, Nat.succ_mul]
      omega

theorem drains (n : Node) (orders : List (List Nat)) (h : n.turns ≤ orders.length) :
    (run Node.step n (orders.map .resume)).stack = [] := by
  induction orders generalizing n with
  | nil =>
    cases hstack : n.stack with
    | nil => exact hstack
    | cons f => cases f <;> simp [Node.turns, hstack, Frame.turns] at h
  | cons order orders ih =>
    refine ih _ ((turns_resume n order).trans ?_)
    rw [length_cons] at h
    omega

/-! ## Replies -/

/-- What a node guarantees of the replies of its calls. -/
structure RepliesOnce (n : Node) : Prop where
  atMostOnce : (n.replies.map Reply.call).Nodup
  /-- A call was replied to unless it is in the table. -/
  exactlyOnce : ∀ c, c ∈ n.replies.map Reply.call ↔
    c < n.made.length ∧ ∀ id p, n.calls.find id = some p → p.reply ≠ c
  /-- A call that a check or a full queue refuses is replied to at once. Any other is in the table. -/
  refused : ∀ peer route data timeout queued,
    let next := n.step (.call peer route data timeout queued)
    n.made.length ∈ next.replies.map Reply.call ∨
      (queued = true ∧ next.calls.find (n.callSerial + 1) = some ⟨peer, n.made.length⟩)
  answered : ∀ session id p result, n.calls.find id = some p → p.peer = session →
    (n.sessions.find session).isSome = true → p.reply ∈ (n.step (.response session id result)).replies.map Reply.call
  timedOut : ∀ id p, n.calls.find id = some p → p.reply ∈ (n.step (.timeout id)).replies.map Reply.call
  /-- Outside of the loops no call waits for a peer that is lost, and none in a node that was stopped. -/
  settled : n.stack = [] → ∀ id p, n.calls.find id = some p →
    n.stopped = false ∧ (n.sessions.find p.peer).isSome = true
  /-- The loops end. -/
  ends : ∃ turns, ∀ orders : List (List Nat), turns ≤ orders.length → (run Node.step n (orders.map .resume)).stack = []
  /-- A response completes a call of its own peer only. -/
  own : ∀ r ∈ n.replies, ∀ session, r.origin = some session → n.made[r.call]? = some session

theorem mem_replies_finish (h : n.calls.find id = some p) (result : Result) (origin : Option Nat) :
    p.reply ∈ (n.finish id result origin).replies.map Reply.call := by
  simp [Node.finish, h, Node.deliver]

theorem Sound.repliesOnce (h : Sound none none n) : RepliesOnce n where
  atMostOnce := (h.places.nodup_iff.2 nodup_range).sublist (sublist_append_left _ _)
  exactlyOnce c := by
    have hnodup := h.places.nodup_iff.2 nodup_range
    rw [← mem_range, ← h.places.mem_iff, mem_append]
    constructor
    · intro hc
      refine ⟨.inl hc, fun id p hp heq => (nodup_append.1 hnodup).2.2 c hc c ?_ rfl⟩
      exact mem_map.2 ⟨(id, p), (n.calls.mem_entries_iff id p).2 hp, heq⟩
    · rintro ⟨hc | hc, hnone⟩
      · exact hc
      · obtain ⟨⟨id, p⟩, he, rfl⟩ := mem_map.1 hc
        exact absurd rfl (hnone id p ((n.calls.mem_entries_iff id p).1 he))
  refused peer route data timeout queued := by
    have hdeliver : ∀ {m : Node} {result}, n.made.length ∈
        (m.deliver n.made.length result none).replies.map Reply.call :=
      mem_cons_self
    dsimp only [Node.step, Node.call]
    split
    · exact .inl hdeliver
    split
    · exact .inl hdeliver
    split
    · exact .inl hdeliver
    split
    · exact .inl hdeliver
    have hentered := OrdMap.find_insert_self n.calls (n.callSerial + 1) ⟨peer, n.made.length⟩
    split
    · rename_i hqueued
      exact .inr ⟨hqueued, hentered⟩
    · exact .inl (mem_replies_finish (p := ⟨peer, n.made.length⟩) hentered _ _)
  answered session id p result hp hpeer hsession := by
    have hopen : ¬(n.sessions.find session).isNone = true := by simpa using Option.isSome_iff_ne_none.1 hsession
    dsimp only [Node.step, Node.receive]
    rw [if_neg hopen, hp]
    dsimp only
    rw [if_pos hpeer]
    exact mem_replies_finish hp _ _
  timedOut id p hp := mem_replies_finish hp _ _
  settled hstack id p hp := by
    have hsession := (h.alive id p hp (by simp)).resolve_right fun ⟨l, hl, _⟩ => by simp [hstack] at hl
    refine ⟨Bool.eq_false_of_not_eq_true fun hstop => ?_, hsession⟩
    obtain ⟨l, hl, -⟩ := h.stopping hstop p.peer hsession (by simp)
    simp [hstack] at hl
  ends := ⟨n.turns, drains n⟩
  own := h.origins

end Fsnet.Calls
