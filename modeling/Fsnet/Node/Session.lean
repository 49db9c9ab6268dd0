import Fsnet.Entity.Identity
/-!
# Sessions of a node

`Node::Impl::Session`: the handshake that authenticates both ends of a connection
by the shared token, the two queues of frames that wait to be written, and the
frames that are received. Values of thirty-two bytes are symbolic: an HMAC is the
term of what it was computed from, so that it cannot come from anywhere else.
-/

namespace Fsnet.Node

open Lib

/-- Thirty-two bytes: random ones drawn by a session, ones somebody made up, or an HMAC
under the token for a role and a pair of nonces. -/
inductive Block where
  | random (n : Nat)
  | made (bytes : Bytes)
  | mac (server : Bool) (serverNonce clientNonce : Block)
  deriving DecidableEq, Repr

abbrev Nonce := { bytes : Bytes // bytes.length = 32 }

/-- `authentication_proof`: what the HMAC is computed from. -/
def transcript (server : Bool) (serverNonce clientNonce : Nonce) : Bytes :=
  (if server then ascii "fsnet/node/v2/auth/server" else ascii "fsnet/node/v2/auth/client") ++
    serverNonce.1 ++ clientNonce.1

/-- The role and both nonces can be read off what the HMAC is computed from, so that an
HMAC can be taken for the term of them. -/
theorem transcript_injective : Function.Injective fun p : Bool × Nonce × Nonce => transcript p.1 p.2.1 p.2.2 := by
  rintro ⟨server, a, b⟩ ⟨server', a', b'⟩ h
  let domain (r : Bool) : Bytes := if r then ascii "fsnet/node/v2/auth/server" else ascii "fsnet/node/v2/auth/client"
  have hlength : ∀ r r', (domain r).length = (domain r').length := by decide
  have hdomain : ∀ r r', domain r = domain r' → r = r' := by decide
  have happend : domain server ++ (a.1 ++ b.1) = domain server' ++ (a'.1 ++ b'.1) := by
    rw [← List.append_assoc, ← List.append_assoc]
    exact h
  obtain ⟨hr, hnonces⟩ := List.append_inj happend (hlength server server')
  obtain ⟨ha, hb⟩ := List.append_inj hnonces (by rw [a.2, a'.2])
  rw [hdomain server server' hr, Subtype.ext ha, Subtype.ext hb]

/-- The data of a frame: bytes, or a byte that is followed by blocks. -/
inductive Data where
  | bytes (data : Bytes)
  | blocks (label : UInt8) (content : List Block)
  deriving DecidableEq, Repr

namespace Data

def size : Data → Nat
  | .bytes data => data.length
  | .blocks _ content => 1 + 32 * content.length

def label : Data → Option UInt8
  | .bytes data => data.head?
  | .blocks label _ => some label

/-- The block of that number after the first byte. -/
def block (i : Nat) : Data → Block
  | .bytes data => .made ((data.drop (1 + 32 * i)).take 32)
  | .blocks _ content => content.getD i (.made [])

def content : Data → List Block
  | .bytes _ => []
  | .blocks _ content => content

end Data

structure Frame where
  version : Nat := 2
  kind : Nat
  code : Nat
  reserved : Nat := 0
  call : Nat
  route : Bytes
  data : Data
  deriving DecidableEq, Repr

/-- The body of the frame is preceded by its size. -/
def Frame.bodySize (f : Frame) : Nat := 14 + f.route.length + f.data.size

def Frame.size (f : Frame) : Nat := 4 + f.bodySize

def frame (kind : Nat) (status : Status) (id : Nat) (route : Bytes) (data : Data) : Frame :=
  { kind, code := status.code, call := id, route, data }

/-- Frames of the handshake are of kind 0. -/
def Frame.isApplication (f : Frame) : Bool := f.kind ≠ 0

inductive Authentication where
  | challenge
  | clientProof
  | serverProof
  | complete
  deriving DecidableEq, Repr

structure Limits where
  frameBytes : Nat := 1024 * 1024
  queuedBytes : Nat := 4 * 1024 * 1024
  inflightRequests : Nat := 128

def authenticationQueueReserve : Nat := 2 * (18 + 65)

/-- What a session did. -/
inductive Event where
  | wrote (f : Frame)
  | dispatched (f : Frame)
  | proved (server : Bool) (serverNonce clientNonce : Block)
  | accepted (serverNonce clientNonce : Block)
  | authenticated
  deriving DecidableEq, Repr

structure Session where
  server : Bool
  limits : Limits := {}
  closed : Bool := false
  active : Bool := false
  authenticated : Bool := false
  authentication : Authentication
  serverNonce : Block := .made (List.replicate 32 0)
  clientNonce : Block := .made (List.replicate 32 0)
  queued : Nat := 0
  /-- the calls of requests that are being handled -/
  inflight : List Nat := []
  output : List Frame := []
  authenticationOutput : List Frame := []
  /-- the frame that is being sent, and whether it is of the handshake -/
  writing : Option (Bool × Frame) := none
  -- what the session did, newest first, and the number of the nonce it drew
  log : List Event := []
  drew : Option Nat := none

/-- What the libraries and the application answer while a frame is received. -/
structure Answers where
  random : Bool := true
  hmac : Bool := true
  /-- a call of the session waits for the reply -/
  pending : Bool := true
  authorized : Bool := true
  /-- the session was closed or the node stopped meanwhile -/
  interrupted : Bool := false
  listening : Bool := true
  throws : Bool := false
  bound : Bool := true
  permitted : Bool := true

namespace Session

variable (o : Answers) (s : Session) (nonce : Nat) (data : Data)

def record (e : Event) : Session := { s with log := e :: s.log }

def close : Session :=
  if s.closed then s else { s with closed := true, output := [], authenticationOutput := [], queued := 0 }

/-- Start to send the next frame; the handshake goes first, and only it before the session is authenticated. -/
def write : Session :=
  if s.closed ∨ s.writing.isSome then s
  else
    match s.authenticationOutput with
    | f :: _ => { s with writing := some (true, f) }.record (.wrote f)
    | [] =>
      if s.authenticated then
        match s.output with
        | f :: _ => { s with writing := some (false, f) }.record (.wrote f)
        | [] => s
      else s

/-- The frame was sent, or could not be. -/
def sent (error : Bool) : Session :=
  match s.writing with
  | none => s
  | some (handshake, f) =>
    if s.closed then s
    else if error then s.close
    else
      let s := { s with queued := s.queued - f.size, writing := none }
      if handshake then { s with authenticationOutput := s.authenticationOutput.tail }.write
      else { s with output := s.output.tail }.write

/-- Is there no room for the frame? Frames of the application leave room for the handshake. -/
def overfull (f : Frame) (handshake : Bool) : Bool :=
  let reserved := if !handshake && !s.authenticated then authenticationQueueReserve else 0
  reserved > s.limits.queuedBytes || s.queued > s.limits.queuedBytes - reserved ||
    f.size > s.limits.queuedBytes - reserved - s.queued

/-- `enqueue`. Says whether the frame was queued. -/
def enqueue (f : Frame) (handshake : Bool) : Session × Bool :=
  if s.closed || s.overfull f handshake then (s, false)
  else
    let s := { s with queued := s.queued + f.size }
    let s := if handshake then { s with authenticationOutput := s.authenticationOutput ++ [f] }
      else { s with output := s.output ++ [f] }
    (if s.active then s.write else s, true)

/-- Queue the frame or close the session. -/
def respond (f : Frame) (handshake : Bool) : Session :=
  let queued := s.enqueue f handshake
  if queued.2 then queued.1 else queued.1.close

/-- The connection is there. A server sends its challenge. -/
def ready (random : Bool) : Session :=
  if s.closed then s
  else
    let s := { s with active := true }
    if s.authentication = .clientProof then
      if random then
        let s := { s with serverNonce := .random nonce, drew := some nonce }
        let queued := s.enqueue (frame 0 .ok 0 [] (.blocks 1 [.random nonce])) true
        if queued.2 then queued.1.write else queued.1.close
      else s.close
    else s.write

/-! ## The handshake -/

/-- The client answers the challenge with its own nonce and a proof. -/
def answerChallenge : Session :=
  if data.size ≠ 33 ∨ data.label ≠ some 1 then s.close
  else
    let s := { s with serverNonce := data.block 0 }
    if o.random then
      let s := { s with clientNonce := .random nonce, drew := some nonce }
      if o.hmac then
        let s := { s with authentication := .serverProof }.record (.proved false s.serverNonce s.clientNonce)
        s.respond (frame 0 .ok 0 [] (.blocks 2 [s.clientNonce, .mac false s.serverNonce s.clientNonce])) true
      else s.close
    else s.close

/-- The server accepts the pair of nonces and makes its own proof for it. -/
def acceptPair : Session :=
  (s.record (.accepted s.serverNonce s.clientNonce)).record (.proved true s.serverNonce s.clientNonce)

def authenticate : Session :=
  { s with authentication := .complete, authenticated := true }.record .authenticated

/-- The server checks the proof of the client and answers with its own. -/
def checkClient : Session :=
  if data.size ≠ 65 ∨ data.label ≠ some 2 then s.close
  else
    let s := { s with clientNonce := data.block 0 }
    if o.hmac ∧ data.block 1 = .mac false s.serverNonce s.clientNonce then
      let s := s.acceptPair
      let queued := s.enqueue (frame 0 .ok 0 [] (.blocks 3 [.mac true s.serverNonce s.clientNonce])) true
      if queued.2 then queued.1.authenticate.write else queued.1.close
    else s.close

/-- The client checks the proof of the server. -/
def checkServer : Session :=
  if data.size ≠ 33 ∨ data.label ≠ some 3 then s.close
  else if o.hmac ∧ data.block 0 = .mac true s.serverNonce s.clientNonce then
    s.authenticate.write
  else s.close

def handshake (f : Frame) : Session :=
  if f.kind ≠ 0 ∨ f.call ≠ 0 ∨ f.route ≠ [] ∨ f.code ≠ 0 then s.close
  else
    match s.authentication with
    | .challenge => s.answerChallenge o nonce f.data
    | .clientProof => s.checkClient o f.data
    | .serverProof => s.checkServer o f.data
    | .complete => s.close

/-! ## Frames of the application -/

def notified (f : Frame) : Session :=
  if f.call ≠ 0 ∨ f.code ≠ 0 ∨ f.route = [] ∨ f.route.contains 0 then s.close
  else
    let s := s.record (.dispatched f)
    if o.authorized = false then s.close
    else if o.interrupted then s
    else if o.listening ∧ o.throws then s.close
    else s

def requested (f : Frame) : Session :=
  let reply (status : Status) : Frame := frame 2 status f.call [] (.bytes [])
  if f.kind ≠ 1 ∨ f.call = 0 ∨ f.route = [] ∨ f.route.contains 0 ∨ f.code ≠ 0 then s.close
  else if s.inflight.length ≥ s.limits.inflightRequests then s.respond (reply .overloaded) false
  else
    let s := s.record (.dispatched f)
    if o.authorized = false then s.respond (reply .rejected) false
    else if o.interrupted then s
    else if o.bound = false then s.respond (reply .notFound) false
    else if o.permitted = false then s.respond (reply .rejected) false
    else { s with inflight := f.call :: s.inflight }

/-- A frame of an authenticated session. -/
def dispatch (f : Frame) : Session :=
  if f.kind = 2 ∧ f.route = [] ∧ f.call ≠ 0 then
    if o.pending then s.record (.dispatched f) else s
  else if f.kind = 3 then s.notified o f
  else s.requested o f

/-- The reply to a request; data that does not fit a frame is replaced. -/
def reply (call : Nat) (status : Status) (data : Data) : Session :=
  if s.closed ∨ call ∉ s.inflight then s
  else
    let f := if data.size > s.limits.frameBytes - 14 then frame 2 .overloaded call [] (.bytes [])
      else frame 2 status call [] data
    { s with inflight := s.inflight.erase call }.respond f false

/-- `read_header`: may a frame of this size be read? Before the session is authenticated it has the
size of its proof. -/
def admissible (f : Frame) : Bool :=
  f.bodySize ≤ s.limits.frameBytes &&
    (s.authenticated || f.bodySize = 14 + (if s.authentication = .clientProof then 65 else 33))

/-- `receive`. -/
def receive (f : Frame) : Session :=
  if s.closed ∨ s.active = false then s
  else if s.admissible f = false then s.close
  else if f.version ≠ 2 ∨ f.reserved ≠ 0 ∨ f.code > Status.code .internal ∨ f.route.length > 256 then s.close
  else if s.authenticated then s.dispatch o f
  else s.handshake o nonce f

/-! ## On the way through the handshake -/

/-- A server that drew its nonce. -/
abbrev challenging (nonce : Nat) : Session :=
  { s with active := true, serverNonce := .random nonce, drew := some nonce }

/-- A client that drew its nonce and made its proof. -/
abbrev responding (data : Data) (nonce : Nat) : Session :=
  { s with
    serverNonce := data.block 0, clientNonce := .random nonce, drew := some nonce,
    authentication := .serverProof }.record (.proved false (data.block 0) (.random nonce))

/-- A server that found the proof of the client. -/
abbrev accepting (data : Data) : Session :=
  acceptPair { s with clientNonce := data.block 0 }

/-! ## What is kept -/

section

variable {o s nonce} {I : Session → Prop} (h : I s) {f : Frame}
include h

theorem enqueue_keeps {handshake : Bool}
    (hpush : s.overfull f handshake = false → I (if handshake then
        { s with queued := s.queued + f.size, authenticationOutput := s.authenticationOutput ++ [f] }
      else { s with queued := s.queued + f.size, output := s.output ++ [f] }))
    (hwrite : ∀ t, I t → I t.write) : I (s.enqueue f handshake).1 := by
  unfold enqueue
  split
  · exact h
  rename_i hopen
  rw [Bool.or_eq_true, not_or, Bool.not_eq_true, Bool.not_eq_true] at hopen
  have hpushed := hpush hopen.2
  have hwritten : ∀ t, I t → I (if t.active then t.write else t) := by
    intro t ht
    split
    · exact hwrite t ht
    · exact ht
  cases handshake <;> exact hwritten _ hpushed

/-- An invariant that calls and replies keep is kept by a frame of the application. -/
theorem dispatch_keeps (hd : I (s.record (.dispatched f))) (hclose : ∀ t, I t → I t.close)
    (hrespond : ∀ t status, I t → I (t.respond (frame 2 status f.call [] (.bytes [])) false))
    (hcall : ∀ t inflight, I t → I { t with inflight }) : I (s.dispatch o f) := by
  unfold dispatch notified requested
  split
  · split
    · exact hd
    · exact h
  split
  · split
    · exact hclose _ h
    dsimp only
    split
    · exact hclose _ hd
    split
    · exact hd
    · split
      · exact hclose _ hd
      · exact hd
  dsimp only
  split
  · exact hclose _ h
  split
  · exact hrespond _ _ h
  split
  · exact hrespond _ _ hd
  split
  · exact hd
  split
  · exact hrespond _ _ hd
  split
  · exact hrespond _ _ hd
  · exact hcall _ _ hd

theorem receive_keeps (hclose : I s.close) (hd : s.authenticated = true → I (s.dispatch o f))
    (hh : s.closed = false → s.active = true → match s.authentication with
      | .challenge => I (s.answerChallenge o nonce f.data)
      | .clientProof => I (s.checkClient o f.data)
      | .serverProof => I (s.checkServer o f.data)
      | .complete => True) : I (s.receive o nonce f) := by
  unfold receive
  split
  · exact h
  rename_i hopen
  rw [not_or, Bool.not_eq_true, Bool.not_eq_false] at hopen
  have hphase := hh hopen.1 hopen.2
  split
  · exact hclose
  split
  · exact hclose
  split
  · rename_i ha
    exact hd ha
  unfold handshake
  split
  · exact hclose
  cases hp : s.authentication with
  | complete => exact hclose
  | _ =>
    rw [hp] at hphase
    exact hphase

end

end Session

end Fsnet.Node
