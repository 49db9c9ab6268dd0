import Fsnet.Lib.Runs
import Fsnet.Node.Session
/-!
# Sessions and an attacker

Any number of honest sessions that share the token, and a network in the hands of an
attacker who does not have it: every frame that reaches a session is one the attacker
delivers, made of anything but proofs that no session ever wrote. Applications know no
other proofs either.
-/

namespace Fsnet.Node

open Lib

structure Network where
  sessions : List Session := []
  /-- how many nonces were drawn -/
  nonces : Nat := 0

def Block.isMac : Block → Bool
  | .mac _ _ _ => true
  | _ => false

/-- What the sessions, the attacker and the applications do. -/
inductive Action where
  | accept (limits : Limits)
  | connect (limits : Limits)
  | ready (i : Nat) (random : Bool)
  | deliver (i : Nat) (f : Frame) (o : Answers)
  | sent (i : Nat) (error : Bool)
  | call (i : Nat) (id : Nat) (route : Bytes) (data : Data)
  | notify (i : Nat) (channel : Bytes) (data : Data)
  | reply (i : Nat) (call : Nat) (status : Status) (data : Data)
  | close (i : Nat)

def Event.shows (b : Block) : Event → Bool
  | .wrote f => f.data.content.contains b
  | _ => false

namespace Network

/-- Did some session write a frame with the block? -/
def wrote (n : Network) (b : Block) : Bool := n.sessions.any fun s => s.log.any (Event.shows b)

/-- Can the data be had without the token? -/
def producible (n : Network) (d : Data) : Bool := d.content.all fun b => !b.isMac || n.wrote b

/-- The session does something. -/
def act (n : Network) (i : Nat) (f : Session → Session) : Network :=
  match n.sessions[i]? with
  | none => n
  | some s => { n with sessions := n.sessions.set i (f s) }

/-- A nonce is drawn for the session, whether it needs one or not. -/
def draw (n : Network) (i : Nat) (f : Nat → Session → Session) : Network :=
  { n.act i (f n.nonces) with nonces := n.nonces + 1 }

def step (n : Network) : Action → Network
  | .accept limits => { n with sessions := n.sessions ++ [{ server := true, limits, authentication := .clientProof }] }
  | .connect limits => { n with sessions := n.sessions ++ [{ server := false, limits, authentication := .challenge }] }
  | .ready i random => n.draw i fun nonce s => if s.active then s else s.ready nonce random
  | .deliver i f o => if n.producible f.data then n.draw i fun nonce s => s.receive o nonce f else n
  | .sent i error => n.act i fun s => s.sent error
  | .call i id route data =>
    if n.producible data then n.act i fun s => (s.enqueue (frame 1 .ok id route data) false).1 else n
  | .notify i channel data =>
    if n.producible data then n.act i fun s => (s.enqueue (frame 3 .ok 0 channel data) false).1 else n
  | .reply i call status data =>
    if n.producible data then n.act i fun s => s.reply call status data else n
  | .close i => n.act i Session.close

end Network

end Fsnet.Node
