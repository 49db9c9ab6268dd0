import Fsnet.Gateway.Machine
/-!
# What a client receives

The packets a client is sent for one subscription, read off the log: the reply
to its watch or the presence that shows the entity first, and then everything
on the attribute channel. A replica follows such a stream if it is continuous.
-/

namespace Fsnet.ClientGateway

open Lib

/-- The header of the update in a packet, if it has one. -/
def updateOf (data : Bytes) : Option ReplicationUpdateHeader :=
  match decodeReplicationPacketView data with
  | .error _ => none
  | .ok packet => packet.update

/-- The packet in a notification. -/
def Channel.packet : Channel → Bytes → Bytes
  | .attributes, data => data
  | .presence, data => data.drop 2

/-- The packet carries the id, as far as eight bytes hold it. -/
def Under (id : Nat) (data : Bytes) : Prop :=
  ∃ packet, decodeReplicationPacketView data = .ok packet ∧ packet.subscription = id % 2 ^ 64

variable {id : Nat} {e : Event} {log : List Event}

theorem Under.remap {data out : Bytes} {packet : ReplicationPacketView}
    (h : decodeReplicationPacketView data = .ok packet) (ho : remapReplicationSubscription data id 0 = .ok out) :
    Under id out :=
  ⟨_, decode_remap h ho, rfl⟩

/-- What an event adds to the stream of a subscription. A presence that shows the
entity counts only while there is nothing in the stream. -/
def Event.header (id : Nat) (started : Bool) : Event → Option ReplicationUpdateHeader
  | .notified _ _ .attributes subscription data => if subscription = id then updateOf data else none
  | .notified _ _ .presence subscription data =>
    if subscription = id ∧ started = false ∧ data.head? = some 1 then updateOf (data.drop 2) else none
  | .replied r _ result _ =>
    if r.subscription.map Subscription.id = some id ∧ result.status = .ok then updateOf result.data else none
  | .refused _ _ => none

/-- The stream of a subscription, newest packet first. -/
def stream (id : Nat) : List Event → List ReplicationUpdateHeader
  | [] => []
  | e :: log =>
    match e.header id (!(stream id log).isEmpty) with
    | none => stream id log
    | some header => header :: stream id log

/-- May a packet follow the one before it: a snapshot that is no older, or a delta to its revision? -/
def follows (previous next : ReplicationUpdateHeader) : Prop :=
  if next.snapshot then previous.revision ≤ next.revision else next.base = previous.revision

/-- A stream, newest packet first, that starts with a snapshot and has no gap. -/
def Continuous : List ReplicationUpdateHeader → Prop
  | [] => True
  | [first] => first.snapshot = true
  | next :: previous :: rest => follows previous next ∧ Continuous (previous :: rest)

theorem stream_cons_none
    (h : e.header id (!(stream id log).isEmpty) = none) : stream id (e :: log) = stream id log := by
  rw [stream, h]

theorem stream_cons_some {header : ReplicationUpdateHeader}
    (h : e.header id (!(stream id log).isEmpty) = some header) : stream id (e :: log) = header :: stream id log := by
  rw [stream, h]

theorem stream_cons_ne_nil (e : Event) (h : stream id log ≠ []) : stream id (e :: log) ≠ [] := by
  cases he : e.header id (!(stream id log).isEmpty) with
  | none => rwa [stream_cons_none he]
  | some =>
    rw [stream_cons_some he]
    exact List.cons_ne_nil _ _

/-- The subscription an event is about. -/
def Event.about : Event → Option Nat
  | .notified _ _ _ subscription _ => some subscription
  | .replied r _ _ _ => r.subscription.map Subscription.id
  | .refused _ _ => none

theorem Event.header_of_about_ne (started : Bool) (h : e.about ≠ some id) : e.header id started = none := by
  cases e with
  | notified _ _ channel subscription =>
    have hne : subscription ≠ id := fun heq => h (by rw [Event.about, heq])
    cases channel <;> simp [Event.header, hne]
  | replied r =>
    have hne : r.subscription.map Subscription.id ≠ some id := h
    simp [Event.header, hne]
  | refused => rfl

theorem stream_cons_of_about_ne (h : e.about ≠ some id) : stream id (e :: log) = stream id log :=
  stream_cons_none (Event.header_of_about_ne _ h)

/-- A subscription no event is about has nothing in its stream. -/
theorem stream_eq_nil (h : ∀ e ∈ log, e.about ≠ some id) : stream id log = [] := by
  induction log with
  | nil => rfl
  | cons _ _ ih =>
    rw [List.forall_mem_cons] at h
    rw [stream_cons_of_about_ne h.1, ih h.2]

/-! ## Requests that were answered -/

/-- The requests that were replied to, newest first. -/
def answered : List Event → List Nat
  | [] => []
  | .replied r _ _ _ :: log => r.id :: answered log
  | .notified _ _ _ _ _ :: log => answered log
  | .refused _ _ :: log => answered log

/-- The requests whose reply is still to be sent. -/
def replying : List Task → List Nat
  | [] => []
  | .reply r _ :: tasks => r.id :: replying tasks
  | _ :: tasks => replying tasks

theorem mem_answered : id ∈ answered log ↔ ∃ r origin result who, .replied r origin result who ∈ log ∧ r.id = id := by
  induction log with
  | nil => simp [answered]
  | cons e _ ih => cases e <;> simp [answered, ih, eq_comm, or_and_right, exists_or]

theorem mem_replying {tasks : List Task} : id ∈ replying tasks ↔ ∃ r result, .reply r result ∈ tasks ∧ r.id = id := by
  induction tasks with
  | nil => simp [replying]
  | cons t _ ih => cases t <;> simp [replying, ih, eq_comm, or_and_right, exists_or]

theorem replying_append (tasks rest : List Task) : replying (tasks ++ rest) = replying tasks ++ replying rest := by
  induction tasks with
  | nil => rfl
  | cons t _ ih => cases t <;> simp [replying, ih]

end Fsnet.ClientGateway
