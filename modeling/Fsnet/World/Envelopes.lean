import Fsnet.World.Requests
/-!
# What the delivery workers know

A worker reads an envelope in the outbox of a source, carries it to its target
and carries the target's answer back. Every delivery and every acknowledgement
a host is asked for goes back to such a read.
-/

namespace Fsnet

open Lib List

variable {hash : Bytes → Bytes} {limits : HostId → RuntimeLimits} {host : HostId} {k : EntityKey} {j : Job}
  {w w' : World} {r : Request} {e : DeliveryEnvelope}

/-! ## What a step adds -/

/-- The job was answered, and its delivery with it. -/
def AnsweredIn (news : List Event) (p : DeliveryEnvelope × Result) : Prop :=
  ∃ host k j, .host host (.replied k j p.2) ∈ news ∧ j.request.incoming = some p.1

/-- What a step adds to the envelopes and the answers. -/
structure Carried (w w' : World) : Prop where
  envelopes : ∀ e ∈ w'.envelopes, e ∈ w.envelopes ∨ ReadFrom w e
  answers : ∀ p ∈ w'.answers, p ∈ w.answers ∨ AnsweredIn w'.trace p

theorem answersOf_mem {events : List HostEvent} {p : DeliveryEnvelope × Result} (hp : p ∈ answersOf events) :
    ∃ k j, .replied k j p.2 ∈ events ∧ j.request.incoming = some p.1 := by
  induction events with
  | nil => cases hp
  | cons event rest ih =>
    have hrest : p ∈ answersOf rest → ∃ k j, .replied k j p.2 ∈ event :: rest ∧ j.request.incoming = some p.1 := by
      intro hp
      obtain ⟨k, j, hmem, hin⟩ := ih hp
      exact ⟨k, j, mem_cons_of_mem _ hmem, hin⟩
    cases event with
    | replied k j result =>
      unfold answersOf at hp
      split at hp
      · rename_i he
        rcases mem_cons.1 hp with rfl | hp
        · exact ⟨k, j, mem_cons_self, he⟩
        · exact hrest hp
      · exact hrest hp
    | checked | started | scheduled => exact hrest hp

theorem step_carried (hash : Bytes → Bytes) (w : World) (action : Action) : Carried w (w.step hash action) := by
  generalize hw : w.step hash action = w'
  cases hw ▸ step_mail hash w action with
  | keep he ha => exact ⟨fun _ h => .inl (he ▸ h), fun _ h => .inl (ha ▸ h)⟩
  | play host _ hplay =>
    subst hplay
    refine ⟨fun _ h => .inl h, fun p hp => ?_⟩
    rcases mem_append.1 hp with hp | hp
    · obtain ⟨k, j, hmem, hin⟩ := answersOf_mem hp
      exact .inr ⟨host, k, j, mem_append_left _ (mem_reverse.2 (mem_map_of_mem hmem)), hin⟩
    · exact .inl hp
  | read _ hr he ha =>
    refine ⟨fun _ h => ?_, fun _ h => .inl (ha ▸ h)⟩
    rcases mem_cons.1 (he ▸ h) with rfl | h
    · exact .inr hr
    · exact .inl h

/-! ## Deliveries and acknowledgements that were asked for -/

theorem Requested.incoming (hr : Requested hash w host k r) (hin : r.incoming = some e) :
    e ∈ w.envelopes ∧ k = ⟨e.message.type, e.message.id⟩ := by
  obtain ⟨_, _, _, hc, hk, henv, -, hcar⟩ := hr.carries
  rw [hcar.incoming] at hin
  obtain ⟨hmem, hroute, hid⟩ := hc.wellformed.incoming e hin
  rw [hk, hroute, hid]
  exact ⟨henv hmem, rfl⟩

theorem Requested.ack {ack : DeliveryAck} (hr : Requested hash w host k r) (hack : r.ack = some ack) :
    ∃ e result, (e, result) ∈ w.answers ∧ result.status = .ok ∧ ack.epoch = e.sourceEpoch ∧
      ack.ticket = e.message.ticket ∧ decodeDeliveryAck result.data = .ok (ack.ticket, ack.result) ∧
      k = ⟨e.sourceType, e.sourceId⟩ := by
  obtain ⟨_, _, _, hc, hk, -, hans, hcar⟩ := hr.carries
  rw [hcar.ack] at hack
  obtain ⟨e, result, hmem, hok, hepoch, hticket, hdecode, hroute, hid⟩ := hc.wellformed.ack ack hack
  refine ⟨e, result, hans hmem, hok, hepoch, hticket, hdecode, ?_⟩
  rw [hk, hroute, hid]

/-! ## Runs -/

/-- Every answer is in the trace, and answers an envelope that was read. -/
structure Delivering (w : World) : Prop where
  answered : ∀ p ∈ w.answers, AnsweredIn w.trace p
  known : ∀ p ∈ w.answers, p.1 ∈ w.envelopes

theorem delivering_step (w : World) (action : Action) (ht : Traced hash limits w ∧ Attributed hash w)
    (h : Delivering w) : Delivering (w.step hash action) := by
  have hcarried := step_carried hash w action
  obtain ⟨_, htrace, -⟩ := step_view hash w action
  have hanswered : ∀ p ∈ (w.step hash action).answers, AnsweredIn (w.step hash action).trace p := by
    intro p hp
    rcases hcarried.answers p hp with hold | hnew
    · obtain ⟨host, k, j, hmem, hin⟩ := h.answered p hold
      exact ⟨host, k, j, by rw [htrace]; exact mem_append_right _ hmem, hin⟩
    · exact hnew
  refine ⟨hanswered, fun p hp => ?_⟩
  obtain ⟨host, k, j, hmem, hin⟩ := hanswered p hp
  exact ((attributed_step w action ht).events _ hmem host k j rfl rfl).incoming hin |>.1

variable (hash limits) in
/-- Everything in the state and the trace is explained: records and jobs, requests, deliveries. -/
structure Explained (w : World) : Prop where
  traced : Traced hash limits w
  attributed : Attributed hash w
  delivering : Delivering w

variable (hash limits) in
theorem explained_init :
    Explained hash limits (World.init limits) :=
  ⟨traced_init hash limits, attributed_init hash limits, fun _ hp => (nomatch hp), fun _ hp => (nomatch hp)⟩

theorem explained_step (w : World) (action : Action) (h : Explained hash limits w) :
    Explained hash limits (w.step hash action) where
  traced := traced_step w action h.traced
  attributed := attributed_step w action ⟨h.traced, h.attributed⟩
  delivering := delivering_step w action ⟨h.traced, h.attributed⟩ h.delivering

/-- An invariant whose step may use the explanations. -/
theorem explained_inv {I : World → Prop} (hinit : I (World.init limits))
    (hstep : ∀ w action, Explained hash limits w → I w → I (World.step hash w action)) (actions : List Action) :
    Explained hash limits (run (World.step hash) (World.init limits) actions) ∧
      I (run (World.step hash) (World.init limits) actions) := by
  refine run_inv (I := fun w => Explained hash limits w ∧ I w) (fun w action h => ?_)
    ⟨explained_init hash limits, hinit⟩
    actions
  exact ⟨explained_step w action h.1, hstep w action h.1 h.2⟩

end Fsnet
