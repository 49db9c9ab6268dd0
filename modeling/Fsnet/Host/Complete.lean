import Fsnet.Host.State
/-!
# Completing a job

Every job ends here, exactly once: it leaves the active jobs, its slot takes
over what the job established about the entity in memory, and the request is
answered.
-/

namespace Fsnet

open Lib

namespace Slot

variable (slot : Slot) (job : Job) (result : Result)

/-- The cached attribute image of a commit. -/
def adopt : Slot :=
  match job.attributes with
  | some attributes =>
    if result.status = .ok then
      { slot with transient := job.transient, residentFence := job.fence,
                  transientRevision := attributes.current.revision }
    else slot
  | none => slot

/-- A commit of protocol state alone carries the cache over a renewed lease. -/
def carry : Slot :=
  if result.status = .ok ∧ job.metadataOnly ∧ job.previouslyOwned then
    { slot with
      residentFence := if slot.residentFence = job.previousFence then job.fence else slot.residentFence
      activationFence :=
        if slot.activated ∧ slot.activationFence = job.previousFence then job.fence else slot.activationFence }
  else slot

/-- Whether the entity stays activated, and under which fence. -/
def settleActivation : Slot :=
  if result.status = .ok ∧ job.metadataOnly = false then { slot with activated := true, activationFence := job.fence }
  else if (job.fence = 0 ∧ job.preserveActivation = false) ∨ job.ownerLost then { slot with activated := false }
  else slot

/-- The cached owner after an operation that succeeded. -/
def settleOwner : Slot :=
  match job.metadata with
  | some metadata => if result.status = .ok then { slot with ownerKey := metadata.ownerConnection } else slot
  | none => slot

def settleResidence : Slot :=
  if result.status = .ok then { slot with residentFence := job.fence } else slot

/-- An entity that is owned elsewhere is no longer resident. -/
def loseOwner : Slot := if job.ownerLost then { slot with residentFence := 0 } else slot

def settle : Slot :=
  let slot := (slot.settleOwner job result).settleResidence job result
  let slot := (slot.settleActivation job result).loseOwner job
  { slot with busy := false, releasing := false }

/-- After a commit whose outcome is unknown nothing in memory is trusted. -/
def invalidate (generation : UInt64) : Slot :=
  { slot with transient := [], residentFence := 0, transientRevision := 0, activated := false, generation }

end Slot

namespace Host

/-- What the cached images take after the job's slot was updated. -/
def releaseTransient (c : Counters) (slot : Option Slot) (job : Job) (result : Result) : Counters :=
  match slot, job.attributes with
  | some slot, some _ =>
    if result.status = .ok then
      { c with transientBytes := c.transientBytes - (slot.transient.length - job.transient.length) }
    else { c with transientBytes := c.transientBytes - job.cacheGrowth }
  | _, _ => { c with transientBytes := c.transientBytes - job.cacheGrowth }

def releaseJob (c : Counters) (job : Job) : Counters :=
  { c with pending := c.pending - 1, queuedBytes := c.queuedBytes - job.request.bytes,
           stateBytes := c.stateBytes - job.resident }

variable (h : Host) (k : EntityKey) (job : Job) (result : Result)

/-- The slot goes, with its cached image. -/
def dropSlot : Host :=
  match h.slots k with
  | none => h
  | some slot =>
    { h with counters := { h.counters with
      transientBytes := h.counters.transientBytes - slot.transient.length } }.eraseSlot k

/-- The effect of a job's end on its slot. -/
def settleSlot : Host :=
  match h.slots k with
  | none => h
  | some slot => h.setSlot k (((slot.adopt job result).carry job result).settle job result)

def invalidateSlot : Host :=
  match h.slots k with
  | none => h
  | some slot =>
    let generation := h.generation + 1
    { h with generation
             counters := { h.counters with
               transientBytes := h.counters.transientBytes - slot.transient.length } }.setSlot k
      (slot.invalidate generation)

def releaseControl : Host :=
  if result.status = .ok ∧ job.request.route.isControl then h.dropSlot k else h

def releaseWrongNode : Host :=
  if job.wrongNode ∧ (h.slots k).any (fun slot => slot.queue.isEmpty) then h.dropSlot k else h

/-- `complete`; `uncertain` is set when the commit ended with a storage exception. -/
def complete (uncertain : Bool := false) : Turn :=
  let counters := releaseJob (releaseTransient h.counters (h.slots k) job result) job
  let h := { h.eraseJob k with counters }
  let h := h.settleSlot k job result
  let h := if uncertain then h.invalidateSlot k else h
  let h := h.releaseControl k job result
  let h := h.releaseWrongNode k job
  ⟨h, [.replied k job result]⟩

end Host

end Fsnet
