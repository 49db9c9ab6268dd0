import Fsnet.Entity.Frame
import Fsnet.Lib.Cas
import Fsnet.Lib.Runs
/-!
# Entity ids

Any number of allocators hand out entity ids from one sequence. Each reserves a
block of ids by raising the stored high-water mark, and then serves calls from
its block without touching the store. A call may lose the race for the record,
the store may fail before or after it has written, and a process may end at any
point and take the rest of its block with it.

Every id a call returns lies under the mark and in no block, and the blocks lie
under the mark and apart from each other. That is the invariant everything here
follows from.
-/

namespace Fsnet

open Lib List Function

/-! ## The allocator -/

def maxId : UInt64 := 0xffffffffffffffff

/-- The block sizes the constructor does not refuse. -/
structure BlockSize where
  size : UInt64
  ok : size ≠ 0 ∧ size ≤ 1048576

/-- Where a call of `allocate` is between its accesses to the store. -/
inductive AllocateStage where
  | idle
  /-- It reads the record for the given attempt. -/
  | reading (attempt : Nat)
  /-- It swaps in the mark that reserves `count` ids above `high`. -/
  | swapping (attempt : Nat) (expected high count : UInt64)

/-- An allocator with the call it is working on; its mutex admits one. -/
structure EntityIdAllocator where
  blockSize : BlockSize
  next : UInt64 := 0
  remaining : UInt64 := 0
  stage : AllocateStage := .idle

def encodeHigh (high : UInt64) : Bytes := ascii "FEI1" ++ integer high

def decodeHigh (input : Bytes) : Except Failure UInt64 := do
  refuseIf (input.length ≠ 12 ∨ ¬(ascii "FEI1").isPrefixOf input) (.runtime "corrupt identity allocator")
  let (high, _) ← readInteger (input.drop 4)
  pure high

/-- The high-water mark of a stored record; there are no ids before the first one. -/
def highOf : Option (Cell Bytes) → Except Failure UInt64
  | none => pure 0
  | some cell => decodeHigh cell.value

/-- The constructor of an id. -/
def entityId (value : UInt64) : Except Failure UInt64 := do
  refuseIf (value = 0) (.invalid "zero entity identity")
  pure value

namespace EntityIdAllocator

/-- The record was read: the block to reserve above its mark. -/
def plan (allocator : EntityIdAllocator) (attempt : Nat) (previous : Option (Cell Bytes)) :
    Except Failure AllocateStage := do
  let high ← highOf previous
  refuseIf (high = maxId) (.overflow "entity identities exhausted")
  let count := min allocator.blockSize.size (maxId - high)
  pure (.swapping attempt ((previous.map Cell.version).getD 0) high count)

/-- The next id of the block. -/
def take (allocator : EntityIdAllocator) : EntityIdAllocator × Except Failure UInt64 :=
  match entityId allocator.next with
  | .error e => ({ allocator with stage := .idle }, .error e)
  | .ok id =>
    let remaining := allocator.remaining - 1
    ({ allocator with
        remaining, next := if remaining ≠ 0 then allocator.next + 1 else allocator.next, stage := .idle }, .ok id)

/-- The ids it has reserved and not yet handed out. -/
def Reserves (allocator : EntityIdAllocator) (id : UInt64) : Prop :=
  allocator.next.toNat ≤ id.toNat ∧ id.toNat < allocator.next.toNat + allocator.remaining.toNat

end EntityIdAllocator

/-! ## Allocators that share a store -/

structure Allocation where
  sequence : Store Unit Bytes
  allocators : Nat → EntityIdAllocator
  /-- How every call ended, newest first. -/
  outcomes : List (Nat × Except Failure UInt64)

inductive AllocationAction where
  /-- A process constructs an allocator; what it had before is lost. -/
  | start (n : Nat) (blockSize : BlockSize)
  | call (n : Nat)
  /-- The call makes its next access to the store. -/
  | access (n : Nat) (fault : Store.Fault) (version : UInt64)

namespace Allocation

variable (s : Allocation) (n : Nat) (fault : Store.Fault)

def set (allocator : EntityIdAllocator) : Allocation :=
  { s with allocators := update s.allocators n allocator }

/-- A call ends. -/
def finish (r : EntityIdAllocator × Except Failure UInt64) : Allocation :=
  { s.set n r.1 with outcomes := (n, r.2) :: s.outcomes }

/-- A call ends with an exception. -/
def fail (allocator : EntityIdAllocator) (failure : Failure) : Allocation :=
  s.finish n ({ allocator with stage := .idle }, .error failure)

def storageFailure : Failure := .runtime "storage operation failed"

def call : Allocation :=
  let allocator := s.allocators n
  match allocator.stage with
  | .idle =>
    if allocator.remaining = 0 then s.set n { allocator with stage := .reading 0 } else s.finish n allocator.take
  | _ => s

def read (attempt : Nat) : Allocation :=
  let allocator := s.allocators n
  if fault ≠ .none then s.fail n allocator storageFailure
  else
    match allocator.plan attempt (s.sequence ()).get with
    | .error e => s.fail n allocator e
    | .ok stage => s.set n { allocator with stage }

/-- The mark is swapped in, or another allocator was faster. -/
def reserve (version : UInt64) (attempt : Nat)
    (expected high count : UInt64) : Allocation :=
  let allocator := s.allocators n
  match s.sequence.swap () expected (encodeHigh (high + count)) version fault with
  | none => s
  | some (sequence, swapped, threw) =>
    let s := { s with sequence }
    if threw then s.fail n allocator storageFailure
    else if swapped then s.finish n { allocator with next := high + 1, remaining := count }.take
    else if attempt + 1 < 128 then s.set n { allocator with stage := .reading (attempt + 1) }
    else s.fail n allocator (.runtime "entity identity allocation contention")

def access (version : UInt64) : Allocation :=
  match (s.allocators n).stage with
  | .idle => s
  | .reading attempt => s.read n fault attempt
  | .swapping attempt expected high count => s.reserve n fault version attempt expected high count

def step : AllocationAction → Allocation
  | .start n blockSize => s.set n { blockSize }
  | .call n => s.call n
  | .access n fault version => s.access n fault version

/-- Allocators that have just been constructed, over whatever the store holds. -/
def init (sequence : Store Unit Bytes) (blockSizes : Nat → BlockSize) : Allocation where
  sequence
  allocators n := { blockSize := blockSizes n }
  outcomes := []

@[simp] theorem set_self (a : EntityIdAllocator) : (s.set n a).allocators n = a :=
  update_self ..

theorem set_of_ne {m n : Nat} (h : m ≠ n) (a : EntityIdAllocator) :
    (s.set n a).allocators m = s.allocators m :=
  update_of_ne h _ _

@[simp] theorem finish_allocators (r : EntityIdAllocator × Except Failure UInt64) :
    (s.finish n r).allocators = (s.set n r.1).allocators := rfl

/-- The ids that calls have returned, newest first. -/
def ids : List UInt64 := s.outcomes.filterMap fun o => o.2.toOption

/-- The stored mark. -/
def high : Except Failure UInt64 := highOf (s.sequence ()).get

end Allocation

/-! ## The record -/

theorem decodeHigh_encodeHigh (high : UInt64) : decodeHigh (encodeHigh high) = .ok high := by
  have htag : (ascii "FEI1").length = 4 := by decide
  have hdrop : (encodeHigh high).drop 4 = integer high ++ [] := by
    rw [encodeHigh, ← htag, drop_left, append_nil]
  unfold decodeHigh
  rw [refuseIf_of_not, ok_bind, hdrop, readInteger_wire]
  · rfl
  · rintro (hl | hp)
    · exact hl (by simp [encodeHigh, integer, htag])
    · exact hp ( isPrefixOf_iff_prefix.2 ⟨_, rfl⟩)

theorem entityId_eq_ok {value id : UInt64} : entityId value = .ok id ↔ value ≠ 0 ∧ id = value := by
  unfold entityId
  rw [refuseIf_bind_eq_ok, pure_ok_iff, eq_comm (a := value) (b := id)]

/-- The mark an allocator read belongs to the version it expects: the newest cell, as long as the version is current. -/
def Observed (sequence : Store Unit Bytes) (expected high : UInt64) : Prop :=
  (expected = 0 ∧ high = 0) ∨ ∃ c ∈ (sequence ()).cells, c.version = expected ∧ decodeHigh c.value = .ok high

theorem Observed.current {sequence : Store Unit Bytes} {expected high : UInt64} (h : Observed sequence expected high)
    (hv : (sequence ()).version = expected) : highOf (sequence ()).get = .ok high := by
  rcases h with ⟨rfl, rfl⟩ | ⟨c, hc, rfl, hd⟩
  · rw [Register.get_of_version_eq_zero hv]
    rfl
  · rw [Register.get_of_version hc hv]
    exact hd

theorem Observed.mono {s t : Store Unit Bytes} {expected high : UInt64} (hg : (s ()).Extends (t ()))
    (h : Observed s expected high) : Observed t expected high := by
  rcases h with h | ⟨c, hc, hrest⟩
  · exact .inl h
  · exact .inr ⟨c, hg.mem hc, hrest⟩

theorem observed_get {sequence : Store Unit Bytes} {high : UInt64} (h : highOf (sequence ()).get = .ok high) :
    Observed sequence (((sequence ()).get.map Cell.version).getD 0) high := by
  cases hg : (sequence ()).get with
  | none =>
    rw [hg] at h
    exact .inl ⟨rfl, (Except.ok.inj h).symm⟩
  | some c =>
    rw [hg] at h
    exact .inr ⟨c, Register.mem_of_get hg, rfl, h⟩

/-! ## Blocks and ids under a mark -/

namespace Allocation

/-- Every id that was returned lies under the mark and in no block; the blocks lie under the mark and apart. -/
structure Blocks (bound : Nat) (s : Allocation) : Prop where
  block : ∀ n, (s.allocators n).remaining ≠ 0 →
    0 < (s.allocators n).next.toNat ∧ (s.allocators n).next.toNat + (s.allocators n).remaining.toNat ≤ bound + 1
  apart : ∀ m n id, (s.allocators m).Reserves id → (s.allocators n).Reserves id → m = n
  fresh : ∀ id ∈ s.ids, 0 < id.toNat ∧ id.toNat ≤ bound ∧ ∀ n, ¬(s.allocators n).Reserves id
  nodup : s.ids.Nodup

variable {s s' : Allocation} {bound : Nat} {n : Nat} {allocator : EntityIdAllocator}

theorem Reserves.remaining {a : EntityIdAllocator} {id : UInt64} (h : a.Reserves id) : a.remaining ≠ 0 := by
  rintro h0
  have hlt := h.2
  rw [h0] at hlt
  exact absurd (lt_of_lt_of_le hlt (le_of_eq (Nat.add_zero _))) (not_lt.2 h.1)

theorem Blocks.mono {bound' : Nat} (hb : Blocks bound s) (hm : bound ≤ bound') : Blocks bound' s where
  block n hn := ⟨(hb.block n hn).1, le_trans (hb.block n hn).2 (Nat.succ_le_succ hm)⟩
  apart := hb.apart
  fresh id hid := ⟨(hb.fresh id hid).1, le_trans (hb.fresh id hid).2.1 hm, (hb.fresh id hid).2.2⟩
  nodup := hb.nodup

/-- A block stays as it is, or is lost. -/
def Loses (a a' : EntityIdAllocator) : Prop := (a'.next = a.next ∧ a'.remaining = a.remaining) ∨ a'.remaining = 0

theorem Loses.reserves {a a' : EntityIdAllocator} (h : Loses a a') {id : UInt64} (hr : a'.Reserves id) :
    a.Reserves id := by
  rcases h with ⟨hn, hrem⟩ | h0
  · unfold EntityIdAllocator.Reserves at hr ⊢
    rw [← hn, ← hrem]
    exact hr
  · exact absurd h0 (Reserves.remaining hr)

theorem Blocks.loses (hb : Blocks bound s) (hids : s'.ids = s.ids)
    (ha : ∀ n, Loses (s.allocators n) (s'.allocators n)) : Blocks bound s' where
  block n hn := by
    rcases ha n with ⟨hnext, hrem⟩ | h0
    · rw [hrem] at hn
      rw [hnext, hrem]
      exact hb.block n hn
    · exact absurd h0 hn
  apart m n id hm hn := hb.apart m n id ((ha m).reserves hm) ((ha n).reserves hn)
  fresh id hid := by
    rw [hids] at hid
    obtain ⟨hpos, hle, hnot⟩ := hb.fresh id hid
    exact ⟨hpos, hle, fun n hn => hnot n ((ha n).reserves hn)⟩
  nodup := hids ▸ hb.nodup

theorem loses_set (ha : Loses (s.allocators n) allocator) (m : Nat) :
    Loses (s.allocators m) ((s.set n allocator).allocators m) := by
  by_cases hm : m = n
  · subst hm
    rw [set_self]
    exact ha
  · rw [set_of_ne s hm]
    exact .inl ⟨rfl, rfl⟩

theorem Blocks.set (hb : Blocks bound s) (ha : Loses (s.allocators n) allocator) : Blocks bound (s.set n allocator) :=
  hb.loses rfl (loses_set ha)

theorem Blocks.fail (hb : Blocks bound s) (failure : Failure) : Blocks bound (s.fail n (s.allocators n) failure) :=
  hb.loses rfl (loses_set (.inl ⟨rfl, rfl⟩))

/-! ## Handing out an id -/

/-- What `take` does with a block: its first id leaves it. -/
theorem take_cases (h0 : allocator.remaining ≠ 0) (hn : 0 < allocator.next.toNat)
    (hfit : allocator.next.toNat + allocator.remaining.toNat ≤ 2 ^ 64) :
    ∃ a, allocator.take = (a, .ok allocator.next) ∧ a.remaining.toNat + 1 = allocator.remaining.toNat ∧
      (a.remaining ≠ 0 → a.next.toNat = allocator.next.toNat + 1) := by
  have hid : entityId allocator.next = .ok allocator.next := by
    refine entityId_eq_ok.2 ⟨?_, rfl⟩
    rintro hz
    rw [hz] at hn
    exact absurd hn (lt_irrefl _)
  have hrem : 0 < allocator.remaining.toNat := by
    rw [Nat.pos_iff_ne_zero]
    intro hz
    exact h0 (UInt64.toNat_inj.1 hz)
  have hsub : (allocator.remaining - 1).toNat + 1 = allocator.remaining.toNat := by
    rw [UInt64.toNat_sub_of_le _ _ (by rw [UInt64.le_iff_toNat_le]; exact hrem)]
    exact Nat.sub_add_cancel hrem
  unfold EntityIdAllocator.take
  rw [hid]
  refine ⟨_, rfl, hsub, ?_⟩
  intro hne
  have hmore : allocator.next.toNat + 1 < 2 ^ 64 := by
    have : 0 < (allocator.remaining - 1).toNat := by
      rw [Nat.pos_iff_ne_zero]
      intro hz
      exact hne (UInt64.toNat_inj.1 hz)
    omega
  dsimp only
  rw [if_pos hne, UInt64.toNat_add, show (1 : UInt64).toNat = 1 from rfl, Nat.mod_eq_of_lt hmore]

/-- The first id of a block is handed out. -/
theorem Blocks.take (hb : Blocks bound s) (hmark : bound < 2 ^ 64) (h0 : (s.allocators n).remaining ≠ 0) :
    Blocks bound (s.finish n (s.allocators n).take) ∧
      (s.finish n (s.allocators n).take).ids = (s.allocators n).next :: s.ids := by
  obtain ⟨hpos, hle⟩ := hb.block n h0
  obtain ⟨a, htake, hrem, hnext⟩ := take_cases h0 hpos (by omega)
  have hself : (s.allocators n).Reserves (s.allocators n).next := ⟨le_refl _, by omega⟩
  -- what is left of the block
  have hrest : ∀ id, a.Reserves id → (s.allocators n).Reserves id ∧ id ≠ (s.allocators n).next := by
    intro id hr
    have hne := hnext (Reserves.remaining hr)
    obtain ⟨h1, h2⟩ := hr
    refine ⟨⟨by omega, by omega⟩, ?_⟩
    rintro rfl
    omega
  have hblocks : ∀ m id, ((s.finish n (s.allocators n).take).allocators m).Reserves id →
      (s.allocators m).Reserves id ∧ (m = n → id ≠ (s.allocators n).next) := by
    intro m id hr
    rw [htake, finish_allocators] at hr
    by_cases hm : m = n
    · subst hm
      rw [set_self] at hr
      exact ⟨(hrest id hr).1, fun _ => (hrest id hr).2⟩
    · rw [set_of_ne s hm] at hr
      exact ⟨hr, fun h => absurd h hm⟩
  have hids : (s.finish n (s.allocators n).take).ids = (s.allocators n).next :: s.ids := by
    rw [htake]
    rfl
  refine ⟨⟨?_, ?_, ?_, ?_⟩, hids⟩
  · intro m hm
    rw [htake, finish_allocators] at hm ⊢
    by_cases hmn : m = n
    · subst hmn
      rw [set_self] at hm ⊢
      have hstep := hnext hm
      show 0 < a.next.toNat ∧ a.next.toNat + a.remaining.toNat ≤ bound + 1
      exact ⟨by omega, by omega⟩
    · rw [set_of_ne s hmn] at hm ⊢
      exact hb.block m hm
  · intro m m' id hm hm'
    exact hb.apart m m' id (hblocks m id hm).1 (hblocks m' id hm').1
  · intro id hid
    rw [hids] at hid
    rcases mem_cons.1 hid with rfl | hid
    · refine ⟨hpos, by omega, fun m hm => ?_⟩
      obtain ⟨hold, hne⟩ := hblocks m _ hm
      exact hne (hb.apart m n _ hold hself) rfl
    · obtain ⟨h1, h2, h3⟩ := hb.fresh id hid
      exact ⟨h1, h2, fun m hm => h3 m (hblocks m id hm).1⟩
  · rw [hids]
    refine nodup_cons.2 ⟨fun hmem => ?_, hb.nodup⟩
    exact (hb.fresh _ hmem).2.2 n hself

/-- A block above the mark is reserved. -/
theorem Blocks.grant {high count : UInt64} (hb : Blocks high.toNat s) (hfit : high.toNat + count.toNat < 2 ^ 64)
    (hc : count ≠ 0) :
    Blocks (high.toNat + count.toNat) (s.set n { s.allocators n with next := high + 1, remaining := count }) := by
  have hcount : 0 < count.toNat := Nat.pos_iff_ne_zero.2 fun hz => hc (UInt64.toNat_inj.1 hz)
  have hnext : (high + 1).toNat = high.toNat + 1 := by
    rw [UInt64.toNat_add, show (1 : UInt64).toNat = 1 from rfl, Nat.mod_eq_of_lt (by omega)]
  -- what was reserved before lies under the old mark, the new block above it
  have hold : ∀ m id, (s.allocators m).Reserves id → id.toNat ≤ high.toNat := by
    intro m id hr
    have := (hb.block m (Reserves.remaining hr)).2
    have := hr.2
    omega
  have hblocks : ∀ m id,
      ((s.set n { s.allocators n with next := high + 1, remaining := count }).allocators m).Reserves id →
      (m = n ∧ high.toNat < id.toNat) ∨ (m ≠ n ∧ (s.allocators m).Reserves id) := by
    intro m id hr
    by_cases hm : m = n
    · subst hm
      rw [set_self] at hr
      have hlow : (high + 1).toNat ≤ id.toNat := hr.1
      exact .inl ⟨rfl, by omega⟩
    · rw [set_of_ne s hm] at hr
      exact .inr ⟨hm, hr⟩
  refine ⟨?_, ?_, ?_, hb.nodup⟩
  · intro m hm
    by_cases hmn : m = n
    · subst hmn
      rw [set_self]
      dsimp only
      exact ⟨by omega, by omega⟩
    · rw [set_of_ne s hmn] at hm ⊢
      have := hb.block m hm
      exact ⟨this.1, by omega⟩
  · intro m m' id hm hm'
    rcases hblocks m id hm with ⟨rfl, hlt⟩ | ⟨hne, hr⟩ <;> rcases hblocks m' id hm' with ⟨rfl, hlt'⟩ | ⟨hne', hr'⟩
    · rfl
    · exact absurd (hold m' id hr') (not_le.2 hlt)
    · exact absurd (hold m id hr) (not_le.2 hlt')
    · exact hb.apart m m' id hr hr'
  · intro id hid
    obtain ⟨h1, h2, h3⟩ := hb.fresh id hid
    refine ⟨h1, by omega, fun m hm => ?_⟩
    rcases hblocks m id hm with ⟨-, hlt⟩ | ⟨-, hr⟩
    · omega
    · exact h3 m hr

/-! ## What a step does -/

/-- What holds between the accesses of a call: it has no block yet, and the mark it swaps in is
above the one it read. -/
def StageOk (sequence : Store Unit Bytes) (allocator : EntityIdAllocator) : Prop :=
  match allocator.stage with
  | .idle => True
  | .reading _ => allocator.remaining = 0
  | .swapping _ expected high count => allocator.remaining = 0 ∧ Observed sequence expected high ∧
      high.toNat + count.toNat < 2 ^ 64 ∧ count ≠ 0

theorem StageOk.mono {sequence sequence' : Store Unit Bytes} (hg : (sequence ()).Extends (sequence' ()))
    (h : StageOk sequence allocator) : StageOk sequence' allocator := by
  unfold StageOk at h ⊢
  split
  · trivial
  · rename_i hst
    rw [hst] at h
    exact h
  · rename_i hst
    rw [hst] at h
    exact ⟨h.1, h.2.1.mono hg, h.2.2⟩

/-- The record is raised from `high` by `count`. -/
structure Raises (s : Allocation) (high count : UInt64) (s' : Allocation) : Prop where
  found : s.high = .ok high
  fits : high.toNat + count.toNat < 2 ^ 64
  nonzero : count ≠ 0
  raised : ∃ version, ∃ hf : (s.sequence ()).Fresh version, s' = { s with
    sequence := update s.sequence () ((s.sequence ()).push version (encodeHigh (high + count)) hf) }

/-- The steps of the system, by what they do to the blocks. -/
inductive Move (s : Allocation) : Allocation → Prop
  | idle : Move s s
  | set (n : Nat) (a : EntityIdAllocator) (hl : Loses (s.allocators n) a) (hst : StageOk s.sequence a) :
    Move s (s.set n a)
  | fail (n : Nat) (e : Failure) : Move s (s.fail n (s.allocators n) e)
  | take (n : Nat) (h0 : (s.allocators n).remaining ≠ 0) : Move s (s.finish n (s.allocators n).take)
  | lost (n : Nat) (high count : UInt64) (s₁ : Allocation) (hr : Raises s high count s₁) (e : Failure) :
    Move s (s₁.fail n (s.allocators n) e)
  | granted (n : Nat) (high count : UInt64) (s₁ : Allocation) (hr : Raises s high count s₁) :
    Move s (s₁.finish n { s.allocators n with next := high + 1, remaining := count }.take)

theorem plan_ok {attempt : Nat} {stage : AllocateStage} (h0 : allocator.remaining = 0)
    (hp : allocator.plan attempt (s.sequence ()).get = .ok stage) :
    StageOk s.sequence { allocator with stage } := by
  unfold EntityIdAllocator.plan at hp
  simp only [bind_eq_ok, refuseIf_eq_ok, pure_ok_iff] at hp
  obtain ⟨high, hh, _, hmax, rfl⟩ := hp
  have hlt : high.toNat < maxId.toNat := by
    refine lt_of_le_of_ne ?_ fun he => hmax (UInt64.toNat_inj.1 he)
    exact Nat.le_of_lt_succ high.toNat_lt
  have hsub : (maxId - high).toNat = maxId.toNat - high.toNat :=
    UInt64.toNat_sub_of_le _ _ (UInt64.le_iff_toNat_le.2 (le_of_lt hlt))
  have hmin : min allocator.blockSize.size (maxId - high) =
      if allocator.blockSize.size ≤ maxId - high then allocator.blockSize.size else maxId - high := rfl
  have hmaxId : maxId.toNat = 2 ^ 64 - 1 := by decide
  rw [hmin]
  split
  · rename_i hle
    rw [UInt64.le_iff_toNat_le] at hle
    exact ⟨h0, observed_get hh, by omega, allocator.blockSize.ok.1⟩
  refine ⟨h0, observed_get hh, by omega, fun hz => ?_⟩
  rw [hz] at hsub
  have hzero : (0 : UInt64).toNat = 0 := rfl
  omega

theorem reserve_move {attempt : Nat} {expected high count : UInt64} (fault : Store.Fault) (version : UInt64)
    (hst : StageOk s.sequence (s.allocators n))
    (hp : (s.allocators n).stage = .swapping attempt expected high count) :
    Move s (s.reserve n fault version attempt expected high count) := by
  unfold StageOk at hst
  rw [hp] at hst
  obtain ⟨h0, hobs, hfit, hc⟩ := hst
  unfold reserve
  dsimp only
  split
  · exact .idle
  rename_i hswap
  rcases Store.swap_cases hswap with ⟨rfl, hv, hf, rfl⟩ | ⟨rfl, rfl⟩
  · have hr := Raises.mk (hobs.current hv) hfit hc ⟨version, hf, rfl⟩
    split
    · exact .lost n high count _ hr _
    · rw [if_pos rfl]
      exact .granted n high count _ hr
  split
  · exact .fail n _
  rw [if_neg (by decide)]
  split
  · exact .set n _ (.inl ⟨rfl, rfl⟩) h0
  · exact .fail n _

theorem step_move (hst : ∀ n, StageOk s.sequence (s.allocators n)) (action : AllocationAction) :
    Move s (s.step action) := by
  cases action with
  | start n => exact .set n _ (.inr rfl) trivial
  | call n =>
    show Move s (s.call n)
    unfold Allocation.call
    dsimp only
    split
    · split
      · rename_i h0
        exact .set n _ (.inl ⟨rfl, rfl⟩) h0
      · rename_i h0
        exact .take n h0
    · exact .idle
  | access n fault version =>
    show Move s (s.access n fault version)
    unfold Allocation.access
    split
    · exact .idle
    · rename_i hp
      have h0 : (s.allocators n).remaining = 0 := by
        have := hst n
        rw [StageOk, hp] at this
        exact this
      unfold Allocation.read
      dsimp only
      split
      · exact .fail n _
      split
      · exact .fail n _
      · rename_i hplan
        exact .set n _ (.inl ⟨rfl, rfl⟩) (plan_ok h0 hplan)
    · rename_i hp
      exact reserve_move fault version (hst n) hp

/-! ## The invariant -/

/-- The stored mark as a number; an unreadable record reserves nothing. -/
def mark (s : Allocation) : Nat :=
  match s.high with
  | .ok high => high.toNat
  | .error _ => 0

theorem mark_lt (s : Allocation) : s.mark < 2 ^ 64 := by
  unfold mark
  split
  · exact UInt64.toNat_lt _
  · decide

structure Inv (s : Allocation) : Prop where
  stages : ∀ n, StageOk s.sequence (s.allocators n)
  blocks : Blocks s.mark s

variable {high count : UInt64} {s₁ : Allocation}

section

variable (hr : Raises s high count s₁)
include hr

theorem Raises.allocators : s₁.allocators = s.allocators := by
  obtain ⟨_, _, rfl⟩ := hr.raised
  rfl

theorem Raises.outcomes : s₁.outcomes = s.outcomes := by
  obtain ⟨_, _, rfl⟩ := hr.raised
  rfl

theorem Raises.extends : (s.sequence ()).Extends (s₁.sequence ()) := by
  obtain ⟨_, hf, rfl⟩ := hr.raised
  dsimp only
  rw [update_self]
  exact Register.extends_push _ _ _ hf

theorem Raises.high_after : s₁.high = .ok (high + count) := by
  obtain ⟨_, _, rfl⟩ := hr.raised
  unfold Allocation.high
  dsimp only
  rw [update_self]
  exact decodeHigh_encodeHigh _

theorem Raises.sum : (high + count).toNat = high.toNat + count.toNat := by
  rw [UInt64.toNat_add, Nat.mod_eq_of_lt hr.fits]

theorem Raises.mark : s.mark = high.toNat := by
  rw [Allocation.mark, hr.found]

/-- Raising the mark alone reserves nothing. -/
theorem Raises.inv (hi : Inv s) : (∀ n, StageOk s₁.sequence (s₁.allocators n)) ∧
    Blocks high.toNat s₁ ∧ s₁.mark = high.toNat + count.toNat := by
  refine ⟨fun n => ?_, ?_, ?_⟩
  · rw [hr.allocators]
    exact (hi.stages n).mono hr.extends
  · have hb := hi.blocks
    rw [hr.mark] at hb
    refine hb.loses ?_ fun n => ?_
    · rw [ids, hr.outcomes, ids]
    · rw [hr.allocators]
      exact .inl ⟨rfl, rfl⟩
  · rw [Allocation.mark, hr.high_after]
    exact hr.sum

end

theorem stages_set (hst : ∀ m, StageOk s.sequence (s.allocators m)) (ha : StageOk s.sequence allocator) (m : Nat) :
    StageOk s.sequence ((s.set n allocator).allocators m) := by
  by_cases hm : m = n
  · subst hm
    rw [set_self]
    exact ha
  · rw [set_of_ne s hm]
    exact hst m

/-- An allocator that is idle after `take`. -/
theorem take_stageOk (sequence : Store Unit Bytes) (a : EntityIdAllocator) : StageOk sequence a.take.1 := by
  unfold EntityIdAllocator.take
  split
  · trivial
  · trivial

theorem Move.inv (hm : Move s s') (hi : Inv s) : Inv s' := by
  cases hm with
  | idle => exact hi
  | set _ _ hl hst => exact ⟨stages_set hi.stages hst, hi.blocks.set hl⟩
  | fail _ e => exact ⟨stages_set hi.stages trivial, hi.blocks.fail e⟩
  | take _ h0 => exact ⟨stages_set hi.stages (take_stageOk _ _), (hi.blocks.take s.mark_lt h0).1⟩
  | lost n _ _ s₁ hr e =>
    obtain ⟨hst, hb, hmark⟩ := hr.inv hi
    rw [← hr.allocators]
    refine ⟨stages_set hst trivial, Blocks.fail ?_ e⟩
    exact hb.mono (by rw [show (s₁.fail n _ e).mark = s₁.mark from rfl, hmark]; exact Nat.le_add_right _ _)
  | granted n _ _ s₁ hr =>
    obtain ⟨hst, hb, hmark⟩ := hr.inv hi
    rw [← hr.allocators]
    refine ⟨stages_set hst (take_stageOk _ _), ?_⟩
    -- the block is reserved first, then its first id is handed out
    have hgrant := hb.grant (n := n) hr.fits hr.nonzero
    rw [← hmark] at hgrant
    have htake := (hgrant.take (n := n) s₁.mark_lt (by rw [set_self]; exact hr.nonzero)).1
    rw [set_self] at htake
    refine htake.loses rfl fun m => .inl ?_
    by_cases hmn : m = n
    · subst hmn
      simp only [finish_allocators, set_self, and_self]
    · simp only [finish_allocators, set_of_ne _ hmn, and_self]

theorem inv_init (sequence : Store Unit Bytes) (blockSizes : Nat → BlockSize) : Inv (init sequence blockSizes) where
  stages _ := trivial
  blocks := {
    block := fun _ h => absurd rfl h
    apart := fun _ _ _ h => absurd rfl (Reserves.remaining h)
    fresh := fun _ h => nomatch h
    nodup := nodup_nil }

theorem inv_run (sequence : Store Unit Bytes) (blockSizes : Nat → BlockSize) (actions : List AllocationAction) :
    Inv (run step (init sequence blockSizes) actions) :=
  run_inv (fun _ a hi => (step_move hi.stages a).inv hi) (inv_init sequence blockSizes) actions

/-! ## The mark only rises, and ends at its maximum -/

theorem Move.high_le (hm : Move s s') {before : UInt64} (hb : s.high = .ok before) :
    ∃ after, s'.high = .ok after ∧ before.toNat ≤ after.toNat := by
  cases hm with
  | idle | set | fail | take => exact ⟨before, hb, le_refl _⟩
  | lost n high count s₁ hr e | granted n high count s₁ hr =>
    obtain rfl := Except.ok.inj (hb.symm.trans hr.found)
    refine ⟨before + count, hr.high_after, ?_⟩
    rw [hr.sum]
    exact Nat.le_add_right _ _

/-- What is still handed out in `s'` was reserved in `s`. -/
structure Drains (s s' : Allocation) : Prop where
  sequence : s'.sequence = s.sequence
  reserved : ∀ n id, (s'.allocators n).Reserves id → (s.allocators n).Reserves id
  served : ∃ new, s'.outcomes = new ++ s.outcomes ∧ ∀ o ∈ new, ∀ id, o.2 = .ok id → (s.allocators o.1).Reserves id

theorem Drains.refl (s : Allocation) : Drains s s := ⟨rfl, fun _ _ h => h, [], rfl, fun _ h => nomatch h⟩

theorem Drains.trans {t u : Allocation} (h : Drains s t) (h' : Drains t u) : Drains s u := by
  obtain ⟨new, hnew, hserved⟩ := h.served
  obtain ⟨new', hnew', hserved'⟩ := h'.served
  refine ⟨h'.sequence.trans h.sequence, fun n id hr => h.reserved n id (h'.reserved n id hr), new' ++ new, ?_, ?_⟩
  · rw [hnew', hnew, append_assoc]
  · intro o ho id hid
    rcases mem_append.1 ho with ho | ho
    · exact h.reserved _ _ (hserved' o ho id hid)
    · exact hserved o ho id hid

theorem maxId_not_raised (hr : Raises s maxId count s₁) : False := by
  have hfit := hr.fits
  have hmax : maxId.toNat = 2 ^ 64 - 1 := by decide
  have hcount : count.toNat ≠ 0 := fun hz => hr.nonzero (UInt64.toNat_inj.1 hz)
  omega

/-- Once the mark is at its maximum, a step hands out reserved ids only. -/
theorem Move.drains (hi : Inv s) (hx : s.high = .ok maxId) (hm : Move s s') : Drains s s' := by
  cases hm with
  | idle => exact .refl s
  | set _ _ hl => exact ⟨rfl, fun m id hr => (loses_set hl m).reserves hr, [], rfl, fun _ h => nomatch h⟩
  | fail n e =>
    have hl : Loses (s.allocators n) { s.allocators n with stage := .idle } := .inl ⟨rfl, rfl⟩
    refine ⟨rfl, fun m id hr => (loses_set hl m).reserves hr, [(n, .error e)], rfl, ?_⟩
    intro o ho id hid
    rw [mem_singleton.1 ho] at hid
    cases hid
  | take n h0 =>
    obtain ⟨hpos, hle⟩ := hi.blocks.block n h0
    have hmark := s.mark_lt
    obtain ⟨a, htake, hrem, hnext⟩ := take_cases h0 hpos (by omega)
    rw [htake]
    refine ⟨rfl, fun m id hr => ?_, [(n, .ok (s.allocators n).next)], rfl, ?_⟩
    · rw [finish_allocators] at hr
      by_cases hm : m = n
      · subst hm
        rw [set_self] at hr
        have hstep := hnext (Reserves.remaining hr)
        obtain ⟨h1, h2⟩ := hr
        dsimp only at h1 h2
        exact ⟨by omega, by omega⟩
      · rw [set_of_ne s hm] at hr
        exact hr
    · intro o ho id hid
      rw [mem_singleton.1 ho] at hid ⊢
      obtain rfl := Except.ok.inj hid
      exact ⟨le_refl _, by dsimp only; omega⟩
  | lost n high count s₁ hr e | granted n high count s₁ hr =>
    obtain rfl := Except.ok.inj (hx.symm.trans hr.found)
    exact (maxId_not_raised hr).elim

theorem run_drains (hi : Inv s) (hx : s.high = .ok maxId) (actions : List AllocationAction) :
    Drains s (run step s actions) := by
  have hrun : Inv (run step s actions) ∧ Drains s (run step s actions) := by
    refine run_inv (I := fun t => Inv t ∧ Drains s t) ?_ ⟨hi, .refl s⟩ actions
    rintro t a ⟨hti, htd⟩
    have htx : t.high = .ok maxId := by
      rw [Allocation.high, htd.sequence]
      exact hx
    have hmove := step_move hti.stages a
    exact ⟨hmove.inv hti, htd.trans (hmove.drains hti htx)⟩
  exact hrun.2

theorem run_high {before : UInt64} (hi : Inv s) (hb : s.high = .ok before) (actions : List AllocationAction) :
    ∃ after, (run step s actions).high = .ok after ∧ before.toNat ≤ after.toNat := by
  have hrun : Inv (run step s actions) ∧ ∃ after, (run step s actions).high = .ok after ∧
      before.toNat ≤ after.toNat := by
    refine run_inv (I := fun t => Inv t ∧ ∃ after, t.high = .ok after ∧ before.toNat ≤ after.toNat) ?_
      ⟨hi, before, hb, le_refl _⟩ actions
    rintro t a ⟨hti, _, hafter, hle⟩
    have hmove := step_move hti.stages a
    obtain ⟨after', hafter', hle'⟩ := hmove.high_le hafter
    exact ⟨hmove.inv hti, after', hafter', le_trans hle hle'⟩
  exact hrun.2

/-- A call without a block that reads the mark at its maximum fails. -/
theorem read_exhausted (hx : s.high = .ok maxId) {attempt : Nat} (hp : (s.allocators n).stage = .reading attempt)
    (version : UInt64) :
    (s.step (.access n .none version)).outcomes =
      (n, .error (.overflow "entity identities exhausted")) :: s.outcomes := by
  have hplan : (s.allocators n).plan attempt (s.sequence ()).get =
      .error (.overflow "entity identities exhausted") := by
    unfold EntityIdAllocator.plan
    rw [show highOf (s.sequence ()).get = .ok maxId from hx, ok_bind, refuseIf_of _ rfl, error_bind]
  show (s.access n .none version).outcomes = _
  unfold access
  rw [hp]
  show (s.read n .none attempt).outcomes = _
  unfold read
  rw [if_neg (by decide), hplan]
  rfl

end Allocation

/-- Whatever the store held before and however the allocators interleave, lose races, crash and see the
store fail: no id is returned twice, none is zero and every one lies under the stored mark; the mark never
decreases; and once it is at its maximum it stays there, only ids that were reserved by then are handed
out, each by the allocator that reserved it, and a call that has none left fails. -/
theorem entity_ids_unique (sequence : Store Unit Bytes) (blockSizes : Nat → BlockSize)
    (actions : List AllocationAction) :
    let s := run Allocation.step (Allocation.init sequence blockSizes) actions
    (s.ids.Nodup ∧ ∀ id ∈ s.ids, id ≠ 0) ∧
    (∀ high, s.high = .ok high → (∀ id ∈ s.ids, id ≤ high) ∧
      ∀ later, ∃ high', (run Allocation.step s later).high = .ok high' ∧ high ≤ high') ∧
    (s.high = .ok maxId →
      (∀ later, Allocation.Drains s (run Allocation.step s later)) ∧
      ∀ n attempt version, (s.allocators n).stage = .reading attempt →
        (s.step (.access n .none version)).outcomes =
          (n, .error (.overflow "entity identities exhausted")) :: s.outcomes) := by
  intro s
  have hi : s.Inv := Allocation.inv_run sequence blockSizes actions
  refine ⟨⟨hi.blocks.nodup, fun id hid => ?_⟩, fun _ hh => ⟨fun id hid => ?_, fun later => ?_⟩, fun hx => ⟨?_, ?_⟩⟩
  · rintro rfl
    exact absurd (hi.blocks.fresh _ hid).1 (lt_irrefl _)
  · have hle := (hi.blocks.fresh id hid).2.1
    rw [Allocation.mark, hh] at hle
    exact UInt64.le_iff_toNat_le.2 hle
  · obtain ⟨high', hh', hle⟩ := Allocation.run_high hi hh later
    exact ⟨high', hh', UInt64.le_iff_toNat_le.2 hle⟩
  · exact fun later => Allocation.run_drains hi hx later
  · exact fun n _ version hp => Allocation.read_exhausted hx hp version

/-- An allocator over a store whose sequence ends at the id before the last. -/
def lastBlock : List AllocationAction :=
  [.start 0 ⟨4, by decide⟩, .call 0, .access 0 .none 2, .access 0 .none 2, .call 0, .access 0 .none 3]

theorem entity_ids_unique_lastBlock :
    (run Allocation.step (Allocation.init (fun _ => Register.empty.push 1 (encodeHigh (maxId - 1)) (by decide))
      fun _ => ⟨4096, by decide⟩) lastBlock).ids = [maxId] ∧
    (run Allocation.step (Allocation.init (fun _ => Register.empty.push 1 (encodeHigh (maxId - 1)) (by decide))
      fun _ => ⟨4096, by decide⟩) lastBlock).ids.Nodup :=
  ⟨by decide +kernel, (entity_ids_unique _ _ lastBlock).1.1⟩

end Fsnet
