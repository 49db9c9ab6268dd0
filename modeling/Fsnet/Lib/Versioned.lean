import Mathlib.Data.List.Induction
import Mathlib.Logic.Equiv.Basic
import Mathlib.Logic.Function.Basic
import Fsnet.Lib.Runs
/-!
# Maps with versioned compare-and-swap

What a key-value store with versions is for: a map whose records carry a
version, replaced or removed only by a caller that names the version it saw.
`Map` is the plain one, where the version of a record says how often its key
was written. A `Backend` is a store that picks versions its own way and whose
calls may be interrupted. `Backend.Law` is what one call of it has to keep to;
`Backend.Law.implements` is what follows for whole runs: up to a renaming of the
versions of each key nobody can tell the backend from the map.
-/

namespace Lib.Versioned

open List Function

variable {K V : Type} [DecidableEq K]

structure Record (V : Type) where
  value : V
  version : Nat
  deriving DecidableEq, Repr

/-- The version a writer has to expect: zero where there is no record. -/
def version (r : Option (Record V)) : Nat := (r.map Record.version).getD 0

/-- A call: a lookup, or a replacement of the expected version by a value or by nothing. -/
inductive Call (K V : Type) where
  | get (key : K)
  | replace (key : K) (expected : Nat) (value : Option V)
  deriving DecidableEq, Repr

def Call.key : Call K V → K
  | .get key => key
  | .replace key _ _ => key

/-- Where a call is interrupted: before its arguments are checked, before the
versions are compared, before it writes, or after it wrote. -/
inductive Cut where
  | arguments
  | comparison
  | commit
  | confirmation
  deriving DecidableEq, Repr

/-- What a call throws: its arguments are invalid, there is no version left, or it was interrupted. -/
inductive Thrown where
  | invalid
  | exhausted
  | broken
  deriving DecidableEq, Repr

inductive Answer (V : Type) where
  | found (record : Option (Record V))
  | replaced (done : Bool)
  deriving DecidableEq, Repr

abbrev Outcome (V : Type) := Except Thrown (Answer V)

/-- A lookup that may be interrupted. -/
def look (cut : Option Cut) (r : Option (Record V)) : Outcome V :=
  if cut = some .arguments ∨ cut = some .comparison then .error .broken else .ok (.found r)

/-- A replacement of a record with version `current`: whether it writes, and what
the caller gets. No call may expect a version from `limit` on, and what is not
there cannot be removed. -/
def attempt (limit : Nat) (cut : Option Cut) (current expected : Nat) (removes : Bool) : Bool × Except Thrown Bool :=
  if cut = some .arguments then (false, .error .broken)
  else if limit ≤ expected then (false, .error .invalid)
  else if cut = some .comparison then (false, .error .broken)
  else if current ≠ expected ∨ removes = true ∧ current = 0 then (false, .ok false)
  else if cut = some .commit then (false, .error .broken)
  else (true, if cut = some .confirmation then .error .broken else .ok true)

/-! ## The map -/

/-- Each key with its value and how often it was written. -/
structure Map (K V : Type) where
  value : K → Option V
  writes : K → Nat

namespace Map

def empty : Map K V := ⟨fun _ => none, fun _ => 0⟩

def record (m : Map K V) (k : K) : Option (Record V) := (m.value k).map fun v => ⟨v, m.writes k⟩

def put (m : Map K V) (k : K) : Option V → Map K V
  | none => { m with value := update m.value k none }
  | some v => ⟨update m.value k (some v), update m.writes k (m.writes k + 1)⟩

def step (limit : Nat) (m : Map K V) (cut : Option Cut) : Call K V → Map K V × Outcome V
  | .get k => (m, look cut (m.record k))
  | .replace k expected value =>
    let p := attempt limit cut (version (m.record k)) expected value.isNone
    (if p.1 then m.put k value else m, p.2.map .replaced)

/-- Every call of a run with where it is interrupted and what the caller gets. -/
def trace (limit : Nat) : Map K V → List (Option Cut × Call K V) → List (Option Cut × Call K V × Outcome V)
  | _, [] => []
  | m, (cut, call) :: calls =>
    (cut, call, (m.step limit cut call).2) :: trace limit (m.step limit cut call).1 calls

theorem record_put (m : Map K V) (k k' : K) (value : Option V) :
    (m.put k value).record k' = if k' = k then value.map fun v => ⟨v, m.writes k + 1⟩ else m.record k' := by
  by_cases h : k' = k
  · subst h
    cases value <;> simp [put, record]
  · cases value <;> simp [put, record, h]

theorem writes_put_of_ne (m : Map K V) {k k' : K} (value : Option V) (h : k' ≠ k) :
    (m.put k value).writes k' = m.writes k' := by
  cases value <;> simp [put, h]

end Map

/-! ## Backends -/

/-- A store behind the same calls, of which it takes some. `Env` is everything a
call meets that its caller does not decide; `cut` is where that interrupts it. -/
structure Backend (K V : Type) where
  State : Type
  Env : Type
  takes : Call K V → Prop
  init : State
  step : State → Env → Call K V → State × Outcome V
  cut : State → Env → Call K V → Option Cut
  record : State → K → Option (Record V)

namespace Backend

/-- A call the backend takes and what it meets. -/
structure Action (b : Backend K V) where
  env : b.Env
  call : Call K V
  takes : b.takes call

variable (b : Backend K V)

def next (s : b.State) (a : b.Action) : b.State := (b.step s a.env a.call).1

def trace : b.State → List b.Action → List (Option Cut × Call K V × Outcome V)
  | _, [] => []
  | s, a :: calls => (b.cut s a.env a.call, a.call, (b.step s a.env a.call).2) :: trace (b.next s a) calls

end Backend

/-! ## Renaming versions -/

/-- A renaming keeps zero and what no version can be. -/
structure Renaming (limit : Nat) (σ : Equiv.Perm Nat) : Prop where
  zero : σ 0 = 0
  top : ∀ n, limit ≤ n → σ n = n

def Record.rename (σ : Equiv.Perm Nat) (r : Record V) : Record V := { r with version := σ r.version }

def Call.rename (σ : K → Equiv.Perm Nat) : Call K V → Call K V
  | .get k => .get k
  | .replace k expected value => .replace k (σ k expected) value

def Answer.rename (σ : Equiv.Perm Nat) : Answer V → Answer V
  | .found r => .found (r.map (Record.rename σ))
  | .replaced done => .replaced done

/-- A call and its outcome with the versions of its key renamed. -/
def renamed (σ : K → Equiv.Perm Nat) (e : Option Cut × Call K V × Outcome V) : Option Cut × Call K V × Outcome V :=
  (e.1, e.2.1.rename σ, e.2.2.map (Answer.rename (σ e.2.1.key)))

namespace Renaming

variable {limit : Nat} {σ : Equiv.Perm Nat}

theorem eq_zero (h : Renaming limit σ) {n : Nat} : σ n = 0 ↔ n = 0 := by
  rw [← h.zero, σ.apply_eq_iff_eq, h.zero]

theorem le (h : Renaming limit σ) {n : Nat} : limit ≤ σ n ↔ limit ≤ n := by
  constructor
  · intro hn
    have hfix : σ n = n := σ.injective (h.top _ hn)
    rwa [hfix] at hn
  · intro hn
    rwa [h.top n hn]

theorem version_rename (h : Renaming limit σ) (r : Option (Record V)) :
    version (r.map (Record.rename σ)) = σ (version r) := by
  cases r with
  | none => exact h.zero.symm
  | some => rfl

/-- A replacement goes the same way when all versions are renamed. -/
theorem attempt_rename (h : Renaming limit σ) (cut : Option Cut) (current expected : Nat) (removes : Bool) :
    attempt limit cut (σ current) (σ expected) removes = attempt limit cut current expected removes := by
  simp only [attempt, ne_eq, σ.apply_eq_iff_eq, h.eq_zero, h.le]

/-- Versions that only grow can be renamed to count from one. -/
theorem exists_rank (limit : Nat) (versions : List Nat) (hsorted : versions.Pairwise (· < ·))
    (hbound : ∀ v ∈ versions, 0 < v ∧ v < limit) :
    ∃ σ, Renaming limit σ ∧ ∀ i v, versions[i]? = some v → σ v = i + 1 ∧ i < v := by
  induction versions using List.reverseRecOn with
  | nil => exact ⟨Equiv.refl Nat, ⟨rfl, fun _ _ => rfl⟩, fun i v h => by simp at h⟩
  | append_singleton versions v ih =>
    rw [pairwise_append] at hsorted
    obtain ⟨σ, hσ, hrank⟩ := ih hsorted.1 fun w hw => hbound w (by simp [hw])
    obtain ⟨hpos, hlt⟩ := hbound v (by simp)
    have habove : ∀ w ∈ versions, w < v := fun w hw => hsorted.2.2 w hw v (by simp)
    -- the last version is as large as the ranks below it are many
    have hlength : versions.length < v := by
      rcases Nat.eq_zero_or_pos versions.length with hz | hz
      · omega
      have hget : versions[versions.length - 1]? = some (versions[versions.length - 1]) :=
        getElem?_eq_getElem (by omega)
      have := (hrank _ _ hget).2
      have := habove _ (getElem_mem (by omega : versions.length - 1 < versions.length))
      omega
    have hkeep : ∀ n, n ≠ σ v → n ≠ versions.length + 1 → Equiv.swap (σ v) (versions.length + 1) n = n :=
      fun n => Equiv.swap_apply_of_ne_of_ne
    refine ⟨σ.trans (Equiv.swap (σ v) (versions.length + 1)), ⟨?_, ?_⟩, ?_⟩
    · rw [Equiv.trans_apply, hσ.zero, hkeep]
      · intro h0
        exact Nat.ne_of_gt hpos (hσ.eq_zero.1 h0.symm)
      · omega
    · intro n hn
      rw [Equiv.trans_apply, hσ.top n hn, hkeep]
      · rintro rfl
        exact absurd (hσ.le.1 hn) (by omega)
      · omega
    · intro i w hw
      rcases Nat.lt_trichotomy i versions.length with hi | hi | hi
      · rw [getElem?_append_left hi] at hw
        obtain ⟨hr, hiw⟩ := hrank i w hw
        refine ⟨?_, hiw⟩
        rw [Equiv.trans_apply, hr, hkeep]
        · rw [← hr]
          intro heq
          exact Nat.ne_of_lt (habove w (mem_of_getElem? hw)) (σ.injective heq)
        · omega
      · subst hi
        have : w = v := by simpa using hw.symm
        subst this
        exact ⟨by simp, hlength⟩
      · rw [getElem?_eq_none (by simp; omega)] at hw
        cases hw

end Renaming

/-! ## What a backend has to do -/

/-- What one call does to the records, where `low` was the largest version its key
had before and `high` is the largest one after. -/
inductive Serves (limit : Nat) (cut : Option Cut) (records : K → Option (Record V)) (low high : Nat) :
    Call K V → (K → Option (Record V)) → Outcome V → Prop
  | exhausted (call : Call K V) : Serves limit cut records low high call records (.error .exhausted)
  | found (k : K) : Serves limit cut records low high (.get k) records (look cut (records k))
  | kept (k : K) (expected : Nat) (value : Option V) (done : Except Thrown Bool)
      (h : attempt limit cut (version (records k)) expected value.isNone = (false, done)) :
    Serves limit cut records low high (.replace k expected value) records (done.map .replaced)
  | stored (k : K) (expected : Nat) (value : Option V) (done : Except Thrown Bool) (v : Nat)
      (h : attempt limit cut (version (records k)) expected value.isNone = (true, done))
      (hv : value ≠ none → low < v ∧ v ≤ high) :
    Serves limit cut records low high (.replace k expected value)
      (update records k (value.map fun x => ⟨x, v⟩)) (done.map .replaced)

/-- A replacement that writes returns unless it is interrupted after it. -/
theorem done_of_attempt {limit : Nat} {cut : Option Cut} {current expected : Nat} {removes : Bool}
    {done : Except Thrown Bool} (h : attempt limit cut current expected removes = (true, done)) :
    done = if cut = some .confirmation then .error .broken else .ok true := by
  unfold attempt at h
  split_ifs at h <;> simp_all

namespace Serves

variable {limit : Nat} {cut : Option Cut} {records after : K → Option (Record V)} {low high : Nat} {call : Call K V}
  {outcome : Outcome V}

section

variable (h : Serves limit cut records low high call after outcome)
include h

/-- A record of a key stays, or gives way to nothing or to one with a version the key has not had. -/
theorem after_cases (k : K) :
    after k = records k ∨ k = call.key ∧ ∀ r, after k = some r → low < r.version ∧ r.version ≤ high := by
  cases h with
  | exhausted | found | kept => exact .inl rfl
  | stored k' _ _ _ _ _ hv =>
    by_cases hk : k = k'
    · subst hk
      refine .inr ⟨rfl, fun r hr => ?_⟩
      rw [update_self, Option.map_eq_some_iff] at hr
      obtain ⟨x, rfl, rfl⟩ := hr
      exact hv (Option.some_ne_none x)
    · exact .inl (update_of_ne hk _ _)

/-- Records change only by a call that wrote. -/
theorem after_eq
    (ho : outcome = .ok (.replaced false) ∨
      ∃ e, outcome = .error e ∧ (e ≠ .broken ∨ cut ≠ some .confirmation)) : after = records := by
  cases h with
  | exhausted | found | kept => rfl
  | stored _ _ _ _ _ hattempt =>
    exfalso
    rw [done_of_attempt hattempt] at ho
    by_cases hc : cut = some .confirmation <;> simp [hc, Except.map] at ho

/-- The map does what the backend does, when it counts the version the backend gives. -/
theorem follow (hne : outcome ≠ .error .exhausted)
    {σ : K → Equiv.Perm Nat} (hσ : ∀ k, Renaming limit (σ k)) {m : Map K V}
    (hrel : ∀ k, (records k).map (Record.rename (σ k)) = m.record k) (hlow : version (records call.key) ≤ low)
    (hrank : version (after call.key) ≠ version (records call.key) → version (after call.key) ≠ 0 →
      σ call.key (version (after call.key)) = m.writes call.key + 1) :
    (m.step limit cut (call.rename σ)).2 = outcome.map (Answer.rename (σ call.key)) ∧
      (∀ k, (after k).map (Record.rename (σ k)) = (m.step limit cut (call.rename σ)).1.record k) ∧
      ∀ k, (m.step limit cut (call.rename σ)).1.writes k =
        if version (after k) = version (records k) ∨ version (after k) = 0 then m.writes k else m.writes k + 1 := by
  have hattempt : ∀ k expected removes, attempt limit cut (version (m.record k)) (σ k expected) removes =
      attempt limit cut (version (records k)) expected removes := by
    intro k expected removes
    rw [← hrel k, (hσ k).version_rename, (hσ k).attempt_rename]
  have hreplaced : ∀ (k : K) (done : Except Thrown Bool),
      (done.map Answer.replaced : Outcome V) = (done.map Answer.replaced : Outcome V).map (Answer.rename (σ k)) := by
    intro k done
    cases done <;> rfl
  cases h with
  | exhausted => exact absurd rfl hne
  | found k =>
    refine ⟨?_, hrel, fun k => by simp [Map.step, Call.rename]⟩
    simp only [Map.step, Call.rename, ← hrel k, look, Call.key]
    split_ifs <;> rfl
  | kept k _ _ done hkept =>
    simp only [Map.step, Call.rename, hattempt, hkept, Call.key]
    exact ⟨hreplaced k done, hrel, fun k => by simp⟩
  | stored k expected value done v hstored hv =>
    simp only [Call.key, update_self] at hrank hlow
    simp only [Map.step, Call.rename, hattempt, hstored, Call.key, if_true]
    refine ⟨hreplaced k done, fun k' => ?_, fun k' => ?_⟩
    · by_cases hk : k' = k
      · subst hk
        cases value with
        | none => simp [Map.record_put]
        | some x =>
          obtain ⟨hv, -⟩ := hv (Option.some_ne_none x)
          have hnew : σ k' v = m.writes k' + 1 := hrank (by simp [version] at hlow ⊢; omega) (by simp [version]; omega)
          simp [Map.record_put, Record.rename, hnew]
      · rw [update_of_ne hk, Map.record_put, if_neg hk, hrel]
    · by_cases hk : k' = k
      · subst hk
        cases value with
        | none => simp [Map.put, version]
        | some x =>
          obtain ⟨hv, -⟩ := hv (Option.some_ne_none x)
          rw [if_neg (by simp [version] at hlow ⊢; omega)]
          simp [Map.put]
      · rw [update_of_ne hk, Map.writes_put_of_ne _ _ hk]
        simp

end

end Serves

namespace Backend

variable {b : Backend K V} {limit : Nat}

/-- What each call of a backend keeps to. `stamp` bounds the versions a key has had. -/
structure Law (b : Backend K V) (limit : Nat) (I : b.State → Prop) (stamp : b.State → K → Nat) : Prop where
  init : I b.init
  empty : ∀ k, b.record b.init k = none
  keeps : ∀ s a, I s → I (b.next s a)
  bound : ∀ s k, I s → version (b.record s k) ≤ stamp s k ∧ stamp s k < limit
  grows : ∀ s a k, I s → stamp s k ≤ stamp (b.next s a) k
  serves : ∀ s a, I s →
    Serves limit (b.cut s a.env a.call) (b.record s) (stamp s a.call.key) (stamp (b.next s a) a.call.key) a.call
      (b.record (b.next s a)) (b.step s a.env a.call).2

/-- The backend cannot be told from the map, as far as its versions last; a version
stands for one record of its key and never comes back after it; and a call that
does not get to its write changes no record. -/
structure Implements (b : Backend K V) (limit : Nat) : Prop where
  results : ∀ calls, (∀ e ∈ b.trace b.init calls, e.2.2 ≠ .error .exhausted) →
    ∃ σ : K → Equiv.Perm Nat, (∀ k, Renaming limit (σ k)) ∧
      Map.empty.trace limit ((b.trace b.init calls).map fun e => (e.1, e.2.1.rename σ)) =
        (b.trace b.init calls).map (renamed σ)
  versions : ∀ calls more rest k r r', b.record (run b.next b.init calls) k = some r →
    b.record (run b.next b.init (calls ++ more ++ rest)) k = some r' → r'.version = r.version →
    b.record (run b.next b.init (calls ++ more)) k = some r
  unchanged : ∀ calls a outcome, (b.step (run b.next b.init calls) a.env a.call).2 = outcome →
    (outcome = .ok (.replaced false) ∨ ∃ e, outcome = .error e ∧
      (e ≠ .broken ∨ b.cut (run b.next b.init calls) a.env a.call ≠ some .confirmation)) →
    ∀ k, b.record (b.next (run b.next b.init calls) a) k = b.record (run b.next b.init calls) k

namespace Law

variable {I : b.State → Prop} {stamp : b.State → K → Nat}

/-- The versions a run gives to a key, in order. -/
def assigned (b : Backend K V) (k : K) : b.State → List b.Action → List Nat
  | _, [] => []
  | s, a :: calls =>
    if version (b.record (b.next s a) k) = version (b.record s k) ∨ version (b.record (b.next s a) k) = 0 then
      assigned b k (b.next s a) calls
    else version (b.record (b.next s a) k) :: assigned b k (b.next s a) calls

section

variable (law : b.Law limit I stamp)
include law

/-- They only grow. -/
theorem assigned_sorted (k : K) (calls : List b.Action) {s : b.State} (h : I s) :
    (assigned b k s calls).Pairwise (· < ·) ∧ ∀ v ∈ assigned b k s calls, stamp s k < v ∧ v < limit := by
  induction calls generalizing s with
  | nil => simp [assigned]
  | cons a calls ih =>
    obtain ⟨hsorted, hbound⟩ := ih (law.keeps s a h)
    have hgrows := law.grows s a k h
    have hrest : ∀ v ∈ assigned b k (b.next s a) calls, stamp s k < v ∧ v < limit :=
      fun v hv => ⟨Nat.lt_of_le_of_lt hgrows (hbound v hv).1, (hbound v hv).2⟩
    rw [assigned]
    split_ifs with hsame
    · exact ⟨hsorted, hrest⟩
    rw [not_or] at hsame
    have hlimit := law.bound _ k (law.keeps s a h)
    have hfresh : stamp s k < version (b.record (b.next s a) k) := by
      rcases (law.serves s a h).after_cases k with heq | ⟨hk, hnew⟩
      · exact absurd (congrArg version heq) hsame.1
      · cases hr : b.record (b.next s a) k with
        | none => simp [hr, version] at hsame
        | some r => exact hk ▸ (hnew r hr).1
    refine ⟨pairwise_cons.2 ⟨fun v hv => Nat.lt_of_le_of_lt hlimit.1 (hbound v hv).1, hsorted⟩, ?_⟩
    rw [forall_mem_cons]
    exact ⟨⟨hfresh, Nat.lt_of_le_of_lt hlimit.1 hlimit.2⟩, hrest⟩

/-- With the versions counted in the order they are given, the map answers every call as the backend does. -/
theorem trace_eq {σ : K → Equiv.Perm Nat} (hσ : ∀ k, Renaming limit (σ k))
    (calls : List b.Action) {s : b.State} (h : I s) {m : Map K V}
    (hrel : ∀ k, (b.record s k).map (Record.rename (σ k)) = m.record k)
    (hrank : ∀ k i v, (assigned b k s calls)[i]? = some v → σ k v = m.writes k + i + 1)
    (hne : ∀ e ∈ b.trace s calls, e.2.2 ≠ .error .exhausted) :
    m.trace limit ((b.trace s calls).map fun e => (e.1, e.2.1.rename σ)) = (b.trace s calls).map (renamed σ) := by
  induction calls generalizing s m with
  | nil => rfl
  | cons a calls ih =>
    rw [Backend.trace, forall_mem_cons] at hne
    have hfirst : version (b.record (b.next s a) a.call.key) ≠ version (b.record s a.call.key) →
        version (b.record (b.next s a) a.call.key) ≠ 0 →
        σ a.call.key (version (b.record (b.next s a) a.call.key)) = m.writes a.call.key + 1 := by
      intro hchanged hpresent
      apply hrank a.call.key 0
      rw [assigned, if_neg (by tauto)]
      rfl
    obtain ⟨hanswer, hrel', hwrites⟩ :=
      (law.serves s a h).follow hne.1 hσ hrel (law.bound s a.call.key h).1 hfirst
    have hrank' : ∀ k i v, (assigned b k (b.next s a) calls)[i]? = some v →
        σ k v = (m.step limit (b.cut s a.env a.call) (a.call.rename σ)).1.writes k + i + 1 := by
      intro k i v hv
      rw [hwrites k]
      split_ifs with hsame
      · exact hrank k i v (by rwa [assigned, if_pos hsame])
      · have := hrank k (i + 1) v (by rwa [assigned, if_neg hsame, getElem?_cons_succ])
        omega
    simp only [Backend.trace, map_cons, Map.trace, renamed, hanswer]
    rw [ih (law.keeps s a h) hrel' hrank' hne.2]

/-- Once a version has gone from its key it does not come back. -/
theorem version_gone {k : K} {v : Nat} {s : b.State} (h : I s) (hv : v ≤ stamp s k)
    (hgone : ∀ r, b.record s k = some r → v < r.version) (calls : List b.Action) :
    ∀ r, b.record (run b.next s calls) k = some r → v < r.version := by
  refine (run_inv (I := fun s => I s ∧ v ≤ stamp s k ∧ ∀ r, b.record s k = some r → v < r.version) ?_
    ⟨h, hv, hgone⟩ calls).2.2
  rintro s a ⟨hs, hv, hgone⟩
  refine ⟨law.keeps s a hs, Nat.le_trans hv (law.grows s a k hs), fun r hr => ?_⟩
  rcases (law.serves s a hs).after_cases k with heq | ⟨rfl, hnew⟩
  · exact hgone r (heq ▸ hr)
  · exact Nat.lt_of_le_of_lt hv (hnew r hr).1

/-- A record stays until its version has gone. -/
theorem record_or_gone {k : K} {r : Record V} {s : b.State} (h : I s)
    (hr : b.record s k = some r) (calls : List b.Action) :
    b.record (run b.next s calls) k = some r ∨
      r.version ≤ stamp (run b.next s calls) k ∧
        ∀ r', b.record (run b.next s calls) k = some r' → r.version < r'.version := by
  refine (run_inv (I := fun s => I s ∧ (b.record s k = some r ∨
    r.version ≤ stamp s k ∧ ∀ r', b.record s k = some r' → r.version < r'.version)) ?_ ⟨h, .inl hr⟩ calls).2
  rintro s a ⟨hs, hor⟩
  refine ⟨law.keeps s a hs, ?_⟩
  have hbound : r.version ≤ stamp s k := by
    rcases hor with heq | hgone
    · have := (law.bound s k hs).1
      rwa [heq] at this
    · exact hgone.1
  rcases (law.serves s a hs).after_cases k with heq | ⟨rfl, hnew⟩
  · rw [heq]
    exact hor.imp_right fun hgone => ⟨Nat.le_trans hgone.1 (law.grows s a k hs), hgone.2⟩
  · exact .inr ⟨Nat.le_trans hbound (law.grows s a _ hs), fun r' hr' => Nat.lt_of_le_of_lt hbound (hnew r' hr').1⟩

theorem run_keeps (calls : List b.Action) : I (run b.next b.init calls) :=
  run_inv law.keeps law.init calls

theorem implements : b.Implements limit where
  results calls hne := by
    have hsorted : ∀ k, ∃ σ, Renaming limit σ ∧
        ∀ i v, (assigned b k b.init calls)[i]? = some v → σ v = i + 1 ∧ i < v := by
      intro k
      obtain ⟨hs, hb⟩ := law.assigned_sorted k calls law.init
      exact Renaming.exists_rank limit _ hs fun v hv => ⟨Nat.lt_of_le_of_lt (Nat.zero_le _) (hb v hv).1, (hb v hv).2⟩
    choose σ hσ hrank using hsorted
    refine ⟨σ, hσ, law.trace_eq hσ calls law.init (fun k => ?_) (fun k i v hv => ?_) hne⟩
    · rw [law.empty]
      rfl
    · rw [(hrank k i v hv).1]
      simp [Map.empty]
  versions calls more rest k r r' hr hr' hversion := by
    rw [run_append] at hr' ⊢
    rw [run_append] at hr'
    have hrun := law.run_keeps calls
    rcases law.record_or_gone hrun hr more with hkept | ⟨hstamp, hgone⟩
    · exact hkept
    · have := law.version_gone (run_inv law.keeps hrun more) hstamp hgone rest r' hr'
      omega
  unchanged calls a outcome ho hfailed k := by
    rw [(law.serves _ a (law.run_keeps calls)).after_eq (ho ▸ hfailed)]

end

end Law

end Backend

end Lib.Versioned
