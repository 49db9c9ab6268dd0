import Fsnet.Attributes.Wire
import Fsnet.Lib.Versioned
/-!
# The memory backend

`Memory`: a table of records and one revision all keys take their versions from.
A transaction builds the next table beside the present one and swaps it in at
the end; `Stage` says where the memory for that runs out.
-/

namespace Fsnet.Storage

open Lib List Function
open Lib.Versioned (Record version Call Cut Thrown Outcome Answer)

/-- `max_version`, and the `INT64_MAX` of the file backend. -/
def maxVersion : Nat := 2 ^ 63 - 1

def maximumKey : Nat := 4096

def maximumValue : Nat := 16 * 1024 * 1024

/-- The calls the backends are for: no value above the limit. -/
def Fits {K : Type} : Call K Bytes → Prop
  | .get _ => True
  | .replace _ _ value => ∀ v ∈ value, v.length ≤ maximumValue

/-- The kind of an exception. -/
def kind : Failure → Thrown
  | .invalid _ => .invalid
  | .overflow _ => .exhausted
  | _ => .broken

structure Mutation where
  key : Bytes
  expected : Nat
  value : Option Bytes
  checkOnly : Bool := false

/-- The table and `revision_`. -/
structure Memory where
  records : Bytes → Option (Record Bytes)
  revision : Nat

namespace Memory

/-- An allocation that fails: the key as a string, the insertion of a key of the
transaction into the set of its keys, a copy of a record or of the table, or the
assignment of a value in the copy. -/
inductive Stage where
  | string
  | insert (index : Nat)
  | copy
  | assign (index : Nat)
  deriving DecidableEq, Repr

inductive Error where
  | thrown (e : Failure)
  | badAlloc
  deriving DecidableEq, Repr

variable (fault : Option Stage)

/-- The loop of `validate`, from the mutation at `index` on. -/
def validateFrom (keys : List Bytes) (index : Nat) : List Mutation → Except Error Unit
  | [] => .ok ()
  | mutation :: rest => do
    refuseIf (maxVersion ≤ mutation.expected ∨ maximumKey < mutation.key.length ∨ mutation.key = [] ∨
      ∃ value ∈ mutation.value, maximumValue < value.length) (.thrown (.invalid "invalid storage mutation"))
    refuseIf (fault = some (.insert index)) .badAlloc
    refuseIf (keys.contains mutation.key) (.thrown (.invalid "duplicate transaction key"))
    validateFrom (mutation.key :: keys) (index + 1) rest

def validate (mutations : List Mutation) : Except Error Unit := do
  refuseIf (1024 < mutations.length) (.thrown (.length "transaction too large"))
  validateFrom fault [] 0 mutations

def get (s : Memory) (key : Bytes) : Except Error (Option (Record Bytes)) :=
  if fault = some .string ∨ fault = some .copy then .error .badAlloc else .ok (s.records key)

/-- Does the mutation stop the transaction? -/
def refuses (s : Memory) (mutation : Mutation) : Bool :=
  version (s.records mutation.key) ≠ mutation.expected ||
    (!mutation.checkOnly && mutation.value.isNone && version (s.records mutation.key) = 0)

/-- `next` and `revision` after the mutations from `index` on. -/
def applyFrom (next : Memory) (index : Nat) : List Mutation → Except Error Memory
  | [] => .ok next
  | mutation :: rest =>
    if mutation.checkOnly then applyFrom next (index + 1) rest
    else
      match mutation.value with
      | some value => do
        refuseIf (fault = some (.assign index)) .badAlloc
        applyFrom ⟨update next.records mutation.key (some ⟨value, next.revision + 1⟩), next.revision + 1⟩
          (index + 1) rest
      | none => applyFrom { next with records := update next.records mutation.key none } (index + 1) rest

def transact (s : Memory) (mutations : List Mutation) : Memory × Except Error Bool :=
  match validate fault mutations with
  | .error e => (s, .error e)
  | .ok _ =>
    if mutations.any s.refuses then (s, .ok false)
    else if maxVersion - s.revision ≤ mutations.length then
      (s, .error (.thrown (.overflow "record version exhausted")))
    else if fault = some .copy then (s, .error .badAlloc)
    else
      match applyFrom fault s 0 mutations with
      | .error e => (s, .error e)
      | .ok next => (next, .ok true)

def compareExchange (s : Memory) (key : Bytes) (expected : Nat) (value : Bytes) : Memory × Except Error Bool :=
  if fault = some .string then (s, .error .badAlloc) else s.transact fault [⟨key, expected, some value, false⟩]

def erase (s : Memory) (key : Bytes) (expected : Nat) : Memory × Except Error Bool :=
  if fault = some .string then (s, .error .badAlloc) else s.transact fault [⟨key, expected, none, false⟩]

/-! ## Transactions -/

variable {fault}

/-- What a mutation leaves under its key. -/
def Changed (s s' : Memory) (mutation : Mutation) : Prop :=
  if mutation.checkOnly then s'.records mutation.key = s.records mutation.key
  else
    match mutation.value with
    | some value => ∃ n, s.revision < n ∧ n ≤ s'.revision ∧ s'.records mutation.key = some ⟨value, n⟩
    | none => s'.records mutation.key = none

/-- Every mutation met the version it expected and was applied, and no other key was touched. -/
structure Applied (s s' : Memory) (mutations : List Mutation) : Prop where
  expected : ∀ mutation ∈ mutations, version (s.records mutation.key) = mutation.expected
  changed : ∀ mutation ∈ mutations, Changed s s' mutation
  others : ∀ key, key ∉ mutations.map Mutation.key → s'.records key = s.records key

theorem validateFrom_nodup {keys : List Bytes} {index : Nat} {mutations : List Mutation} {u : Unit}
    (h : validateFrom fault keys index mutations = .ok u) :
    (mutations.map Mutation.key).Nodup ∧ ∀ mutation ∈ mutations, mutation.key ∉ keys := by
  induction mutations generalizing keys index with
  | nil => simp
  | cons _ _ ih =>
    rw [validateFrom, refuseIf_bind_eq_ok, refuseIf_bind_eq_ok, refuseIf_bind_eq_ok] at h
    obtain ⟨-, -, hkey, hrest⟩ := h
    obtain ⟨hnodup, hnot⟩ := ih hrest
    simp only [mem_cons, not_or] at hnot
    refine ⟨nodup_cons.2 ⟨?_, hnodup⟩, forall_mem_cons.2 ⟨by simpa using hkey, fun m hm => (hnot m hm).2⟩⟩
    intro hmem
    obtain ⟨m, hm, heq⟩ := mem_map.1 hmem
    exact (hnot m hm).1 heq

/-- A change is seen the same way from a table and to a table with the same record of its key. -/
theorem Changed.mono {s s' t t' : Memory} {mutation : Mutation} (h : Changed s t mutation)
    (hs : s.records mutation.key = s'.records mutation.key) (ht : t'.records mutation.key = t.records mutation.key)
    (hlow : s'.revision ≤ s.revision) (hhigh : t.revision ≤ t'.revision) : Changed s' t' mutation := by
  obtain ⟨_, _, value, checkOnly⟩ := mutation
  cases checkOnly with
  | true => exact ht.trans (Eq.trans h hs)
  | false =>
    cases value with
    | none => exact ht.trans h
    | some =>
      obtain ⟨n, hn, hle, hr⟩ := h
      exact ⟨n, Nat.lt_of_le_of_lt hlow hn, Nat.le_trans hle hhigh, ht.trans hr⟩

/-- The copy after one mutation. -/
def assign (next : Memory) (mutation : Mutation) : Memory :=
  if mutation.checkOnly then next
  else
    match mutation.value with
    | some value =>
      ⟨update next.records mutation.key (some ⟨value, next.revision + 1⟩), next.revision + 1⟩
    | none => { next with records := update next.records mutation.key none }

theorem changed_assign (next : Memory) (mutation : Mutation) : Changed next (next.assign mutation) mutation := by
  unfold Changed assign
  split
  · rfl
  · cases mutation.value with
    | none => simp
    | some => exact ⟨next.revision + 1, by simp, by simp, by simp⟩

theorem revision_assign (next : Memory) (mutation : Mutation) : next.revision ≤ (next.assign mutation).revision := by
  unfold assign
  split
  · exact Nat.le_refl _
  · split <;> simp

theorem records_assign_of_ne (next : Memory) {mutation : Mutation} {key : Bytes} (h : key ≠ mutation.key) :
    (next.assign mutation).records key = next.records key := by
  unfold assign
  split
  · rfl
  · split <;> simp [h]

/-- The loop applies the mutations one after another, unless memory runs out. -/
theorem applyFrom_cons {next t : Memory} {index : Nat} {mutation : Mutation} {rest : List Mutation}
    (h : applyFrom fault next index (mutation :: rest) = .ok t) :
    applyFrom fault (next.assign mutation) (index + 1) rest = .ok t := by
  unfold applyFrom at h
  unfold assign
  split at h <;> rename_i hcheck
  · rwa [if_pos hcheck]
  rw [if_neg hcheck]
  cases hv : mutation.value with
  | none => simpa [hv] using h
  | some =>
    simp only [hv] at h
    exact (refuseIf_bind_eq_ok.1 h).2

theorem applyFrom_applied {next t : Memory} {index : Nat} {mutations : List Mutation}
    (h : applyFrom fault next index mutations = .ok t) (hnodup : (mutations.map Mutation.key).Nodup) :
    next.revision ≤ t.revision ∧ (∀ mutation ∈ mutations, Changed next t mutation) ∧
      ∀ key, key ∉ mutations.map Mutation.key → t.records key = next.records key := by
  induction mutations generalizing next index with
  | nil =>
    cases h
    simp
  | cons mutation _ ih =>
    rw [map_cons, nodup_cons] at hnodup
    obtain ⟨hrev, hchanged, hothers⟩ := ih (applyFrom_cons h) hnodup.2
    have hfirst := revision_assign next mutation
    refine ⟨Nat.le_trans hfirst hrev, forall_mem_cons.2 ⟨?_, ?_⟩, ?_⟩
    · exact (changed_assign next mutation).mono rfl (hothers _ hnodup.1) (Nat.le_refl _) hrev
    · intro m hm
      have hne : m.key ≠ mutation.key := fun heq => hnodup.1 (heq ▸ mem_map_of_mem hm)
      exact (hchanged m hm).mono (records_assign_of_ne next hne) rfl hfirst (Nat.le_refl _)
    · intro key hkey
      rw [map_cons, mem_cons, not_or] at hkey
      rw [hothers key hkey.2, records_assign_of_ne next hkey.1]

/-- All mutations are applied or none is. -/
theorem transact_cases (fault : Option Stage) (s : Memory) (mutations : List Mutation) :
    ((s.transact fault mutations).2 ≠ .ok true ∧ (s.transact fault mutations).1 = s) ∨
      ((s.transact fault mutations).2 = .ok true ∧ Applied s (s.transact fault mutations).1 mutations) := by
  unfold transact
  split
  · exact .inl ⟨by simp, rfl⟩
  rename_i hvalid
  split_ifs with hrefused hfull hcopy
  · exact .inl ⟨by simp, rfl⟩
  · exact .inl ⟨by simp, rfl⟩
  · exact .inl ⟨by simp, rfl⟩
  split
  · exact .inl ⟨by simp, rfl⟩
  rename_i happly
  rw [validate, refuseIf_bind_eq_ok] at hvalid
  obtain ⟨-, hchanged, hothers⟩ := applyFrom_applied happly (validateFrom_nodup hvalid.2).1
  refine .inr ⟨rfl, ⟨fun m hm => ?_, hchanged, hothers⟩⟩
  simp only [any_eq_true, not_exists, not_and] at hrefused
  have := hrefused m hm
  simp only [refuses, Bool.or_eq_true, decide_eq_true_eq, not_or, not_not] at this
  exact this.1

/-! ## One key -/

theorem applyFrom_single (s : Memory) (key : Bytes) (expected : Nat) (value : Option Bytes) :
    applyFrom fault s 0 [⟨key, expected, value, false⟩] =
      if fault = some (.assign 0) ∧ value.isNone = false then .error .badAlloc
      else .ok (s.assign ⟨key, expected, value, false⟩) := by
  cases value with
  | none => simp [applyFrom, assign]
  | some =>
    by_cases hassign : fault = some (.assign 0)
    · simp [applyFrom, hassign]
    · simp [applyFrom, assign, hassign]

/-- A transaction of one mutation. -/
theorem transact_single (s : Memory) {key : Bytes} {expected : Nat} {value : Option Bytes}
    (hkey : key ≠ [] ∧ key.length ≤ maximumKey) (hvalue : ∀ v ∈ value, v.length ≤ maximumValue) :
    s.transact fault [⟨key, expected, value, false⟩] =
      if maxVersion ≤ expected then (s, .error (.thrown (.invalid "invalid storage mutation")))
      else if fault = some (.insert 0) then (s, .error .badAlloc)
      else if version (s.records key) ≠ expected ∨ value.isNone = true ∧ version (s.records key) = 0 then (s, .ok false)
      else if maxVersion - s.revision ≤ 1 then (s, .error (.thrown (.overflow "record version exhausted")))
      else if fault = some .copy ∨ fault = some (.assign 0) ∧ value.isNone = false then (s, .error .badAlloc)
      else (s.assign ⟨key, expected, value, false⟩, .ok true) := by
  have hlong : ¬maximumKey < key.length := by omega
  have hbig : ¬∃ v ∈ value, maximumValue < v.length := by
    rintro ⟨v, hv, hlt⟩
    exact absurd (hvalue v hv) (by omega)
  have hrefuses : s.refuses ⟨key, expected, value, false⟩ = true ↔
      version (s.records key) ≠ expected ∨ value.isNone = true ∧ version (s.records key) = 0 := by
    simp [refuses]
  unfold transact validate
  rw [refuseIf_of_not _ (by simp), ok_bind, validateFrom]
  simp only [hlong, hkey.1, hbig, or_false, any_cons, any_nil, Bool.or_false, hrefuses, length_singleton,
    contains_nil, Bool.false_eq_true, refuseIf_false, ok_bind, validateFrom]
  by_cases hexpected : maxVersion ≤ expected
  · simp [hexpected]
  simp only [hexpected, refuseIf_false, ok_bind, if_false]
  by_cases hinsert : fault = some (.insert 0)
  · simp [hinsert]
  simp only [hinsert, refuseIf_false, ok_bind, if_false]
  rw [applyFrom_single]
  by_cases hcopy : fault = some .copy
  · simp [hcopy]
  · simp only [hcopy, if_false, false_or]
    split_ifs <;> rfl

theorem records_assign (s : Memory) (key : Bytes) (expected : Nat) (value : Option Bytes) :
    (s.assign ⟨key, expected, value, false⟩).records =
      update s.records key (value.map fun v => ⟨v, s.revision + 1⟩) := by
  cases value <;> rfl

def Error.kind : Error → Thrown
  | .thrown e => Storage.kind e
  | .badAlloc => .broken

/-- Where an allocation that fails interrupts a call. To remove a record takes none. -/
def cut {K : Type} (fault : Option Stage) : Call K Bytes → Option Cut
  | .get _ => if fault = some .string then some .arguments else if fault = some .copy then some .comparison else none
  | .replace _ _ value =>
    if fault = some .string then some .arguments
    else if fault = some (.insert 0) then some .comparison
    else if fault = some .copy ∨ fault = some (.assign 0) ∧ value.isNone = false then some .commit
    else none

/-- `Memory` behind the interface, for some keys. -/
def backend (keys : Set Bytes) : Versioned.Backend {key // key ∈ keys} Bytes where
  State := Memory
  Env := Option Stage
  takes := Fits
  init := ⟨fun _ => none, 0⟩
  step s fault
    | .get key => (s, ((s.get fault key.1).mapError Error.kind).map .found)
    | .replace key expected (some value) =>
      let p := s.compareExchange fault key.1 expected value
      (p.1, (p.2.mapError Error.kind).map .replaced)
    | .replace key expected none =>
      let p := s.erase fault key.1 expected
      (p.1, (p.2.mapError Error.kind).map .replaced)
  cut _ fault call := cut fault call
  record s key := s.records key.1

/-- No record has a version above the revision. -/
def Sound (s : Memory) : Prop := s.revision < maxVersion ∧ ∀ key, version (s.records key) ≤ s.revision

variable {keys : Set Bytes}

/-- A replacement, with or without a value. -/
theorem step_replace (s : Memory) (fault : Option Stage) (key : {key // key ∈ keys}) (expected : Nat)
    (value : Option Bytes) :
    (backend keys).step s fault (.replace key expected value) =
      if fault = some .string then (s, .error .broken)
      else ((s.transact fault [⟨key.1, expected, value, false⟩]).1,
        ((s.transact fault [⟨key.1, expected, value, false⟩]).2.mapError Error.kind).map .replaced) := by
  cases value with
  | none =>
    simp only [backend, erase]
    split_ifs <;> rfl
  | some =>
    simp only [backend, compareExchange]
    split_ifs <;> rfl

theorem Sound.assign {s : Memory} (h : s.Sound) (hrev : s.revision + 1 < maxVersion) (key : Bytes) (expected : Nat)
    (value : Option Bytes) : (s.assign ⟨key, expected, value, false⟩).Sound := by
  have hgrows := revision_assign s ⟨key, expected, value, false⟩
  refine ⟨?_, fun key' => ?_⟩
  · cases value with
    | none => exact h.1
    | some => exact hrev
  · by_cases hk : key' = key
    · subst hk
      rw [records_assign, update_self]
      cases value with
      | none => simp [version]
      | some => exact Nat.le_refl _
    · rw [records_assign_of_ne s hk]
      exact Nat.le_trans (h.2 key') hgrows

/-- A call leaves the table or assigns one key in it. -/
def Moves (s s' : Memory) : Prop :=
  s' = s ∨ s.revision + 1 < maxVersion ∧ ∃ key expected value, s' = s.assign ⟨key, expected, value, false⟩

theorem Moves.sound {s s' : Memory} (hm : Moves s s') (h : s.Sound) : s'.Sound := by
  rcases hm with rfl | ⟨hrev, key, expected, value, rfl⟩
  · exact h
  · exact h.assign hrev key expected value

theorem Moves.revision_le {s s' : Memory} (hm : Moves s s') : s.revision ≤ s'.revision := by
  rcases hm with rfl | ⟨-, _, _, _, rfl⟩
  · exact Nat.le_refl _
  · exact revision_assign _ _

theorem record_assign (s : Memory) (key : {key // key ∈ keys}) (expected : Nat) (value : Option Bytes) :
    (backend keys).record (s.assign ⟨key.1, expected, value, false⟩) =
      update ((backend keys).record s) key (value.map fun v => ⟨v, s.revision + 1⟩) := by
  funext key'
  by_cases hk : key' = key
  · subst hk
    simp [backend, records_assign]
  · have hne : key'.1 ≠ key.1 := fun heq => hk (Subtype.ext heq)
    simp [backend, records_assign, hk, hne]

/-- What a call leaves, and that it answers as it should. -/
def Served (keys : Set Bytes) (s : Memory) (fault : Option Stage) (call : Call {key // key ∈ keys} Bytes) : Prop :=
  ∃ s' outcome, (backend keys).step s fault call = (s', outcome) ∧ Moves s s' ∧
    Versioned.Serves maxVersion (cut fault call) ((backend keys).record s) s.revision s'.revision call
      ((backend keys).record s') outcome

theorem served_replace (s : Memory) (fault : Option Stage) (key : {key // key ∈ keys}) (expected : Nat)
    {value : Option Bytes} (hkey : key.1 ≠ [] ∧ key.1.length ≤ maximumKey)
    (hvalue : ∀ v ∈ value, v.length ≤ maximumValue) : Served keys s fault (.replace key expected value) := by
  unfold Served
  rw [step_replace, transact_single s hkey hvalue]
  have hversion : version ((backend keys).record s key) = version (s.records key.1) := rfl
  by_cases hstring : fault = some .string
  · subst hstring
    exact ⟨s, _, if_pos rfl, .inl rfl, .kept key expected value (.error .broken) (by simp [Versioned.attempt, cut])⟩
  have harguments : cut fault (.replace key expected value) ≠ some .arguments := by
    simp only [cut, if_neg hstring]
    split_ifs <;> simp
  rw [if_neg hstring]
  by_cases hexpected : maxVersion ≤ expected
  · rw [if_pos hexpected]
    refine ⟨s, _, rfl, .inl rfl, .kept key expected value (.error .invalid) ?_⟩
    simp [Versioned.attempt, harguments, hexpected]
  rw [if_neg hexpected]
  by_cases hinsert : fault = some (.insert 0)
  · rw [if_pos hinsert]
    refine ⟨s, _, rfl, .inl rfl, .kept key expected value (.error .broken) ?_⟩
    simp [Versioned.attempt, cut, hinsert, hexpected]
  have hcut : cut fault (.replace key expected value) =
      if fault = some .copy ∨ fault = some (.assign 0) ∧ value.isNone = false then some .commit else none := by
    rw [cut, if_neg hstring, if_neg hinsert]
  have hcomparison : cut fault (.replace key expected value) ≠ some .comparison := by
    rw [hcut]
    split_ifs <;> simp
  rw [if_neg hinsert]
  by_cases hmismatch : version (s.records key.1) ≠ expected ∨ value.isNone = true ∧ version (s.records key.1) = 0
  · rw [if_pos hmismatch]
    refine ⟨s, _, rfl, .inl rfl, .kept key expected value (.ok false) ?_⟩
    simp only [Versioned.attempt, if_neg harguments, if_neg hexpected, if_neg hcomparison, hversion, if_pos hmismatch]
  rw [if_neg hmismatch]
  by_cases hfull : maxVersion - s.revision ≤ 1
  · rw [if_pos hfull]
    exact ⟨s, _, rfl, .inl rfl, .exhausted _⟩
  rw [if_neg hfull]
  have hattempt : Versioned.attempt maxVersion (cut fault (.replace key expected value)) (version (s.records key.1))
      expected value.isNone = if cut fault (.replace key expected value) = some .commit then (false, .error .broken)
        else (true, .ok true) := by
    simp only [Versioned.attempt, if_neg harguments, if_neg hexpected, if_neg hcomparison, if_neg hmismatch]
    rw [hcut]
    split_ifs <;> simp_all
  by_cases hcommit : fault = some .copy ∨ fault = some (.assign 0) ∧ value.isNone = false
  · rw [if_pos hcommit] at hcut ⊢
    exact ⟨s, _, rfl, .inl rfl, .kept key expected value (.error .broken) (by rw [hversion, hattempt, if_pos hcut])⟩
  rw [if_neg hcommit] at hcut ⊢
  refine ⟨_, _, rfl, .inr ⟨by omega, key.1, expected, value, rfl⟩, ?_⟩
  rw [record_assign]
  refine .stored key expected value (.ok true) (s.revision + 1) ?_ fun hsome => ?_
  · rw [hversion, hattempt, hcut]
    rfl
  · cases value with
    | none => exact absurd rfl hsome
    | some => exact ⟨Nat.lt_succ_self _, Nat.le_refl _⟩

theorem served_get (s : Memory) (fault : Option Stage) (key : {key // key ∈ keys}) :
    Served keys s fault (.get key) := by
  have hanswer : (backend keys).step s fault (.get key) =
      (s, Versioned.look (cut fault (.get key : Call _ Bytes)) ((backend keys).record s key)) := by
    simp only [backend, get, cut, Versioned.look]
    split_ifs <;> simp_all <;> rfl
  exact ⟨s, _, hanswer, .inl rfl, .found key⟩

/-- One call of the memory backend does what the interface says. -/
theorem law (hkeys : ∀ key ∈ keys, key ≠ [] ∧ key.length ≤ maximumKey) :
    (backend keys).Law maxVersion Sound fun s _ => s.revision := by
  have hserved : ∀ s (a : (backend keys).Action), Served keys s a.env a.call := by
    rintro s ⟨fault, call, hfits⟩
    cases call with
    | get key => exact served_get s fault key
    | replace key expected => exact served_replace s fault key expected (hkeys _ key.2) hfits
  have hmoves : ∀ s a, Moves s ((backend keys).next s a) := by
    intro s a
    obtain ⟨s', outcome, hstep, _, -⟩ := hserved s a
    have hnext : (backend keys).next s a = s' := congrArg Prod.fst hstep
    rwa [hnext]
  refine ⟨⟨(by decide : 0 < maxVersion), fun key => by simp [backend, version]⟩, fun key => rfl,
    fun s a h => (hmoves s a).sound h,
    fun s key h => ⟨h.2 _, h.1⟩, fun s a _ _ => (hmoves s a).revision_le, fun s a _ => ?_⟩
  obtain ⟨_, _, hstep, -, hs⟩ := hserved s a
  rw [Versioned.Backend.next, hstep]
  exact hs

end Memory

end Fsnet.Storage
