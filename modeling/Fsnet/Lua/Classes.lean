import Mathlib.Data.List.Perm.Basic
import Fsnet.Lib.Bytes
import Fsnet.Lib.Except
import Fsnet.Lib.OrdMap
/-!
# Entity classes

`flatten` folds a class and its ancestors, from the root down, into one table of
methods and one of RPC policies. Each loop goes over a Lua table, in an order
that is not specified: `Order` is any choice of it, one for each loop. What a
class exposes is then what its most derived declarations say, in every order.
-/

namespace Fsnet.EntityClass

open Lib List

inductive Caller where
  | client
  | server
  deriving DecidableEq, Repr

/-- What `rpc` declares; `owner` is `access='owner'`. -/
structure Policy where
  callers : List Caller
  owner : Bool
  deriving DecidableEq, Repr

/-- What a class declares of a method: `rpc`, or the `false` that `private` puts in its place. -/
inductive Declaration where
  | rpc (policy : Policy)
  | hidden
  deriving DecidableEq, Repr

inductive Domain where
  | shared
  | server
  | client
  deriving DecidableEq, Repr

/-- The record of a class, over the functions, property definitions and option values of the scripts. -/
structure ClassData (F D O : Type) where
  options : OrdMap Bytes O := .empty
  attrs : OrdMap Bytes D := .empty
  domains : OrdMap Bytes Domain := .empty
  methods : OrdMap Bytes F := .empty
  rpcs : OrdMap Bytes Declaration := .empty

/-- A class, with the classes it extends. -/
inductive Class (F D O : Type) where
  | root (data : ClassData F D O)
  | extend (parent : Class F D O) (data : ClassData F D O)

/-- What `flatten` returns. -/
structure Flat (F D O : Type) where
  options : OrdMap Bytes O := .empty
  attrs : OrdMap Bytes D := .empty
  domains : OrdMap Bytes Domain := .empty
  methods : OrdMap Bytes F := .empty
  rpcs : OrdMap Bytes Policy := .empty

/-- The order in which each loop meets the entries of its table. -/
structure Order where
  pairs : Nat → {V : Type} → OrdMap Bytes V → List (Bytes × V)
  perm : ∀ loop {V : Type} (table : OrdMap Bytes V), (pairs loop table).Perm table.entries

def reserved : List Bytes :=
  ["id", "type", "context", "reject", "attr", "rpc", "private", "extend", "register", "ref", "reference", "define",
    "spawn_local", "watch", "write", "close", "revision", "mode", "method", "batch", "prediction",
    "spawn", "deactivate", "destroy", "show_to", "hide_from", "possess", "unpossess", "after", "at", "every",
    "cancel_timer", "timer", "bind_owner"].map ascii

variable {F D O V W : Type}

variable (out : OrdMap Bytes W) (order : Order) (value : V → Option W)

/-- An assignment to a field; `nil` removes it. -/
def assign (key : Bytes) : Option W → OrdMap Bytes W
  | some value => out.insert key value
  | none => out.erase key

/-- A loop that checks every entry and assigns what becomes of it. -/
def forEach (check : Bytes → V → Except Bytes Unit) (value : V → Option W) :
    List (Bytes × V) → OrdMap Bytes W → Except Bytes (OrdMap Bytes W)
  | [], out => pure out
  | (key, v) :: rest, out => do
    check key v
    forEach check value rest (assign out key (value v))

/-- `value and copy(value) or nil` -/
def Declaration.policy : Declaration → Option Policy
  | .rpc policy => some policy
  | .hidden => none

/-- An RPC that is overridden without a declaration. -/
def undeclared (data : ClassData F D O) (rpcs : OrdMap Bytes Policy) (key : Bytes) : Except Bytes Unit :=
  refuseIf ((rpcs.find key).isSome = true ∧ (data.rpcs.find key).isNone = true)
    (ascii "overridden RPC requires an explicit policy: " ++ key)

/-- A private method without an implementation. -/
def unimplemented (methods : OrdMap Bytes F) (key : Bytes) (value : Declaration) : Except Bytes Unit :=
  refuseIf (value = .hidden ∧ (methods.find key).isNone = true) (ascii "private method implementation missing: " ++ key)

/-- One class of the chain. -/
def flattenClass (index : Nat) (data : ClassData F D O) (out : Flat F D O) :
    Except Bytes (Flat F D O) := do
  let options ← forEach (fun _ _ => pure ()) some (order.pairs (5 * index) data.options) out.options
  let attrs ← forEach (fun _ _ => pure ()) some (order.pairs (5 * index + 1) data.attrs) out.attrs
  let domains ← forEach (fun _ _ => pure ()) some (order.pairs (5 * index + 2) data.domains) out.domains
  let methods ← forEach (fun key _ => undeclared data out.rpcs key) some (order.pairs (5 * index + 3) data.methods)
    out.methods
  let rpcs ← forEach (unimplemented methods) Declaration.policy (order.pairs (5 * index + 4) data.rpcs) out.rpcs
  pure ⟨options, attrs, domains, methods, rpcs⟩

def flattenFrom (order : Order) (index : Nat) (out : Flat F D O) : List (ClassData F D O) → Except Bytes (Flat F D O)
  | [] => pure out
  | data :: rest => do
    let out ← flattenClass order index data out
    flattenFrom order (index + 1) out rest

/-- The loop that collects the ancestors, each in front of what it has. -/
def Class.chainFrom : Class F D O → List (ClassData F D O) → List (ClassData F D O)
  | .root data, chain => data :: chain
  | .extend parent data, chain => parent.chainFrom (data :: chain)

/-- The class and its ancestors, from the root on. -/
def Class.chain (c : Class F D O) : List (ClassData F D O) := c.chainFrom []

/-- A loop that only checks. -/
def checkEach (check : Bytes → Except Bytes Unit) (entries : List (Bytes × V)) : Except Bytes (OrdMap Bytes Unit) :=
  forEach (fun key _ => check key) (fun _ => none) entries .empty

def flatten (c : Class F D O) : Except Bytes (Flat F D O) := do
  let out ← flattenFrom order 0 {} c.chain
  let loop := 5 * c.chain.length
  let _ ← checkEach (fun key => refuseIf ((out.methods.find key).isSome = true ∨ reserved.contains key)
    (ascii "property/method name collision: " ++ key)) (order.pairs loop out.attrs)
  let _ ← checkEach (fun key => refuseIf ((out.methods.find key).isNone = true)
    (ascii "RPC implementation missing: " ++ key)) (order.pairs (loop + 1) out.rpcs)
  let _ ← checkEach (fun key => refuseIf ((out.methods.find key).isNone = true)
    (ascii "method implementation missing: " ++ key)) (order.pairs (loop + 2) out.domains)
  pure out

/-- What `register` makes of a method: its policy, and the handler, which checks the domain first. -/
structure Exported (F : Type) where
  policy : Policy
  domain : Option Domain
  handler : F

/-- The methods of the definition `register` passes on. -/
def Flat.exported (flat : Flat F D O) (key : Bytes) : Option (Exported F) :=
  (flat.rpcs.find key).bind fun policy =>
    (flat.methods.find key).map fun handler => ⟨policy, flat.domains.find key, handler⟩

/-! ## Loops -/

theorem find_assign (key key' : Bytes) (o : Option W) :
    (assign out key o).find key' = if key' = key then o else out.find key' := by
  cases o with
  | none => rw [assign, OrdMap.find_erase]; congr
  | some => rw [assign, OrdMap.find_insert]; congr

theorem assign_comm {key key' : Bytes} (h : key ≠ key') (o o' : Option W) :
    assign (assign out key o) key' o' = assign (assign out key' o') key o := by
  ext1 k
  simp only [find_assign]
  split_ifs with hk hk'
  · exact absurd (hk'.symm.trans hk) h
  · rfl
  · rfl
  · rfl

/-- What a loop over the table leaves, in its order by key. -/
def fill (table : OrdMap Bytes V) (out : OrdMap Bytes W) : OrdMap Bytes W :=
  table.entries.foldl (fun out e => assign out e.1 (value e.2)) out

theorem forEach_eq_ok {check : Bytes → V → Except Bytes Unit} {value : V → Option W} {entries : List (Bytes × V)}
    {out out' : OrdMap Bytes W} : forEach check value entries out = .ok out' ↔
      (∀ e ∈ entries, check e.1 e.2 = .ok ()) ∧ out' = entries.foldl (fun out e => assign out e.1 (value e.2)) out := by
  induction entries generalizing out with
  | nil => simp [forEach, eq_comm]
  | cons _ _ ih =>
    rw [forEach, bind_eq_ok, forall_mem_cons, foldl_cons]
    exact ⟨fun ⟨_, hc, h⟩ => ⟨⟨hc, (ih.1 h).1⟩, (ih.1 h).2⟩, fun ⟨⟨hc, h⟩, heq⟩ => ⟨(), hc, ih.2 ⟨h, heq⟩⟩⟩

/-- Two entries of a table have different keys, so the order of a loop does not matter. -/
theorem forEach_pairs (loop : Nat) {check : Bytes → V → Except Bytes Unit} {value : V → Option W}
    {table : OrdMap Bytes V} {out out' : OrdMap Bytes W} :
    forEach check value (order.pairs loop table) out = .ok out' ↔
      (∀ key v, table.find key = some v → check key v = .ok ()) ∧ out' = fill value table out := by
  have hperm := order.perm loop table
  have hfold : (order.pairs loop table).foldl (fun out e => assign out e.1 (value e.2)) out = fill value table out := by
    refine hperm.foldl_eq' (fun e he e' he' out => ?_) out
    by_cases hkey : e.1 = e'.1
    · have h := (table.mem_entries_iff e.1 e.2).1 (hperm.mem_iff.1 he)
      have h' := (table.mem_entries_iff e'.1 e'.2).1 (hperm.mem_iff.1 he')
      rw [hkey, h'] at h
      rw [hkey, Option.some.inj h]
    · exact assign_comm out hkey _ _
  rw [forEach_eq_ok, hfold]
  refine and_congr_left fun _ => ⟨fun h key v hv => ?_, fun h e he => ?_⟩
  · exact h (key, v) (hperm.mem_iff.2 ((table.mem_entries_iff key v).2 hv))
  · exact h e.1 e.2 ((table.mem_entries_iff e.1 e.2).1 (hperm.mem_iff.1 he))

theorem find_foldl_assign (entries : List (Bytes × V)) (hs : Entries.Sorted entries)
    (out : OrdMap Bytes W) (key : Bytes) :
    (entries.foldl (fun out e => assign out e.1 (value e.2)) out).find key =
      ((Entries.find key entries).map value).getD (out.find key) := by
  induction entries generalizing out with
  | nil => rfl
  | cons e _ ih =>
    obtain ⟨hlt, hs⟩ := pairwise_cons.1 hs
    rw [foldl_cons, ih hs, find_assign, Entries.find_cons]
    by_cases hk : key = e.1
    · -- no later entry has the key
      rw [if_pos hk, hk, if_pos rfl, Entries.find_none_of_lt hlt]
      rfl
    · rw [if_neg hk, if_neg hk]

/-- A field is what the table makes of it, or is as it was. -/
theorem find_fill (table : OrdMap Bytes V) (out : OrdMap Bytes W) (key : Bytes) :
    (fill value table out).find key = ((table.find key).map value).getD (out.find key) :=
  find_foldl_assign value table.entries table.sorted out key

/-! ## One class -/

/-- What the class makes of the tables. -/
def Flat.override (out : Flat F D O) (data : ClassData F D O) : Flat F D O where
  options := fill some data.options out.options
  attrs := fill some data.attrs out.attrs
  domains := fill some data.domains out.domains
  methods := fill some data.methods out.methods
  rpcs := fill Declaration.policy data.rpcs out.rpcs

/-- The checks of a class: an RPC is overridden with a declaration, and what is hidden exists. -/
structure Flat.Admits (out : Flat F D O) (data : ClassData F D O) : Prop where
  declared : ∀ key fn, data.methods.find key = some fn → undeclared data out.rpcs key = .ok ()
  implemented : ∀ key value, data.rpcs.find key = some value →
    unimplemented (out.override data).methods key value = .ok ()

theorem flattenClass_eq_ok {order : Order} {index : Nat} {data : ClassData F D O} {out out' : Flat F D O} :
    flattenClass order index data out = .ok out' ↔ out.Admits data ∧ out' = out.override data := by
  simp only [flattenClass, bind_eq_ok, forEach_pairs, pure_ok_iff]
  constructor
  · rintro ⟨_, ⟨-, rfl⟩, _, ⟨-, rfl⟩, _, ⟨-, rfl⟩, _, ⟨hm, rfl⟩, _, ⟨hr, rfl⟩, rfl⟩
    exact ⟨⟨hm, hr⟩, rfl⟩
  · rintro ⟨h, rfl⟩
    exact ⟨_, ⟨fun _ _ _ => trivial, rfl⟩, _, ⟨fun _ _ _ => trivial, rfl⟩, _, ⟨fun _ _ _ => trivial, rfl⟩, _,
      ⟨h.declared, rfl⟩, _, ⟨h.implemented, rfl⟩, rfl⟩

theorem flattenFrom_order {order : Order} (order' : Order) {index : Nat} (index' : Nat) {chain : List (ClassData F D O)}
    {out flat : Flat F D O} (h : flattenFrom order index out chain = .ok flat) :
    flattenFrom order' index' out chain = .ok flat := by
  induction chain generalizing index index' out with
  | nil => exact h
  | cons _ _ ih =>
    rw [flattenFrom, bind_eq_ok] at h ⊢
    obtain ⟨out', hclass, hrest⟩ := h
    exact ⟨out', flattenClass_eq_ok.2 (flattenClass_eq_ok.1 hclass), ih (index' + 1) hrest⟩

/-- The last checks. -/
structure Flat.Complete (flat : Flat F D O) : Prop where
  attrs : ∀ key d, flat.attrs.find key = some d → ¬((flat.methods.find key).isSome = true ∨ key ∈ reserved)
  rpcs : ∀ key policy, flat.rpcs.find key = some policy → ¬(flat.methods.find key).isNone = true
  domains : ∀ key domain, flat.domains.find key = some domain → ¬(flat.methods.find key).isNone = true

theorem flatten_eq_ok {order : Order} {c : Class F D O} {flat : Flat F D O} :
    flatten order c = .ok flat ↔ flattenFrom order 0 {} c.chain = .ok flat ∧ flat.Complete := by
  simp only [flatten, checkEach, bind_eq_ok, forEach_pairs, pure_ok_iff, refuseIf_eq_ok, contains_iff_mem]
  constructor
  · rintro ⟨_, hout, _, ⟨ha, -⟩, _, ⟨hr, -⟩, _, ⟨hd, -⟩, rfl⟩
    exact ⟨hout, ha, hr, hd⟩
  · rintro ⟨hout, h⟩
    exact ⟨flat, hout, _, ⟨h.attrs, rfl⟩, _, ⟨h.rpcs, rfl⟩, _, ⟨h.domains, rfl⟩, rfl⟩

/-! ## The most derived declaration -/

/-- What the most derived class of the chain that declares the thing declares of it, with its place in the chain. -/
def mostDerived (declares : ClassData F D O → Option V) (chain : List (ClassData F D O)) : Option (Nat × V) :=
  chain.zipIdx.foldl (fun last e => ((declares e.1).map fun v => (e.2, v)).or last) none

variable {chain : List (ClassData F D O)} {data : ClassData F D O} {out flat : Flat F D O}

theorem mostDerived_concat (declares : ClassData F D O → Option V) : mostDerived declares (chain ++ [data]) =
    ((declares data).map fun v => (chain.length, v)).or (mostDerived declares chain) := by
  simp [mostDerived, zipIdx_append]

theorem mostDerived_lt {declares : ClassData F D O → Option V} {i : Nat} {v : V}
    (h : mostDerived declares chain = some (i, v)) : i < chain.length := by
  induction chain using List.reverseRecOn with
  | nil => cases h
  | append_singleton _ _ ih =>
    rw [mostDerived_concat] at h
    rw [length_append, length_singleton]
    rcases Option.or_eq_some_iff.1 h with h | ⟨-, h⟩
    · obtain ⟨_, -, heq⟩ := Option.map_eq_some_iff.1 h
      cases heq
      exact Nat.lt_succ_self _
    · exact Nat.lt_succ_of_lt (ih h)

/-- The tables after a chain hold what its most derived classes declare, and no class below the one that
declares an RPC defines its method. -/
structure Exposes (chain : List (ClassData F D O)) (flat : Flat F D O) : Prop where
  methods : ∀ key, flat.methods.find key = (mostDerived (·.methods.find key) chain).map Prod.snd
  rpcs : ∀ key, flat.rpcs.find key = (mostDerived (·.rpcs.find key) chain).bind fun d => d.2.policy
  covers : ∀ key i j policy handler, mostDerived (·.rpcs.find key) chain = some (i, .rpc policy) →
    mostDerived (·.methods.find key) chain = some (j, handler) → j ≤ i

theorem exposes_nil : Exposes ([] : List (ClassData F D O)) {} :=
  ⟨fun _ => rfl, fun _ => rfl, fun _ _ _ _ _ h => (nomatch h)⟩

theorem Exposes.override (h : Exposes chain out) (ha : out.Admits data) :
    Exposes (chain ++ [data]) (out.override data) where
  methods key := by
    rw [Flat.override, find_fill, mostDerived_concat, h.methods]
    cases data.methods.find key <;> rfl
  rpcs key := by
    rw [Flat.override, find_fill, mostDerived_concat, h.rpcs]
    cases data.rpcs.find key <;> rfl
  covers key i j policy handler hr hm := by
    have hj := mostDerived_lt hm
    rw [mostDerived_concat] at hr hm
    rw [length_append, length_singleton] at hj
    cases hdeclared : data.rpcs.find key with
    | some =>
      rw [hdeclared] at hr
      cases hr
      exact Nat.le_of_lt_succ hj
    | none =>
      rw [hdeclared] at hr
      cases hmethod : data.methods.find key with
      | none =>
        rw [hmethod] at hm
        exact h.covers key i j policy handler hr hm
      | some fn =>
        -- the class would override an RPC without a declaration
        have hchecked := ha.declared key fn hmethod
        have hold : mostDerived (·.rpcs.find key) chain = some (i, .rpc policy) := hr
        rw [undeclared, refuseIf_eq_ok, h.rpcs, hold, hdeclared] at hchecked
        exact absurd ⟨rfl, rfl⟩ hchecked

theorem flattenFrom_exposes {order : Order} {index : Nat} {rest : List (ClassData F D O)} (h : Exposes chain out)
    (hr : flattenFrom order index out rest = .ok flat) : Exposes (chain ++ rest) flat := by
  induction rest generalizing index chain out with
  | nil =>
    cases hr
    rwa [append_nil]
  | cons _ _ ih =>
    rw [flattenFrom, bind_eq_ok] at hr
    obtain ⟨_, hclass, hrest⟩ := hr
    obtain ⟨ha, rfl⟩ := flattenClass_eq_ok.1 hclass
    rw [← singleton_append, ← append_assoc]
    exact ih (h.override ha) hrest

/-! ## Exposure -/

/-- What a class that was flattened exposes. -/
structure Exposure (c : Class F D O) (flat : Flat F D O) : Prop where
  /-- A method is exported if the most derived class that declares its visibility declares a policy, with that policy
  and the most derived definition. -/
  exported : ∀ key, flat.exported key = (mostDerived (·.rpcs.find key) c.chain).bind fun d =>
    d.2.policy.bind fun policy => (mostDerived (·.methods.find key) c.chain).map fun m =>
      ⟨policy, flat.domains.find key, m.2⟩
  /-- A policy has an implementation, by the class that declares it or one that class extends. -/
  covered : ∀ key i policy, mostDerived (·.rpcs.find key) c.chain = some (i, .rpc policy) →
    ∃ j handler, mostDerived (·.methods.find key) c.chain = some (j, handler) ∧ j ≤ i
  /-- What was made private is not exported until it is declared again. -/
  hidden : ∀ key i, mostDerived (·.rpcs.find key) c.chain = some (i, .hidden) → flat.exported key = none

theorem exposure (order : Order) (c : Class F D O) (flat : Flat F D O) (h : flatten order c = .ok flat) :
    Exposure c flat ∧ ∀ order', flatten order' c = .ok flat := by
  obtain ⟨hchain, hcomplete⟩ := flatten_eq_ok.1 h
  have hexposes : Exposes c.chain flat := flattenFrom_exposes exposes_nil hchain
  refine ⟨⟨fun key => ?_, fun key i policy hr => ?_, fun key i hr => ?_⟩,
    fun order' => flatten_eq_ok.2 ⟨flattenFrom_order order' 0 hchain, hcomplete⟩⟩
  · rw [Flat.exported, hexposes.rpcs, hexposes.methods, Option.bind_assoc]
    simp only [Option.map_map]
    rfl
  · have hpolicy : flat.rpcs.find key = some policy := by rw [hexposes.rpcs, hr]; rfl
    have hmethod := hcomplete.rpcs key policy hpolicy
    rw [hexposes.methods] at hmethod
    cases hm : mostDerived (·.methods.find key) c.chain with
    | none => exact absurd (by rw [hm]; rfl) hmethod
    | some m => exact ⟨m.1, m.2, rfl, hexposes.covers key i m.1 policy m.2 hr hm⟩
  · rw [Flat.exported, hexposes.rpcs, hr]
    rfl

/-- The order by key, in every loop. -/
def byKey : Order := ⟨fun _ _ table => table.entries, fun _ _ _ => .refl _⟩

/-- A class that exports a method, and one that overrides it and makes it private. -/
def shut : Class Nat Unit Unit :=
  .extend (.root { methods := .insert .empty [103] 1, rpcs := .insert .empty [103] (.rpc ⟨[.client], true⟩) })
    { methods := .insert .empty [103] 2, rpcs := .insert .empty [103] .hidden }

theorem exposure_shut : ∃ flat, flatten byKey shut = .ok flat ∧ Exposure shut flat ∧ flat.exported [103] = none := by
  have hok : flatten byKey shut = .ok { methods := .insert .empty [103] 2 } := by rfl
  exact ⟨_, hok, (exposure byKey shut _ hok).1, rfl⟩

end Fsnet.EntityClass
