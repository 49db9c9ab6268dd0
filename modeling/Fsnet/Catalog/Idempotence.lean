import Fsnet.Catalog.Create
import Fsnet.World.Writes
/-!
# Creation is idempotent

A claim is made once and stays, and the id in it was handed to the one call that
made it. What calls return is read off the claims, so calls with one creation key
agree, calls with different keys differ, and a call with other parameters than
the claim's finds another fingerprint there.
-/

namespace Fsnet

open Lib List Function

variable {hash : Bytes → Digest}

/-! ## Keys, fingerprints and claims -/

variable {r r' : CreateRequest} {fingerprint : Bytes} {id : UInt64}

theorem CreateRequest.operationBytes_inj {b : Bytes} (h : r.operationBytes = .ok b)
    (h' : r'.operationBytes = .ok b) : r.scope = r'.scope ∧ r.key = r'.key := by
  simp only [operationBytes, bind_eq_ok, pure_ok_iff] at h h'
  obtain ⟨_, -, _, hscope, _, hkey, rfl⟩ := h
  obtain ⟨_, -, _, hscope', _, hkey', heq⟩ := h'
  obtain ⟨hs, hrest⟩ := blob_append_inj hscope hscope' heq.symm
  have hk := blob_append_inj (s := []) (t := []) hkey hkey' (by rw [hrest])
  exact ⟨hs, hk.1⟩

theorem CreationParameters.bytes_inj {c c' : CreationParameters} {b : Bytes} (h : c.bytes = .ok b)
    (h' : c'.bytes = .ok b) : c = c' := by
  simp only [CreationParameters.bytes, bind_eq_ok, pure_ok_iff] at h h'
  obtain ⟨_, -, t, ht, o, ho, n, hn, s, hs, rfl⟩ := h
  obtain ⟨_, -, t', ht', o', ho', n', hn', s', hs', heq⟩ := h'
  obtain ⟨htype, heq⟩ := blob_append_inj ht ht' (append_cancel_left heq).symm
  obtain ⟨howner, heq⟩ := blob_append_inj ho ho' heq
  obtain ⟨hnode, heq⟩ := blob_append_inj hn hn' heq
  rw [List.cons.injEq] at heq
  have hstate := (blob_append_inj (s := []) (t := []) hs hs' (by rw [heq.2])).1
  have hflag : c.rebuildable = c'.rebuildable := by
    cases hr : c.rebuildable <;> cases hr' : c'.rebuildable <;> simp [hr, hr'] at heq <;> rfl
  cases c
  cases c'
  simp_all

theorem CreationParameters.fingerprint_length {c : CreationParameters}
    (h : c.fingerprint hash = .ok fingerprint) : fingerprint.length = 32 := by
  simp only [CreationParameters.fingerprint, bind_eq_ok, pure_ok_iff] at h
  obtain ⟨bytes, -, rfl⟩ := h
  exact (hash bytes).2

/-- Among the requests of a run, digests are the same only of the same strings. -/
def NoCollision (hash : Bytes → Digest) (requests : List CreateRequest) : Prop :=
  ∀ r ∈ requests, ∀ r' ∈ requests,
    (r.operationKey hash = r'.operationKey hash → r.operationBytes = r'.operationBytes) ∧
      (r.creation.fingerprint hash = r'.creation.fingerprint hash → r.creation.bytes = r'.creation.bytes)

instance (hash : Bytes → Digest) (requests : List CreateRequest) : Decidable (NoCollision hash requests) :=
  inferInstanceAs (Decidable (∀ r ∈ requests, ∀ r' ∈ requests, _))

theorem NoCollision.operation {requests : List CreateRequest} (h : NoCollision hash requests)
    (hr : r ∈ requests) (hr' : r' ∈ requests) {operation : Bytes} (ho : r.operationKey hash = .ok operation)
    (hkey : r.operationKey hash = r'.operationKey hash) : r.scope = r'.scope ∧ r.key = r'.key := by
  simp only [CreateRequest.operationKey, bind_eq_ok] at ho
  obtain ⟨b, hb, -⟩ := ho
  exact CreateRequest.operationBytes_inj hb (((h r hr r' hr').1 hkey).symm.trans hb)

theorem NoCollision.creation {requests : List CreateRequest} (h : NoCollision hash requests)
    (hr : r ∈ requests) (hr' : r' ∈ requests)
    (hf : r.creation.fingerprint hash = .ok fingerprint)
    (hsame : r.creation.fingerprint hash = r'.creation.fingerprint hash) : r.creation = r'.creation := by
  simp only [CreationParameters.fingerprint, bind_eq_ok] at hf
  obtain ⟨b, hb, -⟩ := hf
  exact CreationParameters.bytes_inj hb (((h r hr r' hr').2 hsame).symm.trans hb)

/-- The operation key depends on the scope and the key only. -/
theorem CreateRequest.operationKey_congr (hs : r.scope = r'.scope) (hk : r.key = r'.key) :
    r.operationKey hash = r'.operationKey hash := by
  simp only [operationKey, operationBytes, hs, hk]

theorem readClaim_claimBytes (hid : id ≠ 0) (hf : fingerprint.length = 32) (expected : Bytes) :
    Catalogs.readClaim (claimBytes id fingerprint) expected =
      if fingerprint ≠ expected then .error .conflict else .ok id := by
  have hlength : (claimBytes id fingerprint).length = 44 := by
    simp [claimBytes, integer, hf, show (ascii "FEC1").length = 4 from rfl]
  have htag : (ascii "FEC1").isPrefixOf (claimBytes id fingerprint) = true := isPrefixOf_tag _ _
  have hdrop : (claimBytes id fingerprint).drop 4 = integer id ++ fingerprint := rfl
  rw [Catalogs.readClaim, if_neg (by simp [hlength, htag]), hdrop, readInteger_wire]
  simp only [entityId_eq_ok.2 ⟨hid, rfl⟩]

/-! ## Ids as text -/

/-- A digit of an id is hexadecimal, and zero only for zero. -/
theorem hexDigit_of_lt {d : UInt8} (h : d.toNat < 16) :
    isHex (if d < 10 then d + 48 else d + 87) = true ∧ ((if d < 10 then d + 48 else d + 87) = 48 → d = 0) := by
  have hd : d = UInt8.ofNat d.toNat := by simp
  rw [hd]
  generalize d.toNat = n at h
  clear hd
  revert n
  decide

theorem toNat_high_nibble (b : UInt8) : (b >>> 4).toNat = b.toNat / 16 := by
  rw [UInt8.toNat_shiftRight]
  simp [Nat.shiftRight_eq_div_pow]

theorem toNat_low_nibble (b : UInt8) : (b &&& 15).toNat = b.toNat % 16 := by
  rw [UInt8.toNat_and]
  exact Nat.and_two_pow_sub_one_eq_mod b.toNat 4

theorem eq_zero_of_bigEndian (h : ∀ b ∈ bigEndian 8 id.toNat, b = 0) : id = 0 := by
  have hzero : bigEndian 8 id.toNat = bigEndian 8 0 := by
    rw [eq_replicate_of_mem h, bigEndian_length]
    rfl
  exact UInt64.toNat_inj.1 (bigEndian_inj id.toNat_lt (by decide) hzero)

/-- The text of an id is valid. -/
theorem validEntityId_text (h : id ≠ 0) : validEntityId (entityIdText id) = true := by
  have hhigh : ∀ b : UInt8, (b >>> 4).toNat < 16 := fun b => by
    have := b.toNat_lt
    rw [toNat_high_nibble]
    omega
  have hlow : ∀ b : UInt8, (b &&& 15).toNat < 16 := fun b => by
    rw [toNat_low_nibble]
    omega
  simp only [validEntityId, Bool.and_eq_true, entityIdText]
  refine ⟨⟨decide_eq_true ?_, decide_eq_true fun htext => ?_⟩, ?_⟩
  · simp [length_flatMap]
  · apply h
    apply eq_zero_of_bigEndian
    intro b hb
    have hall := (eq_replicate_iff.1 htext).2
    have hmem : ∀ d ∈ [if b >>> 4 < 10 then b >>> 4 + 48 else b >>> 4 + 87,
        if b &&& 15 < 10 then (b &&& 15) + 48 else (b &&& 15) + 87], d = 48 :=
      fun d hd => hall d (mem_flatMap.2 ⟨b, hb, hd⟩)
    have h4 := (hexDigit_of_lt (hhigh b)).2 (hmem _ (by simp))
    have h0 := (hexDigit_of_lt (hlow b)).2 (hmem _ (by simp))
    have e4 := toNat_high_nibble b
    have e0 := toNat_low_nibble b
    rw [h4] at e4
    rw [h0] at e0
    simp at e4 e0
    exact UInt8.toNat_inj.1 (by simp; omega)
  · rw [all_eq_true]
    intro d hd
    obtain ⟨b, -, hd⟩ := mem_flatMap.1 hd
    rcases mem_cons.1 hd with rfl | hd
    · exact (hexDigit_of_lt (hhigh b)).1
    · rw [mem_singleton] at hd
      subst hd
      exact (hexDigit_of_lt (hlow b)).1

/-! ## Ids the allocators return -/

namespace Catalogs

theorem outcomes_of_move {a a' : Allocation} (hm : Allocation.Move a a') :
    a'.outcomes = a.outcomes ∨ ∃ o, a'.outcomes = o :: a.outcomes := by
  cases hm with
  | idle | set => exact .inl rfl
  | fail | take => exact .inr ⟨_, rfl⟩
  | lost _ _ _ _ hr | granted _ _ _ _ hr => exact .inr ⟨_, congrArg (List.cons _) hr.outcomes⟩

/-- A call of the allocator goes on, throws, or returns an id that no call has returned. -/
theorem ended_cases {a a' : Allocation} (hm : Allocation.Move a a') (hi : a.Inv) :
    ended a a' = none ∨ (∃ e, ended a a' = some (.error e)) ∨
      ∃ id, ended a a' = some (.ok id) ∧ a'.ids = id :: a.ids ∧ id ≠ 0 ∧ id ∉ a.ids := by
  rcases outcomes_of_move hm with hout | ⟨⟨n, outcome⟩, hout⟩
  · exact .inl (if_pos (by rw [hout]))
  have hended : ended a a' = some outcome := by
    rw [ended, if_neg (by rw [hout]; simp), hout]
    rfl
  cases outcome with
  | error e => exact .inr (.inl ⟨e, hended⟩)
  | ok id =>
    have hids : a'.ids = id :: a.ids := by
      rw [Allocation.ids, hout, Allocation.ids]
      rfl
    have hblocks := (hm.inv hi).blocks
    have hnodup := hblocks.nodup
    rw [hids, nodup_cons] at hnodup
    refine .inr (.inr ⟨id, hended, hids, ?_, hnodup.1⟩)
    rintro rfl
    exact absurd (hblocks.fresh 0 (by rw [hids]; exact mem_cons_self)).1 (by decide)

theorem mem_of_ended {a a' : Allocation} {outcome : Except Failure UInt64} (h : ended a a' = some outcome) :
    ∃ n, (n, outcome) ∈ a'.outcomes := by
  unfold ended at h
  split_ifs at h
  obtain ⟨⟨n, _⟩, hhead, rfl⟩ := Option.map_eq_some_iff.1 h
  exact ⟨n, mem_of_mem_head? hhead⟩

/-! ## What every state keeps -/

/-- The claim of the request's key names the id, with the request's fingerprint. -/
def Claims (hash : Bytes → Digest) (s : Catalogs) (r : CreateRequest) (id : UInt64) : Prop :=
  ∃ operation fingerprint cell, r.operationKey hash = .ok operation ∧
    r.creation.fingerprint hash = .ok fingerprint ∧ (s.claims operation).get = some cell ∧
    cell.value = claimBytes id fingerprint

/-- What holds between the accesses of a call. -/
def StageOk (hash : Bytes → Digest) (s : Catalogs) (call : CreateCall) : Prop :=
  match call.stage with
  | .readClaim | .waiting | .allocating => True
  | .claim id => id ∈ s.allocation.ids ∧ ∀ r, .claimed r id ∉ s.trace
  | .rereadClaim => (s.claims call.operation).get ≠ none
  | .readRecord id | .writeRecord id => Claims hash s call.request id
  | .rereadRecord id => Claims hash s call.request id

structure CallOk (hash : Bytes → Digest) (requests : List CreateRequest) (s : Catalogs) (call : CreateCall) : Prop where
  request : call.request ∈ requests
  operation : call.request.operationKey hash = .ok call.operation
  fingerprint : call.request.creation.fingerprint hash = .ok call.fingerprint
  stage : StageOk hash s call

/-- There is a record of the id. -/
def Recorded (s : Catalogs) (id : UInt64) : Prop := (s.world.entities (entityIdText id)).get ≠ none

/-- What an outcome says of the claim, the record and what failed. -/
def OutcomeOk (hash : Bytes → Digest) (s : Catalogs) (r : CreateRequest) : Except CreateFailure UInt64 → Prop
  | .ok id => Claims hash s r id ∧ s.Recorded id
  | .error (.refused e) => r.operationBytes = .error e ∨ r.creation.bytes = .error e ∨ ∃ id, Claims hash s r id
  | .error .conflict => True
  | .error (.storage fault) => fault ≠ .none
  | .error (.allocation e) => ∃ n, (n, .error e) ∈ s.allocation.outcomes

structure Sound (hash : Bytes → Digest) (requests : List CreateRequest) (s : Catalogs) : Prop where
  allocation : s.allocation.Inv
  calls : ∀ c call, s.calls c = some call → CallOk hash requests s call
  candidates : ∀ c c' call call' id, s.calls c = some call → s.calls c' = some call' →
    call.stage = .claim id → call'.stage = .claim id → c = c'
  claims : ∀ operation cell, (s.claims operation).get = some cell →
    ∃ r id, .claimed r id ∈ s.trace ∧ r.operationKey hash = .ok operation
  claimed : ∀ r id, .claimed r id ∈ s.trace → r ∈ requests ∧ id ∈ s.allocation.ids ∧ Claims hash s r id
  distinct : ∀ r r' id, .claimed r id ∈ s.trace → .claimed r' id ∈ s.trace →
    r.operationKey hash = r'.operationKey hash
  ended : ∀ r outcome, .ended r outcome ∈ s.trace → r ∈ requests ∧ OutcomeOk hash s r outcome

variable {requests : List CreateRequest} {s s' : Catalogs} {c : Nat} {call : CreateCall}

variable {r : CreateRequest} {id : UInt64}

section grows

variable (hg : ∀ operation cell, (s.claims operation).get = some cell → (s'.claims operation).get = some cell)
include hg

/-- Claims that were made are still there. -/
theorem Claims.mono (h : Claims hash s r id) : Claims hash s' r id := by
  obtain ⟨operation, fingerprint, cell, ho, hf, hget, hv⟩ := h
  exact ⟨operation, fingerprint, cell, ho, hf, hg _ _ hget, hv⟩

theorem OutcomeOk.mono (hw : ∀ id, s.Recorded id → s'.Recorded id)
    (ha : s.allocation.outcomes ⊆ s'.allocation.outcomes) {outcome : Except CreateFailure UInt64}
    (h : OutcomeOk hash s r outcome) : OutcomeOk hash s' r outcome := by
  cases outcome with
  | ok id => exact ⟨h.1.mono hg, hw id h.2⟩
  | error e =>
    cases e with
    | refused => exact h.imp_right fun h => h.imp_right fun ⟨id, h⟩ => ⟨id, h.mono hg⟩
    | conflict => trivial
    | storage => exact h
    | allocation => exact h.imp fun _ ho => ha ho

/-- A call is as it was when claims stay, ids are kept and its candidate was not claimed. -/
theorem CallOk.mono (hids : ∀ id ∈ s.allocation.ids, id ∈ s'.allocation.ids)
    (htrace : ∀ r id, call.stage = .claim id → .claimed r id ∈ s'.trace → .claimed r id ∈ s.trace)
    (h : CallOk hash requests s call) : CallOk hash requests s' call := by
  refine ⟨h.request, h.operation, h.fingerprint, ?_⟩
  have h := h.stage
  unfold StageOk at h ⊢
  split at h
  · trivial
  · trivial
  · trivial
  · rename_i id hstage
    exact ⟨hids _ h.1, fun r hr => h.2 r (htrace r id hstage hr)⟩
  · obtain ⟨cell, hget⟩ := Option.ne_none_iff_exists'.1 h
    rw [hg _ _ hget]
    exact Option.some_ne_none cell
  · exact Claims.mono hg h
  · exact Claims.mono hg h
  · exact Claims.mono hg h

end grows

theorem Claims.id_eq {r' : CreateRequest} {id' : UInt64} (h : Claims hash s r id) (h' : Claims hash s r' id')
    (ho : r.operationKey hash = r'.operationKey hash) :
    id = id' ∧ r.creation.fingerprint hash = r'.creation.fingerprint hash := by
  obtain ⟨_, fingerprint, _, hop, hf, hget, hv⟩ := h
  obtain ⟨_, fingerprint', _, hop', hf', hget', hv'⟩ := h'
  obtain rfl := Except.ok.inj (hop.symm.trans (ho.trans hop'))
  obtain rfl := Option.some.inj (hget.symm.trans hget')
  have hbytes : integer id ++ fingerprint = integer id' ++ fingerprint' := append_cancel_left (hv.symm.trans hv')
  obtain ⟨hid, hfp⟩ := append_inj hbytes (by simp [integer])
  have hid : bigEndian 8 id.toNat = bigEndian 8 id'.toNat := hid
  exact ⟨UInt64.toNat_inj.1 (bigEndian_inj id.toNat_lt id'.toNat_lt hid), by rw [hf, hf', hfp]⟩

/-! ## Steps that keep it -/

/-- The call is taken out. -/
def drop (s : Catalogs) (c : Nat) : Catalogs := { s with calls := update s.calls c none }

theorem setCall_drop (s : Catalogs) (c : Nat) (call : CreateCall) : (s.drop c).setCall c call = s.setCall c call := by
  simp [drop, setCall]

theorem calls_drop {c' : Nat} {call' : CreateCall} (h : (s.drop c).calls c' = some call') :
    c' ≠ c ∧ s.calls c' = some call' := by
  by_cases hc : c' = c
  · subst hc
    simp [drop] at h
  · exact ⟨hc, by simpa [drop, hc] using h⟩

/-- Calls may vanish. -/
theorem Sound.fewer (h : Sound hash requests s) {calls : Nat → Option CreateCall}
    (hcalls : ∀ c call, calls c = some call → s.calls c = some call) : Sound hash requests { s with calls } :=
  { h with
    calls := fun c call hc => { h.calls c call (hcalls c call hc) with }
    candidates := fun c c' call call' id hc hc' => h.candidates c c' call call' id (hcalls _ _ hc) (hcalls _ _ hc') }

theorem Sound.drop (h : Sound hash requests s) (c : Nat) : Sound hash requests (s.drop c) :=
  h.fewer fun _ _ hc => (calls_drop hc).2

theorem Sound.setCall (h : Sound hash requests (s.drop c)) (hok : CallOk hash requests s call)
    (hnew : ∀ id, call.stage = .claim id → ∀ c' call', (s.drop c).calls c' = some call' → call'.stage ≠ .claim id) :
    Sound hash requests (s.setCall c call) := by
  have hcalls : ∀ c' call', (s.setCall c call).calls c' = some call' →
      (c' = c ∧ call' = call) ∨ (s.drop c).calls c' = some call' := by
    intro c' call' hc
    rw [← setCall_drop] at hc
    by_cases heq : c' = c
    · subst heq
      exact .inl ⟨rfl, by simpa [Catalogs.setCall, eq_comm] using hc⟩
    · exact .inr (by simpa [Catalogs.setCall, heq] using hc)
  refine { h with calls := fun c' call' hc => ?_, candidates := fun c₁ c₂ call₁ call₂ id h₁ h₂ hs₁ hs₂ => ?_ }
  · rcases hcalls c' call' hc with ⟨-, rfl⟩ | hc
    · exact { hok with }
    · exact { h.calls c' call' hc with }
  · rcases hcalls c₁ call₁ h₁ with ⟨hc₁, he₁⟩ | ho₁ <;> rcases hcalls c₂ call₂ h₂ with ⟨hc₂, he₂⟩ | ho₂
    · rw [hc₁, hc₂]
    · exact absurd hs₂ (hnew id (he₁ ▸ hs₁) c₂ call₂ ho₂)
    · exact absurd hs₁ (hnew id (he₂ ▸ hs₂) c₁ call₁ ho₁)
    · exact h.candidates c₁ c₂ call₁ call₂ id ho₁ ho₂ hs₁ hs₂

/-- A call that goes on without a candidate. -/
theorem Sound.goOn (h : Sound hash requests s) (hcall : s.calls c = some call) {stage : CreateStage}
    (hstage : StageOk hash s { call with stage }) (hno : ∀ id, stage ≠ .claim id) :
    Sound hash requests (s.setCall c { call with stage }) := by
  have hold := h.calls c call hcall
  exact (h.drop c).setCall ⟨hold.request, hold.operation, hold.fingerprint, hstage⟩ fun id hs => absurd hs (hno id)

theorem Sound.finish (h : Sound hash requests (s.drop c)) (hr : r ∈ requests)
    {outcome : Except CreateFailure UInt64} (ho : OutcomeOk hash s r outcome) :
    Sound hash requests (s.finish c r outcome) := by
  have hclaimed : ∀ r' id, .claimed r' id ∈ (s.finish c r outcome).trace → .claimed r' id ∈ s.trace := by
    intro r' id hmem
    simpa [Catalogs.finish] using hmem
  refine ⟨h.allocation, fun c' call' hc => ?_, h.candidates, fun operation cell hget => ?_, fun r' id hmem => ?_,
    fun r₁ r₂ id h₁ h₂ => h.distinct r₁ r₂ id (hclaimed _ _ h₁) (hclaimed _ _ h₂), fun r' outcome' hmem => ?_⟩
  · exact CallOk.mono (s := s.drop c) (fun _ _ hg => hg) (fun _ hid => hid) (fun r' id _ => hclaimed r' id)
      (h.calls c' call' hc)
  · obtain ⟨r', id, hmem, ho'⟩ := h.claims operation cell hget
    exact ⟨r', id, mem_cons_of_mem _ hmem, ho'⟩
  · exact h.claimed r' id (hclaimed r' id hmem)
  · rcases mem_cons.1 hmem with heq | hmem
    · cases heq
      exact ⟨hr, ho⟩
    · exact h.ended r' outcome' hmem

theorem Sound.withAllocation (h : Sound hash requests s) {allocation : Allocation} (hi : allocation.Inv)
    (ho : s.allocation.outcomes ⊆ allocation.outcomes) : Sound hash requests { s with allocation } := by
  have hids : s.allocation.ids ⊆ allocation.ids := filterMap_subset _ ho
  refine { h with
    allocation := hi, calls := fun c call hc => ?_
    ended := fun r outcome hmem => ?_
    claimed := fun r id hmem => ⟨(h.claimed r id hmem).1, hids (h.claimed r id hmem).2.1, (h.claimed r id hmem).2.2⟩ }
  · exact CallOk.mono (s := s) (fun _ _ hg => hg) (fun _ => @hids _) (fun _ _ _ hmem => hmem) (h.calls c call hc)
  · refine ⟨(h.ended r outcome hmem).1, (h.ended r outcome hmem).2.mono ?_ ?_ ho⟩
    · exact fun _ _ hg => hg
    · exact fun _ hw => hw

/-- Records may be written but do not go away. -/
theorem Sound.withWorld (h : Sound hash requests s) {world : World}
    (hw : ∀ id, (s.world.entities id).get ≠ none → (world.entities id).get ≠ none) :
    Sound hash requests { s with world } := by
  have hmono : ∀ r outcome, OutcomeOk hash s r outcome → OutcomeOk hash { s with world } r outcome := by
    intro r outcome ho
    refine ho.mono ?_ ?_ ?_
    · exact fun _ _ hg => hg
    · exact fun id => hw (entityIdText id)
    · exact fun _ ho => ho
  exact { h with
    calls := fun c call hc => { h.calls c call hc with }
    ended := fun r outcome hmem => ⟨(h.ended r outcome hmem).1, hmono r outcome (h.ended r outcome hmem).2⟩ }

/-- A claim is made where there was none, with an id no call and no claim has. -/
theorem Sound.claim (h : Sound hash requests s) {operation fingerprint : Bytes}
    (hr : r ∈ requests) (ho : r.operationKey hash = .ok operation) (hf : r.creation.fingerprint hash = .ok fingerprint)
    (hid : id ∈ s.allocation.ids) (hfree : ∀ c call, s.calls c = some call → call.stage ≠ .claim id)
    (hunclaimed : ∀ r, .claimed r id ∉ s.trace) {version : UInt64} (hver : (s.claims operation).version = 0)
    (hv : (s.claims operation).Fresh version) :
    Sound hash requests { s with
      claims := update s.claims operation
        ((s.claims operation).push version (claimBytes id fingerprint) hv)
      trace := .claimed r id :: s.trace } := by
  have hnone : (s.claims operation).get = none := Register.get_of_version_eq_zero hver
  generalize hs' : ({ s with
      claims := update s.claims operation
        ((s.claims operation).push version (claimBytes id fingerprint) hv)
      trace := .claimed r id :: s.trace } : Catalogs) = s'
  have hself : (s'.claims operation).get = some ⟨version, claimBytes id fingerprint⟩ := by
    simp [← hs']
  have hgrows : ∀ operation' cell, (s.claims operation').get = some cell → (s'.claims operation').get = some cell := by
    intro operation' cell hget
    have hne : operation' ≠ operation := by
      rintro rfl
      rw [hnone] at hget
      cases hget
    rw [← hs']
    simpa [hne] using hget
  have htrace : s'.trace = .claimed r id :: s.trace := by rw [← hs']
  have hallocation : s'.allocation = s.allocation := by rw [← hs']
  have hcalls : s'.calls = s.calls := by rw [← hs']
  have hnew : Claims hash s' r id := ⟨operation, fingerprint, _, ho, hf, hself, rfl⟩
  have hold : ∀ r' id', .claimed r' id' ∈ s'.trace → (r' = r ∧ id' = id) ∨ .claimed r' id' ∈ s.trace := by
    intro r' id' hmem
    rw [htrace] at hmem
    rcases mem_cons.1 hmem with heq | hmem
    · cases heq
      exact .inl ⟨rfl, rfl⟩
    · exact .inr hmem
  refine ⟨by rw [hallocation]; exact h.allocation, fun c call hc => ?_, by rw [hcalls]; exact h.candidates,
    fun operation' cell hget => ?_, fun r' id' hmem => ?_, fun r₁ r₂ id' h₁ h₂ => ?_, fun r' outcome hmem => ?_⟩
  · rw [hcalls] at hc
    refine (h.calls c call hc).mono hgrows (by simp [hallocation]) fun r' id' hstage hmem => ?_
    rcases hold r' id' hmem with ⟨-, rfl⟩ | hmem
    · exact absurd hstage (hfree c call hc)
    · exact hmem
  · by_cases heq : operation' = operation
    · subst heq
      exact ⟨r, id, by rw [htrace]; exact mem_cons_self, ho⟩
    have hget' : (s.claims operation').get = some cell := by
      rw [← hs'] at hget
      simpa [heq] using hget
    obtain ⟨r', id', hmem, ho'⟩ := h.claims operation' cell hget'
    exact ⟨r', id', by rw [htrace]; exact mem_cons_of_mem _ hmem, ho'⟩
  · rw [hallocation]
    rcases hold r' id' hmem with ⟨rfl, rfl⟩ | hmem
    · exact ⟨hr, hid, hnew⟩
    · obtain ⟨hr', hid', hc⟩ := h.claimed r' id' hmem
      exact ⟨hr', hid', hc.mono hgrows⟩
  · rcases hold r₁ id' h₁ with ⟨hr₁, hid₁⟩ | ho₁ <;> rcases hold r₂ id' h₂ with ⟨hr₂, hid₂⟩ | ho₂
    · rw [hr₁, hr₂]
    · exact absurd (hid₁ ▸ ho₂) (hunclaimed r₂)
    · exact absurd (hid₂ ▸ ho₁) (hunclaimed r₁)
    · exact h.distinct r₁ r₂ id' ho₁ ho₂
  · rw [htrace] at hmem
    have hmem : .ended r' outcome ∈ s.trace := by simpa using hmem
    obtain ⟨hr', ho'⟩ := h.ended r' outcome hmem
    exact ⟨hr', ho'.mono hgrows (fun id hid => by rwa [Recorded, ← hs']) (by rw [hallocation]; exact fun _ ho => ho)⟩

/-! ## The steps of a call -/

/-- The claim a call finds is well formed; its id is the call's if the fingerprint is. -/
theorem Sound.checkClaim (h : Sound hash requests (s.drop c)) (hr : call.request ∈ requests)
    (ho : call.request.operationKey hash = .ok call.operation)
    (hf : call.request.creation.fingerprint hash = .ok call.fingerprint) {w : Cell Bytes}
    (hget : (s.claims call.operation).get = some w) : Sound hash requests (s.checkClaim c call w.value) := by
  obtain ⟨r, id, hmem, hop⟩ := h.claims call.operation w hget
  obtain ⟨-, hid, _, fingerprint, _, hop', hf', hget', hvalue⟩ := h.claimed r id hmem
  obtain rfl := Except.ok.inj (hop.symm.trans hop')
  obtain rfl := Option.some.inj (hget.symm.trans hget')
  have hpos : id ≠ 0 := by
    rintro rfl
    exact absurd (h.allocation.blocks.fresh 0 hid).1 (by decide)
  unfold Catalogs.checkClaim
  rw [hvalue, readClaim_claimBytes hpos (CreationParameters.fingerprint_length hf')]
  by_cases heq : fingerprint = call.fingerprint
  · subst heq
    rw [if_neg (by simp)]
    exact h.setCall ⟨hr, ho, hf, ⟨_, _, w, ho, hf, hget, hvalue⟩⟩ nofun
  · rw [if_pos heq]
    exact h.finish hr trivial

/-- A swap that neither throws nor takes place met another version. -/
theorem version_of_refused {K V : Type} [DecidableEq K] {t t' : Store K V} {k : K} {expected v : UInt64} {value : V}
    {fault : Store.Fault} (h : t.swap k expected value v fault = some (t', false, false)) :
    (t k).version ≠ expected := by
  cases fault with
  | before | after => simp [Store.swap] at h
  | none =>
    simp only [Store.swap, Option.map_eq_some_iff, Prod.mk.injEq] at h
    obtain ⟨p, hp, -, hswapped, -⟩ := h
    rcases Store.compareExchange_cases hp with ⟨ht, -⟩ | ⟨-, hv, -⟩
    · rw [hswapped] at ht
      cases ht
    · exact hv

theorem Sound.makeClaim (h : Sound hash requests s) (hcall : s.calls c = some call)
    (hstage : call.stage = .claim id) (a : Access) : Sound hash requests (s.makeClaim c call id a) := by
  obtain ⟨hr, ho, hf, hok⟩ := h.calls c call hcall
  rw [StageOk, hstage] at hok
  unfold Catalogs.makeClaim
  split
  · exact h
  rename_i hswap
  rcases Store.swap_cases hswap with ⟨rfl, hver, hfresh, rfl⟩ | ⟨rfl, rfl⟩
  · -- the candidate leaves the call and goes into the claim
    have hfree : ∀ c' call', (s.drop c).calls c' = some call' → call'.stage ≠ .claim id := by
      intro c' call' hc' hs'
      obtain ⟨hne, hc'⟩ := calls_drop hc'
      exact hne (h.candidates c' c call' call id hc' hcall hs' hstage)
    have hclaim := (h.drop c).claim hr ho hf hok.1 hfree hok.2 hver hfresh
    simp only [if_true]
    split
    · rename_i hthrew
      exact Sound.finish hclaim hr (Store.fault_of_threw (hthrew ▸ hswap))
    · refine Sound.checkClaim hclaim hr ho hf (w := ⟨a.version, claimBytes id call.fingerprint⟩) ?_
      simp
  · have hdrop := h.drop c
    simp only [Bool.false_eq_true, if_false]
    split
    · rename_i hthrew
      exact hdrop.finish hr (Store.fault_of_threw (hthrew ▸ hswap))
    rename_i hthrew
    rw [Bool.not_eq_true] at hthrew
    subst hthrew
    refine h.goOn hcall ?_ (by simp)
    intro hnone
    exact version_of_refused hswap (by simp [Register.version, hnone])

theorem Sound.resumeAllocation (h : Sound hash requests s) (hcall : s.calls c = some call) {allocation : Allocation}
    (hm : Allocation.Move s.allocation allocation) : Sound hash requests (s.resumeAllocation c call allocation) := by
  obtain ⟨hr, ho, hf, -⟩ := h.calls c call hcall
  have hnext : Sound hash requests { s with allocation } := by
    refine h.withAllocation (hm.inv h.allocation) ?_
    rcases outcomes_of_move hm with hout | ⟨o, hout⟩
    · rw [hout]
      exact fun _ ho => ho
    · rw [hout]
      exact subset_cons_self ..
  unfold Catalogs.resumeAllocation
  rcases ended_cases hm h.allocation with hended | ⟨e, hended⟩ | ⟨id, hended, hids, hpos, hfresh⟩
  · rw [hended]
    exact hnext.goOn hcall trivial nofun
  · rw [hended]
    exact (hnext.drop c).finish hr (mem_of_ended hended)
  rw [hended]
  refine (hnext.drop c).setCall ⟨hr, ho, hf, ?_, fun r hmem => ?_⟩ ?_
  · show id ∈ allocation.ids
    rw [hids]
    exact mem_cons_self
  · exact hfresh (h.claimed r id hmem).2.1
  · intro id' hs c' call' hc' hs'
    obtain rfl : id = id' := by simpa using hs
    have hold := (h.calls c' call' (calls_drop hc').2).stage
    rw [StageOk, hs'] at hold
    exact hfresh hold.1

theorem Sound.checkRecord (h : Sound hash requests (s.drop c)) (hr : call.request ∈ requests)
    (hclaims : Claims hash s call.request id) (hrecorded : s.Recorded id) (record : EntityRecord) :
    Sound hash requests (s.checkRecord c call id record) := by
  unfold Catalogs.checkRecord
  split
  · exact h.finish hr (.inr (.inr ⟨id, hclaims⟩))
  · exact h.finish hr ⟨hclaims, hrecorded⟩

/-- What a call does to the records: none that is there changes, and its own is there if it wrote it. -/
theorem get_create (w : World) (id : Bytes) (creation : EntityCreation) (a : Access) {id' : Bytes}
    {cell : Cell StoredRecord} (h : (w.entities id').get = some cell) :
    ((w.create id creation a).entities id').get = some cell := by
  unfold World.create
  split
  · exact h
  split
  · exact h
  split
  · exact h
  rename_i hswap
  rcases Store.swap_cases hswap with ⟨rfl, hver, _, rfl⟩ | ⟨rfl, rfl⟩
  · have hne : id' ≠ id := by
      rintro rfl
      rw [Register.get_of_version_eq_zero hver] at h
      cases h
    simpa [World.log, hne] using h
  · exact h

theorem get_created {w : World} {id : Bytes} {creation : EntityCreation} {a : Access} {value : StoredRecord}
    {entities : Store Bytes StoredRecord} {threw : Bool} (hid : validEntityId id = true)
    (hvalue : creation.record.encoded = some value)
    (hswap : w.entities.swap id 0 value a.version a.fault = some (entities, true, threw)) :
    ((w.create id creation a).entities id).get ≠ none := by
  unfold World.create
  rw [if_neg (by simp [hid]), hvalue]
  simp only [hswap, if_true, World.log]
  rcases Store.swap_cases hswap with ⟨-, -, _, rfl⟩ | ⟨h, -⟩
  · simp
  · cases h

section

variable (h : Sound hash requests s)
include h

/-- The id of a claim was claimed under its key. -/
theorem Sound.claimed_of_claims
    (hc : Claims hash s r id) : ∃ r', .claimed r' id ∈ s.trace ∧ r'.operationKey hash = r.operationKey hash := by
  obtain ⟨operation, fingerprint, cell, ho, hf, hget, hv⟩ := hc
  obtain ⟨r', id', hmem, ho'⟩ := h.claims operation cell hget
  have hkey := ho'.trans ho.symm
  obtain rfl := ((h.claimed r' id' hmem).2.2.id_eq ⟨operation, fingerprint, cell, ho, hf, hget, hv⟩ hkey).1
  exact ⟨r', hmem, hkey⟩

/-- A claimed id is not zero. -/
theorem Sound.ne_zero (hc : Claims hash s r id) : id ≠ 0 := by
  obtain ⟨r', hmem, -⟩ := h.claimed_of_claims hc
  rintro rfl
  exact absurd (h.allocation.blocks.fresh 0 (h.claimed r' 0 hmem).2.1).1 (by decide)

theorem Sound.writeRecord (hcall : s.calls c = some call)
    (hclaims : Claims hash s call.request id) (a : Access) : Sound hash requests (s.writeRecord c call id a) := by
  have hr := (h.calls c call hcall).request
  unfold Catalogs.writeRecord
  dsimp only
  split
  · exact (h.drop c).finish hr (.inr (.inr ⟨id, hclaims⟩))
  split
  · exact h
  rename_i hvalue _ _ _ _ hswap
  have hkeeps : ∀ id', (s.world.entities id').get ≠ none → ((s.world.create (entityIdText id)
      (call.request.creation.toCreation call.fingerprint) a).entities id').get ≠ none := by
    intro id' hsome
    obtain ⟨cell, hcell⟩ := Option.ne_none_iff_exists'.1 hsome
    simp [get_create _ _ _ _ hcell]
  have hnext := h.withWorld hkeeps
  split
  · rename_i hthrew
    exact (hnext.drop c).finish hr (Store.fault_of_threw (hthrew ▸ hswap))
  split
  · rename_i hswapped
    subst hswapped
    exact (hnext.drop c).finish hr
      ⟨hclaims, get_created (validEntityId_text (h.ne_zero hclaims)) hvalue hswap⟩
  · refine Sound.goOn hnext hcall ?_ nofun
    exact hclaims

theorem Sound.access (hcall : s.calls c = some call) (a : Access) : Sound hash requests (s.access c call a) := by
  obtain ⟨hr, ho, hf, hok⟩ := h.calls c call hcall
  have hdrop := h.drop c
  have hfailed : a.fails = true → Sound hash requests (s.fail c call (.storage a.fault)) := fun hfails =>
    hdrop.finish hr (by simpa [OutcomeOk, Access.fails] using hfails)
  unfold StageOk at hok
  unfold Catalogs.access
  split <;> rename_i hstage <;> rw [hstage] at hok
  · split
    · exact hfailed (by assumption)
    split
    · exact h.goOn hcall trivial nofun
    · rename_i hget
      exact hdrop.checkClaim hr ho hf hget
  · split
    · exact h.resumeAllocation hcall (Allocation.step_move h.allocation.stages (.call call.catalog))
    · exact h
  · exact h.resumeAllocation hcall
      (Allocation.step_move h.allocation.stages (.access call.catalog a.fault a.version))
  · exact h.makeClaim hcall hstage a
  · split
    · exact hfailed (by assumption)
    split
    · rename_i hget
      exact absurd hget hok
    · rename_i hget
      exact hdrop.checkClaim hr ho hf hget
  · split
    · exact hfailed (by assumption)
    split
    · exact h.goOn hcall hok nofun
    · rename_i hget
      exact hdrop.checkRecord hr hok (by simp [Recorded, hget]) _
  · exact h.writeRecord hcall hok a
  · split
    · exact hfailed (by assumption)
    split
    · exact hdrop.finish hr (.inr (.inr ⟨_, hok⟩))
    · rename_i hget
      exact hdrop.checkRecord hr hok (by simp [Recorded, hget]) _

end

/-! ## Runs -/

/-- The request of an action that makes a call. -/
def requestOf : CatalogAction → Option CreateRequest
  | .call _ _ r => some r
  | _ => none

theorem Sound.made (h : Sound hash requests s) (c n : Nat) (hr : r ∈ requests) :
    Sound hash requests (s.call hash c n r) := by
  unfold Catalogs.call
  split
  · exact h
  have hdrop := h.drop c
  split
  · rename_i _ ho
    refine hdrop.finish hr (.inl ?_)
    cases hb : r.operationBytes with
    | error => simpa [CreateRequest.operationKey, hb] using ho
    | ok => simp [CreateRequest.operationKey, hb] at ho
  · rename_i hf
    refine hdrop.finish hr (.inr (.inl ?_))
    cases hb : r.creation.bytes with
    | error => simpa [CreationParameters.fingerprint, hb] using hf
    | ok => simp [CreationParameters.fingerprint, hb] at hf
  · rename_i ho hf
    exact hdrop.setCall ⟨hr, ho, hf, trivial⟩ nofun

/-- No step of the hosts removes a record. -/
theorem get_step (hash : Bytes → Digest) (w : World) (action : Action) {id : Bytes} (h : (w.entities id).get ≠ none) :
    ((w.step (fun bytes => (hash bytes).1) action).entities id).get ≠ none := by
  obtain ⟨_, -, hmove⟩ := step_store (fun bytes => (hash bytes).1) w action
  have hpushed : ∀ {w' : World} {id' version value}, Pushes w w' id' version value → (w'.entities id).get ≠ none := by
    intro w' id' version value hp
    rw [hp.pushed]
    by_cases heq : id = id'
    · subst heq
      simp
    · simpa [heq] using h
  cases hmove with
  | keep _ he => rwa [he]
  | create _ _ _ _ _ _ _ hp | grant _ _ _ _ _ _ _ _ _ _ hp | commit _ _ _ _ _ _ _ _ hp | release _ _ _ _ _ _ _ hp =>
    exact hpushed hp

theorem Sound.step (h : Sound hash requests s) (action : CatalogAction)
    (hr : ∀ r, requestOf action = some r → r ∈ requests) : Sound hash requests (s.step hash action) := by
  unfold Catalogs.step
  split
  · rename_i n blockSize
    have hm := Allocation.step_move h.allocation.stages (.start n blockSize)
    refine (h.withAllocation (hm.inv h.allocation) fun _ ho => ho).fewer fun c _ hc => ?_
    simp only [survive] at hc
    split at hc
    · cases hc
    rename_i hcall
    split at hc
    · cases hc
    · exact hcall.trans hc
  · exact h.made _ _ (hr _ rfl)
  · split
    · exact h
    · rename_i hcall
      exact h.access hcall _
  · exact h
  · exact h.withWorld fun id hid => get_step hash s.world _ hid

theorem sound_init (limits : HostId → RuntimeLimits) (sequence : Store Unit Bytes) (blockSizes : Nat → BlockSize) :
    Sound hash requests (init limits sequence blockSizes) where
  allocation := Allocation.inv_init sequence blockSizes
  calls _ _ hc := nomatch hc
  candidates _ _ _ _ _ hc := nomatch hc
  claims _ _ hget := nomatch hget
  claimed _ _ hmem := nomatch hmem
  distinct _ _ _ hmem := nomatch hmem
  ended _ _ hmem := nomatch hmem

theorem sound_run (hash : Bytes → Digest) (limits : HostId → RuntimeLimits) (sequence : Store Unit Bytes)
    (blockSizes : Nat → BlockSize) (actions : List CatalogAction) :
    Sound hash (actions.filterMap requestOf) (run (step hash) (init limits sequence blockSizes) actions) := by
  refine run_inv_along (C := fun _ a => ∀ r, requestOf a = some r → r ∈ actions.filterMap requestOf)
    (fun s a hr h => h.step a hr) (sound_init limits sequence blockSizes) ?_
  exact along_of_forall (fun a ha _ r hr => mem_filterMap.2 ⟨a, ha, hr⟩) _

/-! ## What follows -/

/-- What creation keys guarantee. -/
structure Idempotent (s : Catalogs) : Prop where
  same : ∀ r r' id id', .ended r (.ok id) ∈ s.trace → .ended r' (.ok id') ∈ s.trace →
    r.scope = r'.scope → r.key = r'.key → id = id'
  distinct : ∀ r r' id id', .ended r (.ok id) ∈ s.trace → .ended r' (.ok id') ∈ s.trace →
    (r.scope, r.key) ≠ (r'.scope, r'.key) → id ≠ id'
  /-- A call with other parameters than the claim's ends with a conflict, unless it is
  refused for what it asks, one of its accesses fails or an allocator throws. -/
  conflict : ∀ r₀ id₀ r outcome, .claimed r₀ id₀ ∈ s.trace → .ended r outcome ∈ s.trace →
    r.scope = r₀.scope → r.key = r₀.key → r.creation ≠ r₀.creation →
    outcome = .error .conflict ∨ (∃ e, r.creation.bytes = .error e ∧ outcome = .error (.refused e)) ∨
      (∃ fault, fault ≠ .none ∧ outcome = .error (.storage fault)) ∨
      ∃ n e, (n, .error e) ∈ s.allocation.outcomes ∧ outcome = .error (.allocation e)
  recorded : ∀ r id, .ended r (.ok id) ∈ s.trace → s.Recorded id

theorem Sound.idempotent (h : Sound hash requests s) (hno : NoCollision hash requests) : s.Idempotent where
  same r r' id id' hm hm' hs hk :=
    ((h.ended r _ hm).2.1.id_eq (h.ended r' _ hm').2.1 (CreateRequest.operationKey_congr hs hk)).1
  distinct r r' id id' hm hm' hne := by
    rintro rfl
    obtain ⟨hr, hc, -⟩ := h.ended r _ hm
    obtain ⟨hr', hc', -⟩ := h.ended r' _ hm'
    -- one id in two claims was claimed under one key
    obtain ⟨r₁, hm₁, hk₁⟩ := h.claimed_of_claims hc
    obtain ⟨r₂, hm₂, hk₂⟩ := h.claimed_of_claims hc'
    have hkey : r.operationKey hash = r'.operationKey hash := hk₁.symm.trans ((h.distinct r₁ r₂ id hm₁ hm₂).trans hk₂)
    obtain ⟨operation, _, _, ho, -⟩ := hc
    obtain ⟨hs, hk⟩ := hno.operation hr hr' ho hkey
    exact hne (by rw [hs, hk])
  conflict r₀ id₀ r outcome hm₀ hm hs hk hne := by
    obtain ⟨hr₀, -, hc₀⟩ := h.claimed r₀ id₀ hm₀
    obtain ⟨hr, ho⟩ := h.ended r outcome hm
    have hother : ∀ id, ¬Claims hash s r id := by
      intro id hc
      obtain ⟨-, hf⟩ := hc.id_eq hc₀ (CreateRequest.operationKey_congr hs hk)
      obtain ⟨operation, _, _, -, hfp, -, -⟩ := hc
      exact hne (hno.creation hr hr₀ hfp hf)
    cases outcome with
    | ok id => exact absurd ho.1 (hother id)
    | error e =>
      cases e with
      | conflict => exact .inl rfl
      | storage fault => exact .inr (.inr (.inl ⟨fault, ho, rfl⟩))
      | allocation e =>
        obtain ⟨n, hthrew⟩ := ho
        exact .inr (.inr (.inr ⟨n, e, hthrew, rfl⟩))
      | refused e =>
        rcases ho with hb | hb | ⟨id, hc⟩
        · obtain ⟨_, _, _, ho, -⟩ := hc₀
          rw [← CreateRequest.operationKey_congr hs hk, CreateRequest.operationKey, hb] at ho
          cases ho
        · exact .inr (.inl ⟨e, hb, rfl⟩)
        · exact absurd hc (hother id)
  recorded r id hm := (h.ended r _ hm).2.2

@[simp] theorem checkClaim_world (s : Catalogs) (c : Nat) (call : CreateCall) (value : Bytes) :
    (s.checkClaim c call value).world = s.world := by
  unfold Catalogs.checkClaim
  split <;> rfl

@[simp] theorem checkRecord_world (s : Catalogs) (c : Nat) (call : CreateCall) (id : UInt64) (record : EntityRecord) :
    (s.checkRecord c call id record).world = s.world := by
  unfold Catalogs.checkRecord
  split <;> rfl

@[simp] theorem resumeAllocation_world (s : Catalogs) (c : Nat) (call : CreateCall) (allocation : Allocation) :
    (s.resumeAllocation c call allocation).world = s.world := by
  unfold Catalogs.resumeAllocation
  dsimp only
  split <;> rfl

@[simp] theorem makeClaim_world (s : Catalogs) (c : Nat) (call : CreateCall) (id : UInt64) (a : Access) :
    (s.makeClaim c call id a).world = s.world := by
  unfold Catalogs.makeClaim
  dsimp only
  split
  · rfl
  split
  · rfl
  · split
    · rw [checkClaim_world]
    · rfl

/-- A call touches the records by creating one at most. -/
theorem access_world (s : Catalogs) (c : Nat) (call : CreateCall) (a : Access) :
    (s.access c call a).world = s.world ∨
      ∃ id creation, (s.access c call a).world = s.world.create id creation a := by
  unfold Catalogs.access
  split
  case h_7 =>
    unfold Catalogs.writeRecord
    dsimp only
    split
    · exact .inl rfl
    split
    · exact .inl rfl
    right
    split
    · exact ⟨_, _, rfl⟩
    · split <;> exact ⟨_, _, rfl⟩
  all_goals
    left
    (repeat' split) <;> first | rfl | simp

/-- No step of the catalogs changes a record that is there. -/
theorem get_of_catalog_step {action : CatalogAction} (ha : ∀ a, action ≠ .world a) {id : Bytes}
    {cell : Cell StoredRecord} (h : (s.world.entities id).get = some cell) :
    ((s.step hash action).world.entities id).get = some cell := by
  cases action with
  | start => exact h
  | world a => exact absurd rfl (ha a)
  | call =>
    simp only [Catalogs.step, Catalogs.call]
    split
    · exact h
    · split <;> exact h
  | access c a =>
    simp only [Catalogs.step]
    split
    · exact h
    rename_i call _
    rcases access_world s c call a with heq | ⟨_, _, heq⟩
    · rwa [heq]
    · rw [heq]
      exact get_create _ _ _ _ h

end Catalogs

/-- Whatever the catalogs and the hosts do, with no collision among the digests of
the requests: creation keys are honoured, and no step of a `create` call or a
catalog's process changes a record that is there, destroyed or not. -/
theorem creation_idempotent (hash : Bytes → Digest) (limits : HostId → RuntimeLimits) (sequence : Store Unit Bytes)
    (blockSizes : Nat → BlockSize) (actions : List CatalogAction)
    (hno : NoCollision hash (actions.filterMap Catalogs.requestOf)) :
    (run (Catalogs.step hash) (Catalogs.init limits sequence blockSizes) actions).Idempotent ∧
      ∀ action, (∀ a, action ≠ .world a) → ∀ id cell,
        ((run (Catalogs.step hash) (Catalogs.init limits sequence blockSizes) actions).world.entities id).get =
          some cell →
        ((run (Catalogs.step hash) (Catalogs.init limits sequence blockSizes) (actions ++ [action])).world.entities
          id).get = some cell := by
  refine ⟨(Catalogs.sound_run hash limits sequence blockSizes actions).idempotent hno, fun _ ha _ _ h => ?_⟩
  rw [run_append]
  exact Catalogs.get_of_catalog_step ha h

/-! ## A run with a retry and a conflict -/

namespace Retrying

def player : CreateRequest := ⟨ascii "world", ascii "p1", ⟨ascii "player", [], [], [], false⟩⟩

/-- The same creation key for something else. -/
def ghost : CreateRequest := ⟨ascii "world", ascii "p1", ⟨ascii "ghost", [], [], [], false⟩⟩

/-- SHA-256 of the strings of the run. -/
def sums : List (Except Failure Bytes × Nat) :=
  [(player.operationBytes, 0x86ec9e8502111f6df022b50402437576ed161a3292fdd613bdee4c955b62a8e6),
    (player.creation.bytes, 0xf6461a614d291a86e3994455030eb511dbe4110d466044c278bd515693a350b1),
    (ghost.creation.bytes, 0xff58df352f61396c60c6b55be560d27fd7136c031996fc20fd5632b04b0bea6d)]

def digest (bytes : Bytes) : Digest := ⟨bigEndian 32 ((sums.lookup (.ok bytes)).getD 0), bigEndian_length ..⟩

/-- The first call loses its answer after it wrote the record; it is made again, and then with other parameters. -/
def actions : List CatalogAction :=
  [.call 0 0 player, .access 0 {}, .access 0 {}, .access 0 {}, .access 0 { version := 1 }, .access 0 { version := 1 },
    .access 0 {}, .access 0 { version := 1, fault := .after }, .call 0 0 player, .access 0 {}, .access 0 {},
    .call 1 1 ghost, .access 1 {}]

theorem blockSize_ok : (4 : UInt64) ≠ 0 ∧ (4 : UInt64) ≤ 1048576 := by decide

def after : Catalogs :=
  run (Catalogs.step digest)
    (Catalogs.init (fun _ => ⟨{}, EntityRuntimeLimits.accepted_default⟩) Store.empty fun _ => ⟨4, blockSize_ok⟩) actions

end Retrying

open Retrying in
theorem creation_idempotent_retrying :
    NoCollision digest (actions.filterMap Catalogs.requestOf) ∧ after.Idempotent ∧
      after.trace = [.ended ghost (.error .conflict), .ended player (.ok 1), .ended player (.error (.storage .after)),
        .claimed player 1] :=
  ⟨by decide +kernel, (creation_idempotent digest _ _ _ actions (by decide +kernel)).1, by decide +kernel⟩

end Fsnet
