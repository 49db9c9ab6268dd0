import Fsnet.Entity.Connections
import Fsnet.Host.Mailbox
/-!
# Whose receipts a call can meet

A keyed call is stored under the hash of its scope: the role of the caller, the
principal, preceded by its length, and the id the client chose, all of them
bytes the caller may have a hand in. Two calls with one stored id agree on each.
-/

namespace Fsnet

open Lib ConnectionRef List

/-- Whom a receipt is kept for. -/
inductive Principal where
  | connection (r : ConnectionRef)
  | subject (text : Bytes)
  | peer (host : HostId) (peer : UInt64)

def CallIdentity.principal (host : HostId) (identity : CallIdentity) : Principal :=
  if identity.connection.valid then .connection identity.connection
  else if identity.subject ≠ [] then .subject identity.subject
  else .peer host identity.peer

/-- Without a logical connection the subject is no connection key. -/
def CallIdentity.Plain (identity : CallIdentity) : Prop :=
  identity.connection.valid = false → validConnectionKey identity.subject = false

variable {host host' : HostId} {i i' : CallIdentity} {requestId requestId' : Bytes}

theorem anonymous_inj {owner owner' : Bytes} {peer peer' : UInt64}
    (h : ascii "anonymous:" ++ owner ++ 0x3a :: decimal peer.toNat =
      ascii "anonymous:" ++ owner' ++ 0x3a :: decimal peer'.toNat) : owner = owner' ∧ peer = peer' := by
  have hcolon : ∀ n : Nat, (0x3a : UInt8) ∉ (decimal n).reverse := fun n hmem => by
    have hdigit := decimal_isDigit n _ (mem_reverse.1 hmem)
    exact absurd hdigit (by decide)
  rw [append_assoc, append_assoc, append_right_inj] at h
  -- The owner may hold colons; the last one ends it.
  have hreverse := congrArg List.reverse h
  simp only [reverse_append, reverse_cons, append_assoc, singleton_append] at hreverse
  obtain ⟨hpeer, howner⟩ := cut_inj (hcolon _) (hcolon _) hreverse
  exact ⟨reverse_injective howner, UInt64.toNat_inj.1 (decimal_injective (reverse_injective hpeer))⟩

/-- A connection's key is nobody else's text. -/
theorem key_ne_receiptSubject {r : ConnectionRef} {text : Bytes} (hkey : r.key = some text) (hi : i.Plain)
    (hr : i.connection.valid = false) : text ≠ receiptSubject host i := by
  rintro rfl
  have hvalid := validConnectionKey_key hkey
  obtain ⟨-, hspell⟩ := key_eq.1 hkey
  simp only [receiptSubject, key, hr, Bool.false_eq_true, if_false, Option.getD_none] at hvalid hspell
  split_ifs at hvalid hspell
  · have hhead : some (97 : UInt8) = some 99 := congrArg List.head? hspell
    exact absurd hhead (by decide)
  · rw [hi hr] at hvalid
    cases hvalid

/-- The text of a principal is its own. -/
theorem principal_of_receiptSubject (hi : i.Plain) (hi' : i'.Plain) (hanonymous : i.subject = [] ↔ i'.subject = [])
    (h : receiptSubject host i = receiptSubject host' i') : i.principal host = i'.principal host' := by
  have hconnected {host : HostId} {i : CallIdentity} (hr : i.connection.valid = true) :
      i.connection.key = some (receiptSubject host i) := by
    have hkey := key_eq.2 ⟨hr, rfl⟩
    rw [receiptSubject, hkey]
    rfl
  unfold CallIdentity.principal
  cases hr : i.connection.valid <;> cases hr' : i'.connection.valid
  case true.true =>
    have hkey : i.connection.key = some (receiptSubject host i) := hconnected hr
    rw [h] at hkey
    have heq := (fromKey_key hkey).symm.trans (fromKey_key (hconnected hr'))
    simp [Except.ok.inj heq]
  case true.false => exact absurd h (key_ne_receiptSubject (hconnected hr) hi' hr')
  case false.true => exact absurd h.symm (key_ne_receiptSubject (hconnected hr') hi hr)
  case false.false =>
    simp only [receiptSubject, key, hr, hr', Bool.false_eq_true, if_false, Option.getD_none] at h
    by_cases hs : i.subject = []
    · have hs' := hanonymous.1 hs
      rw [if_pos hs, if_pos hs'] at h
      obtain ⟨howner, hpeer⟩ := anonymous_inj h
      obtain rfl : host = host' := by
        cases host
        cases host'
        simpa using howner
      simp [hs, hs', hpeer]
    · have hs' : i'.subject ≠ [] := fun h => hs (hanonymous.2 h)
      rw [if_neg hs, if_neg hs'] at h
      rw [h]
      simp [hs']

/-- The parts of a scope after its mark of anonymity. -/
theorem scope_inj {caller caller' : Caller} {subject subject' : Bytes}
    (h : ascii (match caller with | .server => "server:" | .client => "client:") ++ decimal subject.length ++
        0x3a :: (subject ++ requestId) =
      ascii (match caller' with | .server => "server:" | .client => "client:") ++ decimal subject'.length ++
        0x3a :: (subject' ++ requestId')) :
    caller = caller' ∧ subject = subject' ∧ requestId = requestId' := by
  have hcolon : ∀ n : Nat, (0x3a : UInt8) ∉ decimal n := fun n hmem =>
    absurd (decimal_isDigit n _ hmem) (by decide)
  have hcaller : caller = caller' := by
    have hhead := congrArg List.head? h
    cases caller <;> cases caller' <;> first | rfl | exact absurd hhead (by simp [ascii])
  subst hcaller
  rw [append_assoc, append_assoc, append_right_inj] at h
  obtain ⟨hlength, hrest⟩ := cut_inj (hcolon _) (hcolon _) h
  obtain ⟨hsubject, hrequest⟩ := append_inj hrest (decimal_injective hlength)
  exact ⟨rfl, hsubject, hrequest⟩

/-- No caller meets the receipt of another principal: where no two scopes have one hash, calls with one stored id
were made in one role, by one principal and with one id of the client's. -/
theorem receipt_scopes_isolated {hash : Bytes → Bytes} (hinj : Function.Injective hash) {h h' : Host}
    {method method' : MethodRef} {call call' : Call} (hkeyed : call.requestId ≠ []) (hkeyed' : call'.requestId ≠ [])
    (hpolicy : (h.objects method).policy.isSome = true) (hpolicy' : (h'.objects method').policy.isSome = true)
    (hplain : call.identity.Plain) (hplain' : call'.identity.Plain)
    (heq : (h.request hash host method call).requestId = (h'.request hash host' method' call').requestId) :
    call.identity.caller = call'.identity.caller ∧
    call.identity.principal host = call'.identity.principal host' ∧
    (call.identity.subject = [] ↔ call'.identity.subject = []) ∧ call.requestId = call'.requestId := by
  have hstored : ∀ (h : Host) (request : Request), (resolveDelivery h request).requestId = request.requestId := by
    intro h request
    unfold resolveDelivery
    split
    · rfl
    · dsimp only
      split
      · rfl
      · split_ifs <;> rfl
  simp only [Host.request, hstored, hkeyed, hkeyed', hpolicy, hpolicy', ne_eq, not_false_eq_true, and_self, if_true,
    scopedRequestId] at heq
  have hscope := hinj (hex_injective (append_cancel_left heq))
  -- The mark is told from a role by its first letter.
  have hanonymous : call.identity.subject = [] ↔ call'.identity.subject = [] := by
    have hhead := congrArg List.head? hscope
    constructor <;> intro hs <;> by_contra hs' <;> rw [if_pos hs, if_neg hs'] at hhead
    · cases hc : call'.identity.caller <;> simp [hc, ascii] at hhead
    · cases hc : call.identity.caller <;> simp [hc, ascii] at hhead
  have hparts : call.identity.caller = call'.identity.caller ∧
      receiptSubject host call.identity = receiptSubject host' call'.identity ∧ call.requestId = call'.requestId := by
    by_cases hs : call.identity.subject = []
    · rw [if_pos hs, if_pos (hanonymous.1 hs), append_right_inj] at hscope
      exact scope_inj hscope
    · rw [if_neg hs, if_neg fun h => hs (hanonymous.2 h)] at hscope
      exact scope_inj hscope
  exact ⟨hparts.1, principal_of_receiptSubject hplain hplain' hanonymous hparts.2.1, hanonymous, hparts.2.2⟩

/-! ## One call over two hosts -/

/-- A host with a method anybody may call. -/
def shopHost : Host :=
  { limits := { ok := EntityRuntimeLimits.accepted_default }
    objects := fun _ => { policy := some ⟨true, true, false⟩ } }

def buyer : ConnectionRef := ⟨ascii "0123456789abcdef0123456789abcdef", 3⟩

/-- A call of a client with a connection. -/
def buyCall (payload : Bytes) : Call :=
  { route := ⟨ascii "shop", ascii "buy"⟩, id := ascii "00000000000000a1", payload
    requestId := ascii "buy-1", size := 64
    identity := ⟨.client, ascii "alice", 5, buyer⟩ }

def buyScope : Bytes := ascii "client:45:connection/0123456789abcdef0123456789abcdef/3buy-1"

/-- SHA-256 at the scope of the calls, and longer than any digest elsewhere. -/
def shopHash (bytes : Bytes) : Bytes :=
  if bytes = buyScope then bigEndian 32 0x8c1ea635aee51e7723e10b3580e13107eaf52ff1f093cbf2e93869d0859949d1
  else bytes ++ replicate 33 0

theorem shopHash_injective : Function.Injective shopHash := by
  intro a b h
  unfold shopHash at h
  split at h <;> split at h
  case isTrue.isTrue ha hb => rw [ha, hb]
  case isFalse.isFalse => exact append_cancel_right h
  all_goals
    have hlength := congrArg length h
    rw [length_append, length_replicate, bigEndian_length] at hlength
    omega

theorem buyer_subject (host : HostId) : receiptSubject host ⟨.client, ascii "alice", 5, buyer⟩ =
    ascii "connection/0123456789abcdef0123456789abcdef/3" := by
  have hkey : buyer.key = some (ascii "connection/0123456789abcdef0123456789abcdef/3") := by decide
  rw [receiptSubject, hkey]
  exact if_neg (by decide)

theorem receipt_scopes_isolated_shop :
    shopHost.refusesCall (buyCall []) = false ∧ ∀ east west : HostId,
      (shopHost.request shopHash east 0 (buyCall [])).requestId =
        (shopHost.request shopHash west 0 (buyCall [3])).requestId ∧
      (buyCall []).identity.principal east = (buyCall [3]).identity.principal west := by
  have hplain : ∀ payload, (buyCall payload).identity.Plain := fun _ h => nomatch h
  have hid : ∀ host payload, (shopHost.request shopHash host 0 (buyCall payload)).requestId =
      ascii "context:" ++ hex (shopHash buyScope) := by
    intro host payload
    change scopedRequestId shopHash host ⟨.client, ascii "alice", 5, buyer⟩ (ascii "buy-1") = _
    rw [scopedRequestId, buyer_subject, if_neg (by decide)]
    rfl
  refine ⟨by decide, fun east west => ?_⟩
  have heq := (hid east []).trans (hid west [3]).symm
  refine ⟨heq, ?_⟩
  exact (receipt_scopes_isolated shopHash_injective (by decide) (by decide) rfl rfl (hplain _) (hplain _) heq).2.1

end Fsnet
