import Fsnet.Entity.Frame
import Fsnet.Storage.Memory
/-!
# The file backend

`Files`: one file for each key, named after the digest of the key, with the
number of the last change, whether there is a record, the key and the value. A
change is written to a temporary file that is renamed over the old one. `Stage`
is where the file system or a lock fails the call. The digest is a parameter.
-/

namespace Fsnet.Storage

open Lib List Function
open Lib.Versioned (Record version Call Cut Thrown Outcome Answer)

/-- What a file holds; without a file all is as it is here. -/
structure Entry where
  version : Nat := 0
  present : Bool := false
  value : Bytes := []
  deriving DecidableEq, Repr

/-- The record of an entry. -/
def Entry.record (e : Entry) : Option (Record Bytes) := if e.present then some ⟨e.value, e.version⟩ else none

/-- The shard directories, and the files by directory and name. -/
structure Files where
  shards : Bytes → Bool
  files : Bytes × Bytes → Option Bytes

namespace Files

/-- What fails a call: the digest of the key, the shard directory, the sync of the
root, the lock, reading the record, the digest of the new record, the name of the
temporary file, creating it, writing it with some bytes written, its sync, the
rename, or the sync of the directory after it. -/
inductive Stage where
  | digest
  | shard
  | root
  | lock
  | read
  | checksum
  | nonce
  | create
  | write (written : Bytes)
  | sync
  | rename
  | directory
  deriving DecidableEq, Repr

/-- What a call meets: the random part of the temporary name, what fails, and
whether the temporary file of a call that fails is removed. -/
structure Env where
  nonce : Bytes
  stage : Option Stage
  unlinks : Bool

variable (digest : Bytes → Digest)

variable (s : Files) (env : Env) (path : Bytes × Bytes) (key : Bytes) (expected : Nat)

def shard : Bytes := (hex (digest key).1).take 2

def recordPath : Bytes × Bytes := (shard digest key, (hex (digest key).1).drop 2 ++ ascii ".record")

def temporaryPath (key nonce : Bytes) : Bytes × Bytes :=
  (shard digest key, (hex (digest key).1).drop 2 ++ ascii ".record" ++ (ascii "." ++ hex nonce ++ ascii ".tmp"))

/-- The tag, revision, flag, key and value `replace` writes, without the checksum. -/
def encodeBody (version : Nat) (key : Bytes) (value : Option Bytes) : Except Failure Bytes := do
  let keyField ← blob key
  let valueField ← blob (value.getD [])
  pure (ascii "FSF1" ++
    (integer (UInt64.ofNat version) ++ ((if value.isSome then 1 else 0) :: (keyField ++ valueField))))

def encodeEntry (version : Nat) (key : Bytes) (value : Option Bytes) : Except Failure Bytes := do
  let body ← encodeBody version key value
  pure (body ++ (digest body).1)

/-- `read`, from where the file has been read. -/
def decodeEntry (bytes key : Bytes) : Except Failure Entry := do
  refuseIf (bytes.length < 53 ∨ maximumValue + 8192 < bytes.length) (.runtime "invalid file storage record size")
  let checksum := bytes.drop (bytes.length - 32)
  let input := bytes.take (bytes.length - 32)
  refuseIf ((digest input).1 ≠ checksum ∨ ¬(ascii "FSF1").isPrefixOf input)
    (.runtime "file storage integrity check failed")
  let (version, input) ← readInteger (input.drop 4)
  refuseIf (version = 0 ∨ maxVersion ≤ version.toNat ∨ input = [] ∨ (input.head? ≠ some 0 ∧ input.head? ≠ some 1))
    (.runtime "invalid file storage revision")
  let present := input.head? = some 1
  let (field, input) ← readBlob (input.drop 1)
  refuseIf (field ≠ key) (.runtime "file storage key mismatch")
  let (value, input) ← readBlob input
  refuseIf (input ≠ [] ∨ maximumValue < value.length ∨ (¬present ∧ value ≠ [])) (.runtime "invalid file storage value")
  pure ⟨version.toNat, present, value⟩

/-- The entry of a key, without a file an empty one. -/
def entry : Except Failure Entry :=
  match s.files (recordPath digest key) with
  | none => .ok {}
  | some bytes => decodeEntry digest bytes key

def read (s : Files) (env : Env) (key : Bytes) : Except Failure Entry :=
  if env.stage = some .read then .error (.runtime "truncated file storage record") else s.entry digest key

/-- `lock`, exclusive: the shard directory is there afterwards. -/
def lock (s : Files) (env : Env) (key : Bytes) : Files × Except Failure Unit :=
  if key = [] ∨ maximumKey < key.length then (s, .error (.invalid "invalid storage key"))
  else if env.stage = some .digest then (s, .error (.runtime "storage checksum failed"))
  else if env.stage = some .shard then (s, .error (.runtime "file storage shard"))
  else
    let s := { s with shards := update s.shards (shard digest key) true }
    if env.stage = some .root then (s, .error (.runtime "file storage root sync"))
    else if env.stage = some .lock then (s, .error (.runtime "file storage lock deadline"))
    else (s, .ok ())

def write (bytes : Bytes) : Files :=
  { s with files := update s.files path (some bytes) }

def unlink : Files := { s with files := update s.files path none }

/-- What is left when the temporary file is not renamed. -/
def abandon : Files := if env.unlinks then s.unlink path else s

/-- The new record goes to a temporary file and from there over the old one. -/
def store (key bytes : Bytes) : Files × Except Failure Bool :=
  let path := temporaryPath digest key env.nonce
  if env.stage = some .nonce then (s, .error (.runtime "storage temporary name generation failed"))
  else if env.stage = some .create ∨ (s.files path).isSome then
    (s.abandon env path, .error (.runtime "file storage open"))
  else
    match env.stage with
    | some (.write written) => ((s.write path written).abandon env path, .error (.runtime "file storage write"))
    | some .sync => ((s.write path bytes).abandon env path, .error (.runtime "file storage data sync"))
    | some .rename => ((s.write path bytes).abandon env path, .error (.runtime "file storage atomic replace"))
    | some .directory =>
      (((s.write (recordPath digest key) bytes).unlink path).abandon env path,
        .error (.runtime "file storage directory sync"))
    | _ => ((s.write (recordPath digest key) bytes).unlink path, .ok true)

def replace (value : Option Bytes) :
    Files × Except Failure Bool :=
  if maxVersion ≤ expected ∨ ∃ v ∈ value, maximumValue < v.length then
    (s, .error (.invalid "invalid storage replacement"))
  else
    match s.lock digest env key with
    | (s, .error e) => (s, .error e)
    | (s, .ok _) =>
      match s.read digest env key with
      | .error e => (s, .error e)
      | .ok current =>
        if (if current.present then current.version else 0) ≠ expected ∨ value.isNone = true ∧
          current.present = false then
          (s, .ok false)
        else if maxVersion - 1 ≤ current.version then (s, .error (.overflow "record version exhausted"))
        else
          match encodeEntry digest (current.version + 1) key value with
          | .error e => (s, .error e)
          | .ok bytes =>
            if env.stage = some .checksum then (s, .error (.runtime "storage checksum failed"))
            else s.store digest env key bytes

def get : Except Failure (Option (Record Bytes)) :=
  if key = [] ∨ maximumKey < key.length then .error (.invalid "invalid storage key")
  else if env.stage = some .digest then .error (.runtime "storage checksum failed")
  else if env.stage = some .shard then .error (.runtime "file storage open")
  else if s.shards (shard digest key) = false then .ok none
  else do
    let record ← s.read digest env key
    pure record.record

def compareExchange (value : Bytes) :
    Files × Except Failure Bool :=
  s.replace digest env key expected (some value)

def erase : Files × Except Failure Bool :=
  s.replace digest env key expected none

/-! ## Names -/

variable {digest}

variable {key bytes : Bytes} {value : Option Bytes} {e : Entry} {s t u s' : Files} {env : Env}

/-- Two keys share a file only if their digests collide. -/
theorem digest_of_recordPath {key' : Bytes} (h : recordPath digest key = recordPath digest key') :
    digest key = digest key' := by
  obtain ⟨htake, hdrop⟩ := Prod.mk.inj h
  have hname := congrArg₂ (· ++ ·) htake (append_cancel_right hdrop)
  simp only [shard, take_append_drop] at hname
  exact Subtype.ext (hex_injective hname)

/-- A temporary file is no record. -/
theorem temporaryPath_ne (key key' nonce : Bytes) : recordPath digest key' ≠ temporaryPath digest key nonce := by
  intro h
  have hlast := congrArg (fun path : Bytes × Bytes => path.2.getLast?) h
  have hrecord : ∀ front : Bytes, (front ++ ascii ".record").getLast? = some 100 := fun front => by
    rw [getLast?_append]
    rfl
  have htmp : ∀ front : Bytes, (front ++ ascii ".tmp").getLast? = some 112 := fun front => by
    rw [getLast?_append]
    rfl
  simp only [recordPath, temporaryPath, hrecord, ← append_assoc, htmp] at hlast
  exact absurd hlast (by decide)

/-! ## Records -/

theorem getD_length_le (hvalue : ∀ x ∈ value, x.length ≤ maximumValue) : (value.getD []).length ≤ maximumValue := by
  cases value with
  | none => exact Nat.zero_le _
  | some x => exact hvalue x rfl

theorem blob_of_short {value : Bytes} (h : value.length < 2 ^ 32) :
    blob value = .ok (number value.length ++ value) := by
  rw [blob, refuseIf_of_not _ (by omega), ok_bind, pure_eq_ok]

theorem encodeBody_eq (v : Nat) (hkey : key.length ≤ maximumKey) (hvalue : ∀ x ∈ value, x.length ≤ maximumValue) :
    encodeBody v key value = .ok (ascii "FSF1" ++ (integer (UInt64.ofNat v) ++ ((if value.isSome then 1 else 0) ::
      (number key.length ++ (key ++ (number (value.getD []).length ++ value.getD [])))))) := by
  have hvalue := getD_length_le hvalue
  unfold maximumKey at hkey
  unfold maximumValue at hvalue
  rw [encodeBody, blob_of_short (by omega), blob_of_short (by omega)]
  simp

/-- What was written is read back. -/
theorem encodeEntry_wire (digest : Bytes → Digest) {v : Nat} (hv : 0 < v) (hmax : v < maxVersion)
    (hkey : key.length ≤ maximumKey) (hvalue : ∀ x ∈ value, x.length ≤ maximumValue) :
    ∃ bytes, encodeEntry digest v key value = .ok bytes ∧
      decodeEntry digest bytes key = .ok ⟨v, value.isSome, value.getD []⟩ := by
  have hbody := encodeBody_eq v hkey hvalue
  have hsize := getD_length_le hvalue
  generalize hb : (ascii "FSF1" ++ (integer (UInt64.ofNat v) ++ ((if value.isSome then 1 else 0) ::
    (number key.length ++ (key ++ (number (value.getD []).length ++ value.getD [])))))) = body at hbody
  refine ⟨body ++ (digest body).1, by rw [encodeEntry, hbody]; rfl, ?_⟩
  have hdigest := (digest body).2
  have hlength : body.length = 21 + key.length + (value.getD []).length := by
    rw [← hb]
    simp [number, integer, show (ascii "FSF1").length = 4 from rfl]
    omega
  have hversion : (UInt64.ofNat v).toNat = v := by
    unfold maxVersion at hmax
    rw [UInt64.toNat_ofNat', Nat.mod_eq_of_lt (by omega)]
  unfold maximumKey at hkey
  unfold maximumValue at hsize
  unfold decodeEntry
  have htotal : (body ++ (digest body).1).length - 32 = body.length := by simp [hdigest]
  have hdrop : body.drop 4 = integer (UInt64.ofNat v) ++ ((if value.isSome then 1 else 0) ::
      (number key.length ++ (key ++ (number (value.getD []).length ++ value.getD [])))) := by
    rw [← hb]
    rfl
  have htag : (ascii "FSF1").isPrefixOf body = true := by
    rw [← hb]
    exact isPrefixOf_tag _ _
  have hzero : UInt64.ofNat v ≠ 0 := by
    intro h0
    rw [h0] at hversion
    exact absurd hversion (by simp; omega)
  rw [htotal, take_left, drop_left, refuseIf_of_not]
  · simp only [ok_bind]
    rw [refuseIf_of_not _ (by simp [htag]), ok_bind, hdrop, readInteger_wire]
    simp only [ok_bind, head?_cons, drop_succ_cons, drop_zero, hversion]
    rw [refuseIf_of_not, ok_bind, readBlob_wire (by omega)]
    · simp only [ok_bind]
      rw [refuseIf_of_not _ (by simp), ok_bind]
      have hlast : readBlob (number (value.getD []).length ++ (value.getD [] ++ [])) = .ok (value.getD [], []) :=
        readBlob_wire (by omega) []
      rw [append_nil] at hlast
      rw [hlast]
      simp only [ok_bind]
      refine refuseIf_bind_eq_ok.2 ⟨?_, ?_⟩
      · cases value with
        | none => simp [maximumValue]
        | some => simpa [maximumValue] using hsize
      · cases value <;> rfl
    · cases value <;> simp [hzero, hmax]
  · simp [hdigest, maximumValue]
    omega

theorem decodeEntry_bounds (h : decodeEntry digest bytes key = .ok e) : 0 < e.version ∧ e.version < maxVersion := by
  unfold decodeEntry at h
  simp only [bind_eq_ok, Prod.exists, refuseIf_eq_ok, pure_ok_iff] at h
  obtain ⟨-, -, -, -, v, _, -, -, hv, -, -, -, -, -, _, _, -, -, -, rfl⟩ := h
  simp only [not_or, Nat.not_le] at hv
  refine ⟨Nat.pos_of_ne_zero fun h0 => hv.1 ?_, hv.2.1⟩
  exact UInt64.toNat_inj.1 h0

theorem entry_bounds (h : s.entry digest key = .ok e) :
    (e.present = true → 0 < e.version) ∧ e.version < maxVersion := by
  unfold entry at h
  split at h
  · cases h
    exact ⟨fun h => absurd h (by simp), (by decide : 0 < maxVersion)⟩
  · have := decodeEntry_bounds h
    exact ⟨fun _ => this.1, this.2⟩

/-! ## What a call does to the files -/

/-- No record file changed. -/
structure Same (digest : Bytes → Digest) (s s' : Files) : Prop where
  files : ∀ key, s'.files (recordPath digest key) = s.files (recordPath digest key)
  shards : ∀ shard, s.shards shard = true → s'.shards shard = true

/-- One record file was replaced. -/
structure Wrote (digest : Bytes → Digest) (s s' : Files) (key bytes : Bytes) : Prop where
  file : s'.files (recordPath digest key) = some bytes
  others : ∀ key', recordPath digest key' ≠ recordPath digest key →
    s'.files (recordPath digest key') = s.files (recordPath digest key')
  shards : ∀ shard, s.shards shard = true → s'.shards shard = true

theorem Same.refl (s : Files) : Same digest s s := ⟨fun _ => rfl, fun _ h => h⟩

theorem Same.trans (h : Same digest s t) (h' : Same digest t u) : Same digest s u :=
  ⟨fun key => (h'.files key).trans (h.files key), fun d hd => h'.shards d (h.shards d hd)⟩

theorem Same.wrote (h : Same digest s t) (h' : Wrote digest t u key bytes) : Wrote digest s u key bytes :=
  ⟨h'.file, fun key' hk => (h'.others key' hk).trans (h.files key'), fun d hd => h'.shards d (h.shards d hd)⟩

theorem Wrote.same (h : Wrote digest s t key bytes) (h' : Same digest t u) : Wrote digest s u key bytes :=
  ⟨(h'.files key).trans h.file, fun key' hk => (h'.files key').trans (h.others key' hk),
    fun d hd => h'.shards d (h.shards d hd)⟩

theorem same_write (s : Files) (key nonce bytes : Bytes) :
    Same digest s (s.write (temporaryPath digest key nonce) bytes) :=
  ⟨fun key' => update_of_ne (temporaryPath_ne key key' nonce) _ _, fun _ h => h⟩

theorem same_unlink (s : Files) (key nonce : Bytes) : Same digest s (s.unlink (temporaryPath digest key nonce)) :=
  ⟨fun key' => update_of_ne (temporaryPath_ne key key' nonce) _ _, fun _ h => h⟩

theorem same_abandon (s : Files) (env : Env) (key nonce : Bytes) :
    Same digest s (s.abandon env (temporaryPath digest key nonce)) := by
  unfold abandon
  split_ifs
  · exact same_unlink s key nonce
  · exact .refl s

theorem wrote_write (s : Files) (key bytes : Bytes) :
    Wrote digest s (s.write (recordPath digest key) bytes) key bytes :=
  ⟨update_self .., fun _ hk => update_of_ne hk _ _, fun _ h => h⟩

/-- Does the call fail before it compares? -/
def Stage.early : Stage → Bool
  | .digest | .shard | .root | .lock | .read => true
  | _ => false

/-- Does the call fail when it should write? -/
def Stage.late : Stage → Bool
  | .checksum | .nonce | .create | .write _ | .sync | .rename => true
  | _ => false

/-- Is the name for the temporary file taken, or does something fail before the rename? -/
def blocked (digest : Bytes → Digest) (s : Files) (env : Env) (key : Bytes) : Bool :=
  env.stage.any Stage.late || (s.files (temporaryPath digest key env.nonce)).isSome

theorem store_blocked (bytes : Bytes) (hearly : env.stage.any Stage.early = false)
    (hsum : env.stage ≠ some .checksum) (h : blocked digest s env key = true) :
    ∃ s' text, s.store digest env key bytes = (s', .error (.runtime text)) ∧ Same digest s s' := by
  obtain ⟨nonce, stage, unlinks⟩ := env
  have hleft : ∀ written, Same digest s ((s.write (temporaryPath digest key nonce) written).abandon
      ⟨nonce, stage, unlinks⟩ (temporaryPath digest key nonce)) :=
    fun written => (same_write s key nonce written).trans (same_abandon _ _ key nonce)
  by_cases htaken : (s.files (temporaryPath digest key nonce)).isSome = true
  · simp only [store, htaken, or_true, if_true]
    split_ifs
    · exact ⟨s, _, rfl, .refl s⟩
    · exact ⟨_, _, rfl, same_abandon s _ key nonce⟩
  cases stage with
  | none => simp [blocked, htaken] at h
  | some stage =>
    cases stage with
    | nonce => exact ⟨s, _, rfl, .refl s⟩
    | create => exact ⟨_, _, rfl, same_abandon s _ key nonce⟩
    | write written => exact ⟨_, "file storage write", by simp [store, htaken], hleft written⟩
    | sync => exact ⟨_, "file storage data sync", by simp [store, htaken], hleft bytes⟩
    | rename => exact ⟨_, "file storage atomic replace", by simp [store, htaken], hleft bytes⟩
    | checksum => exact absurd rfl hsum
    | directory => simp [blocked, htaken, Stage.late] at h
    | _ => simp [Stage.early] at hearly

theorem store_done (bytes : Bytes) (hearly : env.stage.any Stage.early = false) (h : blocked digest s env key = false) :
    ∃ s', Wrote digest s s' key bytes ∧
      if env.stage = some .directory then
        ∃ text, s.store digest env key bytes = (s', .error (.runtime text))
      else s.store digest env key bytes = (s', .ok true) := by
  obtain ⟨nonce, stage, unlinks⟩ := env
  simp only [blocked, Bool.or_eq_false_iff] at h
  obtain ⟨hlate, htaken⟩ := h
  have hrenamed : Wrote digest s ((s.write (recordPath digest key) bytes).unlink (temporaryPath digest key nonce)) key
      bytes := (wrote_write s key bytes).same (same_unlink _ key nonce)
  cases stage with
  | none => exact ⟨_, hrenamed, by simp [store, htaken]⟩
  | some stage =>
    cases stage with
    | directory =>
      exact ⟨_, hrenamed.same (same_abandon _ ⟨nonce, some .directory, unlinks⟩ key nonce), by simp [store, htaken]⟩
    | digest | shard | root | lock | read => simp [Stage.early] at hearly
    | _ => simp [Stage.late] at hlate

/-- With a valid key `lock` fails early or gets the lock. -/
theorem lock_cases (digest : Bytes → Digest) (s : Files) (env : Env) (hkey : key ≠ [] ∧ key.length ≤ maximumKey) :
    ∃ s', Same digest s s' ∧ s'.files = s.files ∧
      ((∃ text, s.lock digest env key = (s', .error (.runtime text)) ∧ env.stage.any Stage.early = true) ∨
        (s.lock digest env key = (s', .ok ()) ∧ s'.shards (shard digest key) = true ∧
          (env.stage.any Stage.early = true → env.stage = some .read))) := by
  have hvalid : ¬(key = [] ∨ maximumKey < key.length) := by
    rintro (h | h)
    · exact hkey.1 h
    · omega
  have hmade : Same digest s { s with shards := update s.shards (shard digest key) true } := by
    refine ⟨fun _ => rfl, fun d hd => ?_⟩
    by_cases hs : d = shard digest key
    · simp [hs]
    · simpa [hs] using hd
  simp only [lock, if_neg hvalid]
  split_ifs with hdigest hshard hroot hlock
  · exact ⟨s, .refl s, rfl, .inl ⟨_, rfl, by simp [hdigest, Stage.early]⟩⟩
  · exact ⟨s, .refl s, rfl, .inl ⟨_, rfl, by simp [hshard, Stage.early]⟩⟩
  · exact ⟨_, hmade, rfl, .inl ⟨_, rfl, by simp [hroot, Stage.early]⟩⟩
  · exact ⟨_, hmade, rfl, .inl ⟨_, rfl, by simp [hlock, Stage.early]⟩⟩
  refine ⟨_, hmade, rfl, .inr ⟨rfl, by simp, fun hearly => ?_⟩⟩
  cases hstage : env.stage with
  | none => simp [hstage] at hearly
  | some stage => cases stage <;> simp_all [Stage.early]

/-! ## Behind the interface -/

variable (digest)

/-- Where a failure interrupts a call. -/
def cut {K : Type} (bytesOf : K → Bytes) (s : Files) (env : Env) : Call K Bytes → Option Cut
  | .get key =>
    if env.stage = some .digest ∨ env.stage = some .shard then some .comparison
    -- without the directory nothing is read
    else if env.stage = some .read ∧ s.shards (shard digest (bytesOf key)) = true then some .comparison
    else none
  | .replace key _ _ =>
    if env.stage.any Stage.early then some .comparison
    else if blocked digest s env (bytesOf key) then some .commit
    else if env.stage = some .directory then some .confirmation
    else none

/-- `Files` behind the interface, for some keys. -/
def backend (keys : Set Bytes) : Versioned.Backend {key // key ∈ keys} Bytes where
  State := Files
  Env := Env
  takes := Fits
  init := ⟨fun _ => false, fun _ => none⟩
  step s env
    | .get key => (s, ((s.get digest env key.1).mapError kind).map .found)
    | .replace key expected (some value) =>
      let p := s.compareExchange digest env key.1 expected value
      (p.1, (p.2.mapError kind).map .replaced)
    | .replace key expected none =>
      let p := s.erase digest env key.1 expected
      (p.1, (p.2.mapError kind).map .replaced)
  cut s env call := s.cut digest Subtype.val env call
  record s key := (s.entry digest key.1).toOption.bind Entry.record

/-- Every record file of the keys can be read and is in a directory that is there. -/
def Sound (keys : Set Bytes) (s : Files) : Prop :=
  ∀ key ∈ keys, (∃ e, s.entry digest key = .ok e) ∧
    (s.shards (shard digest key) = false → s.files (recordPath digest key) = none)

/-- The number of the last change of a key. -/
def stamp (s : Files) (key : Bytes) : Nat := ((s.entry digest key).toOption.map Entry.version).getD 0

variable {digest}

theorem version_record (h : e.present = true → 0 < e.version) :
    version e.record = (if e.present then e.version else 0) ∧ (version e.record = 0 ↔ e.present = false) := by
  unfold Entry.record
  cases hp : e.present with
  | false => simp [version]
  | true =>
    have := h hp
    simp [version]
    omega

theorem Same.entry (h : Same digest s s') (key : Bytes) : s'.entry digest key = s.entry digest key := by
  unfold Files.entry
  rw [h.files]

theorem Wrote.entry_of_ne (h : Wrote digest s s' key bytes) {key' : Bytes}
    (hk : recordPath digest key' ≠ recordPath digest key) : s'.entry digest key' = s.entry digest key' := by
  unfold Files.entry
  rw [h.others key' hk]

theorem Wrote.entry_self (h : Wrote digest s s' key bytes) : s'.entry digest key = decodeEntry digest bytes key := by
  unfold Files.entry
  rw [h.file]

variable {keys : Set Bytes}

/-- A call leaves the record files or replaces one by a readable one with a higher number. -/
def Moves (digest : Bytes → Digest) (keys : Set Bytes) (s s' : Files) : Prop :=
  Same digest s s' ∨ ∃ key ∈ keys, ∃ bytes e e', Wrote digest s s' key bytes ∧ s'.shards (shard digest key) = true ∧
    s.entry digest key = .ok e ∧ s'.entry digest key = .ok e' ∧ e.version ≤ e'.version

/-- Under keys without collisions a written file is that of one key. -/
theorem Moves.entry_cases (hinj : Set.InjOn digest keys) (hm : Moves digest keys s s')
    (hkey : key ∈ keys) : s'.entry digest key = s.entry digest key ∨
      ∃ e e', s.entry digest key = .ok e ∧ s'.entry digest key = .ok e' ∧ e.version ≤ e'.version := by
  rcases hm with hs | ⟨key', hkey', _, e, e', hw, -, he, he', hle⟩
  · exact .inl (hs.entry key)
  by_cases hpath : recordPath digest key = recordPath digest key'
  · have heq : key = key' := hinj hkey hkey' (digest_of_recordPath hpath)
    subst heq
    exact .inr ⟨e, e', he, he', hle⟩
  · exact .inl (hw.entry_of_ne hpath)

theorem Moves.sound (hinj : Set.InjOn digest keys) (hm : Moves digest keys s s')
    (h : Sound digest keys s) : Sound digest keys s' := by
  intro key hkey
  obtain ⟨_, hmissing⟩ := h key hkey
  constructor
  · rcases hm.entry_cases hinj hkey with heq | ⟨-, e', -, he', -⟩
    · rwa [heq]
    · exact ⟨e', he'⟩
  · intro hshard
    rcases hm with hs | ⟨key', _, _, e, _, hw, hmade, -⟩
    · have hbefore : s.shards (shard digest key) ≠ true := fun ht => by simp [hs.shards _ ht] at hshard
      rw [hs.files, hmissing (by simpa using hbefore)]
    have hbefore : s.shards (shard digest key) ≠ true := fun ht => by simp [hw.shards _ ht] at hshard
    have hpath : recordPath digest key ≠ recordPath digest key' := by
      intro heq
      have hsame : shard digest key = shard digest key' := congrArg Prod.fst heq
      rw [hsame, hmade] at hshard
      cases hshard
    rw [hw.others key hpath, hmissing (by simpa using hbefore)]

theorem Moves.stamp_le (hinj : Set.InjOn digest keys) (hm : Moves digest keys s s')
    (hkey : key ∈ keys) : s.stamp digest key ≤ s'.stamp digest key := by
  unfold stamp
  rcases hm.entry_cases hinj hkey with heq | ⟨e, _, he, he', hle⟩
  · rw [heq]
  · rw [he, he']
    exact hle

/-- What a call leaves, and that it answers as it should. -/
def Served (digest : Bytes → Digest) (keys : Set Bytes) (s : Files) (env : Env)
    (call : Call {key // key ∈ keys} Bytes) : Prop :=
  ∃ s' outcome, (backend digest keys).step s env call = (s', outcome) ∧ Moves digest keys s s' ∧
    Versioned.Serves maxVersion (s.cut digest Subtype.val env call) ((backend digest keys).record s)
      (s.stamp digest call.key.1) (s'.stamp digest call.key.1) call ((backend digest keys).record s') outcome

theorem served_get (h : Sound digest keys s) (env : Env) (key : {key // key ∈ keys})
    (hkey : key.1 ≠ [] ∧ key.1.length ≤ maximumKey) : Served digest keys s env (.get key) := by
  obtain ⟨⟨e, he⟩, hmissing⟩ := h key.1 key.2
  have hvalid : ¬(key.1 = [] ∨ maximumKey < key.1.length) := by
    rintro (h | h)
    · exact hkey.1 h
    · omega
  have hanswer : (backend digest keys).step s env (.get key) =
      (s, Versioned.look (s.cut digest Subtype.val env (.get key)) ((backend digest keys).record s key)) := by
    have hrecord : (backend digest keys).record s key = e.record := by simp [backend, he, Except.toOption]
    rw [hrecord]
    simp only [backend, get, if_neg hvalid, cut, Versioned.look, read]
    by_cases hdigest : env.stage = some .digest
    · simp [hdigest, kind, Except.map, Except.mapError]
    by_cases hshard : env.stage = some .shard
    · simp [hshard, kind, Except.map, Except.mapError]
    simp only [hdigest, hshard, if_false, or_false]
    by_cases hdir : s.shards (shard digest key.1) = false
    · have hentry : s.entry digest key.1 = .ok {} := by rw [entry, hmissing hdir]
      rw [he] at hentry
      obtain rfl := Except.ok.inj hentry
      simp [hdir, Except.map, Except.mapError, Entry.record]
    rw [Bool.not_eq_false] at hdir
    by_cases hread : env.stage = some .read
    · simp [hread, hdir, kind, Except.map, Except.mapError]
    · simp [hread, hdir, he, Except.map, Except.mapError]
  exact ⟨s, _, hanswer, .inl (.refl s), .found key⟩

theorem step_replace (s : Files) (env : Env) (key : {key // key ∈ keys}) (expected : Nat) (value : Option Bytes) :
    (backend digest keys).step s env (.replace key expected value) =
      ((s.replace digest env key.1 expected value).1,
        ((s.replace digest env key.1 expected value).2.mapError kind).map .replaced) := by
  cases value <;> rfl

theorem record_of_same (h : Same digest s s') : (backend digest keys).record s' = (backend digest keys).record s := by
  funext key
  simp only [backend, h.entry]

theorem record_of_wrote (hinj : Set.InjOn digest keys) {key : {key // key ∈ keys}} {v : Nat}
    (h : Wrote digest s s' key.1 bytes)
    (hbytes : decodeEntry digest bytes key.1 = .ok ⟨v, value.isSome, value.getD []⟩) :
    (backend digest keys).record s' =
      update ((backend digest keys).record s) key (value.map fun x => ⟨x, v⟩) := by
  funext key'
  by_cases hk : key' = key
  · subst hk
    rw [update_self]
    simp only [backend, h.entry_self, hbytes]
    cases value <;> rfl
  have hpath : recordPath digest key'.1 ≠ recordPath digest key.1 := fun heq =>
    hk (Subtype.ext (hinj key'.2 key.2 (digest_of_recordPath heq)))
  rw [update_of_ne hk]
  simp only [backend, h.entry_of_ne hpath]

/-- A replacement that changes no record file. -/
theorem served_kept {key : {key // key ∈ keys}} {expected : Nat}
    {r : Except Failure Bool} (hstep : s.replace digest env key.1 expected value = (t, r)) (hsame : Same digest s t)
    (hattempt : r.mapError kind = .error .exhausted ∨
      Versioned.attempt maxVersion (s.cut digest Subtype.val env (.replace key expected value))
        (version ((backend digest keys).record s key)) expected value.isNone = (false, r.mapError kind)) :
    Served digest keys s env (.replace key expected value) := by
  refine ⟨t, (r.mapError kind).map .replaced, by rw [step_replace, hstep]; rfl, .inl hsame, ?_⟩
  rw [record_of_same hsame]
  rcases hattempt with hfull | hattempt
  · simp only [hfull]
    exact .exhausted _
  · exact .kept key expected value _ hattempt

/-- A replacement by the file of the next version. -/
theorem served_stored (hinj : Set.InjOn digest keys) {key : {key // key ∈ keys}}
    {expected : Nat} {r : Except Failure Bool}
    (hstep : s.replace digest env key.1 expected value = (t, r)) (hwrote : Wrote digest s t key.1 bytes)
    (hdir : t.shards (shard digest key.1) = true) (he : s.entry digest key.1 = .ok e)
    (hbytes : decodeEntry digest bytes key.1 = .ok ⟨e.version + 1, value.isSome, value.getD []⟩)
    (hattempt : Versioned.attempt maxVersion (s.cut digest Subtype.val env (.replace key expected value))
      (version ((backend digest keys).record s key)) expected value.isNone = (true, r.mapError kind)) :
    Served digest keys s env (.replace key expected value) := by
  have hafter := hwrote.entry_self.trans hbytes
  refine ⟨t, (r.mapError kind).map .replaced, by rw [step_replace, hstep]; rfl,
    .inr ⟨key.1, key.2, bytes, e, _, hwrote, hdir, he, hafter, Nat.le_succ _⟩, ?_⟩
  rw [record_of_wrote hinj hwrote hbytes]
  refine .stored key expected value _ _ hattempt fun _ => ?_
  simp [stamp, Call.key, he, hafter, Except.toOption]

theorem served_replace (hinj : Set.InjOn digest keys) (h : Sound digest keys s) (env : Env)
    (key : {key // key ∈ keys}) (expected : Nat)
    (hkey : key.1 ≠ [] ∧ key.1.length ≤ maximumKey) (hvalue : ∀ v ∈ value, v.length ≤ maximumValue) :
    Served digest keys s env (.replace key expected value) := by
  have hbig : ¬∃ v ∈ value, maximumValue < v.length := by
    rintro ⟨v, hv, hlt⟩
    exact absurd (hvalue v hv) (by omega)
  obtain ⟨⟨e, he⟩, -⟩ := h key.1 key.2
  have hbounds := entry_bounds he
  obtain ⟨hversion, hzero⟩ := version_record hbounds.1
  have hrecord : (backend digest keys).record s key = e.record := by simp [backend, he, Except.toOption]
  have hcut : s.cut digest Subtype.val env (.replace key expected value) =
      if env.stage.any Stage.early then some .comparison
      else if blocked digest s env key.1 then some .commit
      else if env.stage = some .directory then some .confirmation else none := rfl
  have harguments : s.cut digest Subtype.val env (.replace key expected value) ≠ some .arguments := by
    rw [hcut]
    split_ifs <;> simp
  by_cases hexpected : maxVersion ≤ expected
  · refine served_kept (r := .error (.invalid "invalid storage replacement")) ?_ (.refl s) (.inr ?_)
    · rw [replace, if_pos (.inl hexpected)]
    · simp [Versioned.attempt, harguments, hexpected, Except.mapError, kind]
  obtain ⟨t, hsame, hfiles, hlock⟩ := lock_cases digest s env hkey
  have hreplace := replace.eq_1 digest s env key.1 expected value
  rw [if_neg (not_or.2 ⟨hexpected, hbig⟩)] at hreplace
  rcases hlock with ⟨text, hlock, hearly⟩ | ⟨hlock, hdir, hearly⟩
  · rw [hlock] at hreplace
    refine served_kept hreplace hsame (.inr ?_)
    simp [Versioned.attempt, hcut, hearly, hexpected, Except.mapError, kind]
  rw [hlock] at hreplace
  by_cases hread : env.stage = some .read
  · simp only [read, if_pos hread] at hreplace
    refine served_kept hreplace hsame (.inr ?_)
    simp [Versioned.attempt, hcut, hread, Stage.early, hexpected, Except.mapError, kind]
  have hcompared : env.stage.any Stage.early = false := by
    rw [← Bool.not_eq_true]
    exact fun ht => hread (hearly ht)
  rw [if_neg (by simp [hcompared])] at hcut
  simp only [read, if_neg hread, hsame.entry, he] at hreplace
  have hcomparison : s.cut digest Subtype.val env (.replace key expected value) ≠ some .comparison := by
    rw [hcut]
    split_ifs <;> simp
  have hattempt := Versioned.attempt.eq_1 maxVersion (s.cut digest Subtype.val env (.replace key expected value))
    (version ((backend digest keys).record s key)) expected value.isNone
  rw [if_neg harguments, if_neg hexpected, if_neg hcomparison, hrecord] at hattempt
  by_cases hmismatch : (if e.present = true then e.version else 0) ≠ expected ∨ value.isNone = true ∧ e.present = false
  · rw [if_pos hmismatch] at hreplace
    rw [if_pos (by rwa [hzero, hversion])] at hattempt
    exact served_kept hreplace hsame (.inr (hrecord ▸ hattempt))
  rw [if_neg hmismatch] at hreplace
  rw [if_neg (by rwa [hzero, hversion])] at hattempt
  by_cases hfull : maxVersion - 1 ≤ e.version
  · rw [if_pos hfull] at hreplace
    exact served_kept hreplace hsame (.inl rfl)
  obtain ⟨bytes, hencode, hbytes⟩ :=
    encodeEntry_wire digest (Nat.succ_pos e.version) (by omega) hkey.2 hvalue
  rw [if_neg hfull, hencode] at hreplace
  have hblocked : blocked digest t env key.1 = blocked digest s env key.1 := by rw [blocked, blocked, hfiles]
  by_cases hsum : env.stage = some .checksum
  · simp only [if_pos hsum] at hreplace
    have hb : blocked digest s env key.1 = true := by simp [blocked, hsum, Stage.late]
    refine served_kept hreplace hsame (.inr ?_)
    rw [if_pos hb] at hcut
    rw [hrecord, hattempt, if_pos hcut]
    rfl
  simp only [if_neg hsum] at hreplace
  cases hb : blocked digest s env key.1 with
  | true =>
    obtain ⟨t', text, hstore, hsame'⟩ := store_blocked bytes hcompared hsum (hblocked.trans hb)
    refine served_kept (hreplace.trans hstore) (hsame.trans hsame') (.inr ?_)
    rw [if_pos hb] at hcut
    rw [hrecord, hattempt, if_pos hcut]
    rfl
  | false =>
    obtain ⟨_, hwrote, hstore⟩ := store_done bytes hcompared (hblocked.trans hb)
    have hdir' := hwrote.shards _ hdir
    rw [if_neg (by simp [hb])] at hcut
    split_ifs at hstore with hdirectory
    · obtain ⟨_, hstore⟩ := hstore
      refine served_stored hinj (hreplace.trans hstore) (hsame.wrote hwrote) hdir' he hbytes ?_
      rw [hrecord, hattempt, hcut, if_pos hdirectory]
      rfl
    · refine served_stored hinj (hreplace.trans hstore) (hsame.wrote hwrote) hdir' he hbytes ?_
      rw [hrecord, hattempt, hcut, if_neg hdirectory]
      rfl

/-- One call of the file backend does what the interface says. -/
theorem law (hkeys : ∀ key ∈ keys, key ≠ [] ∧ key.length ≤ maximumKey) (hinj : Set.InjOn digest keys) :
    (backend digest keys).Law maxVersion (Sound digest keys) fun s key => s.stamp digest key.1 := by
  have hserved : ∀ s (a : (backend digest keys).Action), Sound digest keys s → Served digest keys s a.env a.call := by
    rintro s ⟨env, call, hfits⟩ h
    cases call with
    | get key => exact served_get h env key (hkeys _ key.2)
    | replace key expected => exact served_replace hinj h env key expected (hkeys _ key.2) hfits
  have hmoves : ∀ s a, Sound digest keys s → Moves digest keys s ((backend digest keys).next s a) := by
    intro s a h
    obtain ⟨s', outcome, hstep, hm, -⟩ := hserved s a h
    have hnext : (backend digest keys).next s a = s' := congrArg Prod.fst hstep
    rwa [hnext]
  refine ⟨fun key _ => ⟨⟨{}, rfl⟩, fun _ => rfl⟩, fun key => rfl, fun s a h => (hmoves s a h).sound hinj h,
    fun s key h => ?_, fun s a key h => (hmoves s a h).stamp_le hinj key.2, fun s a h => ?_⟩
  · obtain ⟨⟨e, he⟩, -⟩ := h key.1 key.2
    obtain ⟨hpresent, hlt⟩ := entry_bounds he
    have hrecord : (backend digest keys).record s key = e.record := by simp [backend, he, Except.toOption]
    have hstamp : s.stamp digest key.1 = e.version := by simp [stamp, he, Except.toOption]
    rw [hrecord, hstamp, (version_record hpresent).1]
    refine ⟨?_, hlt⟩
    split_ifs <;> omega
  · obtain ⟨_, _, hstep, -, hs⟩ := hserved s a h
    rw [Versioned.Backend.next, hstep]
    exact hs

end Files

end Fsnet.Storage
