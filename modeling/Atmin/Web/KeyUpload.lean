import Atmin.Access.Requests
import Atmin.Data.Utf8
import Atmin.Web.KeyBackup
import Atmin.Web.KeyChain
import Atmin.Web.KeyRestore

/-!
# Uploading session keys (`key-backup.ts`, `messaging.ts`)

A new session is backed up at once. A received one that could not be uploaded is queued in
IndexedDB, and every sync tries the queue again. Meanwhile the other devices of the account do
the same, the key chain is rewritten, the server serves other requests, and a logout deletes the
database of a device.
-/

namespace Atmin.Web

open Interaction

/-! ### The requests -/

/-- What one attempt to PUT comes to: a status below 500 that is no success is not tried again. -/
inductive PutReply where
  | done
  | refused
  | failed
  deriving DecidableEq, Repr

inductive VaultOp where
  /-- A request of a handler on the server. -/
  | server (o : Op)
  /-- `crypto.getRandomValues`, for an iv. -/
  | getRandomValues
  | storePresign (key : String)
  /-- A PUT to a presigned URL, straight to the store. -/
  | put (key : String) (body : Json)
  | listPendingKeyBackups
  | deletePendingKeyBackup (sessionId : String)
  | enqueuePendingKeyBackup (sessionId sessionKeyB64 : String)
  | deleteDatabase

@[reducible] def VaultRes : VaultOp → Type
  | .server o => Res o
  | .getRandomValues => List UInt8
  | .put .. => PutReply
  | .listPendingKeyBackups => Except Thrown (List (String × String))
  | .storePresign _ | .deletePendingKeyBackup _ | .enqueuePendingKeyBackup .. | .deleteDatabase =>
    Except Thrown Unit

/-- The server, and the queue `pending_key_backups` of each device. -/
structure Vault (ι : Type) where
  sys : Sys ι
  pending : Nat → ObjectMap String String := fun _ => .empty

/-- What the surroundings decide about one request. -/
inductive VaultChoice where
  | server (c : Choice)
  | ok
  | drawn (bytes : List UInt8)
  | refused
  /-- A failure; a PUT or a deletion may have taken place all the same. -/
  | failed (applied : Bool)

namespace Vault

variable {ι : Type}

def put (s : Vault ι) (key : String) (body : Json) : Vault ι :=
  { s with sys := s.sys.put key (.json body) }

def onDevice (s : Vault ι) (device : Nat) (f : ObjectMap String String → ObjectMap String String) :
    Vault ι :=
  { s with pending := Function.update s.pending device (f (s.pending device)) }

theorem get_onDevice_erase (s : Vault ι) (device other : Nat) (id id' : String) :
    ((s.onDevice device (·.erase id)).pending other).get id' =
      if other = device ∧ id' = id then none else (s.pending other).get id' := by
  by_cases own : other = device
  · subst own
    simp [onDevice]
  · simp [onDevice, own]

theorem get_onDevice_empty (s : Vault ι) (device other : Nat) (id : String) :
    ((s.onDevice device fun _ => .empty).pending other).get id =
      if other = device then none else (s.pending other).get id := by
  by_cases own : other = device
  · subst own
    simp [onDevice]
  · simp [onDevice, own]

theorem get_onDevice_insert (s : Vault ι) (device other : Nat) (id id' key : String) :
    ((s.onDevice device (·.insert id key)).pending other).get id' =
      if other = device ∧ id' = id then some key else (s.pending other).get id' := by
  by_cases own : other = device
  · subst own
    simp [onDevice]
  · simp [onDevice, own]

end Vault

/-- One request of a slot, on its device. -/
def performVault {ι : Type} (device : ι → Nat) (i : ι) :
    (o : VaultOp) → VaultChoice → Vault ι → Option (VaultRes o × Vault ι)
  | .server o, .server c, s => (exec i o c s.sys).map fun done => (done.1, { s with sys := done.2 })
  | .getRandomValues, .drawn bytes, s => some (bytes, s)
  | .storePresign _, .ok, s => some (.ok (), s)
  | .storePresign _, .failed _, s => some (.error .failed, s)
  | .put key body, .ok, s => some (.done, s.put key body)
  | .put _ _, .refused, s => some (.refused, s)
  -- a PUT that is lost may have been stored
  | .put key body, .failed applied, s => some (.failed, if applied then s.put key body else s)
  -- the queue in the database of the device
  | .listPendingKeyBackups, .ok, s => some (.ok (s.pending (device i)).entries, s)
  | .listPendingKeyBackups, .failed _, s => some (.error .data, s)
  | .deletePendingKeyBackup id, .ok, s => some (.ok (), s.onDevice (device i) (·.erase id))
  | .deletePendingKeyBackup _, .failed _, s => some (.error .data, s)
  | .enqueuePendingKeyBackup id key, .ok, s => some (.ok (), s.onDevice (device i) (·.insert id key))
  | .enqueuePendingKeyBackup .., .failed _, s => some (.error .data, s)
  | .deleteDatabase, .ok, s => some (.ok (), s.onDevice (device i) fun _ => .empty)
  | .deleteDatabase, .failed applied, s =>
    some (.error .data, if applied then s.onDevice (device i) fun _ => .empty else s)
  | _, _, _ => none

/-! ### The functions -/

/-- What a page was loaded with, and the built-ins it calls. -/
structure Uploader (CryptoKey : Type) where
  userId : UserId
  backupKey : CryptoKey
  keyVersion : KeyVersion
  /-- `crypto.subtle.encrypt` with a key and an iv. -/
  encrypt : CryptoKey → List UInt8 → List UInt8 → List UInt8
  /-- The arguments that one call may have. -/
  maxArguments : Nat

abbrev KeyUpload (α : Type) := Prog VaultOp VaultRes (Except Thrown α)

/-- `putWithRetry`, so many times. -/
def putRepeatedly (key : String) (body : Json) : Nat → KeyUpload Unit
  | 0 => .ret (.error .failed)
  | attempts + 1 => .op (.put key body) fun
    | .done => .ret (.ok ())
    | .refused => .ret (.error .failed)
    | .failed => putRepeatedly key body attempts

section Upload

variable {CryptoKey : Type} (u : Uploader CryptoKey)

def backupSessionKey (sessionId sessionKeyB64 : String) : KeyUpload Unit :=
  .op .getRandomValues fun iv =>
    let ciphertext := u.encrypt u.backupKey iv (Utf8.encode sessionKeyB64.toList)
    match KeyBackup.wrapKeyBackupEnvelope u.maxArguments u.keyVersion.get.toNat iv ciphertext
      (some sessionId) with
    | none => .ret (.error .range)
    | some env =>
      let key := Paths.keyBackup u.userId.str sessionId
      .op (.storePresign key) fun
        | .error e => .ret (.error e)
        | .ok () => putRepeatedly key env.toJson 2

/-- The backup of a received session: what fails is queued. If that fails too, it is only logged. -/
def backupReceived (sessionId sessionKeyB64 : String) : KeyUpload Unit :=
  (backupSessionKey u sessionId sessionKeyB64).bind fun
    | .ok () => .ret (.ok ())
    | .error _ => .op (.enqueuePendingKeyBackup sessionId sessionKeyB64) .ret

/-- An entry leaves the queue once it is uploaded; one that fails stays. -/
def retryPending : List (String × String) → KeyUpload Unit
  | [] => .ret (.ok ())
  | (sessionId, sessionKeyB64) :: rest =>
    (backupSessionKey u sessionId sessionKeyB64).bind fun
      | .ok () => .op (.deletePendingKeyBackup sessionId) fun _ => retryPending rest
      | .error _ => retryPending rest

def flushPendingKeyBackups : KeyUpload Unit :=
  .op .listPendingKeyBackups fun
    | .error e => .ret (.error e)
    | .ok pending => retryPending u pending

end Upload

/-! ### The tasks -/

/-- A handler, request by request. -/
def onServer {α : Type} (h : Handler α) : Prog VaultOp VaultRes (Except ApiError α) :=
  h.run.expand fun o => .request (.server o)

inductive UploadTask (CryptoKey : Type) where
  /-- `onSessionCreated`: what fails is logged. -/
  | created (u : Uploader CryptoKey) (sessionId sessionKeyB64 : String)
  | received (u : Uploader CryptoKey) (sessionId sessionKeyB64 : String)
  | flush (u : Uploader CryptoKey)
  /-- A key chain is written. -/
  | chain (userId : UserId) (body : Json)
  /-- A logout, a stale key version, or the sign-in of somebody else. -/
  | deleteDatabase
  /-- A request to the server. -/
  | request (r : UserRequest)

def UploadTask.prog {CryptoKey : Type} (env : Env) : UploadTask CryptoKey → KeyUpload Unit
  | .created u id key => backupSessionKey u id key
  | .received u id key => backupReceived u id key
  | .flush u => flushPendingKeyBackups u
  | .chain userId body => putRepeatedly (Paths.keyChain userId.str) body 2
  | .deleteDatabase => .op .deleteDatabase .ret
  | .request r => (onServer (r.run env)).bind fun _ => .ret (.ok ())

/-- Any number of tasks on the devices of one account, interleaved request by request. -/
structure UploadTasks (ι CryptoKey : Type) where
  task : ι → UploadTask CryptoKey
  device : ι → Nat

end Atmin.Web
