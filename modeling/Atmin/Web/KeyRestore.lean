import Atmin.Data.Utf8
import Atmin.Web.KeyBackup
import Atmin.Web.Messaging

/-!
# Restoring session keys (`key-backup.ts`)

One page of the live backups, then one page of archives. Every entry names the version of the key
it was encrypted under; an older key is looked for along the chain. What fails for one entry is
counted and logged, and the restore goes on.
-/

namespace Atmin.Web

open Interaction

namespace Paths

def keysArchive (uid : String) : String := "keys/" ++ uid ++ "/archive/"

def keyChain (uid : String) : String := "keys/" ++ uid ++ "/key_chain.json"

end Paths

/-- What a restore is called with, and the built-ins it uses. -/
structure Restorer (CryptoKey : Type) where
  subtle : Subtle CryptoKey
  crypto : Crypto
  userId : UserId
  backupKey : CryptoKey
  currentVersion : Nat

/-- How far a restore has come. Nothing else writes `backup_keys_by_version` meanwhile. -/
structure Restoring (CryptoKey : Type) where
  keyForVersion : ObjectMap Number CryptoKey
  backupKeys : BackupKeys CryptoKey
  restored : Nat := 0
  failed : Nat := 0

structure RestoreResult where
  restored : Nat
  failed : Nat
  deriving DecidableEq, Repr

variable {CryptoKey : Type}

namespace Restoring

def fail (acc : Restoring CryptoKey) : Restoring CryptoKey := { acc with failed := acc.failed + 1 }

def add (acc : Restoring CryptoKey) (n : Nat) : Restoring CryptoKey :=
  { acc with restored := acc.restored + n }

def result (acc : Restoring CryptoKey) : RestoreResult := ⟨acc.restored, acc.failed⟩

end Restoring

/-! ### The key of a version -/

section Keys

variable (r : Restorer CryptoKey)

/-- `resolveBackupKey`. Between two versions nothing is memoised, and the loop stops at the lower
one. A throw is none. -/
def resolveVersion (links : List KeyChainLink) (v : Number) (memo : BackupKeys CryptoKey) :
    Option CryptoKey × BackupKeys CryptoKey :=
  if v.whole then
    let (resolved, memo) := resolveBackupKey r.subtle r.userId.str r.backupKey r.currentVersion
      v.floor.toNat links memo
    (resolved.toOption, memo)
  else if v.exceeds r.currentVersion then (none, memo)
  else
    let (resolved, memo) :=
      walk r.subtle r.userId.str v.floor.toNat links r.currentVersion r.backupKey memo
    (resolved.toOption, memo)

/-- Two spellings of one number are two keys of `keyForVersion`, so the second is resolved again. -/
def getKey (chain : Option (List KeyChainLink)) (v : Number) (acc : Restoring CryptoKey) :
    Option CryptoKey × Restoring CryptoKey :=
  if v.equals r.currentVersion then (some r.backupKey, acc)
  else match acc.keyForVersion.get v with
    | some memo => (some memo, acc)
    | none => match chain with
      | none => (none, acc)
      | some links => match resolveVersion r links v acc.backupKeys with
        | (some resolved, backupKeys) =>
          (some resolved, { acc with keyForVersion := acc.keyForVersion.insert v resolved, backupKeys })
        | (none, backupKeys) => (none, { acc with backupKeys })

end Keys

/-! ### One entry -/

section Entry

variable (r : Restorer CryptoKey)

/-- `!sessionId`. -/
def KeyBackup.ParsedEnvelope.named (parsed : KeyBackup.ParsedEnvelope) : Option Js :=
  parsed.sessionId.filter fun id => !id.same (.str "")

/-- The session key as text: `backupDecrypt`, then `TextDecoder.decode`. -/
def backupDecrypt (key : CryptoKey) (parsed : KeyBackup.ParsedEnvelope) : Option String :=
  (r.subtle.decrypt key parsed.iv parsed.ciphertext).map fun bytes => String.ofList (Utf8.decode bytes)

def restoreEntry (parsed : KeyBackup.ParsedEnvelope) (key : CryptoKey) : Async Nat :=
  match parsed.named with
  | none => pure 0
  | some sessionId => do
    match ← getInbound sessionId with
    | some _ => pure 0
    | none => do
      let sessionKey ← orThrow .crypto (backupDecrypt r key parsed)
      let (_, isNew) ← addInbound r.crypto (.str "unknown") (.str "unknown") sessionKey
      pure (if isNew then 1 else 0)

/-- One `try` of the loops, from what was read on. -/
def restoreRaw (chain : Option (List KeyChainLink)) (raw : Option Js) (acc : Restoring CryptoKey) :
    Async (Restoring CryptoKey) :=
  match raw.bind KeyBackup.parseKeyBackupEnvelope with
  | none => pure acc.fail
  | some parsed => match getKey r chain parsed.v acc with
    | (none, acc) => pure acc.fail
    | (some key, acc) => do
      match ← attempt (restoreEntry r parsed key) with
      | .ok n => pure (acc.add n)
      | .error _ => pure acc.fail

end Entry

/-! ### The two loops -/

section Loops

variable (r : Restorer CryptoKey)

/-- A live object, if it can be fetched and is JSON. -/
def fetchBackup (key : String) : Async (Option Js) := do
  match ← attempt (await (step (.storeGet key))) with
  | .ok blob => pure (parseEnvelope blob).toOption
  | .error _ => pure none

def restoreLive (chain : Option (List KeyChainLink)) :
    List String → Restoring CryptoKey → Async (Restoring CryptoKey)
  | [], acc => pure acc
  | key :: rest, acc => do
    let raw ← fetchBackup key
    let acc ← restoreRaw r chain raw acc
    restoreLive chain rest acc

def restoreEntries (chain : Option (List KeyChainLink)) :
    List Js → Restoring CryptoKey → Async (Restoring CryptoKey)
  | [], acc => pure acc
  | raw :: rest, acc => do
    let acc ← restoreRaw r chain (some raw) acc
    restoreEntries chain rest acc

variable [CborDecoder]

/-- An archive that cannot be fetched or decoded is logged, and counts for nothing. -/
def restoreArchives (chain : Option (List KeyChainLink)) :
    List String → Restoring CryptoKey → Async (Restoring CryptoKey)
  | [], acc => pure acc
  | key :: rest, acc => do
    match ← attempt (fetchArchive key) with
    | .ok entries =>
      let acc ← restoreEntries r chain entries acc
      restoreArchives chain rest acc
    | .error _ => restoreArchives chain rest acc

/-- `chain.links`, as they are looked through for a hop. -/
def loadChain : Async (List KeyChainLink) := do
  match ← attempt (await (step (.storeGet (Paths.keyChain r.userId.str)))) with
  | .ok blob => pure (readLinks (fetchChain (some (parseEnvelope blob).toOption) .answered))
  | .error _ => pure (readLinks emptyChain)

/-- The first `try`; whether there were live keys. -/
def restoreFromLive (chain : Option (List KeyChainLink)) (acc : Restoring CryptoKey) :
    Async (Restoring CryptoKey × Bool) := do
  match ← attempt (await (step (.storeList (Paths.keysLive r.userId.str) none))) with
  | .ok listed =>
    let acc ← restoreLive r chain listed.keys acc
    pure (acc, !listed.keys.isEmpty)
  | .error _ => pure (acc, false)

/-- The second `try`. -/
def restoreFromArchives (chain : Option (List KeyChainLink)) (acc : Restoring CryptoKey) :
    Async (Restoring CryptoKey) := do
  match ← attempt (await (step (.storeList (Paths.keysArchive r.userId.str) none))) with
  | .ok listed => restoreArchives r chain listed.keys acc
  | .error _ => pure acc

def startRestoring (backupKeys : BackupKeys CryptoKey) : Restoring CryptoKey where
  keyForVersion := ObjectMap.empty.insert (.int r.currentVersion) r.backupKey
  backupKeys := backupKeys

/-- The chain is fetched only where there are older versions. -/
def chainFor : Async (Option (List KeyChainLink)) :=
  if r.currentVersion > 1 then do
    let links ← loadChain r
    pure (some links)
  else pure none

def restoreSessionKeys (backupKeys : BackupKeys CryptoKey) : Async (Restoring CryptoKey) := do
  let chain ← chainFor r
  let (acc, hadLiveKeys) ← restoreFromLive r chain (startRestoring r backupKeys)
  let acc ← restoreFromArchives r chain acc
  if hadLiveKeys then do
    sync (step (.spawn (.storeCompact (Paths.keysLive r.userId.str) "~")))
    pure acc
  else pure acc

end Loops

end Atmin.Web
