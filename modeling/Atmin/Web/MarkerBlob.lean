import Atmin.Web.KeyChain
import Atmin.Web.ReadMarkers

/-!
# The read-marker blob as it is stored (`read-markers.ts`, `key-backup-envelope.ts`)

The markers are encrypted under the backup key and stored with the version of that key. What
the GETs, the grant and the PUTs come to is decided by the surroundings.
-/

namespace Atmin

namespace Number

/-- The number, rounded down. -/
def floor : Number → Int
  | .int n => n
  | .real mantissa exponent =>
    if 0 ≤ exponent then mantissa * 10 ^ exponent.toNat else mantissa / 10 ^ (-exponent).toNat

def whole : Number → Bool
  | .int _ => true
  | .real mantissa exponent =>
    decide (0 ≤ exponent) || decide (mantissa % 10 ^ (-exponent).toNat = 0)

def positive : Number → Bool
  | .int n => decide (0 < n)
  | .real mantissa _ => decide (0 < mantissa)

/-- `x === n`. -/
def equals (x : Number) (n : Nat) : Bool := x.whole && decide (x.floor = n)

/-- `x > n`. -/
def exceeds (x : Number) (n : Nat) : Bool :=
  decide ((n : Int) < x.floor) || decide (x.floor = n) && !x.whole

end Number

namespace Web

open Interaction

/-! ### The envelope -/

structure ParsedEnvelope where
  v : Number
  iv : List UInt8
  ciphertext : List UInt8

/-- A missing or non-positive version counts as 1. A throw is none. -/
def parseKeyBackupEnvelope (atob : String → Option (List UInt8)) : Js → Option ParsedEnvelope
  | .obj fields => match Js.lastOf fields "iv", Js.lastOf fields "ciphertext" with
    | .str iv, .str ciphertext => do
      let iv ← atob iv
      let ciphertext ← atob ciphertext
      let v := match Js.lastOf fields "v" with
        | .num n => if n.positive then n else .int 1
        | _ => .int 1
      some { v, iv, ciphertext }
    | _, _ => none
  | _ => none

def wrapKeyBackupEnvelope (bytesToB64 : List UInt8 → Option String) (v : Nat)
    (iv ciphertext : List UInt8) : Option Js := do
  let iv ← bytesToB64 iv
  let ciphertext ← bytesToB64 ciphertext
  pure (.obj [("v", .num (.int v)), ("iv", .str iv), ("ciphertext", .str ciphertext)])

/-! ### The chain -/

/-- A link with all its members; no other one opens anything. -/
def KeyChainLink.ofJs : Js → Option KeyChainLink
  | .obj fields => match Js.lastOf fields "from", Js.lastOf fields "to", Js.lastOf fields "iv",
      Js.lastOf fields "ciphertext" with
    | .num from_, .num to_, .str iv, .str ciphertext => some ⟨from_, to_, iv, ciphertext⟩
    | _, _, _, _ => none
  | _ => none

/-- Looking for a hop throws on a link that is `null`, so then no hop is found. -/
def readLinks (fields : List (String × Js)) : List KeyChainLink :=
  let links := chainLinks fields
  if links.any fun | .null => true | _ => false then [] else links.filterMap KeyChainLink.ofJs

/-! ### Requests -/

/-- What is used of WebCrypto, of base64 and of `JSON` on a marker blob. -/
structure BlobCrypto (CryptoKey : Type) extends Subtle CryptoKey where
  /-- The bytes are spread into the arguments of one call; too many of them throw. -/
  bytesToB64 : List UInt8 → Option String
  /-- `crypto.subtle.encrypt` of a plaintext, with a key and a drawn iv. -/
  encrypt : CryptoKey → List UInt8 → List UInt8 → List UInt8
  /-- The bytes of the blob with these markers. -/
  printMarkers : Markers → List UInt8
  /-- The markers of such bytes; none where `JSON.parse` throws. -/
  parseMarkers : List UInt8 → Option Markers

/-- What a device knows of its account. -/
structure MarkerSession (CryptoKey : Type) where
  userId : String
  backupKey : CryptoKey
  keyVersion : Nat

/-- What comes of the requests of one sync; the PUT is tried twice. -/
structure MarkerOutcomes where
  get : GetOutcome
  chainGet : GetOutcome
  presigned : Bool
  first : PutOutcome
  second : PutOutcome

/-- The two stored files, and the IndexedDB of the device. -/
structure MarkerState (CryptoKey : Type) where
  readMarkers : Option ChainFile
  keyChain : Option ChainFile
  db : Database
  backupKeys : BackupKeys CryptoKey

section Sync

variable {CryptoKey : Type} (crypto : BlobCrypto CryptoKey) (session : MarkerSession CryptoKey)
  (outcomes : MarkerOutcomes)

/-- `backupDecrypt`, and what the plaintext says. -/
def openMarkers (key : CryptoKey) (parsed : ParsedEnvelope) : Option Markers :=
  (crypto.decrypt key parsed.iv parsed.ciphertext).bind crypto.parseMarkers

/-- `fetchChain`, then `resolveBackupKey`. Between two versions the loop stops at the lower one. -/
def olderKey (s : MarkerState CryptoKey) (v : Number) : Except String CryptoKey × BackupKeys CryptoKey :=
  let links := readLinks (fetchChain s.keyChain outcomes.chainGet)
  if v.whole then
    resolveBackupKey crypto.toSubtle session.userId session.backupKey session.keyVersion v.floor.toNat links
      s.backupKeys
  else walk crypto.toSubtle session.userId v.floor.toNat links session.keyVersion session.backupKey s.backupKeys

/-- The key that the blob is tried with, and what the walk leaves in the store. -/
def decryptor (s : MarkerState CryptoKey) (v : Number) : Except String CryptoKey × BackupKeys CryptoKey :=
  if v.equals session.keyVersion then (.ok session.backupKey, s.backupKeys)
  else olderKey crypto session outcomes s v

/-- A GET that fails, and a blob under a newer key, are an empty map; all else throws. -/
def fetchStoredMarkers (s : MarkerState CryptoKey) : Except Thrown Markers × BackupKeys CryptoKey :=
  match storeGet s.readMarkers outcomes.get with
  | .error _ => (.ok .empty, s.backupKeys)
  | .ok none => (.error .crypto, s.backupKeys)
  | .ok (some raw) => match parseKeyBackupEnvelope crypto.atob raw with
    | none => (.error .crypto, s.backupKeys)
    | some parsed =>
      if parsed.v.exceeds session.keyVersion then (.ok .empty, s.backupKeys)
      else
        let (resolved, backupKeys) := decryptor crypto session outcomes s parsed.v
        match resolved with
        | .error _ => (.error .crypto, backupKeys)
        | .ok key => match openMarkers crypto key parsed with
          | some markers => (.ok markers, backupKeys)
          | none => (.error .crypto, backupKeys)

/-- The envelope of the markers, under the key of the version. -/
def sealMarkers (iv : List UInt8) (keyVersion : Nat) (markers : Markers) : Option Js :=
  wrapKeyBackupEnvelope crypto.bytesToB64 keyVersion iv
    (crypto.encrypt session.backupKey iv (crypto.printMarkers markers))

/-- The steps after the GET. Nothing fails but what `outcomes` says. -/
def performStored (iv : List UInt8) : (act : ReadAct) → MarkerState CryptoKey →
    Option (ReadReply act × MarkerState CryptoKey)
  | .storeGet, _ => none
  | .loadReadMarkers, s => some (.ok s.db.loadReadMarkers, s)
  | .markConversationRead id timestamp, s => match s.db.markConversationRead id timestamp with
    | some (advanced, db) => some (.ok advanced, { s with db })
    | none => some (.error .data, s)
  -- an envelope too long for one call throws before the presign
  | .putBlob blob, s => match sealMarkers crypto session iv blob.v blob.markers with
    | none => some (.error .range, s)
    | some env =>
      if outcomes.presigned then
        let (result, readMarkers) := putWithRetry s.readMarkers (some env) [outcomes.first, outcomes.second]
        some (result, { s with readMarkers })
      else some (.error .failed, s)

/-- `syncReadMarkers` from the markers that were fetched. -/
def reconcile (keyVersion : Nat) (remote : Markers) : ReadM Bool := do
  let local_ ← loadReadMarkers
  let merged := mergeMarkers local_ remote
  let (localAdvanced, aheadOfRemote) ← applyMarkers local_ remote merged.entries false false
  if aheadOfRemote then uploadReadMarkers keyVersion merged
  pure localAdvanced

theorem syncReadMarkers_eq (keyVersion : Nat) :
    syncReadMarkers keyVersion = fetchReadMarkers keyVersion >>= reconcile keyVersion := rfl

/-- `syncReadMarkers` on the stored files. -/
def syncStoredMarkers (iv : List UInt8) (s : MarkerState CryptoKey) :
    Option (Except Thrown Bool × MarkerState CryptoKey) :=
  let (fetched, backupKeys) := fetchStoredMarkers crypto session outcomes s
  match fetched with
  | .error e => some (.error e, { s with backupKeys })
  | .ok remote => (reconcile session.keyVersion remote).run.execute
      (performStored crypto session outcomes iv) { s with backupKeys }

end Sync

end Web

end Atmin
