import Atmin.Data.Base64
import Atmin.Server.Rotate
import Atmin.Web.Atob
import Atmin.Web.Chat
import Atmin.Web.KeyChain

/-!
# Changing the password (`useRotateKeys.ts`, `credential.ts`)

A submission reads the own profile, derives the old and the new keys, appends the link between
them to the key chain, and then posts the rotation, on which the server decides.
-/

namespace Atmin.Web

open Interaction

/-! ### Keys -/

/-- What `deriveKeys` derives. Of the private keys, only the one that signs is used. -/
structure DerivedKeys (CryptoKey : Type) where
  authPublicKey : List UInt8
  sign : Json → List UInt8
  sharingPublicKey : List UInt8
  backupKey : CryptoKey

/-- What is used of Web Crypto and of Argon2. A throw is none. AES-GCM opens what it sealed, and
an Ed25519 key has 32 bytes. -/
structure WebCrypto (Secret CryptoKey : Type) extends Subtle CryptoKey where
  argonStretch : String → List UInt8 → Js → Option Secret
  deriveKeys : Secret → Option (DerivedKeys CryptoKey)
  exportKey : CryptoKey → List UInt8
  encrypt : CryptoKey → List UInt8 → List UInt8 → List UInt8
  authPublicKey_length : ∀ secret keys, deriveKeys secret = some keys →
    keys.authPublicKey.length = 32
  decrypt_encrypt : ∀ key iv plain, decrypt key iv (encrypt key iv plain) = some plain
  atob_btoa : ∀ bytes, atob (btoa bytes) = some bytes

/-- What a request or a step of the submission throws. -/
inductive Raised where
  /-- `KeyVersionStaleError`. -/
  | stale
  /-- `APIError`. -/
  | api (code : String)
  | missingParameters
  | thrown (e : Thrown)
  deriving DecidableEq, Repr

def orRaise {α : Type} (e : Raised) : Option α → Except Raised α
  | some a => .ok a
  | none => .error e

@[simp] theorem orRaise_ok {α : Type} {e : Raised} {o : Option α} {a : α} :
    orRaise e o = .ok a ↔ o = some a := by
  cases o <;> simp [orRaise]

/-- Whether a condition takes the value for true. -/
def Js.truthy : Js → Bool
  | .undefined | .null => false
  | .bool b => b
  | .num (.int n) => decide (n ≠ 0)
  | .num (.real m _) => decide (m ≠ 0)
  | .bigint n => decide (n ≠ 0)
  | .str s => decide (s ≠ "")
  | _ => true

section Submit

variable {Secret CryptoKey : Type} (crypto : WebCrypto Secret CryptoKey)

def base64UrlEncode (bytes : List UInt8) : String := Base64.encode bytes

def deriveSecretFromPassword (password : String) (salt kdf : Js) : Except Raised Secret :=
  if salt.truthy && kdf.truthy then do
    let text ← orRaise (.thrown .type) salt.asStr
    let bytes ← orRaise (.thrown .data) (base64UrlDecode crypto.atob (.str text))
    orRaise (.thrown .crypto) (crypto.argonStretch password bytes kdf)
  else .error .missingParameters

/-- `DEFAULT_KDF`, as the request has it. -/
def DEFAULT_KDF : Json := KdfParams.toJson ⟨"argon2id", 65536, 3, 1⟩

/-- `prevKey` under `toKey`. -/
def buildChainLink (fromVersion toVersion : Int) (prevKey toKey : CryptoKey) (iv : List UInt8) :
    KeyChainLink :=
  ⟨.int fromVersion, .int toVersion, btoa iv, btoa (crypto.encrypt toKey iv (crypto.exportKey prevKey))⟩

/-! ### Before the first write -/

structure RotateProfile where
  authPublicKey : Js
  salt : Js
  kdf : Js
  keyVersion : Js

/-- `readOwnProfile`, of the parsed file. -/
def readOwnProfile (raw : Js) : Except Thrown RotateProfile := do
  let authPublicKey ← raw.member "auth_public_key"
  let salt ← raw.member "salt"
  let kdf ← raw.member "kdf"
  let keyVersion ← raw.member "key_version"
  pure ⟨authPublicKey.orElse (.str ""), salt, kdf, keyVersion.orElse (.num (.int 1))⟩

/-- What the user has entered, the session's token, and what is drawn at random. -/
structure Submission where
  token : String
  currentPassword : String
  newPassword : String
  newSalt : List UInt8
  iv : List UInt8
  requestId : String

structure Prepared (CryptoKey : Type) where
  currentKV : Int
  oldKeys : DerivedKeys CryptoKey
  newKeys : DerivedKeys CryptoKey

/-- Steps 1 and 2; none where the password entered is not the current one. -/
def prepare (submission : Submission) (raw : Js) : Except Raised (Option (Prepared CryptoKey)) := do
  let profile ← (readOwnProfile raw).mapError .thrown
  let oldSecret ← deriveSecretFromPassword crypto submission.currentPassword profile.salt profile.kdf
  let oldKeys ← orRaise (.thrown .crypto) (crypto.deriveKeys oldSecret)
  if profile.authPublicKey.same (.str (base64UrlEncode oldKeys.authPublicKey)) then
    let newSecret ← orRaise (.thrown .crypto)
      (crypto.argonStretch submission.newPassword submission.newSalt (.ofJson DEFAULT_KDF))
    let newKeys ← orRaise (.thrown .crypto) (crypto.deriveKeys newSecret)
    match profile.keyVersion with
    | .num (.int currentKV) => pure (some ⟨currentKV, oldKeys, newKeys⟩)
    -- No version the server writes.
    | _ => .error (.thrown .type)
  else pure none

namespace Prepared

variable (prepared : Prepared CryptoKey) (submission : Submission)

def newKV : Int := prepared.currentKV + 1

def link : KeyChainLink :=
  buildChainLink crypto prepared.currentKV prepared.newKV prepared.oldKeys.backupKey
    prepared.newKeys.backupKey submission.iv

/-- The fields of the body under the signature, in canonical order. -/
def signed : Json :=
  .obj [("auth_public_key", .str (base64UrlEncode prepared.newKeys.authPublicKey)), ("kdf", DEFAULT_KDF),
    ("key_version", .num (.int prepared.newKV)), ("request_id", .str submission.requestId),
    ("salt", .str (base64UrlEncode submission.newSalt)),
    ("sharing_public_key", .str (base64UrlEncode prepared.newKeys.sharingPublicKey))]

/-- The body of the POST. -/
def body : Json :=
  .obj [("request_id", .str submission.requestId), ("key_version", .num (.int prepared.newKV)),
    ("auth_public_key", .str (base64UrlEncode prepared.newKeys.authPublicKey)),
    ("sharing_public_key", .str (base64UrlEncode prepared.newKeys.sharingPublicKey)),
    ("salt", .str (base64UrlEncode submission.newSalt)), ("kdf", DEFAULT_KDF),
    ("continuity_signature", .str (base64UrlEncode (prepared.oldKeys.sign (prepared.signed submission))))]

end Prepared

/-! ### The steps that others can see -/

/-- What becomes of a POST. -/
inductive Posted where
  /-- The server never sees it. -/
  | lost
  | answered
  /-- The server sees it, now or later; the client has given up on the answer. -/
  | abandoned
  deriving DecidableEq, Repr

inductive SubmitAct where
  | getProfile
  | getChain
  | presignChain
  | putChain (link : KeyChainLink) (body : ChainFile)
  | post
  /-- A request of the server that handles the POST. -/
  | serve (o : Op)

@[reducible] def SubmitReply : SubmitAct → Type
  | .getProfile => Except Raised Js
  | .getChain => Option ChainFile
  | .presignChain => Except Raised Unit
  | .putChain .. => Unit
  | .post => Posted
  | .serve o => Res o

/-- What the form shows in the end. -/
inductive SubmitResult where
  /-- The session of the new version is saved. -/
  | done (token : String) (keyVersion : UInt32)
  /-- `Current password is incorrect.` -/
  | incorrect
  /-- The session is cleared, and the user is sent to the login. -/
  | loggedOut
  /-- `Rotation failed: …` -/
  | failed (e : Raised)
  deriving DecidableEq, Repr

/-- The `catch`. -/
def caught : Raised → SubmitResult
  | .stale => .loggedOut
  | e => .failed e

/-- What the client makes of the answer. -/
def answered : Except ApiError RotateOutcome → SubmitResult
  | .ok (.success token keyVersion) => .done token keyVersion
  | .ok (.keyVersionStale _) | .error (.keyVersionStale _) => caught .stale
  | .ok .badContinuity => caught (.api (ApiError.code .badContinuity))
  | .error e => caught (.api e.code)

abbrev SubmitProg (α : Type) := Prog SubmitAct SubmitReply α

/-- `appendChainLink`, where GET and PUT succeed. -/
def appendLink (link : KeyChainLink) : SubmitProg (Except Raised Unit) :=
  .op .getChain fun stored =>
    let current := fetchChain stored .answered
    match dropHop link (chainLinks current) with
    | .error e => .ret (.error (.thrown e))
    | .ok others => .op .presignChain fun
      | .error e => .ret (.error e)
      | .ok () =>
        .op (.putChain link (some (.obj (setMember current "links" (.arr (others ++ [link.toJs])))))) fun _ =>
          .ret (.ok ())

/-- The server's side of the POST. -/
def handled (env : Env) (token : String) (body : Json) : SubmitProg (Except ApiError RotateOutcome) :=
  (rotateKeys env (some token) (some body)).run.expand fun o => Prog.request (SubmitAct.serve o)

/-- `rotateKeys`, as the client sees it. -/
def postRotation (env : Env) (token : String) (body : Json) : SubmitProg SubmitResult :=
  .op .post fun
    | .lost => .ret (caught (.thrown .failed))
    | .answered => (handled env token body).bind fun r => .ret (answered r)
    | .abandoned => (handled env token body).bind fun _ => .ret (caught (.thrown .failed))

def submit (env : Env) (submission : Submission) : SubmitProg SubmitResult :=
  .op .getProfile fun
    | .error e => .ret (caught e)
    | .ok raw => match prepare crypto submission raw with
      | .error e => .ret (caught e)
      | .ok none => .ret .incorrect
      | .ok (some prepared) => (appendLink (prepared.link crypto submission)).bind fun
        | .error e => .ret (caught e)
        | .ok () => postRotation env submission.token (prepared.body submission)

end Submit

end Atmin.Web
