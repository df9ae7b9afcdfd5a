import Atmin.Server.Effect
import Atmin.Server.Profile
import Mathlib.Data.Nat.Digits.Defs

/-!
# Tokens, auth proofs and the request guard (`token.rs`, `authproof.rs`, `guard.rs`)
-/

namespace Atmin

/-- What the server takes from its configuration and from the libraries it calls:
HMAC-SHA256, RFC 8785, Ed25519, Argon2id and the calendar. Instants are nanoseconds. -/
structure Env where
  serverSecret : List UInt8
  hmac : List UInt8 → List UInt8 → List UInt8
  /-- The RFC 8785 bytes of a text that parses. -/
  canonicalize : Json → Option (List UInt8)
  /-- `verify_strict` under a 32-byte key, false for a key or signature of bad shape. -/
  verifyStrict : List UInt8 → List UInt8 → List UInt8 → Bool
  /-- Leading zero bits of the Argon2id hash of a counter under a 16-byte nonce. -/
  powBits : Nat → List UInt8 → Nat
  /-- `PowConfig::bits`. -/
  bits : Nat
  /-- `to_rfc3339_opts(SecondsFormat::Secs, true)`. -/
  formatSecs : Int → String
  /-- `format("%Y-%m-%d")`. -/
  formatDay : Int → String
  parseRfc3339 : String → Option Int

def second : Int := 1000000000

def days (n : Int) : Int := n * 86400 * second

/-- `TimeDelta::num_seconds`, rounded towards zero. -/
def numSeconds (d : Int) : Int := d.tdiv second

namespace Token

inductive TokenError where
  | encoding
  | format
  | keyVersion
  | signatureEncoding
  | signature
  deriving DecidableEq, Repr

def utf8 (s : String) : List UInt8 := s.toUTF8.data.toList

def decimal (n : Nat) : String :=
  if n = 0 then "0" else String.ofList ((Nat.digits 10 n).reverse.map Nat.digitChar)

/-- `str::parse::<u32>`: an optional `+`, then digits. -/
def parseU32 (s : String) : Option UInt32 :=
  let digits := match s.toList with
    | '+' :: rest => rest
    | all => all
  if digits ≠ [] ∧ digits.all isDigit = true then
    let n := digits.foldl (fun n c => n * 10 + (c.toNat - '0'.toNat)) 0
    if n < 2 ^ 32 then some (.ofNat n) else none
  else none

def computeHmac (env : Env) (message : String) : List UInt8 :=
  env.hmac env.serverSecret (utf8 message)

def generate (env : Env) (userId deviceId : String) (kv : KeyVersion) : String :=
  let payload := userId ++ "." ++ deviceId ++ "." ++ decimal kv.get.toNat
  Base64.encode (utf8 (payload ++ "." ++ Base64.encode (computeHmac env payload)))

/-- `String::from_utf8`. -/
def fromUtf8 (bytes : List UInt8) : Option String := String.fromUTF8? ⟨bytes.toArray⟩

def parse (env : Env) (token : String) : Except TokenError (String × String × KeyVersion) :=
  match (Base64.decode token).bind fromUtf8 with
  | none => .error .encoding
  | some raw => match (raw.toList.splitOn '.').map String.ofList with
    | [userId, deviceId, kvStr, sigB64] => match (parseU32 kvStr).bind KeyVersion.new with
      | none => .error .keyVersion
      | some kv => match Base64.decode sigB64 with
        | none => .error .signatureEncoding
        | some sig =>
          if sig = computeHmac env (userId ++ "." ++ deviceId ++ "." ++ kvStr) then
            .ok (userId, deviceId, kv)
          else .error .signature
    | _ => .error .format

end Token

/-! ### Auth proofs -/

def AUTH_PROOF_MAX_AGE_SECS : Int := 300

def AUTH_PROOF_MAX_SKEW_SECS : Int := 60

/-- `verify`: a signature over the canonical bytes of the payload. -/
def verify (env : Env) (publicKey : List UInt8) (payload : Json) (signature : List UInt8) : Bool :=
  match env.canonicalize payload with
  | some canonical => env.verifyStrict publicKey canonical signature
  | none => false

structure AuthProof where
  payload : Json
  signature : String

structure AuthProofPayload where
  userId : String
  deviceId : String
  timestamp : String
  keyVersion : UInt32
  deriving DecidableEq, Repr

def AuthProof.fromJson (j : Json) : Option AuthProof := do
  let f ← j.members ["payload", "signature"]
  let payload ← Json.field some (f "payload")
  let signature ← Json.field Json.asStr (f "signature")
  return { payload, signature }

def AuthProofPayload.fromJson (j : Json) : Option AuthProofPayload := do
  let f ← j.members ["user_id", "device_id", "timestamp", "key_version"]
  let userId ← Json.field Json.asStr (f "user_id")
  let deviceId ← Json.field Json.asStr (f "device_id")
  let timestamp ← Json.field Json.asStr (f "timestamp")
  let keyVersion ← Json.fieldOr 0 Json.asU32 (f "key_version")
  return { userId, deviceId, timestamp, keyVersion }

/-- From its timestamp to five minutes later, with a minute of forward skew. -/
def isFresh (now ts : Int) : Bool :=
  let age := numSeconds (now - ts)
  decide (-AUTH_PROOF_MAX_SKEW_SECS ≤ age ∧ age ≤ AUTH_PROOF_MAX_AGE_SECS)

/-- `verify_proof`: signature, freshness and `key_version >= 1`. Every failure is mapped
to one response by the callers. -/
def verifyProof (env : Env) (publicKey : List UInt8) (proof : AuthProof) (now : Int) :
    Option AuthProofPayload := do
  let sig ← Base64.decode proof.signature
  guard (verify env publicKey proof.payload sig)
  let payload ← AuthProofPayload.fromJson proof.payload
  let ts ← env.parseRfc3339 payload.timestamp
  guard (isFresh now ts)
  guard (payload.keyVersion ≠ 0)
  return payload

/-- An accepted proof was signed within the window. -/
theorem verifyProof_fresh {env : Env} {publicKey : List UInt8} {proof : AuthProof} {now : Int}
    {payload : AuthProofPayload} (verified : verifyProof env publicKey proof now = some payload) :
    ∃ ts, env.parseRfc3339 payload.timestamp = some ts ∧ isFresh now ts = true := by
  simp only [verifyProof, Option.bind_eq_bind, Option.bind_eq_some_iff] at verified
  obtain ⟨_, _, _, _, read, _, ts, stamp, _, fresh, _, _, same⟩ := verified
  cases same
  refine ⟨ts, stamp, ?_⟩
  by_contra stale
  simp [guard, stale] at fresh

/-- A stored key that base64url-decodes to 32 bytes. -/
def decodeAuthKey (b64 : String) : Option (List UInt8) :=
  (Base64.decode b64).filter fun b => decide (b.length = 32)

/-! ### The guard -/

structure AuthedUser where
  userId : UserId
  deviceId : DeviceId
  keyVersion : KeyVersion
  deriving DecidableEq, Repr

/-- The identity a token carries, if its MAC and ids are good. -/
def Token.identity (env : Env) (token : Option String) : Option AuthedUser := do
  let token ← token
  match Token.parse env token with
  | .ok (uid, did, kv) =>
    let userId ← UserId.new uid
    let deviceId ← DeviceId.new did
    return { userId, deviceId, keyVersion := kv }
  | .error _ => none

/-- Check 3 of the guard: the device file must still exist. -/
def checkDevice (deviceKey : String) : Handler Unit := do
  let seen ← call (ask (.deviceCacheValid deviceKey))
  if seen then pure ()
  else
    let found ← call (ask (.headObject deviceKey))
    match found with
    | .ok () => call (ask (.deviceCacheSet deviceKey))
    | .error .notFound => throw .deviceRevoked
    | .error (.backend _) => throw (.internal "device check failed")

/-- The account's `key_version`, from the cache or the profile. -/
def currentKeyVersion (userId : String) : Handler UInt32 := do
  let cached ← call (ask (.profileCacheGet userId))
  match cached with
  | some kv => pure kv
  | none =>
    let found ← call (ask (.getObject (keyProfile userId)))
    match found with
    | .error .notFound => throw .unauthorized
    | .error (.backend _) => throw (.internal "profile load failed")
    | .ok bytes =>
      let profile ← orFail (.internal "profile parse failed") (Profile.parse bytes)
      call (ask (.profileCacheSet userId profile.currentKv))
      pure profile.currentKv

/-- Checks 3 and 4 on the identity of a good token. -/
def admitUser (user : AuthedUser) (enforceKv : Bool) : Handler AuthedUser := do
  checkDevice (keyDevice user.userId.str user.deviceId.str)
  if enforceKv then
    let current ← currentKeyVersion user.userId.str
    check (.keyVersionStale (.newOrOne current)) (decide (user.keyVersion.get = current))
    pure user
  else pure user

/-- `authenticate`; `enforceKv` is off for `rotate-keys` only. -/
def authenticate (env : Env) (token : Option String) (enforceKv : Bool) : Handler AuthedUser := do
  let user ← orFail .unauthorized (Token.identity env token)
  admitUser user enforceKv

theorem authenticate_known {env : Env} {token : Option String} {user : AuthedUser}
    (known : Token.identity env token = some user) (enforceKv : Bool) :
    authenticate env token enforceKv = admitUser user enforceKv := by
  rw [authenticate, known]
  rfl

end Atmin
