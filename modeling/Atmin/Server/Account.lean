import Atmin.Server.Auth

/-!
# Accounts, profiles and devices (`routes.rs`, `pow.rs`, `events.rs`)
-/

namespace Atmin

def HANDLE_COOLDOWN_DAYS : Int := 30

def LAST_ACTIVE_REFRESH_SECS : Int := 3600

/-- `write_json`. -/
def writeJson (key : String) (data : Data) : Handler Unit := tryStore (ask (.putObject key data))

/-- `let _ = …put…`: the reply is dropped. -/
def putBestEffort (key : String) (data : Data) : Handler Unit := do
  let _ ← call (ask (.putObject key data))
  pure ()

def deleteBestEffort (key : String) : Handler Unit := do
  let _ ← call (ask (.deleteObject key))
  pure ()

/-- `serde_json::from_str(body)`: a body that is no JSON text is a 400. -/
def parseBody {α : Type} (dec : Json → Option α) (body : Option Json) : Handler α :=
  orFail .badRequest (body.bind dec)

/-- The public handle projection of a profile. -/
def handleProjection (p : Profile) : PublicHandleData :=
  { userId := p.userId, sharingPublicKey := p.sharingPublicKey, salt := p.salt, kdf := p.kdf,
    keyVersion := p.keyVersion, displayName := p.displayName, avatarUrl := p.avatarUrl }

/-- Refresh the projection when the profile has a handle; a failure is dropped. -/
def reproject (p : Profile) : Handler Unit :=
  if p.handle = "" then pure () else putBestEffort (keyHandle p.handle) (handleProjection p).data

/-! ### Resolve -/

def resolve (env : Env) (handle : String) : Handler PublicHandleData := do
  let data ← tryStore (ask (.getObject (keyHandle handle)))
  let h ← orFail (.internal "Failed to parse handle projection") (PublicHandleData.parse data)
  if h.releasedAt = "" then pure h
  else
    -- A corrupt tombstone is a 404 rather than a leak of the malformed value.
    let released ← orFail .notFound (env.parseRfc3339 h.releasedAt)
    let available := released + days HANDLE_COOLDOWN_DAYS
    let now ← call (ask .utcNow)
    if now < available then throw (.handleReleased h.releasedAt (env.formatSecs available))
    else throw .notFound

/-! ### Registration -/

structure PowProof where
  nonce : String := ""
  counter : Nat := 0
  deriving DecidableEq, Repr

def PowProof.fromJson (j : Json) : Option PowProof := do
  let f ← j.members ["nonce", "counter"]
  let nonce ← Json.fieldOr "" Json.asStr (f "nonce")
  let counter ← Json.fieldOr 0 Json.asU64 (f "counter")
  return { nonce, counter }

/-- `pow::verify`: zero bits disable the check. -/
def powVerify (env : Env) (proof : PowProof) : Bool :=
  if env.bits = 0 then true
  else match Base64.decode proof.nonce with
    | some nonce => decide (nonce.length = 16) && decide (env.bits ≤ env.powBits proof.counter nonce)
    | none => false

structure RegisterRequest where
  handle : String
  deviceLabel : String
  authPublicKey : String
  sharingPublicKey : String
  salt : String
  kdf : Option KdfParams
  pow : PowProof
  deriving DecidableEq, Repr

def RegisterRequest.fromJson (j : Json) : Option RegisterRequest := do
  let f ← j.members ["handle", "device_label", "auth_public_key", "sharing_public_key", "salt",
    "kdf", "pow"]
  let handle ← Json.fieldOr "" Json.asStr (f "handle")
  let deviceLabel ← Json.fieldOr "" Json.asStr (f "device_label")
  let authPublicKey ← Json.fieldOr "" Json.asStr (f "auth_public_key")
  let sharingPublicKey ← Json.fieldOr "" Json.asStr (f "sharing_public_key")
  let salt ← Json.fieldOr "" Json.asStr (f "salt")
  let kdf ← Json.fieldOr none (Json.asOption KdfParams.fromJson) (f "kdf")
  let pow ← Json.fieldOr {} PowProof.fromJson (f "pow")
  return { handle, deviceLabel, authPublicKey, sharingPublicKey, salt, kdf, pow }

structure RegisterResponse where
  userId : String
  deviceId : String
  token : String
  handle : String
  deriving DecidableEq, Repr

/-- The device file; members in the order `serde_json::json!` writes them. -/
def deviceFile (deviceId deviceLabel createdAt : String) : Data :=
  .json (.obj [("created_at", .str createdAt), ("device_id", .str deviceId),
    ("device_label", .str deviceLabel)])

/-- Under the claim lock: whether the name is free. A stale tombstone is removed. -/
def claimHandle (env : Env) (handleKey : String) : Handler Unit := do
  let found ← call (ask (.getObject handleKey))
  match found with
  | .error .notFound => pure ()
  | .error (.backend err) => throw (.internal err)
  | .ok existing =>
    let h ← orFail (.internal "Failed to parse handle projection") (PublicHandleData.parse existing)
    check .handleTaken (decide (h.releasedAt ≠ ""))
    let released ← orFail .handleTaken (env.parseRfc3339 h.releasedAt)
    let available := released + days HANDLE_COOLDOWN_DAYS
    let now ← call (ask .utcNow)
    check (.handleInCooldown h.releasedAt (env.formatSecs available)) (decide (available ≤ now))
    tryStore (ask (.deleteObject handleKey))

/-- The projection, then the profile, then the device, with best-effort rollback. -/
def createAccount (env : Env) (req : RegisterRequest) (handleKey : String) :
    Handler RegisterResponse := do
  let userId ← call (ask .newUlid)
  let deviceId ← call (ask .newUlid)
  let token := Token.generate env userId deviceId .ONE
  let now ← call (ask .utcNow)
  let createdAt := env.formatSecs now
  let projection : PublicHandleData :=
    { userId, sharingPublicKey := req.sharingPublicKey, salt := req.salt, kdf := req.kdf,
      keyVersion := 1 }
  writeJson handleKey projection.data
  let profile : Profile :=
    { userId, handle := req.handle, authPublicKey := req.authPublicKey,
      sharingPublicKey := req.sharingPublicKey, salt := req.salt, kdf := req.kdf,
      keyVersion := 1, createdAt }
  let written ← call (ask (.putObject (keyProfile userId) profile.data))
  match written with
  | .error e =>
    deleteBestEffort handleKey
    throw (.ofStore e)
  | .ok () =>
    let written ← call (ask (.putObject (keyDevice userId deviceId)
      (deviceFile deviceId req.deviceLabel createdAt)))
    match written with
    | .error e =>
      deleteBestEffort handleKey
      deleteBestEffort (keyProfile userId)
      throw (.ofStore e)
    | .ok () => pure { userId, deviceId, token, handle := req.handle }

def register (env : Env) (body : Option Json) : Handler RegisterResponse := do
  let req ← parseBody RegisterRequest.fromJson body
  check .badRequest (decide (req.handle ≠ "" ∧ req.deviceLabel ≠ "" ∧ req.authPublicKey ≠ "" ∧
    req.sharingPublicKey ≠ ""))
  let handle ← orFail .handleInvalid (Handle.new req.handle)
  check .handleReserved (!isReserved handle.str)
  let kdf ← orFail .badRequest req.kdf
  check .badRequest (decide (req.salt ≠ "") && validKdfParams req.salt kdf)
  -- The nonce is burned whether or not the proof then passes.
  let fresh ← call (ask (.consumeNonce req.pow.nonce))
  check .powInvalid (fresh && powVerify env req.pow)
  withLock (.handleClaim handle.str) (.error .registrationUnavailable) do
    claimHandle env (keyHandle handle.str)
    createAccount env req (keyHandle handle.str)

/-! ### Devices -/

structure AddDeviceRequest where
  userId : String
  authProof : AuthProof
  deviceLabel : String

def AddDeviceRequest.fromJson (j : Json) : Option AddDeviceRequest := do
  let f ← j.members ["user_id", "auth_proof", "device_label"]
  let userId ← Json.fieldOr "" Json.asStr (f "user_id")
  let authProof ← Json.field AuthProof.fromJson (f "auth_proof")
  let deviceLabel ← Json.fieldOr "" Json.asStr (f "device_label")
  return { userId, authProof, deviceLabel }

structure AddDeviceResponse where
  deviceId : String
  token : String
  deriving DecidableEq, Repr

/-- An auth proof against the stored profile, at its current `key_version`. -/
def verifyAccountProof (env : Env) (profile : Profile) (proof : AuthProof) :
    Handler AuthProofPayload := do
  let pubkey ← orFail .forbidden (decodeAuthKey profile.authPublicKey)
  let now ← call (ask .utcNow)
  let payload ← orFail .forbidden (verifyProof env pubkey proof now)
  check (.keyVersionStale (.newOrOne profile.currentKv))
    (decide (payload.keyVersion = profile.currentKv))
  pure payload

def addDevice (env : Env) (body : Option Json) : Handler AddDeviceResponse := do
  let req ← parseBody AddDeviceRequest.fromJson body
  let userId ← orFail .badRequest (UserId.new req.userId)
  let bytes ← tryStore (ask (.getObject (keyProfile userId.str)))
  let profile ← orFail (.internal "Failed to parse profile") (Profile.parse bytes)
  let payload ← verifyAccountProof env profile req.authProof
  let deviceId ← orFail .badRequest (DeviceId.new payload.deviceId)
  let token := Token.generate env userId.str deviceId.str (.newOrOne profile.currentKv)
  let now ← call (ask .utcNow)
  writeJson (keyDevice userId.str deviceId.str)
    (deviceFile deviceId.str req.deviceLabel (env.formatSecs now))
  pure { deviceId := deviceId.str, token }

/-- Remove a device file, then its cache entry. -/
def removeDevice (deviceKey : String) : Handler Unit := do
  tryStoreAs (.internal "Failed to delete device") (ask (.deleteObject deviceKey))
  call (ask (.deviceCacheInvalidate deviceKey))

def deleteDevice (env : Env) (token : Option String) : Handler Unit := do
  let user ← authenticate env token true
  removeDevice (keyDevice user.userId.str user.deviceId.str)

structure RevokeDeviceRequest where
  deviceId : String
  authProof : AuthProof

def RevokeDeviceRequest.fromJson (j : Json) : Option RevokeDeviceRequest := do
  let f ← j.members ["device_id", "auth_proof"]
  let deviceId ← Json.fieldOr "" Json.asStr (f "device_id")
  let authProof ← Json.field AuthProof.fromJson (f "auth_proof")
  return { deviceId, authProof }

def revokeDevice (env : Env) (token : Option String) (body : Option Json) : Handler Unit := do
  let user ← authenticate env token true
  let req ← parseBody RevokeDeviceRequest.fromJson body
  let bytes ← tryStore (ask (.getObject (keyProfile user.userId.str)))
  let profile ← orFail (.internal "Failed to read profile") (Profile.parse bytes)
  let _ ← verifyAccountProof env profile req.authProof
  removeDevice (keyDevice user.userId.str req.deviceId)

/-! ### Profile -/

structure ProfileUpdateRequest where
  displayName : Option String
  avatarUrl : Option String
  deriving DecidableEq, Repr

def ProfileUpdateRequest.fromJson (j : Json) : Option ProfileUpdateRequest := do
  let f ← j.members ["display_name", "avatar_url"]
  let displayName ← Json.fieldOr none (Json.asOption Json.asStr) (f "display_name")
  let avatarUrl ← Json.fieldOr none (Json.asOption Json.asStr) (f "avatar_url")
  return { displayName, avatarUrl }

/-- An absent field is left unchanged. -/
def ProfileUpdateRequest.apply (req : ProfileUpdateRequest) (p : Profile) : Profile :=
  { p with
    displayName := req.displayName.getD p.displayName
    avatarUrl := req.avatarUrl.getD p.avatarUrl }

theorem ProfileUpdateRequest.credential_apply (req : ProfileUpdateRequest) (p : Profile) :
    (req.apply p).credential = p.credential := rfl

def updateProfile (env : Env) (token : Option String) (body : Option Json) : Handler Unit := do
  let user ← authenticate env token true
  let req ← parseBody ProfileUpdateRequest.fromJson body
  check .badRequest (req.displayName.isSome || req.avatarUrl.isSome)
  let bytes ← tryStore (ask (.getObject (keyProfile user.userId.str)))
  let profile ← orFail (.internal "Failed to parse profile") (Profile.parse bytes)
  writeJson (keyProfile user.userId.str) (req.apply profile).data
  reproject (req.apply profile)

/-- Evict the cache entries of the devices among `keys`. -/
def evictDevices (devicesPrefix : String) : List String → Handler Unit
  | [] => pure ()
  | k :: rest => do
    if startsWith k devicesPrefix then call (ask (.deviceCacheInvalidate k)) else pure ()
    evictDevices devicesPrefix rest

/-- Wipe one page of each prefix. -/
def wipePrefixes (devicesPrefix : String) : List String → Handler Unit
  | [] => pure ()
  | pre :: rest => do
    let page ← tryStoreAs (.internal "Failed to list objects") (ask (.listObjects pre 1000 none))
    evictDevices devicesPrefix page.keys
    if page.keys = [] then pure ()
    else tryStoreAs (.internal "Failed to delete objects") (ask (.deleteObjects page.keys))
    wipePrefixes devicesPrefix rest

def ownedPrefixes (uid : String) : List String :=
  [prefixUser uid, prefixInbox uid, prefixKeys uid, prefixMedia uid]

/-- The cooldown tombstone of a handle released at `now`. -/
def tombstone (env : Env) (now : Int) : PublicHandleData := { releasedAt := env.formatSecs now }

def releaseHandle (env : Env) (handle : String) : Handler Unit :=
  if handle = "" then pure ()
  else withLock (.handleClaim handle) (.error .registrationUnavailable) do
    let now ← call (ask .utcNow)
    tryStoreAs (.internal "Failed to write handle tombstone")
      (ask (.putObject (keyHandle handle) (tombstone env now).data))

def deleteProfile (env : Env) (token : Option String) : Handler Unit := do
  let user ← authenticate env token true
  let uid := user.userId.str
  let bytes ← tryStore (ask (.getObject (keyProfile uid)))
  let profile ← orFail (.internal "Failed to read profile") (Profile.parse bytes)
  wipePrefixes (prefixUserDevices uid) (ownedPrefixes uid)
  releaseHandle env profile.handle

/-! ### Activity -/

/-- Whether the stored instant is less than an hour old. -/
def recentlyActive (env : Env) (now : Int) (lastActive : String) : Bool :=
  match env.parseRfc3339 lastActive with
  | some t => decide (numSeconds (now - t) < LAST_ACTIVE_REFRESH_SECS)
  | none => false

/-- The write at the end of `update_last_active`. -/
def stampActive (env : Env) (key : String) (profile : Profile) : Handler Unit := do
  let now ← call (ask .utcNow)
  putBestEffort key { profile with lastActive := env.formatSecs now }.data

/-- The detached task of `events`: every failure is swallowed. -/
def updateLastActive (env : Env) (userId : String) : Handler Unit := do
  let found ← call (ask (.getObject (keyProfile userId)))
  match found with
  | .error _ => pure ()
  | .ok bytes => match Profile.parse bytes with
    | none => pure ()
    | some profile =>
      if profile.lastActive ≠ "" ∧ (env.parseRfc3339 profile.lastActive).isSome then
        let now ← call (ask .utcNow)
        if recentlyActive env now profile.lastActive then pure ()
        else stampActive env (keyProfile userId) profile
      else stampActive env (keyProfile userId) profile

/-- `events`, up to the stream: the task is started and not waited for. -/
def events (env : Env) (token : Option String) : Handler Unit := do
  let user ← authenticate env token true
  updateLastActive env user.userId.str

end Atmin
