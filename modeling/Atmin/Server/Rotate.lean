import Atmin.Server.Account

/-!
# Credential rotation (`routes.rs`, `idempotency.rs`)
-/

namespace Atmin

/-- The recorded result of one rotation request. -/
structure RotationRecord where
  status : UInt16
  token : Option String
  keyVersion : Option UInt32
  error : Option String
  current : Option Int
  deriving DecidableEq, Repr

namespace RotationRecord

def names : List String := ["status", "token", "key_version", "error", "current"]

/-- A member left out when it is `None`. -/
def ifSome {α : Type} (name : String) (enc : α → Json) : Option α → List (String × Json)
  | none => []
  | some a => [(name, enc a)]

def fields (r : RotationRecord) : List (String × Json) :=
  ("status", .num (.int (.ofNat r.status.toNat))) :: (ifSome "token" .str r.token ++
    (ifSome "key_version" .ofU32 r.keyVersion ++ (ifSome "error" .str r.error ++
      ifSome "current" .ofI64 r.current)))

def data (r : RotationRecord) : Data := .json (.obj r.fields)

def fromJson (j : Json) : Option RotationRecord := do
  let f ← j.members names
  let status ← Json.field Json.asU16 (f "status")
  let token ← Json.fieldOr none (Json.asOption Json.asStr) (f "token")
  let keyVersion ← Json.fieldOr none (Json.asOption Json.asU32) (f "key_version")
  let error ← Json.fieldOr none (Json.asOption Json.asStr) (f "error")
  let current ← Json.fieldOr none (Json.asOption Json.asI64) (f "current")
  return { status, token, keyVersion, error, current }

def parse (d : Data) : Option RotationRecord := d.asJson.bind fromJson

@[simp] theorem lookup_ifSome_self {α : Type} (n : String) (enc : α → Json) (o : Option α)
    (rest : List (String × Json)) :
    Json.lookup (ifSome n enc o ++ rest) n = (o.map enc).or (Json.lookup rest n) := by
  cases o <;> simp [ifSome]

@[simp] theorem lookup_ifSome_ne {α : Type} {n m : String} (differ : n ≠ m) (enc : α → Json)
    (o : Option α) (rest : List (String × Json)) :
    Json.lookup (ifSome n enc o ++ rest) m = Json.lookup rest m := by
  cases o <;> simp [ifSome, differ]

@[simp] theorem lookup_ifSome_last {α : Type} (n : String) (enc : α → Json) (o : Option α) :
    Json.lookup (ifSome n enc o) n = o.map enc := by
  cases o <;> simp [ifSome]

@[simp] theorem lookup_ifSome_last_ne {α : Type} {n m : String} (differ : n ≠ m) (enc : α → Json)
    (o : Option α) : Json.lookup (ifSome n enc o) m = none := by
  cases o <;> simp [ifSome, differ]

theorem names_ifSome {α : Type} (n : String) (enc : α → Json) (o : Option α) :
    ((ifSome n enc o).map Prod.fst).Sublist [n] := by
  cases o <;> simp [ifSome]

/-- A member that is left out, or written and not `null`, reads back. -/
theorem fieldOr_ifSome {α : Type} {enc : α → Json} {dec : Json → Option α} {o : Option α}
    (reads : ∀ a, o = some a → dec (enc a) = some a ∧ enc a ≠ .null) :
    Json.fieldOr none (Json.asOption dec) (o.map enc) = some o := by
  cases o with
  | none => rfl
  | some a =>
    obtain ⟨back, written⟩ := reads a rfl
    cases shape : enc a <;> simp_all [Json.asOption]

private theorem fields_nodup (r : RotationRecord) : (r.fields.map Prod.fst).Nodup := by
  have within : (r.fields.map Prod.fst).Sublist names := by
    simp only [fields, List.map_cons, List.map_append]
    exact ((names_ifSome _ _ _).append ((names_ifSome _ _ _).append
      ((names_ifSome _ _ _).append (names_ifSome _ _ _)))).cons_cons "status"
  exact within.nodup (by simp [names])

@[simp] theorem asU16_status (n : UInt16) : Json.asU16 (.num (.int (.ofNat n.toNat))) = some n := by
  have bound : n.toNat < 2 ^ 16 := n.toNat_lt
  simp only [Json.asU16, if_pos bound, UInt16.ofNat_toNat]

/-- A record whose `current` is an account's version reads back. -/
theorem parse_data (r : RotationRecord) (small : ∀ c, r.current = some c → ∃ n : Nat, c = n ∧
    n < 2 ^ 63) : parse r.data = some r := by
  have readable := @Json.members_obj names r.fields r.fields_nodup
  have token := @fieldOr_ifSome _ Json.str Json.asStr r.token fun a _ => ⟨rfl, by simp⟩
  have version := @fieldOr_ifSome _ Json.ofU32 Json.asU32 r.keyVersion
    fun a _ => ⟨Json.asU32_ofU32 a, by simp [Json.ofU32]⟩
  have error := @fieldOr_ifSome _ Json.str Json.asStr r.error fun a _ => ⟨rfl, by simp⟩
  have current := @fieldOr_ifSome _ Json.ofI64 Json.asI64 r.current fun c same => by
    obtain ⟨n, rfl, bound⟩ := small c same
    exact ⟨by simp only [Json.ofI64, Json.asI64, if_pos bound], by simp [Json.ofI64]⟩
  simp only [parse, data, Data.asJson, Option.bind_some]
  rw [fromJson, readable, fields]
  simp [token, version, error, current, -Int.ofNat_eq_natCast]

end RotationRecord

/-- A miss is `none`; a backend or parse failure is surfaced. -/
def loadRotationRecord (key : String) : Eff (Except StoreError (Option RotationRecord)) :=
  (ask (.getObject key)).bind fun
    | .ok bytes => match RotationRecord.parse bytes with
      | some rec => .ret (.ok (some rec))
      | none => .ret (.error (.backend "invalid rotation record"))
    | .error .notFound => .ret (.ok none)
    | .error e => .ret (.error e)

structure RotateKeysRequest where
  requestId : String
  keyVersion : UInt32
  authPublicKey : String
  sharingPublicKey : String
  salt : String
  kdf : Option KdfParams
  continuitySignature : String
  deriving DecidableEq, Repr

def RotateKeysRequest.fromJson (j : Json) : Option RotateKeysRequest := do
  let f ← j.members ["request_id", "key_version", "auth_public_key", "sharing_public_key", "salt",
    "kdf", "continuity_signature"]
  let requestId ← Json.fieldOr "" Json.asStr (f "request_id")
  let keyVersion ← Json.fieldOr 0 Json.asU32 (f "key_version")
  let authPublicKey ← Json.fieldOr "" Json.asStr (f "auth_public_key")
  let sharingPublicKey ← Json.fieldOr "" Json.asStr (f "sharing_public_key")
  let salt ← Json.fieldOr "" Json.asStr (f "salt")
  let kdf ← Json.fieldOr none (Json.asOption KdfParams.fromJson) (f "kdf")
  let continuitySignature ← Json.fieldOr "" Json.asStr (f "continuity_signature")
  return { requestId, keyVersion, authPublicKey, sharingPublicKey, salt, kdf, continuitySignature }

inductive RotateOutcome where
  | success (token : String) (keyVersion : UInt32)
  /-- A 409; `-1` when the lock race was lost. -/
  | keyVersionStale (current : Int)
  | badContinuity
  deriving DecidableEq, Repr

namespace RotateOutcome

def toRecord : RotateOutcome → RotationRecord
  | success token keyVersion => ⟨200, some token, some keyVersion, none, none⟩
  | keyVersionStale current =>
    ⟨409, none, none, some (ApiError.code (.keyVersionStale .ONE)), some current⟩
  | badContinuity => ⟨403, none, none, some (ApiError.code .badContinuity), none⟩

def fromRecord (rec : RotationRecord) : RotateOutcome :=
  if 200 ≤ rec.status ∧ rec.status < 300 then
    success (rec.token.getD "") (rec.keyVersion.getD 1)
  else if rec.error = some (ApiError.code .badContinuity) then badContinuity
  else keyVersionStale (rec.current.getD (-1))

/-- A recorded outcome is replayed verbatim. -/
@[simp] theorem fromRecord_toRecord (o : RotateOutcome) : fromRecord o.toRecord = o := by
  cases o <;> simp [fromRecord, toRecord, ApiError.code]

end RotateOutcome

def isHexDigit (c : Char) : Bool :=
  isDigit c || isLower c && decide (c ≤ 'f') || decide ('A' ≤ c) && decide (c ≤ 'F')

/-- A canonical hex UUID (8-4-4-4-12). -/
def isValidRequestId (s : String) : Bool :=
  let parts := s.toList.splitOn '-'
  decide (parts.map List.length = [8, 4, 4, 4, 12]) && parts.all fun p => p.all isHexDigit

def validPublicKey (b64 : String) (wantLen : Nat) : Bool :=
  (Base64.decode b64).any fun b => decide (b.length = wantLen)

/-- The checks made before the lock and the store are touched. -/
def RotateKeysRequest.valid (req : RotateKeysRequest) : Bool :=
  isValidRequestId req.requestId &&
  req.kdf.any (fun kdf => decide (req.salt ≠ "") && validKdfParams req.salt kdf) &&
  validPublicKey req.authPublicKey 32 && validPublicKey req.sharingPublicKey 65 &&
  decide (req.continuitySignature ≠ "")

/-- The fields under the continuity signature. -/
def RotateKeysRequest.signed (req : RotateKeysRequest) : Json :=
  .obj [("auth_public_key", .str req.authPublicKey), ("kdf", KdfParams.optToJson req.kdf),
    ("key_version", .ofU32 req.keyVersion), ("request_id", .str req.requestId),
    ("salt", .str req.salt), ("sharing_public_key", .str req.sharingPublicKey)]

/-- The continuity signature verifies under this key. -/
def RotateKeysRequest.continuous (env : Env) (req : RotateKeysRequest) (oldPub : List UInt8) :
    Bool :=
  (Base64.decode req.continuitySignature).any fun sig => verify env oldPub req.signed sig

/-- The profile with the request's credential. -/
def RotateKeysRequest.install (req : RotateKeysRequest) (p : Profile) : Profile :=
  { p with
    authPublicKey := req.authPublicKey
    sharingPublicKey := req.sharingPublicKey
    salt := req.salt
    kdf := req.kdf
    keyVersion := req.keyVersion }

/-- `let _ = save_rotation_record(…)` and the outcome it records. -/
def recordOutcome (recordKey : String) (outcome : RotateOutcome) : Handler RotateOutcome := do
  putBestEffort recordKey outcome.toRecord.data
  pure outcome

/-- Steps 6 to 10: the rotation is applied. -/
def commitRotation (env : Env) (user : AuthedUser) (req : RotateKeysRequest) (profile : Profile)
    (recordKey : String) : Handler RotateOutcome := do
  let uid := user.userId.str
  tryStoreAs (.internal "Failed to write profile")
    (ask (.putObject (keyProfile uid) (req.install profile).data))
  reproject (req.install profile)
  let token := Token.generate env uid user.deviceId.str (.newOrOne req.keyVersion)
  let outcome ← recordOutcome recordKey (.success token req.keyVersion)
  call (ask (.profileCacheInvalidate uid))
  pure outcome

/-- Steps 3 to 5: the preconditions against the stored profile. -/
def rotateFresh (env : Env) (user : AuthedUser) (req : RotateKeysRequest) (recordKey : String) :
    Handler RotateOutcome := do
  let bytes ← tryStoreAs (.internal "Failed to read profile")
    (ask (.getObject (keyProfile user.userId.str)))
  let profile ← orFail (.internal "Failed to read profile") (Profile.parse bytes)
  if req.keyVersion ≠ profile.currentKv + 1 then
    recordOutcome recordKey (.keyVersionStale profile.currentKv.toNat)
  else
    let oldPub ← orFail (.internal "Stored auth_public_key is malformed")
      (decodeAuthKey profile.authPublicKey)
    if req.continuous env oldPub then commitRotation env user req profile recordKey
    else recordOutcome recordKey .badContinuity

/-- Steps 2 to 10, under the rotation lock. A load failure counts as a miss. -/
def rotateLocked (env : Env) (user : AuthedUser) (req : RotateKeysRequest) (recordKey : String) :
    Handler RotateOutcome := do
  let loaded ← call (loadRotationRecord recordKey)
  match loaded with
  | .ok (some rec) => pure (.fromRecord rec)
  | _ => rotateFresh env user req recordKey

def rotateKeys (env : Env) (token : Option String) (body : Option Json) : Handler RotateOutcome := do
  let user ← authenticate env token false
  let req ← parseBody RotateKeysRequest.fromJson body
  check .badRequest req.valid
  let uid := user.userId.str
  withLock (.rotation uid) (.ok (.keyVersionStale (-1)))
    (rotateLocked env user req (keyRotationRecord uid req.requestId))

end Atmin
