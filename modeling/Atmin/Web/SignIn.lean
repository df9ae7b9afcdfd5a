import Atmin.Web.InnerPayload
import Atmin.Web.Preview
import Atmin.Web.RotateKeys

/-!
# Signing in (`useLogin.ts`, `useDevices.ts`, `api.ts`)

A sign-in resolves the handle, derives the keys from the password, and has a device added under a
proof that they sign. It ends with a session, and so does a change of the password. A revocation
asks for the password once more.
-/

namespace Atmin.Web

open Interaction

/-- `Session`. Of the keys it keeps the sharing pair and the backup key. -/
structure Session (CryptoKey : Type) where
  token : String
  userId : Js
  deviceId : String
  handle : String
  keys : DerivedKeys CryptoKey
  keyVersion : Int

/-! ### Requests and their answers -/

/-- The server's side of a request. -/
def onHandler {α : Type} (handler : Handler α) : SubmitProg (Except ApiError α) :=
  handler.run.expand fun o => Prog.request (SubmitAct.serve o)

/-- A request, and the answer if one comes back. -/
def roundTrip {α : Type} (handler : Handler α) : SubmitProg (Option (Except ApiError α)) :=
  .op .post fun
    | .lost => .ret none
    | .answered => (onHandler handler).bind fun answer => .ret (some answer)
    | .abandoned => (onHandler handler).bind fun _ => .ret none

inductive ResolveResult where
  | live (data : Js)
  | notFound
  | released (releasedAt : String)

/-- What the form shows when a sign-in fails. -/
inductive LoginError where
  | noAccount
  | deleted (date : String)
  /-- `KeyVersionStaleError`. -/
  | stale
  /-- `APIError`. -/
  | api (message : String)
  | missingParameters
  | thrown (e : Thrown)
  deriving DecidableEq, Repr

namespace LoginError

/-- The text of it; a built-in that throws has a text of its own. -/
def text : LoginError → Option String
  | noAccount => some "No account with that handle."
  | deleted date => some ("That account was deleted on " ++ date ++ ".")
  | stale => some "key_version_stale"
  | api message => some message
  | missingParameters => some "Account is missing credential parameters."
  | thrown _ => none

/-- `throwForErrorResponse`. -/
def ofApi : ApiError → LoginError
  | .keyVersionStale _ => stale
  | e => api e.message

def ofRaised : Raised → LoginError
  | .stale => stale
  | .api code => api code
  | .missingParameters => missingParameters
  | .thrown e => thrown e

end LoginError

/-- `resolve` of the client dispatches on the status. -/
def resolved : Except ApiError PublicHandleData → Except LoginError ResolveResult
  | .ok h => .ok (.live (.ofJson h.toJson))
  | .error (.handleReleased releasedAt _) => .ok (.released releasedAt)
  | .error e => if e.status = 404 then .ok .notFound else .error (.ofApi e)

/-! ### The proof -/

/-- The payload of an auth proof, as it is sent; an id that is undefined is left out. -/
def proofPayload (userId : Js) (deviceId timestamp : String) (keyVersion : Int) : Json :=
  .obj (optionalMember "user_id" Json.str userId.asStr ++
    [("device_id", .str deviceId), ("timestamp", .str timestamp),
      ("key_version", .num (.int keyVersion))])

section Forms

variable {Secret CryptoKey : Type} (crypto : WebCrypto Secret CryptoKey)

/-- A payload under the signature of the auth key (`signAuthProofV2`). -/
def authProof (keys : DerivedKeys CryptoKey) (payload : Json) : Json :=
  .obj [("payload", payload), ("signature", .str (base64UrlEncode (keys.sign payload)))]

/-- The keys of a password under the parameters of an account, at the version that is given. -/
def keysAt (password : String) (salt kdf keyVersion : Js) :
    Except Raised (DerivedKeys CryptoKey × Int) := do
  let secret ← deriveSecretFromPassword crypto password salt kdf
  let keys ← orRaise (.thrown .crypto) (crypto.deriveKeys secret)
  match keyVersion with
  | .num (.int version) => pure (keys, version)
  -- No version the server writes.
  | _ => .error (.thrown .type)

/-! ### Signing in -/

/-- What the form holds, and what is drawn or read off the clock on the way. -/
structure SignIn where
  handle : String
  secretInput : String
  deviceId : String
  timestamp : String
  deviceLabel : String

/-- The built-ins that the form calls. -/
structure FormBuiltins where
  toLowerCase : String → String
  /-- `new Date(s).toISOString().slice(0, 10)`; a throw is none. -/
  isoDay : String → Option String

/-- The account that was resolved, and the keys derived for it. -/
structure Resolved (CryptoKey : Type) where
  userId : Js
  keys : DerivedKeys CryptoKey
  keyVersion : Int

def deriveFor (form : SignIn) (data : Js) : Except Raised (Resolved CryptoKey) := do
  let userId ← (data.member "user_id").mapError .thrown
  let salt ← (data.member "salt").mapError .thrown
  let kdf ← (data.member "kdf").mapError .thrown
  let keyVersion ← (data.member "key_version").mapError .thrown
  let (keys, keyVersion) ← keysAt crypto form.secretInput salt kdf (keyVersion.orElse (.num (.int 1)))
  pure ⟨userId, keys, keyVersion⟩

def Resolved.addDeviceBody (account : Resolved CryptoKey) (form : SignIn) : Json :=
  .obj (optionalMember "user_id" Json.str account.userId.asStr ++
    [("device_label", .str form.deviceLabel),
      ("auth_proof", authProof account.keys
        (proofPayload account.userId form.deviceId form.timestamp account.keyVersion))])

/-- The text for a handle in its cooldown; a date that cannot be shown is an error of its own. -/
def FormBuiltins.deletedOn (builtins : FormBuiltins) (releasedAt : String) : LoginError :=
  if releasedAt = "" then .deleted "recently"
  else match builtins.isoDay releasedAt with
    | some date => .deleted date
    | none => .thrown .data

def FormBuiltins.normalise (builtins : FormBuiltins) (handle : String) : String :=
  builtins.toLowerCase (String.ofList (trim handle.toList))

/-- `handleLogin`, up to the session that it saves. -/
def handleLogin (env : Env) (builtins : FormBuiltins) (form : SignIn) :
    SubmitProg (Except LoginError (Session CryptoKey)) :=
  (roundTrip (Atmin.resolve env (builtins.normalise form.handle))).bind fun
    -- a request that is lost
    | none => .ret (.error (.thrown .failed))
    | some answer => match resolved answer with
      | .error e => .ret (.error e)
      | .ok .notFound => .ret (.error .noAccount)
      | .ok (.released releasedAt) => .ret (.error (builtins.deletedOn releasedAt))
      | .ok (.live data) => match deriveFor crypto form data with
        | .error e => .ret (.error (.ofRaised e))
        -- then the keys are stretched, and the device is added under them
        | .ok account => (roundTrip (addDevice env (some (account.addDeviceBody form)))).bind fun
          | none => .ret (.error (.thrown .failed))
          | some (.error e) => .ret (.error (.ofApi e))
          | some (.ok device) => .ret (.ok ⟨device.token, account.userId, device.deviceId,
              builtins.normalise form.handle, account.keys, account.keyVersion⟩)

/-! ### Revoking a device -/

/-- The device to revoke, and the password that was entered for it. -/
structure DeviceRevocation where
  token : String
  userId : String
  deviceId : String
  secretInput : String
  timestamp : String

def DeviceRevocation.body (revocation : DeviceRevocation) (keys : DerivedKeys CryptoKey)
    (keyVersion : Int) : Json :=
  .obj [("device_id", .str revocation.deviceId),
    ("auth_proof", authProof keys
      (proofPayload (.str revocation.userId) revocation.deviceId revocation.timestamp keyVersion))]

/-- `throwForErrorResponse`, for a caller that shows the code. -/
def Raised.ofApi : ApiError → Raised
  | .keyVersionStale _ => .stale
  | e => .api e.code

/-- `handleRevoke`, up to the list of devices that it fetches anew. -/
def handleRevoke (env : Env) (revocation : DeviceRevocation) : SubmitProg (Except Raised Unit) :=
  .op .getProfile fun
    | .error e => .ret (.error e)
    | .ok raw => match readOwnProfile raw with
      | .error e => .ret (.error (.thrown e))
      | .ok profile =>
        match keysAt crypto revocation.secretInput profile.salt profile.kdf profile.keyVersion with
        | .error e => .ret (.error e)
        | .ok (keys, keyVersion) =>
          (roundTrip (revokeDevice env (some revocation.token)
            (some (revocation.body keys keyVersion)))).bind fun
            | none => .ret (.error (.thrown .failed))
            | some (.error e) => .ret (.error (.ofApi e))
            | some (.ok ()) => .ret (.ok ())

/-! ### The session after a change of the password -/

/-- `next`, which is saved once the rotation has succeeded. -/
def Session.rotated (session : Session CryptoKey) (prepared : Prepared CryptoKey) :
    SubmitResult → Option (Session CryptoKey)
  | .done token keyVersion => some { session with
      token := token
      keys := prepared.newKeys
      keyVersion := keyVersion.toNat }
  | _ => none

/-- `submit`, with the session that it saves. -/
def changePassword (env : Env) (session : Session CryptoKey) (submission : Submission) :
    SubmitProg (SubmitResult × Option (Session CryptoKey)) :=
  .op .getProfile fun
    | .error e => .ret (caught e, none)
    | .ok raw => match prepare crypto submission raw with
      | .error e => .ret (caught e, none)
      | .ok none => .ret (.incorrect, none)
      | .ok (some prepared) => (appendLink (prepared.link crypto submission)).bind fun
        | .error e => .ret (caught e, none)
        | .ok () => (postRotation env submission.token (prepared.body submission)).bind fun result =>
          .ret (result, session.rotated prepared result)

/-- Without the session, it is `submit`. -/
theorem changePassword_submit (env : Env) (session : Session CryptoKey) (submission : Submission) :
    ((changePassword crypto env session submission).bind fun done => .ret done.1) =
      submit crypto env submission := by
  unfold changePassword submit
  simp only [Prog.op_bind]
  congr 1
  funext answer
  cases answer with
  | error e => rfl
  | ok raw =>
    dsimp only
    rcases prepare crypto submission raw with e | _ | prepared
    · rfl
    · rfl
    · dsimp only
      rw [Prog.bind_assoc]
      congr 1
      funext appended
      cases appended with
      | error e => rfl
      | ok _ =>
        -- The session is taken off again, so only the result of the post is left.
        dsimp only
        rw [Prog.bind_assoc]
        exact Prog.bind_ret _

end Forms

end Atmin.Web
