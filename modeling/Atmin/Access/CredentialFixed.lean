import Atmin.Access.ProfileInvariant
import Atmin.Access.Requests
import Atmin.Server.Sample

/-!
# Who can change the credential

Under a token alone, the stored credential stays as it is, unless an upload or a delete is
aimed at the profile itself.
-/

namespace Atmin

open Interaction

/-- The stored account credential. -/
def credentialOf {ι : Type} (u : UserId) (s : Sys ι) : Option Credential :=
  (profileOf u s).map Profile.credential

/-- A rotation whose continuity signature does not verify under the credential's key. -/
def UserRequest.Unsigned (env : Env) (c0 : Option Credential) : UserRequest → Prop
  | .rotateKeys token body => ∀ x : Rotation env token body, ∀ c oldPub, c0 = some c →
      decodeAuthKey c.authPublicKey = some oldPub → x.req.continuous env oldPub = false
  | _ => True

/-- A request of the account that does not delete it and carries no valid continuity signature. -/
structure UserRequest.TokenAlone (env : Env) (u : UserId) (c0 : Option Credential)
    (r : UserRequest) : Prop where
  account : r.OnAccount env u
  stays : ∀ token, r ≠ .deleteProfile token
  unsigned : r.Unsigned env c0

/-- No upload and no delete names this key. -/
def UserRequest.Leaves (key : String) : UserRequest → Prop
  | .upload k _ => k ≠ key
  | .deleteObject _ k => nonEmpty k ≠ some key
  | _ => True

section Fixed

variable {ι : Type} (env : Env) (u : UserId) (size : Data → Nat)
  (req : ι → UserRequest) (s0 : Sys ι)

/-- The credential never changes. -/
def CredentialFixed [DecidableEq ι] : Prop :=
  ∀ w, Reach (userRequests size env req) s0 w → credentialOf u w.sys = credentialOf u s0

variable {env u size req s0}

variable {c0 : Option Credential} {i : ι}

variable (u c0) in
/-- All that is asked of a request: the credential stays `c0`. -/
abbrev fixedRules : Rules ι (Sys ι) := .ofInvariant fun s => credentialOf u s = c0

/-- A request that spares the profile. -/
theorem sparing_unnoticed {o : Op}
    (stays : o.Stays (· ≠ keyProfile u.str) (· ≠ keyProfile u.str)) :
    Unnoticed (fixedRules u c0) (UserExec size req) i o := by
  refine .of fun s r t fixed served => ⟨?_, trivial, trivial⟩
  have same := stays_get (faulty_of_user served) stays (fun h => h rfl) (fun h => h rfl)
  show credentialOf u t = c0
  rw [credentialOf, profileOf, same]
  exact fixed

theorem sparing : Confined (fixedRules u c0) (UserExec size req) i
    (· ≠ keyProfile u.str) (· ≠ keyProfile u.str) where
  quiet _ stays _ := sparing_unnoticed stays
  guard env token enforceKv s := by
    refine (Safe.only (.pure True) (fun o passive => ?_)
      (authenticate_passive env token enforceKv) trivial).weaken fun _ _ h => h.1
    exact sparing_unnoticed (Op.stays_passive passive) _
  lists pre limit cursor := user_lists (fun o reads =>
    sparing_unnoticed (Op.stays_passive (Op.passive_of_reads reads))) pre limit cursor

/-- Every stored profile carries the credential, and so does what is written after it. -/
theorem sparing_keeps :
    ProfileInvariant (fixedRules u c0) (UserExec size req) i u fun p => c0 = some p.credential where
  essential p q _ credential known := by rw [credential, known]
  passive o passive := sparing_unnoticed (Op.stays_passive passive)
  locks l := ⟨sparing_unnoticed (Op.stays_acquire l), sparing_unnoticed (Op.stays_release l)⟩
  records rid d := sparing_unnoticed (Op.stays_put (keyRecord_ne_profile _ _))
  reads := by
    refine (sparing_unnoticed (Op.stays_passive rfl)).serves (.pure True)
      fun s r t fixed _ served d p ok parsed => ?_
    obtain ⟨_, found | ⟨_, _, _, fault⟩⟩ := served_getObject (faulty_of_user served)
    · have here := lookup_eq_ok.mp (found.symm.trans ok)
      have known : credentialOf u s = c0 := fixed
      rw [← known, credentialOf, profileOf, here, Option.bind_some, parsed, Option.map_some]
    · rw [ok] at fault
      cases fault
  writes p known s r t fixed _ served := by
    refine ⟨?_, trivial, trivial⟩
    have written : t = s.put (keyProfile u.str) p.data ∨ t = s := by
      rcases served_putObject (faulty_of_user served) with ⟨_, new⟩ | ⟨_, either⟩
      · exact .inl new
      · exact either
    rcases written with rfl | rfl
    · have stored : profileOf u (s.put (keyProfile u.str) p.data) = some p := by
        rw [profileOf, Sys.put, ObjectMap.get_insert, if_pos rfl]
        exact Profile.parse_data p
      show credentialOf u _ = c0
      rw [credentialOf, stored, Option.map_some]
      exact known.symm
    · exact fixed
  projects p d _ := sparing_unnoticed (Op.stays_put (keyHandle_ne_profile _ _))

/-- A rotation without a valid signature never reaches its write of the profile. -/
theorem rotate_keeps {token : Option String} {body : Option Json} {s : Sys ι}
    (account : ∀ user, Token.identity env token = some user → user.userId = u)
    (unsigned : UserRequest.Unsigned env c0 (.rotateKeys token body)) :
    Keeps (fixedRules u c0) (UserExec size req) i (rotateKeys env token body) s := by
  refine sparing_keeps.rotateKeys account fun x p accepted known => ?_
  obtain ⟨_, oldPub, decoded, signed⟩ := accepted
  rw [unsigned x p.credential oldPub known decoded] at signed
  cases signed

/-- Every request of the account keeps the credential. -/
theorem request_keeps {r : UserRequest} (alone : r.TokenAlone env u c0)
    (leaves : r.Leaves (keyProfile u.str)) (s : Sys ι) :
    Keeps (fixedRules u c0) (UserExec size req) i (r.run env) s := by
  have c : Confined (fixedRules u c0) (UserExec size req) i _ _ := sparing
  have mine := alone.account
  have data (key root : String) (member : root ∈ DATA_PREFIXES)
      (within : startsWith key root = true) : key ≠ keyProfile u.str := by
    rw [keyProfile_eq]
    exact data_ne_user member within _ _
  cases r with
  | storeList token pre cursor => exact Keeps.bind (c.storeList pre cursor) fun _ _ => Keeps.ret _
  | storeObject token key => exact Keeps.bind (c.storeObject key) fun _ _ => Keeps.ret _
  | storeUsage token => exact Keeps.bind c.storeUsage fun _ _ => Keeps.ret _
  | deleteObject token key =>
    exact c.deleteObject fun user k _ named _ same => leaves (by rw [named, same])
  | storePresign token body => exact c.storePresign body
  | upload key d =>
    exact Keeps.tryStore (c.asks (Op.stays_put leaves) fun _ h => (nomatch h))
  | addDevice body =>
    exact Keeps.bind (c.addDevice fun uid did => device_ne_profile u uid did.str) fun _ _ => Keeps.ret _
  | storeCompact pages token body =>
    exact Keeps.bind (c.storeCompact data data) fun _ _ => Keeps.ret _
  | updateProfile token body => exact sparing_keeps.updateProfile mine
  | deleteProfile token => exact absurd rfl (alone.stays token)
  | deleteDevice token => exact c.deleteDevice fun user _ => device_ne_profile u user.userId _
  | revokeDevice token body => exact c.revokeDevice fun user did _ => device_ne_profile u user.userId did
  | send token body =>
    exact c.send (fun uid msgId => data _ "inbox/" (by simp [DATA_PREFIXES])
      (inboxLive_data uid msgId)) body
  | rotateKeys token body =>
    exact Keeps.bind (rotate_keeps mine alone.unsigned) fun _ _ => Keeps.ret _
  | events token =>
    refine c.authenticated fun user t known => ?_
    rw [mine user known]
    exact sparing_keeps.updateLastActive

variable [DecidableEq ι]

theorem credential_fixed (alone : ∀ i, (req i).TokenAlone env u (credentialOf u s0))
    (leaves : ∀ i, (req i).Leaves (keyProfile u.str)) : CredentialFixed env u size req s0 := by
  intro w reached
  have contracts : Contracts (fixedRules u (credentialOf u s0)) (userRequests size env req)
      (fun _ _ => True) fun _ _ _ => True :=
    ⟨fun _ => .const True, fun i s _ _ => request_keeps (alone i) (leaves i) s⟩
  have start : Secured (fixedRules u (credentialOf u s0)) (userRequests size env req)
      (fun _ _ => True) (fun _ _ _ => True) (.init s0) := .init rfl fun _ => trivial
  exact (start.run contracts reached).1

end Fixed

/-! ### An upload over the profile -/

section Forged

open Sample

/-- The size of an object is not looked into here. -/
def anySize (_ : Data) : Nat := 300

def forged : Profile := { profile with authPublicKey := "gTl3Dqh9F19Wo1Rmw0x-zMuNipG07jeiXfYPW4_Js5Q" }

/-- A URL for the account's own profile, and an upload through it. -/
def presignAndUpload : Bool → UserRequest
  | false => .storePresign token (some (.obj [("key", .str (keyProfile uid)),
      ("bytes", .num (.int 300))]))
  | true => .upload (keyProfile uid) forged.data

theorem presignAndUpload_alone (c0 : Option Credential) (i : Bool) :
    (presignAndUpload i).TokenAlone env user c0 := by
  refine ⟨fun other known => ?_, fun token same => ?_, ?_⟩
  · cases i with
    | false => exact token_user known
    | true => cases known
  · cases i <;> cases same
  · cases i <;> exact trivial

theorem presignAndUpload_prog : (userRequests anySize env presignAndUpload).prog = fun i =>
    cond i (writeJson (keyProfile uid) forged.data).run
      (storePresign env token (some (.obj [("key", .str (keyProfile uid)),
        ("bytes", .num (.int 300))]))).run := by
  funext i
  cases i <;> rfl

theorem forgery_observed : ((World.init (Sample.sys Bool)).follow (userRun anySize presignAndUpload)
    (userRequests anySize env presignAndUpload).prog
      (List.replicate 6 (false, .ok) ++ List.replicate 2 (true, .ok))).map
        (fun w => (profileOf user w.sys).map Profile.authPublicKey) =
      some (some forged.authPublicKey) := by
  rw [presignAndUpload_prog]
  simp only [storePresign, authenticate_known identity_token]
  decide

/-- Under a token alone the stored key is replaced. -/
theorem credential_forged : (∀ i, (presignAndUpload i).TokenAlone env user
      (credentialOf user (Sample.sys Bool))) ∧
    ¬ CredentialFixed env user anySize presignAndUpload (Sample.sys Bool) := by
  refine ⟨presignAndUpload_alone _, fun fixed => ?_⟩
  obtain ⟨w, followed, forged⟩ := Option.map_eq_some_iff.mp forgery_observed
  obtain ⟨p, stored, key⟩ := Option.map_eq_some_iff.mp forged
  have kept := fixed w (steps_of_follow _ _ followed)
  rw [credentialOf, credentialOf, stored, stored_profile] at kept
  have same := congrArg Credential.authPublicKey (Option.some.inj kept)
  rw [show p.credential.authPublicKey = p.authPublicKey from rfl, key] at same
  exact absurd same (by decide)

/-- The same two requests when the URL is for another key. -/
def presignMedia : Bool → UserRequest
  | false => .storePresign token (some (.obj [("key", .str (prefixMedia uid ++ "x")),
      ("bytes", .num (.int 300))]))
  | true => .upload (prefixMedia uid ++ "x") forged.data

theorem media_leaves_credential :
    CredentialFixed env user anySize presignMedia (Sample.sys Bool) := by
  refine credential_fixed (fun i => ⟨fun other known => ?_, fun token same => ?_, ?_⟩) fun i => ?_
  · cases i with
    | false => exact token_user known
    | true => cases known
  · cases i <;> cases same
  · cases i <;> exact trivial
  · cases i with
    | false => exact trivial
    | true => exact ne_of_head (by simp [prefixMedia, keyProfile])

end Forged

end Atmin
