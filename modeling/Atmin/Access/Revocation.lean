import Atmin.Access.Requests
import Atmin.Interaction.Session
import Atmin.Server.Sequential
import Atmin.Server.Sample

/-!
# How long a revocation lasts

A revoked device is one whose file is gone. It stays gone until an upload writes the file or
`add_device` accepts a proof that names the device.
-/

namespace Atmin

open Interaction

/-- The requests of an account, one after another. -/
abbrev UserSession (env : Env) (size : Data → Nat) (s0 : Sys Unit)
    (log : List (Exchange UserRequest (Except ApiError Unit) (Sys Unit))) (s : Sys Unit) : Prop :=
  Session (fun r : UserRequest => (r.run env).run) (fun r => UserExec size (fun _ => r) ()) s0 log s

section Revocation

variable (env : Env) (u : UserId) (d : DeviceId) (size : Data → Nat)

/-- A request whose success revokes the device. -/
def UserRequest.Revokes : UserRequest → Prop
  | .deleteDevice token => ∃ user, Token.identity env token = some user ∧
      user.userId = u ∧ user.deviceId = d
  | .revokeDevice token body => ∃ user req, Token.identity env token = some user ∧
      user.userId = u ∧ body.bind RevokeDeviceRequest.fromJson = some req ∧ req.deviceId = d.str
  | _ => False

/-- The guard lets in no request that bears a token of the device. -/
def Refused (s : Sys Unit) : Prop :=
  ∀ (r : UserRequest) user enforceKv a t, Token.identity env r.token? = some user →
    user.userId = u → user.deviceId = d →
      Runs (UserExec size (fun _ => r) ()) (authenticate env r.token? enforceKv).run s a t →
        ∃ e, a = .error e

/-- The proof of an `add_device` request that names the device. -/
structure ProofFor (s : Sys Unit) (r : UserRequest) (payload : AuthProofPayload) : Prop where
  names : ∃ body req profile pubkey now, r = .addDevice body ∧
    body.bind AddDeviceRequest.fromJson = some req ∧ req.userId = u.str ∧
    profileOf u s = some profile ∧ decodeAuthKey profile.authPublicKey = some pubkey ∧
    s.clock ≤ now ∧ verifyProof env pubkey req.authProof now = some payload
  device : payload.deviceId = d.str

/-- The device was added again, with a proof signed after `t`. -/
def AddedAfter (t : Int) (e : Exchange UserRequest (Except ApiError Unit) (Sys Unit)) : Prop :=
  ∃ payload ts, ProofFor env u d e.before e.request payload ∧ e.answer = .ok () ∧
    env.parseRfc3339 payload.timestamp = some ts ∧ t < ts

/-- After a revocation no token of the device is let in again, unless the device is added with
a proof signed later. -/
def RevocationPermanent : Prop :=
  ∀ r s1 s2 log s3, UserRequest.Revokes env u d r →
    Runs (UserExec size (fun _ => r) ()) (r.run env).run s1 (.ok ()) s2 →
    UserSession env size s2 log s3 →
    Refused env u d size s3 ∨ ∃ e ∈ log, AddedAfter env u d s2.clock e

/-- The device file is gone, and nothing remembers it. -/
structure Gone (t : Int) (s : Sys Unit) : Prop where
  absent : s.objects.get (keyDevice u.str d.str) = none
  uncached : keyDevice u.str d.str ∉ s.deviceCache
  later : t ≤ s.clock

/-- `add_device` accepts a proof that names the device and is at most five minutes old. -/
def Readmits (t : Int) (s : Sys Unit) (r : UserRequest) : Prop :=
  ∃ payload ts now, ProofFor env u d s r payload ∧
    env.parseRfc3339 payload.timestamp = some ts ∧ t ≤ now ∧ isFresh now ts = true

variable {env u d size} {r : UserRequest} {t0 : Int}

abbrev goneRules (u : UserId) (d : DeviceId) (t0 : Int) : Rules Unit (Sys Unit) :=
  .ofInvariant (Gone u d t0)

theorem gone_step {o : Op} {s t : Sys Unit} {res : Res o} (gone : Gone u d t0 s)
    (served : UserExec size (fun _ => r) () o s res t)
    (stays : o.Stays (· ≠ keyDevice u.str d.str) fun _ => True)
    (plain : ∀ key, o ≠ .deviceCacheSet key) : Gone u d t0 t := by
  have faulty := faulty_of_user served
  refine ⟨?_, fun member => gone.uncached (served_deviceCache faulty plain member),
    le_trans gone.later (served_clock faulty)⟩
  rcases served_get faulty (keyDevice u.str d.str) with same | ⟨data, put, _⟩ | ⟨_, absent⟩
  · rw [same]
    exact gone.absent
  · exact absurd rfl (stays.1 _ (by rw [put]; rfl))
  · exact absent

theorem gone_unnoticed {o : Op} (stays : o.Stays (· ≠ keyDevice u.str d.str) fun _ => True)
    (plain : ∀ key, o ≠ .deviceCacheSet key) :
    Unnoticed (goneRules u d t0) (UserExec size fun _ => r) () o :=
  .of fun _ _ _ gone served => ⟨gone_step gone served stays plain, trivial, trivial⟩

/-- A request alone, while the device is gone. -/
theorem gone_request {α : Type} {Q : α → Sys Unit → Prop} {o : Op} {k : Res o → Eff α}
    {s : Sys Unit} (R : Res o → Prop)
    (serves : ∀ s res t, Gone u d t0 s → UserExec size (fun _ => r) () o s res t →
      Gone u d t0 t ∧ R res)
    (rest : ∀ res t, R res → Safe (goneRules u d t0) (UserExec size fun _ => r) () Q (k res) t) :
    Safe (goneRules u d t0) (UserExec size fun _ => r) () Q (.op o k) s := by
  refine Safe.request (.pure True) trivial (fun s res t gone _ served => ?_) rest
  exact ⟨(serves s res t gone served).1, trivial, (serves s res t gone served).2⟩

/-- A device let in is another one: its file was found, or remembered. -/
theorem checkDevice_gone (key : String) (s : Sys Unit) :
    Safe (goneRules u d t0) (UserExec size fun _ => r) () (fun res _ => res = .ok () →
      key ≠ keyDevice u.str d.str) (checkDevice key).run s := by
  simp only [checkDevice, run_bind, run_call, ask_bind, Prog.op_bind, Prog.ret_bind]
  refine gone_request (fun seen => seen = true → key ≠ keyDevice u.str d.str)
    (fun s seen t gone served => ?_) fun seen t known => ?_
  · refine ⟨gone_step gone served (Op.stays_passive rfl) fun _ h => (by cases h), fun hit same => ?_⟩
    exact gone.uncached (same ▸ (served_deviceCacheValid (faulty_of_user served)).2 hit)
  · cases seen with
    | true => exact fun _ _ _ => known rfl
    | false =>
      simp only [Bool.false_eq_true, if_false, run_bind, run_call, ask_bind, Prog.ret_bind,
        Prog.op_bind]
      refine gone_request (fun found : Except StoreError Unit => found = .ok () →
        key ≠ keyDevice u.str d.str) (fun s found t gone served => ?_) fun found t known => ?_
      · refine ⟨gone_step gone served (Op.stays_passive rfl) fun _ h => (by cases h),
          fun ok same => ?_⟩
        rcases served_headObject (faulty_of_user served) with
          ⟨_, ⟨_, present⟩ | ⟨missing, _⟩ | ⟨_, _, _, fault⟩⟩
        · rw [same, gone.absent] at present
          cases present
        · rw [ok] at missing
          cases missing
        · rw [ok] at fault
          cases fault
      · rcases found with (_ | err) | _
        · exact fun _ _ wrong => by cases wrong
        · exact fun _ _ wrong => by cases wrong
        · refine gone_request (fun _ => True) (fun s _ t gone served => ?_)
            fun _ t _ => fun _ _ _ => known rfl
          rw [served_deviceCacheSet (faulty_of_user served)]
          refine ⟨⟨gone.absent, fun member => ?_, gone.later⟩, trivial⟩
          rcases List.mem_cons.mp member with same | old
          · exact known rfl same.symm
          · exact gone.uncached old

theorem guard_gone (token : Option String) (enforceKv : Bool) (s : Sys Unit) :
    Safe (goneRules u d t0) (UserExec size fun _ => r) () (fun res _ => ∀ user, res = .ok user →
      Token.identity env token = some user ∧
        keyDevice user.userId.str user.deviceId.str ≠ keyDevice u.str d.str)
      (authenticate env token enforceKv).run s := by
  cases known : Token.identity env token with
  | none =>
    simp only [authenticate, run_bind, known, run_orFail_none, Prog.ret_bind]
    exact fun _ _ _ wrong => by cases wrong
  | some user =>
    rw [authenticate_known known]
    simp only [admitUser, run_bind]
    refine Safe.bind (checkDevice_gone _ s) fun checked t differ => ?_
    cases checked with
    | error e => exact fun _ _ _ wrong => by cases wrong
    | ok =>
      have passes (v : Sys Unit) : Safe (goneRules u d t0) (UserExec size fun _ => r) ()
          (fun res _ => ∀ other, res = .ok other → some user = some other ∧
            keyDevice other.userId.str other.deviceId.str ≠ keyDevice u.str d.str)
          (.ret (.ok user) : Eff (Except ApiError AuthedUser)) v := by
        intro _ _ other same
        cases same
        exact ⟨rfl, differ rfl⟩
      cases enforceKv with
      | false => exact passes t
      | true =>
        simp only [if_true, run_bind]
        refine Safe.bind (Safe.only (.pure True) (fun o plain => gone_unnoticed
          (Op.stays_passive (Op.passive_of_guarding plain.1)) plain.2 _) (currentKeyVersion_plain _) trivial)
          fun current v _ => ?_
        cases current with
        | error e => exact fun _ _ _ wrong => by cases wrong
        | ok kv =>
          simp only [run_check, Prog.ret_bind]
          split
          · exact passes v
          · exact fun _ _ _ wrong => by cases wrong

theorem gone_confined : Confined (goneRules u d t0) (UserExec size fun _ => r) ()
    (· ≠ keyDevice u.str d.str) fun _ => True where
  quiet _ stays plain := gone_unnoticed stays plain
  guard env token enforceKv s :=
    (guard_gone token enforceKv s).weaken fun _ _ known user same => (known user same).1
  lists pre limit cursor := user_lists (fun o reads => gone_unnoticed
    (Op.stays_passive (Op.passive_of_reads reads)) fun key same => by rw [same] at reads; cases reads)
    pre limit cursor

/-- While the device is gone its tokens are refused. -/
theorem refused_of_gone {s : Sys Unit} (gone : Gone u d t0 s) : Refused env u d size s := by
  intro r user enforceKv a t known mine device run
  have let_in := ((guard_gone r.token? enforceKv s).runs gone run).2
  cases a with
  | error e => exact ⟨e, rfl⟩
  | ok other =>
    obtain ⟨same, differ⟩ := let_in other rfl
    rw [known] at same
    cases same
    rw [mine, device] at differ
    exact absurd rfl differ

/-! ### A revocation leaves the device gone -/

theorem removeDevice_ends (s : Sys Unit) :
    Ends (UserExec size (fun _ => r) ()) (removeDevice (keyDevice u.str d.str)).run s
      fun a t => a = .ok () → Gone u d t.clock t := by
  simp only [removeDevice, run_bind, run_tryStoreAs, run_call, ask_bind, Prog.op_bind]
  refine .op fun res t deleted => ?_
  rcases served_deleteObject (faulty_of_user deleted) with ⟨ok, rfl⟩ | ⟨⟨_, _, _, fault⟩, _⟩
  · rw [ok]
    simp only [Prog.ret_bind]
    refine .op fun _ v evicted => .ret fun _ => ?_
    rw [served_deviceCacheInvalidate (faulty_of_user evicted)]
    refine ⟨by simp [Sys.remove], fun member => ?_, le_rfl⟩
    exact absurd rfl (of_decide_eq_true (List.mem_filter.mp member).2)
  · rw [fault]
    exact .ret fun wrong => by cases wrong

theorem gone_of_revoked {s t : Sys Unit} (revokes : UserRequest.Revokes env u d r)
    (done : Runs (UserExec size (fun _ => r) ()) (r.run env).run s (.ok ()) t) :
    Gone u d t.clock t := by
  have failed {e : ApiError} {v : Sys Unit} :
      (Except.error e : Except ApiError Unit) = .ok () → Gone u d v.clock v :=
    fun wrong => nomatch wrong
  cases r with
  | deleteDevice token =>
    obtain ⟨user, known, rfl, rfl⟩ := revokes
    refine (Ends.andThen (Ends.of_only (authenticate_passive env token true))
      (fun _ _ _ => failed) fun other v identified => ?_ :
        Ends _ (deleteDevice env token).run s fun a v => a = .ok () → Gone _ _ v.clock v)
      _ _ done rfl
    have same := identified other rfl
    rw [known] at same
    cases same
    exact removeDevice_ends v
  | revokeDevice token body =>
    obtain ⟨user, req, known, rfl, parsed, device⟩ := revokes
    refine (Ends.andThen (Ends.of_only (authenticate_passive env token true))
      (fun _ _ _ => failed) fun other v identified => ?_ :
        Ends _ (revokeDevice env token body).run s fun a v => a = .ok () → Gone _ d v.clock v)
      _ _ done rfl
    have same := identified other rfl
    rw [known] at same
    cases same
    refine Ends.orFail (fun _ => failed) fun req' parsed' => ?_
    have req_eq : req' = req := Option.some.inj (parsed'.symm.trans parsed)
    subst req_eq
    refine Ends.read (fun _ _ _ => failed) fun bytes v _ => ?_
    refine Ends.orFail (fun _ => failed) fun profile _ => ?_
    refine Ends.andThen Interaction.Ends.trivial (fun _ _ _ => failed) fun payload v _ => ?_
    rw [device]
    exact removeDevice_ends v
  | _ => exact revokes.elim

/-! ### What keeps the device gone -/

theorem verify_ends {profile : Profile} {proof : AuthProof} {s : Sys Unit} (gone : Gone u d t0 s) :
    Ends (UserExec size (fun _ => r) ()) (verifyAccountProof env profile proof).run s fun a t =>
      Gone u d t0 t ∧ ∀ payload, a = .ok payload → ∃ pubkey now,
        decodeAuthKey profile.authPublicKey = some pubkey ∧ s.clock ≤ now ∧
          verifyProof env pubkey proof now = some payload := by
  refine Ends.orFail (fun _ => ⟨gone, fun _ wrong => nomatch wrong⟩) fun pubkey decoded => ?_
  refine Ends.call fun now t read => ?_
  have later := (served_utcNow (faulty_of_user read)).1
  have still : Gone u d t0 t :=
    gone_step gone read (Op.stays_passive rfl) fun _ h => nomatch h
  refine Ends.orFail (fun _ => ⟨still, fun _ wrong => nomatch wrong⟩) fun payload verified => ?_
  refine Ends.checked (fun _ => ⟨still, fun _ wrong => nomatch wrong⟩) fun _ => .ret ⟨still, ?_⟩
  intro other same
  cases same
  exact ⟨pubkey, now, decoded, later, verified⟩

theorem addDevice_gone {body : Option Json} {s : Sys Unit} (gone : Gone u d t0 s) :
    Ends (UserExec size (fun _ => r) ()) (addDevice env body).run s fun _ t =>
      Gone u d t0 t ∨ Readmits env u d t0 s (.addDevice body) := by
  refine Ends.orFail (fun _ => .inl gone) fun req parsed => ?_
  refine Ends.orFail (fun _ => .inl gone) fun uid named => ?_
  have reading {res : Res (.getObject (keyProfile uid.str))} {t : Sys Unit}
      (read : UserExec size (fun _ => r) () (.getObject (keyProfile uid.str)) s res t) :
      Gone u d t0 t := gone_step gone read (Op.stays_passive rfl) fun _ h => by cases h
  refine Ends.read (fun _ _ read => .inl (reading read)) fun bytes t read => ?_
  refine Ends.orFail (fun _ => .inl (reading read)) fun profile stored => ?_
  obtain ⟨same, found | ⟨_, _, _, fault⟩⟩ := served_getObject (faulty_of_user read)
  · refine Ends.andThen (verify_ends (reading read)) (fun _ _ after => .inl after.1)
      fun payload v verified => ?_
    obtain ⟨still, known⟩ := verified
    obtain ⟨pubkey, now, decoded, later, accepted⟩ := known payload rfl
    refine Ends.orFail (fun _ => .inl still) fun did device => ?_
    refine Ends.call fun stamp v clock => ?_
    have still : Gone u d t0 v := gone_step still clock (Op.stays_passive rfl) fun _ h => by cases h
    -- the one write: it re-creates the file only for a proof that names the device
    have writes : Ends (UserExec size (fun _ => r) ())
        (tryStore (ask (.putObject (keyDevice uid.str did.str)
          (deviceFile did.str req.deviceLabel (env.formatSecs stamp))))).run v
        fun _ w => Gone u d t0 w ∨ Readmits env u d t0 s (.addDevice body) := by
      refine .op fun res w wrote => ?_
      have ended : Gone u d t0 w ∨ Readmits env u d t0 s (.addDevice body) := by
        by_cases mine : keyDevice uid.str did.str = keyDevice u.str d.str
        · obtain ⟨users, devices⟩ := keyDevice_inj mine
          -- the proof was checked against the stored auth key, at a time after the removal
          obtain ⟨ts, parsedStamp, fresh⟩ := verifyProof_fresh accepted
          rw [same] at later
          refine .inr ⟨payload, ts, now, ⟨⟨body, req, profile, pubkey, now, rfl, parsed, ?_, ?_,
            decoded, later, accepted⟩, ?_⟩, parsedStamp, le_trans gone.later later, fresh⟩
          · rw [← UserId.new_str named, users]
          · rw [← users, profileOf, lookup_eq_ok.mp found.symm]
            exact stored
          · rw [← DeviceId.new_str device, devices]
        · exact .inl (gone_step still wrote (Op.stays_put mine) fun _ h => by cases h)
      cases res <;> exact .ret ended
    exact Ends.andThen writes (fun _ _ ended => ended) fun _ _ ended => .ret ended
  · cases fault

/-- Every request of the account other than an upload of the device file. -/
theorem request_gone {s t : Sys Unit} {a : Except ApiError Unit} (gone : Gone u d t0 s)
    (spares : ∀ bytes, r ≠ .upload (keyDevice u.str d.str) bytes)
    (run : Runs (UserExec size (fun _ => r) ()) (r.run env).run s a t) :
    Gone u d t0 t ∨ Readmits env u d t0 s r := by
  have c : Confined (goneRules u d t0) (UserExec size fun _ => r) () _ _ := gone_confined
  have profile (user : UserId) : keyProfile user.str ≠ keyDevice u.str d.str :=
    (device_ne_profile user u d.str).symm
  have handle (name : String) : keyHandle name ≠ keyDevice u.str d.str :=
    keyHandle_ne_device _ _ _
  have data (key root : String) (member : root ∈ DATA_PREFIXES)
      (within : startsWith key root = true) : key ≠ keyDevice u.str d.str := by
    rw [keyDevice_eq]
    exact data_ne_user member within _ _
  have kept (safe : Keeps (goneRules u d t0) (UserExec size fun _ => r) () (r.run env) s) :
      Gone u d t0 t ∨ Readmits env u d t0 s r := .inl (safe.runs gone run).1
  -- each handler writes outside the device files, or files of another device
  cases r with
  | storeList token pre cursor => exact kept (Keeps.bind (c.storeList pre cursor) fun _ _ => Keeps.ret _)
  | storeObject token key => exact kept (Keeps.bind (c.storeObject key) fun _ _ => Keeps.ret _)
  | storeUsage token => exact kept (Keeps.bind c.storeUsage fun _ _ => Keeps.ret _)
  | deleteObject token key => exact kept (c.deleteObject fun _ _ _ _ _ => trivial)
  | storePresign token body => exact kept (c.storePresign body)
  -- the upload is the excepted one
  | upload key bytes =>
    refine kept (Keeps.tryStore (c.asks (Op.stays_put fun same => ?_) fun _ h => (nomatch h)))
    exact spares bytes (by rw [same])
  -- the one way back in
  | addDevice body =>
    have ends : Ends (UserExec size (fun _ => .addDevice body) ())
        (UserRequest.reply (addDevice env body)).run s
        fun _ w => Gone u d t0 w ∨ Readmits env u d t0 s (.addDevice body) :=
      Ends.andThen (addDevice_gone gone) (fun _ _ ended => ended) fun _ _ ended => .ret ended
    exact ends _ _ run
  | storeCompact pages token body =>
    exact kept (Keeps.bind (c.storeCompact data fun _ _ _ _ => trivial) fun _ _ => Keeps.ret _)
  | updateProfile token body =>
    exact kept (c.updateProfile (fun user _ => profile user.userId) handle)
  | deleteProfile token => exact kept (c.deleteProfile handle fun _ _ _ _ _ _ => trivial)
  | deleteDevice token => exact kept (c.deleteDevice fun _ _ => trivial)
  | revokeDevice token body => exact kept (c.revokeDevice fun _ _ _ => trivial)
  | send token body =>
    exact kept (c.send (fun uid msgId => data _ "inbox/" (by simp [DATA_PREFIXES])
      (inboxLive_data uid msgId)) body)
  | rotateKeys token body =>
    refine kept (Keeps.bind (c.rotateKeys (fun user _ => profile user.userId) handle
      fun user rid _ => ?_) fun _ _ => Keeps.ret _)
    exact (device_ne_record u user.userId d.str rid).symm
  | events token => exact kept (c.events fun user _ => profile user.userId)

theorem revocation_lasts {s1 s2 s3 : Sys Unit}
    {log : List (Exchange UserRequest (Except ApiError Unit) (Sys Unit))}
    (revokes : UserRequest.Revokes env u d r)
    (done : Runs (UserExec size (fun _ => r) ()) (r.run env).run s1 (.ok ()) s2)
    (session : UserSession env size s2 log s3)
    (spared : ∀ e ∈ log, ∀ bytes, e.request ≠ .upload (keyDevice u.str d.str) bytes) :
    Refused env u d size s3 ∨ ∃ e ∈ log, Readmits env u d s2.clock e.before e.request := by
  have start : Gone u d s2.clock s2 := gone_of_revoked revokes done
  rcases session.keeps start fun e member t run gone =>
    request_gone gone (spared e member) run with gone | readmitted
  · exact .inl (refused_of_gone gone)
  · exact .inr readmitted

end Revocation

/-! ### Sample sessions -/

section Samples

open Sample

abbrev sized (_ : Data) : Nat := 64

/-- Run a request on a list of choices. -/
abbrev served (env : Env) (r : UserRequest) (cs : List Choice) (s : Sys Unit) :
    Option (Except ApiError Unit × Sys Unit) :=
  (r.run env).run.evaluate (userRun sized (fun _ => r) ()) cs s

/-- Serve the requests in turn; the latest comes first in the log. -/
def serveAll (env : Env) : List (UserRequest × List Choice) →
    List (Exchange UserRequest (Except ApiError Unit) (Sys Unit)) → Sys Unit →
    Option (List (Exchange UserRequest (Except ApiError Unit) (Sys Unit)) × Sys Unit)
  | [], log, s => some (log, s)
  | (r, cs) :: rest, log, s => match served env r cs s with
    | some (a, t) => serveAll env rest (⟨s, r, a⟩ :: log) t
    | none => none

theorem session_of_serveAll {env : Env} {plan : List (UserRequest × List Choice)}
    {log log' : List (Exchange UserRequest (Except ApiError Unit) (Sys Unit))} {s0 s t : Sys Unit}
    (session : UserSession env sized s0 log s) (all : serveAll env plan log s = some (log', t)) :
    UserSession env sized s0 log' t := by
  induction plan generalizing log s with
  | nil => cases all; exact session
  | cons e rest ih =>
    obtain ⟨r, cs⟩ := e
    simp only [serveAll] at all
    split at all
    next a u ran => exact ih (.next session (runs_of_evaluate ran)) all
    next => cases all

theorem serveAll_requests {env : Env} {plan : List (UserRequest × List Choice)}
    {log log' : List (Exchange UserRequest (Except ApiError Unit) (Sys Unit))} {s t : Sys Unit}
    (all : serveAll env plan log s = some (log', t)) :
    log'.map Exchange.request = (plan.map Prod.fst).reverse ++ log.map Exchange.request := by
  induction plan generalizing log s with
  | nil => cases all; rfl
  | cons e rest ih =>
    obtain ⟨r, cs⟩ := e
    simp only [serveAll] at all
    split at all
    next a u ran => simp [ih all]
    next => cases all

def tablet : DeviceId := ⟨"01BX5ZZKBKACTAV9WEVGEMMVS4", by decide +kernel⟩

/-- The sample account's environment, with the MAC of a token of the tablet. -/
def pairEnv : Env :=
  { env with
    hmac := fun _ message =>
      if message = Token.utf8 (uid ++ "." ++ tablet.str ++ ".1") then
        [229, 159, 160, 245, 74, 52, 47, 114, 75, 223, 23, 196, 28, 98, 172, 175, 230, 244, 152, 143,
          255, 229, 241, 136, 154, 27, 23, 40, 251, 83, 211, 89]
      else mac message }

def tabletToken : Option String :=
  some ("MDFBUlozTkRFS1RTVjRSUkZGUTY5RzVGQVYuMDFCWDVaWktCS0FDVEFWOVdFVkdFTU1WUzQuMS41Wi1nOVVv" ++
    "MEwzSkwzeGZFSEdLc3ItYjBtSV9fNWZHSW1oc1hLUHRUMDFr")

theorem pairEnv_user : Token.identity pairEnv token = some authed := by decide +kernel

theorem pairEnv_tablet : Token.identity pairEnv tabletToken = some ⟨user, tablet, .ONE⟩ := by
  decide +kernel

/-- An account with two devices, ten seconds after the proof of `readmission` was signed. -/
def paired : Sys Unit where
  objects := store.insert (keyDevice uid tablet.str) (deviceFile tablet.str "tablet" epoch)
  clock := 10 * second

/-- Ask for a URL to upload 64 bytes under the key. -/
def presign (key : String) : UserRequest :=
  .storePresign token (some (.obj [("key", .str key), ("bytes", .ofU32 64)]))

def removal : UserRequest := .deleteDevice token

def comeback : UserRequest := .addDevice (some readmission)


theorem removal_revokes : UserRequest.Revokes pairEnv user device removal :=
  ⟨authed, pairEnv_user, rfl, rfl⟩

/-! ### A proof from before the revocation -/

theorem comeback_observed : (served pairEnv removal (List.replicate 8 .ok) paired).any fun x =>
    decide (x.1 = .ok () ∧ x.2.clock = 10 * second) &&
    (served pairEnv comeback [.ok, .read (10 * second), .read (10 * second), .ok] x.2).any fun y =>
      decide (y.1 = .ok ()) &&
      ((authenticate pairEnv token false).run.evaluate (userRun sized (fun _ => removal) ())
        (List.replicate 3 .ok) y.2).any fun z => z.1.isOk := by
  simp only [served, removal, UserRequest.run, deleteDevice, authenticate_known pairEnv_user]
  decide +kernel

/-- Where the guard has let in a token of the device, its tokens are not refused. -/
theorem not_refused {s : Sys Unit} (admitted : ((authenticate pairEnv token false).run.evaluate
    (userRun sized (fun _ => removal) ()) (List.replicate 3 .ok) s).any (fun z => z.1.isOk) = true) :
    ¬ Refused pairEnv user device sized s := by
  intro refused
  obtain ⟨⟨_ | other, t⟩, run, isOk⟩ := (Option.any_eq_true _ _).mp admitted
  · cases isOk
  obtain ⟨_, wrong⟩ := refused removal authed false _ _ pairEnv_user rfl rfl (runs_of_evaluate run)
  cases wrong

/-- The revoked device adds itself again with a proof it had signed before. -/
theorem readmitted_by_old_proof : ¬ RevocationPermanent pairEnv user device sized := by
  intro permanent
  obtain ⟨⟨_, s2⟩, revoked, observed⟩ := (Option.any_eq_true _ _).mp comeback_observed
  obtain ⟨here, observed⟩ := (Bool.and_eq_true _ _).mp observed
  obtain ⟨rfl, clock⟩ := of_decide_eq_true here
  obtain ⟨⟨_, s3⟩, added, observed⟩ := (Option.any_eq_true _ _).mp observed
  obtain ⟨here, admitted⟩ := (Bool.and_eq_true _ _).mp observed
  cases of_decide_eq_true here
  have session : UserSession pairEnv sized s2 [⟨s2, comeback, .ok ()⟩] s3 :=
    .next .start (runs_of_evaluate added)
  rcases permanent removal _ _ _ _ removal_revokes (runs_of_evaluate revoked) session with
    refused | ⟨e, member, payload, ts, _, _, stamp, later⟩
  · exact not_refused admitted refused
  · simp only [pairEnv, env, Option.ite_none_right_eq_some, Option.some.injEq] at stamp
    rw [← stamp.2, clock] at later
    exact absurd later (by decide)

/-! ### URLs from before the revocation -/

def heldKey : String := "keys/01ARZ3NDEKTSV4RRFFQ69G5FAV/live/s"

/-- Before it is removed, the device asks for a URL for a backup and one for its own file. -/
def before : List (UserRequest × List Choice) :=
  [(presign heldKey, List.replicate 7 .ok), (presign (keyDevice uid did), List.replicate 3 .ok)]

/-- After that, it asks for something, and uploads the backup; the tablet asks, too. -/
def afterwards : List (UserRequest × List Choice) :=
  [(.storeUsage token, List.replicate 2 .ok), (.upload heldKey (.json .null), [.ok]),
    (.storeUsage tabletToken, List.replicate 4 .ok ++ [.usage 0 0])]

theorem afterwards_observed : (serveAll pairEnv before [] paired).any fun x =>
    (served pairEnv removal (List.replicate 4 .ok) x.2).any fun y => decide (y.1 = .ok ()) &&
      ((serveAll pairEnv afterwards [] y.2).any fun z =>
        decide (z.1.map (fun e => e.answer.isOk) = [true, true, false])) &&
      (served pairEnv (.upload (keyDevice uid did) (deviceFile did "phone" epoch)) [.ok] y.2).any fun z =>
        decide (z.1 = .ok ()) &&
        ((authenticate pairEnv token false).run.evaluate (userRun sized (fun _ => removal) ())
          (List.replicate 3 .ok) z.2).any fun z => z.1.isOk := by
  simp only [before, afterwards, serveAll, served, removal, presign, UserRequest.run, storePresign,
    deleteDevice, storeUsage, authenticate_known pairEnv_user, authenticate_known pairEnv_tablet]
  decide +kernel

/-- The device stays out while its upload and the tablet's requests go on. -/
theorem removal_lasts : ∃ s1 s2 s3 log,
    Runs (UserExec sized (fun _ => removal) ()) (removal.run pairEnv).run s1 (.ok ()) s2 ∧
      UserSession pairEnv sized s2 log s3 ∧
      log.map Exchange.request = (afterwards.map Prod.fst).reverse ∧
      log.map (fun e => e.answer.isOk) = [true, true, false] ∧ Refused pairEnv user device sized s3 := by
  obtain ⟨⟨_, s1⟩, _, observed⟩ := (Option.any_eq_true _ _).mp afterwards_observed
  obtain ⟨⟨_, s2⟩, revoked, observed⟩ := (Option.any_eq_true _ _).mp observed
  obtain ⟨observed, _⟩ := (Bool.and_eq_true _ _).mp observed
  obtain ⟨here, observed⟩ := (Bool.and_eq_true _ _).mp observed
  cases of_decide_eq_true here
  obtain ⟨⟨log, s3⟩, all, answers⟩ := (Option.any_eq_true _ _).mp observed
  have done := runs_of_evaluate revoked
  have session := session_of_serveAll .start all
  have asked : log.map Exchange.request = (afterwards.map Prod.fst).reverse := by
    rw [serveAll_requests all, List.map_nil, List.append_nil]
  have among (e : Exchange UserRequest (Except ApiError Unit) (Sys Unit)) (member : e ∈ log) :
      e.request ∈ (afterwards.map Prod.fst).reverse := asked ▸ List.mem_map_of_mem member
  refine ⟨s1, s2, s3, log, done, session, asked, of_decide_eq_true answers,
    (revocation_lasts removal_revokes done session fun e member bytes same => ?_).resolve_right ?_⟩
  · have here := among e member
    rw [same] at here
    simp only [afterwards, List.map_cons, List.map_nil, List.reverse_cons, List.reverse_nil,
      List.nil_append, List.cons_append, List.mem_cons, reduceCtorEq, UserRequest.upload.injEq,
      List.not_mem_nil, or_false, false_or] at here
    exact absurd here.1 (by decide +kernel)
  · rintro ⟨e, member, _, _, _, ⟨⟨body, _, _, _, _, same, _⟩, _⟩, _⟩
    have here := among e member
    rw [same] at here
    simp [afterwards] at here

/-- The other URL lets the device in again. -/
theorem readmitted_by_upload : ∃ log s1 s2 s3 bytes, UserSession pairEnv sized paired log s1 ∧
    Runs (UserExec sized (fun _ => removal) ()) (removal.run pairEnv).run s1 (.ok ()) s2 ∧
      UserSession pairEnv sized s2 [⟨s2, .upload (keyDevice user.str device.str) bytes, .ok ()⟩] s3 ∧
      ¬ Refused pairEnv user device sized s3 := by
  obtain ⟨⟨log, s1⟩, first, observed⟩ := (Option.any_eq_true _ _).mp afterwards_observed
  obtain ⟨⟨_, s2⟩, revoked, observed⟩ := (Option.any_eq_true _ _).mp observed
  obtain ⟨observed, uploads⟩ := (Bool.and_eq_true _ _).mp observed
  obtain ⟨here, _⟩ := (Bool.and_eq_true _ _).mp observed
  cases of_decide_eq_true here
  obtain ⟨⟨_, s3⟩, uploaded, observed⟩ := (Option.any_eq_true _ _).mp uploads
  obtain ⟨here, admitted⟩ := (Bool.and_eq_true _ _).mp observed
  cases of_decide_eq_true here
  exact ⟨log, s1, s2, s3, _, session_of_serveAll .start first, runs_of_evaluate revoked,
    .next .start (runs_of_evaluate uploaded), not_refused admitted⟩

end Samples

end Atmin
