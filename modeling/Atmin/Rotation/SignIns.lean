import Atmin.Access.AuthProofs
import Atmin.Rotation.ChainRace
import Atmin.Web.SignIn

/-!
# Sessions of an account whose password changes

Sign-ins, changes of the password and revocations on any devices of one account, interleaved
request by request with each other and with whatever else leaves the profile alone. On top of the
order of the rotations, each link of the chain wraps the key of a version that was stored, and
each session has the keys of its version.
-/

namespace Atmin.Web

open Interaction

/-! ### Who takes the steps -/

/-- Requests that leave the profile, the rotation lock and the rotation records alone. -/
structure Neutral (u : UserId) (o : Op) : Prop extends Aside u o where
  records : ∀ rid, o.puts (keyRotationRecord u.str rid) = none ∧
    o.removes (keyRotationRecord u.str rid) = false

theorem neutral_passive {u : UserId} {o : Op} (passive : o.passive = true) : Neutral u o :=
  ⟨aside_passive passive, fun _ => ⟨Op.puts_passive passive _, Op.removes_passive passive _⟩⟩

theorem neutral_putDevice (u v : UserId) (did : String) (d : Data) :
    Neutral u (.putObject (keyDevice v.str did) d) :=
  ⟨aside_put (device_ne_profile u v did).symm d, fun rid =>
    ⟨by simp [Op.puts, (device_ne_record v u did rid).symm], rfl⟩⟩

theorem neutral_deleteDevice (u v : UserId) (did : String) :
    Neutral u (.deleteObject (keyDevice v.str did)) where
  puts := rfl
  removes := by simp [Op.removes, (device_ne_profile u v did).symm]
  lock := by simp [Op.lock?]
  records rid := ⟨rfl, by simp [Op.removes, (device_ne_record v u did rid).symm]⟩

/-- What a page of the account does, and what else the server is asked. -/
inductive ClientTask (CryptoKey : Type) where
  | signIn (builtins : FormBuiltins) (form : SignIn)
  | changePassword (session : Session CryptoKey) (submission : Submission)
  | revoke (revocation : DeviceRevocation)
  | other (handler : Handler Unit)

/-- How a task has ended. -/
inductive Ended (CryptoKey : Type) where
  | session (session : Session CryptoKey)
  | revoked
  | nothing

variable {ι Secret CryptoKey : Type}

namespace ClientTask

variable (crypto : WebCrypto Secret CryptoKey) (env : Env) (u : UserId)

def prog : ClientTask CryptoKey → SubmitProg (Ended CryptoKey)
  | signIn builtins form => (handleLogin crypto env builtins form).bind fun
    | .ok session => .ret (.session session)
    | .error _ => .ret .nothing
  | changePassword session submission =>
    (Web.changePassword crypto env session submission).bind fun
      | (_, some session) => .ret (.session session)
      | (_, none) => .ret .nothing
  | revoke revocation => (handleRevoke crypto env revocation).bind fun
    | .ok () => .ret .revoked
    | .error _ => .ret .nothing
  | other handler => (onHandler handler).bind fun _ => .ret .nothing

/-- The password that is asked for. -/
def password : ClientTask CryptoKey → String
  | signIn _ form => form.secretInput
  | changePassword _ submission => submission.currentPassword
  | revoke revocation => revocation.secretInput
  | other _ => ""

def requestId : ClientTask CryptoKey → Option String
  | changePassword _ submission => some submission.requestId
  | _ => none

/-- Tokens that authenticate are those of this account, and it is this account that others spare. -/
def OnAccount : ClientTask CryptoKey → Prop
  | signIn .. => True
  | changePassword _ submission =>
    ∀ user, Token.identity env (some submission.token) = some user → user.userId = u
  | revoke revocation =>
    ∀ user, Token.identity env (some revocation.token) = some user → user.userId = u
  | other handler => Prog.Only (Neutral u) (fun _ => True) handler.run

end ClientTask

/-- The tasks of the account, with every append and every commit in time. -/
def clients [DecidableEq ι] (crypto : WebCrypto Secret CryptoKey) (env : Env) (u : UserId)
    (each : ι → ClientTask CryptoKey) :
    System ι SubmitAct SubmitReply (Ended CryptoKey) (Rotating ι) where
  prog i := (each i).prog crypto env
  exec := execOf (performTimely u)

/-! ### Keys and versions -/

/-- What the cryptography is relied on for. -/
structure Ideal (env : Env) (crypto : WebCrypto Secret CryptoKey) : Prop where
  /-- A signature is accepted under no other key than the one that goes with the signing key. -/
  signs : ∀ secret keys key payload, crypto.deriveKeys secret = some keys →
    verify env key payload (keys.sign payload) = true → key = keys.authPublicKey
  /-- What opens at all opens to what was sealed. -/
  opens : ∀ key key' iv iv' plain plain',
    crypto.decrypt key iv (crypto.encrypt key' iv' plain) = some plain' → plain' = plain
  imports : ∀ key, crypto.importKey (crypto.exportKey key) = some key
  /-- Secrets with the same auth key are the same to the backups. -/
  apart : ∀ secret secret' keys keys', crypto.deriveKeys secret = some keys →
    crypto.deriveKeys secret' = some keys' → keys.authPublicKey = keys'.authPublicKey →
      keys.backupKey = keys'.backupKey

section Knowledge

variable (crypto : WebCrypto Secret CryptoKey)

/-- The keys come from the password. -/
def DerivedFrom (password : String) (keys : DerivedKeys CryptoKey) : Prop :=
  ∃ salt kdf secret, crypto.argonStretch password salt kdf = some secret ∧
    crypto.deriveKeys secret = some keys

/-- The keys of a version. -/
def Belongs (c : Credential) (keys : DerivedKeys CryptoKey) : Prop :=
  (∃ secret, crypto.deriveKeys secret = some keys) ∧
    decodeAuthKey c.authPublicKey = some keys.authPublicKey

/-- The password is that of a version from `v` on. -/
def Knows (password : String) (v : Nat) (s : Rotating ι) : Prop :=
  ∃ c ∈ s.versions, v ≤ c.currentKv.toNat ∧ ∃ keys, DerivedFrom crypto password keys ∧
    Belongs crypto c keys

/-- The session has the keys of its version. -/
def Session.Fits (session : Session CryptoKey) (s : Rotating ι) : Prop :=
  ∃ c ∈ s.versions, (c.currentKv.toNat : Int) = session.keyVersion ∧ Belongs crypto c session.keys

/-- A link that wraps the backup key of a version that was stored. -/
def Wrapping (versions : List Credential) (link : KeyChainLink) : Prop :=
  ∃ c ∈ versions, ∃ keys, Belongs crypto c keys ∧ ∃ toVersion newer iv,
    link = buildChainLink crypto c.currentKv.toNat toVersion keys.backupKey newer iv

/-- There are no other links. -/
def AllWrapping (versions : List Credential) (links : List Js) : Prop :=
  ∀ l ∈ links, ∃ link : KeyChainLink, l = link.toJs ∧ Wrapping crypto versions link

/-- A version from `v` on is stored. -/
def AtLeast (v : Nat) (s : Rotating ι) : Prop := ∃ c ∈ s.versions, v ≤ c.currentKv.toNat

/-- No outcome of a task's rotation is on record. -/
def Unrecorded (u : UserId) (task : ClientTask CryptoKey) (s : Rotating ι) : Prop :=
  ∀ rid, task.requestId = some rid → recordOf u rid s.server = none

end Knowledge

/-! ### What a task may do -/

section Rules

variable (crypto : WebCrypto Secret CryptoKey) (u : UserId) (each : ι → ClientTask CryptoKey)

/-- No version is forgotten, and only the own rotation is put on record. -/
structure Moved (task : ClientTask CryptoKey) (s t : Rotating ι) : Prop where
  versions : s.versions ⊆ t.versions
  records : ∀ rid, task.requestId ≠ some rid → recordOf u rid t.server = recordOf u rid s.server

def clientRules : Rules ι (Rotating ι) where
  inv s := AllWrapping crypto s.versions (storedLinks s.chain)
  guar i := Moved u (each i)
  rely j s t := ∃ i, i ≠ j ∧ Moved u (each i) s t
  compat i _ differ _ _ _ _ moved := ⟨i, differ, moved⟩

/-- The steps of a task, as far as they keep the order of the rotations. -/
abbrev ClientExec [DecidableEq ι] :
    ι → (act : SubmitAct) → Rotating ι → SubmitReply act → Rotating ι → Prop :=
  (chainRules crypto u).lawful (execOf (performTimely u))

end Rules

section Stability

variable {crypto : WebCrypto Secret CryptoKey} {u : UserId} {each : ι → ClientTask CryptoKey}
  {s t : Rotating ι} {versions versions' : List Credential}

theorem Wrapping.grows {link : KeyChainLink} (wrapping : Wrapping crypto versions link)
    (grown : versions ⊆ versions') : Wrapping crypto versions' link := by
  obtain ⟨c, member, rest⟩ := wrapping
  exact ⟨c, grown member, rest⟩

theorem AllWrapping.grows {links : List Js} (all : AllWrapping crypto versions links)
    (grown : versions ⊆ versions') : AllWrapping crypto versions' links := by
  intro l member
  obtain ⟨link, same, wrapping⟩ := all l member
  exact ⟨link, same, wrapping.grows grown⟩

theorem Knows.grows {password : String} {v : Nat} (knows : Knows crypto password v s)
    (grown : s.versions ⊆ t.versions) : Knows crypto password v t := by
  obtain ⟨c, member, rest⟩ := knows
  exact ⟨c, grown member, rest⟩

theorem Session.Fits.grows {session : Session CryptoKey} (fits : session.Fits crypto s)
    (grown : s.versions ⊆ t.versions) : session.Fits crypto t := by
  obtain ⟨c, member, rest⟩ := fits
  exact ⟨c, grown member, rest⟩

theorem AtLeast.grows {v : Nat} (least : AtLeast v s) (grown : s.versions ⊆ t.versions) :
    AtLeast v t := by
  obtain ⟨c, member, above⟩ := least
  exact ⟨c, grown member, above⟩

/-- What the versions decide, once and for all. -/
def outlasting {i : ι} (A : Rotating ι → Prop)
    (grows : ∀ s t, s.versions ⊆ t.versions → A s → A t) : (clientRules crypto u each).Assertion i :=
  ⟨A, fun s t _ _ ⟨_, _, moved⟩ here => grows s t moved.versions here⟩

end Stability

/-! ### What a handler asks for -/

section Asking

variable {α β : Type} {ok : Op → Prop}

/-- Every request of the handler is one of these. -/
abbrev Asks (ok : Op → Prop) (h : Handler α) : Prop := Prog.Only ok (fun _ => True) h.run

theorem Asks.ret (r : Except ApiError α) :
    Prog.Only ok (fun _ => True) (.ret r : Eff (Except ApiError α)) := .ret trivial

theorem Asks.bind {h : Handler α} {f : α → Handler β} (first : Asks ok h) (rest : ∀ a, Asks ok (f a)) :
    Asks ok (h >>= f) := by
  unfold Asks
  rw [run_bind]
  apply Prog.Only.bind first
  intro r _
  cases r with
  | ok a => exact rest a
  | error e => exact .ret trivial

theorem Asks.orFail (e : ApiError) (o : Option α) : Asks ok (Atmin.orFail e o) := by
  cases o <;> exact Prog.Only.ret trivial

theorem Asks.check (e : ApiError) (c : Bool) : Asks ok (Atmin.check e c) := by
  cases c <;> exact Prog.Only.ret trivial

theorem Asks.call {o : Op} (allowed : ok o) : Asks ok (Atmin.call (ask o)) :=
  .op allowed fun _ => .ret trivial

theorem Asks.tryStoreAs {p : Eff (Except StoreError α)} (e : ApiError)
    (only : Prog.Only ok (fun _ => True) p) : Asks ok (Atmin.tryStoreAs e p) := by
  unfold Asks
  rw [run_tryStoreAs]
  apply Prog.Only.bind only
  intro r _
  cases r <;> exact .ret trivial

theorem Asks.tryStore {p : Eff (Except StoreError α)} (only : Prog.Only ok (fun _ => True) p) :
    Asks ok (Atmin.tryStore p) := by
  unfold Asks
  rw [run_tryStore]
  apply Prog.Only.bind only
  intro r _
  cases r <;> exact .ret trivial

theorem Asks.request {o : Op} (allowed : ok o) : Prog.Only ok (fun _ => True) (ask o) :=
  .op allowed fun _ => .ret trivial

theorem verifyAccountProof_neutral {u : UserId} {env : Env} (profile : Profile) (proof : AuthProof) :
    Asks (Neutral u) (verifyAccountProof env profile proof) := by
  apply Asks.bind (.orFail _ _)
  intro key
  apply Asks.bind (.call (neutral_passive rfl))
  intro now
  apply Asks.bind (.orFail _ _)
  intro payload
  apply Asks.bind (.check _ _)
  intro current
  exact .ret _

theorem addDevice_neutral (u : UserId) (env : Env) (body : Option Json) :
    Asks (Neutral u) (addDevice env body) := by
  apply Asks.bind (.orFail _ _)
  intro req
  apply Asks.bind (.orFail _ _)
  intro uid
  apply Asks.bind (.tryStore (Asks.request (o := .getObject _) (neutral_passive rfl)))
  intro bytes
  apply Asks.bind (.orFail _ _)
  intro profile
  apply Asks.bind (verifyAccountProof_neutral profile _)
  intro payload
  apply Asks.bind (.orFail _ _)
  intro did
  apply Asks.bind (.call (neutral_passive rfl))
  intro stamp
  apply Asks.bind (.tryStore (Asks.request (neutral_putDevice u uid _ _)))
  intro written
  exact .ret _

theorem removeDevice_neutral (u v : UserId) (did : String) :
    Asks (Neutral u) (removeDevice (keyDevice v.str did)) := by
  apply Asks.bind (.tryStoreAs _ (Asks.request (neutral_deleteDevice u v did)))
  intro removed
  exact .call (neutral_passive rfl)

theorem revokeDevice_neutral (u : UserId) (env : Env) (token : Option String) (body : Option Json) :
    Asks (Neutral u) (revokeDevice env token body) := by
  have guarded : Asks (Neutral u) (authenticate env token true) :=
    ((authenticate_passive env token true).mono fun _ passive => neutral_passive passive).weaken
      fun _ _ => trivial
  apply Asks.bind guarded
  intro user
  apply Asks.bind (.orFail _ _)
  intro req
  apply Asks.bind (.tryStore (Asks.request (o := .getObject _) (neutral_passive rfl)))
  intro bytes
  apply Asks.bind (.orFail _ _)
  intro profile
  apply Asks.bind (verifyAccountProof_neutral profile _)
  intro payload
  exact removeDevice_neutral u user.userId req.deviceId

theorem resolve_neutral (u : UserId) (env : Env) (handle : String) :
    Asks (Neutral u) (Atmin.resolve env handle) := by
  apply Asks.bind (.tryStore (Asks.request (o := .getObject _) (neutral_passive rfl)))
  intro bytes
  apply Asks.bind (.orFail _ _)
  intro h
  split
  next => exact .ret _
  next =>
    -- A tombstone: the clock decides what is answered.
    apply Asks.bind (.orFail _ _)
    intro released
    apply Asks.bind (.call (neutral_passive rfl))
    intro now
    split
    next => exact .ret _
    next => exact .ret _

end Asking

/-! ### One request of the server -/

section Serving

variable [DecidableEq ι] {crypto : WebCrypto Secret CryptoKey} {u : UserId}
  {each : ι → ClientTask CryptoKey} {env : Env} {i : ι} {o : Op} {r : Res o} {s t : Rotating ι}
  {v : Nat}

/-- A request of the server, where it keeps the order of the rotations. -/
abbrev ServerExec (crypto : WebCrypto Secret CryptoKey) (u : UserId) :
    ι → (o : Op) → Rotating ι → Res o → Rotating ι → Prop :=
  fun i o => ClientExec crypto u i (.serve o)

abbrev ServerMeets {α : Type} (crypto : WebCrypto Secret CryptoKey) (u : UserId)
    (each : ι → ClientTask CryptoKey) {i : ι}
    (Q : Except ApiError α → (clientRules crypto u each).Assertion i) (h : Handler α) (s : Rotating ι) :
    Prop :=
  Meets (clientRules crypto u each) (ServerExec crypto u) Q h s

abbrev ClientServes (crypto : WebCrypto Secret CryptoKey) (u : UserId) (each : ι → ClientTask CryptoKey)
    (i : ι) (o : Op) (P : Rotating ι → Prop) (R : Res o → Rotating ι → Prop) : Prop :=
  Serves (clientRules crypto u each) (ServerExec crypto u) i o P R

theorem record_kept (served : ServerExec crypto u i o s r t) {rid : String}
    (spared : o.puts (keyRotationRecord u.str rid) = none ∧
      o.removes (keyRotationRecord u.str rid) = false) :
    recordOf u rid t.server = recordOf u rid s.server := by
  obtain ⟨w, done, rfl, _⟩ := handling_served served.1
  have object : w.objects.get (keyRotationRecord u.str rid) =
      s.server.objects.get (keyRotationRecord u.str rid) := by
    rcases served_get done (keyRotationRecord u.str rid) with same | ⟨d, puts, _⟩ | ⟨removes, _⟩
    · exact same
    · simp [spared.1] at puts
    · simp [spared.2] at removes
  simp only [recordOf, Rotating.served, object]

/-- Whatever the server is asked, the chain stays as it is. -/
theorem serve_moved (each : ι → ClientTask CryptoKey)
    (all : AllWrapping crypto s.versions (storedLinks s.chain)) (served : ServerExec crypto u i o s r t)
    (spared : ∀ rid, (each i).requestId ≠ some rid → o.puts (keyRotationRecord u.str rid) = none ∧
      o.removes (keyRotationRecord u.str rid) = false) :
    AllWrapping crypto t.versions (storedLinks t.chain) ∧ Moved u (each i) s t := by
  have grown : s.versions ⊆ t.versions := served.2.2.2.grows
  have chain : t.chain = s.chain := by
    obtain ⟨w, _, rfl, _⟩ := handling_served served.1
    rfl
  constructor
  · rw [chain]
    exact all.grows grown
  · exact ⟨grown, fun rid other => record_kept served (spared rid other)⟩

theorem neutral_serves (apart : Neutral u o) {P : Rotating ι → Prop}
    (keeps : ∀ s t, s.versions ⊆ t.versions →
      (∀ rid, recordOf u rid t.server = recordOf u rid s.server) → P s → P t) :
    ClientServes crypto u each i o P fun _ => P := by
  intro s r t all here served
  obtain ⟨kept, adds⟩ := serve_moved each all served fun rid _ => apart.records rid
  exact ⟨kept, adds, keeps s t adds.versions (fun rid => record_kept served (apart.records rid)) here⟩

/-- What the versions decide outlasts such a request. -/
theorem outlasting_serves (apart : Neutral u o) {A : Rotating ι → Prop}
    (grows : ∀ s t, s.versions ⊆ t.versions → A s → A t) :
    ClientServes crypto u each i o A fun _ => A :=
  neutral_serves apart fun s t grown _ here => grows s t grown here

/-- A version from `v` on stays stored. -/
def atLeast (i : ι) (v : Nat) : (clientRules crypto u each).Assertion i :=
  outlasting (AtLeast v) fun _ _ grown least => least.grows grown

theorem atLeast_serves (neutral : Neutral u o) :
    ClientServes crypto u each i o (AtLeast v) fun _ => AtLeast v :=
  outlasting_serves neutral fun _ _ grown least => least.grows grown

/-- The profile that is read has the newest version. -/
theorem profile_serves (uid : UserId) : ClientServes crypto u each i (.getObject (keyProfile uid.str))
    (AtLeast v) fun r t => AtLeast v t ∧ ∀ d p, r = .ok d → Profile.parse d = some p → uid = u →
      p.credential ∈ t.versions ∧ v ≤ p.credential.currentKv.toNat := by
  intro s r t all least served
  have quiet : ClientServes crypto u each i (.getObject (keyProfile uid.str)) (AtLeast v)
      fun _ => AtLeast v := atLeast_serves (neutral_passive rfl)
  obtain ⟨kept, adds, after⟩ := quiet s r t all least served
  refine ⟨kept, adds, after, fun d p ok parsed mine => ?_⟩
  subst mine
  have head := read_stored served.2.1 served.1 ok parsed
  constructor
  · exact adds.versions (List.mem_of_mem_head? head)
  · obtain ⟨c, member, above⟩ := least
    rcases falling_head served.2.1.falling head member with rfl | below
    · exact above
    · omega

/-! ### Proofs that are accepted -/

/-- These are the keys of that version, which is from `v` on. -/
def Proven (crypto : WebCrypto Secret CryptoKey) (v : Nat) (keys : DerivedKeys CryptoKey)
    (keyVersion : Int) (s : Rotating ι) : Prop :=
  ∃ c ∈ s.versions, v ≤ c.currentKv.toNat ∧ (c.currentKv.toNat : Int) = keyVersion ∧
    Belongs crypto c keys

omit [DecidableEq ι] in
theorem Proven.grows {keys : DerivedKeys CryptoKey} {keyVersion : Int}
    (proven : Proven crypto v keys keyVersion s) (grown : s.versions ⊆ t.versions) :
    Proven crypto v keys keyVersion t := by
  obtain ⟨c, member, rest⟩ := proven
  exact ⟨c, grown member, rest⟩

theorem proofPayload_parsed {userId : Js} {deviceId timestamp : String} {keyVersion : Int}
    {payload : AuthProofPayload} (parsed :
      AuthProofPayload.fromJson (proofPayload userId deviceId timestamp keyVersion) = some payload) :
    (payload.keyVersion.toNat : Int) = keyVersion := by
  unfold AuthProofPayload.fromJson at parsed
  simp only [Option.bind_eq_bind, Option.bind_eq_some_iff] at parsed
  obtain ⟨f, readable, _, _, _, _, _, _, version, versionRead, parsed⟩ := parsed
  cases parsed
  cases id : userId.asStr with
  | none =>
    simp only [proofPayload, id, optionalMember, List.nil_append] at readable
    rw [Json.members_obj (by simp)] at readable
    cases readable
    exact asU32_num (by simpa using versionRead)
  | some text =>
    simp only [proofPayload, id, optionalMember, List.cons_append, List.nil_append] at readable
    rw [Json.members_obj (by simp)] at readable
    cases readable
    exact asU32_num (by simpa using versionRead)

/-- An accepted proof is by the keys of the stored version, and names it. -/
theorem accepted_belongs (ideal : Ideal env crypto) {keys : DerivedKeys CryptoKey} {userId : Js}
    {deviceId timestamp : String} {keyVersion now : Int} {proof : AuthProof} {profile : Profile}
    {payload : AuthProofPayload} {key : List UInt8}
    (derived : ∃ secret, crypto.deriveKeys secret = some keys)
    (sent : AuthProof.fromJson (authProof keys (proofPayload userId deviceId timestamp keyVersion)) =
      some proof)
    (decoded : decodeAuthKey profile.authPublicKey = some key)
    (verified : verifyProof env key proof now = some payload)
    (current : payload.keyVersion = profile.currentKv) :
    Belongs crypto profile.credential keys ∧
      (profile.credential.currentKv.toNat : Int) = keyVersion := by
  unfold AuthProof.fromJson authProof at sent
  rw [Json.members_obj (by simp)] at sent
  simp only [Option.bind_eq_bind, Option.bind_some] at sent
  simp at sent
  subst sent
  obtain ⟨⟨sig, signature, accepted⟩, carried⟩ := verifyProof_signed verified
  have same : sig = keys.sign (proofPayload userId deviceId timestamp keyVersion) := by
    rw [base64UrlEncode, Base64.decode_encode] at signature
    exact (Option.some.inj signature).symm
  subst same
  obtain ⟨secret, known⟩ := derived
  have key_ := ideal.signs secret keys key _ known accepted
  subst key_
  refine ⟨⟨⟨secret, known⟩, decoded⟩, ?_⟩
  rw [← proofPayload_parsed carried, current]
  rfl

/-- A good proof leaves nothing but the time changed. -/
theorem verify_meets {profile : Profile} {proof : AuthProof} {A : Rotating ι → Prop}
    (grows : ∀ s t, s.versions ⊆ t.versions → A s → A t) (start : A s) :
    Safe (clientRules crypto u each) (ServerExec crypto u) i
      (fun r t => A t ∧ ∀ payload, r = .ok payload → ∃ key now,
        decodeAuthKey profile.authPublicKey = some key ∧ verifyProof env key proof now = some payload ∧
          payload.keyVersion = profile.currentKv)
      (verifyAccountProof env profile proof).run s := by
  let facts : Except ApiError AuthProofPayload → Prop := fun r => ∀ payload, r = .ok payload →
    ∃ key now, decodeAuthKey profile.authPublicKey = some key ∧
      verifyProof env key proof now = some payload ∧ payload.keyVersion = profile.currentKv
  have failed (e : ApiError) : facts (.error e) := fun payload wrong => by cases wrong
  suffices meets : ServerMeets crypto u each (i := i)
      (fun r => (outlasting A grows).and (.pure (facts r))) (verifyAccountProof env profile proof) s
    from meets
  apply Meets.orFail
  · exact fun _ => ⟨start, failed _⟩
  intro key decoded
  apply Meets.call (outlasting A grows) start (outlasting_serves (neutral_passive rfl) grows)
  intro now t here
  apply Meets.orFail
  · exact fun _ => ⟨here, failed _⟩
  intro payload verified
  apply Meets.checked
  · exact fun _ => ⟨here, failed _⟩
  intro current
  refine Meets.pure ⟨here, fun other same => ?_⟩
  cases same
  exact ⟨key, now, decoded, verified, of_decide_eq_true current⟩

theorem addDeviceBody_parsed {account : Resolved CryptoKey} {form : SignIn} {req : AddDeviceRequest}
    (parsed : AddDeviceRequest.fromJson (account.addDeviceBody form) = some req) :
    (∀ id, account.userId = .str id → req.userId = id) ∧
      AuthProof.fromJson (authProof account.keys
        (proofPayload account.userId form.deviceId form.timestamp account.keyVersion)) =
          some req.authProof := by
  unfold AddDeviceRequest.fromJson at parsed
  simp only [Option.bind_eq_bind, Option.bind_eq_some_iff] at parsed
  obtain ⟨f, readable, id, idRead, proof, proofRead, _, _, parsed⟩ := parsed
  cases parsed
  cases given : account.userId.asStr with
  | none =>
    simp only [Resolved.addDeviceBody, given, optionalMember, List.nil_append] at readable
    rw [Json.members_obj (by simp)] at readable
    cases readable
    constructor
    · intro text same
      rw [same] at given
      cases given
    · simpa using proofRead
  | some text =>
    simp only [Resolved.addDeviceBody, given, optionalMember, List.cons_append, List.nil_append]
      at readable
    rw [Json.members_obj (by simp)] at readable
    cases readable
    constructor
    · intro text' same
      rw [same] at given
      cases given
      simpa using idRead.symm
    · simpa using proofRead

/-- A profile that is read and a proof that is checked against it: the proof's keys are those of the
version that was read. -/
theorem checked_meets {β : Type} (ideal : Ideal env crypto) {keys : DerivedKeys CryptoKey} {userId : Js}
    {deviceId timestamp : String} {keyVersion : Int} {proof : AuthProof} {uid : UserId} {e : ApiError}
    {f : Profile → AuthProofPayload → Handler β}
    {Q : Except ApiError β → (clientRules crypto u each).Assertion i}
    (derived : ∃ secret, crypto.deriveKeys secret = some keys)
    (sent : AuthProof.fromJson (authProof keys (proofPayload userId deviceId timestamp keyVersion)) =
      some proof) (start : AtLeast v s) (failed : ∀ e t, Q (.error e) t)
    (rest : ∀ profile payload t, (uid = u → Proven crypto v keys keyVersion t) →
      ServerMeets crypto u each Q (f profile payload) t) :
    ServerMeets crypto u each Q (do
      let bytes ← tryStore (ask (.getObject (keyProfile uid.str)))
      let profile ← orFail e (Profile.parse bytes)
      let payload ← verifyAccountProof env profile proof
      f profile payload : Handler β) s := by
  apply Meets.read (atLeast i v) start (profile_serves uid)
  · exact fun err t _ => failed _ t
  intro d t read
  apply Meets.orFail
  · exact fun _ => failed _ t
  intro profile stored
  -- The other tasks may rotate on: from here it is about the version that was read.
  let seen : Rotating ι → Prop := fun s => uid = u → profile.credential ∈ s.versions ∧
    v ≤ profile.credential.currentKv.toNat
  have grows : ∀ s t : Rotating ι, s.versions ⊆ t.versions → seen s → seen t :=
    fun s t grown here mine => ⟨grown (here mine).1, (here mine).2⟩
  apply Meets.bind (verify_meets (A := seen) grows (read.2 d profile rfl stored))
  · exact fun err w _ => failed err w
  intro payload w ⟨here, verified⟩
  obtain ⟨key, now, decoded, accepted, current⟩ := verified payload rfl
  obtain ⟨belongs, version⟩ := accepted_belongs ideal derived sent decoded accepted current
  apply rest profile payload w
  intro mine
  obtain ⟨member, above⟩ := here mine
  exact ⟨profile.credential, member, above, version, belongs⟩

/-- What a good answer proves. -/
def proves {α : Type} (v : Nat) (keys : DerivedKeys CryptoKey) (keyVersion : Int) (mine : Prop)
    (r : Except ApiError α) : (clientRules crypto u each).Assertion i :=
  outlasting (fun t => ∀ a, r = .ok a → mine → Proven crypto v keys keyVersion t)
    fun _ _ grown here a ok own => (here a ok own).grows grown

omit [DecidableEq ι] in
theorem proves_error {α : Type} {keys : DerivedKeys CryptoKey} {keyVersion : Int} {mine : Prop}
    (e : ApiError) (t : Rotating ι) :
    (proves v keys keyVersion mine (.error e : Except ApiError α) :
      (clientRules crypto u each).Assertion i) t := by
  intro a wrong
  cases wrong

/-- A device is added only where the derived keys are those of a stored version. -/
theorem addDevice_meets (ideal : Ideal env crypto) {account : Resolved CryptoKey} {form : SignIn}
    (derived : ∃ secret, crypto.deriveKeys secret = some account.keys) (start : AtLeast v s) :
    ServerMeets crypto u each (i := i)
      (proves v account.keys account.keyVersion (account.userId = .str u.str))
      (addDevice env (some (account.addDeviceBody form))) s := by
  apply Meets.parsed
  · exact fun _ => proves_error _ _
  intro req parsed
  obtain ⟨named, sent⟩ := addDeviceBody_parsed parsed
  apply Meets.orFail
  · exact fun _ => proves_error _ _
  intro uid valid
  apply checked_meets ideal derived sent start proves_error
  intro profile payload t proven
  have grows : ∀ s t : Rotating ι, s.versions ⊆ t.versions →
      (uid = u → Proven crypto v account.keys account.keyVersion s) →
      uid = u → Proven crypto v account.keys account.keyVersion t :=
    fun s t grown here mine => (here mine).grows grown
  apply Meets.orFail
  · exact fun _ => proves_error _ _
  intro deviceId _
  apply Meets.call (outlasting _ grows) proven (outlasting_serves (neutral_passive rfl) grows)
  intro stamp w here
  apply Meets.write (outlasting _ grows) here (outlasting_serves (neutral_putDevice u uid _ _) grows)
  · exact fun e x _ => proves_error _ x
  intro x here
  apply Meets.pure
  intro device _ mine
  apply here
  -- The id that was resolved is the one in the body.
  have text : uid.str = u.str := (UserId.new_str valid).trans (named _ mine)
  cases uid
  cases u
  cases text
  rfl

theorem revocationBody_parsed {revocation : DeviceRevocation} {keys : DerivedKeys CryptoKey}
    {keyVersion : Int} {req : RevokeDeviceRequest}
    (parsed : RevokeDeviceRequest.fromJson (revocation.body keys keyVersion) = some req) :
    AuthProof.fromJson (authProof keys (proofPayload (.str revocation.userId) revocation.deviceId
      revocation.timestamp keyVersion)) = some req.authProof := by
  unfold RevokeDeviceRequest.fromJson at parsed
  simp only [Option.bind_eq_bind, Option.bind_eq_some_iff] at parsed
  obtain ⟨f, readable, _, _, proof, proofRead, parsed⟩ := parsed
  cases parsed
  rw [DeviceRevocation.body, Json.members_obj (by simp)] at readable
  cases readable
  simpa using proofRead

/-- A device is revoked only where the derived keys are those of a stored version. -/
theorem revokeDevice_meets (ideal : Ideal env crypto) {revocation : DeviceRevocation}
    {keys : DerivedKeys CryptoKey} {keyVersion : Int}
    (account : ∀ user, Token.identity env (some revocation.token) = some user → user.userId = u)
    (derived : ∃ secret, crypto.deriveKeys secret = some keys) (start : AtLeast v s) :
    ServerMeets crypto u each (i := i) (proves v keys keyVersion True)
      (revokeDevice env (some revocation.token) (some (revocation.body keys keyVersion))) s := by
  apply Meets.authenticated (atLeast i v)
    (fun o passive => atLeast_serves (neutral_passive passive)) start
  · exact fun e t _ => proves_error _ t
  intro user t known here
  apply Meets.parsed
  · exact fun _ => proves_error _ t
  intro req parsed
  apply checked_meets ideal derived (revocationBody_parsed parsed) here proves_error
  intro profile payload w proven
  have mine := proven (account user known)
  have grows : ∀ s t : Rotating ι, s.versions ⊆ t.versions → Proven crypto v keys keyVersion s →
      Proven crypto v keys keyVersion t := fun _ _ grown here => here.grows grown
  have removed : Safe (clientRules crypto u each) (ServerExec crypto u) i
      (fun _ t => Proven crypto v keys keyVersion t)
      (removeDevice (keyDevice user.userId.str req.deviceId)).run w :=
    (Safe.only (outlasting _ grows) (fun o apart => outlasting_serves apart grows)
      (removeDevice_neutral u user.userId req.deviceId) mine).weaken fun _ _ after => after.2
  exact removed.weaken fun _ _ after _ _ _ => after

end Serving

end Atmin.Web
