import Atmin.Server.Rotate
import Atmin.Server.Inbox

/-!
# Contracts of the handlers

Each handler is followed once, request by request. A caller supplies the assertions
that hold between the requests and what each request makes of them, under rules of
its own choice; no later proof opens a handler again.
-/

namespace Atmin

open Interaction

/-! ### The guard only reads -/

/-- What an authenticated reply is worth: the identity is the token's. -/
def Identified (env : Env) (token : Option String) (r : Except ApiError AuthedUser) : Prop :=
  ∀ user, r = .ok user → Token.identity env token = some user

abbrev Passive {α : Type} (P : α → Prop) (p : Eff α) : Prop :=
  Prog.Only (fun o : Op => o.passive = true) P p

/-- What the guard asks for: two reads and the caches it fills. -/
def Op.guarding : Op → Bool
  | .deviceCacheValid _ | .headObject _ | .deviceCacheSet _ | .profileCacheGet _ | .getObject _
  | .profileCacheSet .. => true
  | _ => false

theorem Op.passive_of_guarding {o : Op} (guarding : o.guarding = true) : o.passive = true := by
  cases o <;> first | rfl | cases guarding

abbrev Guarding {α : Type} (P : α → Prop) (p : Eff α) : Prop :=
  Prog.Only (fun o : Op => o.guarding = true) P p

theorem checkDevice_guarding (deviceKey : String) :
    Guarding (fun _ => True) (checkDevice deviceKey).run := by
  simp only [checkDevice, run_bind, run_call, ask_bind, Prog.op_bind, Prog.ret_bind]
  refine .op rfl fun seen => ?_
  cases seen with
  | true => exact .ret trivial
  | false =>
    simp only [Bool.false_eq_true, if_false, run_bind, run_call, ask_bind, Prog.op_bind,
      Prog.ret_bind]
    refine .op rfl fun found => ?_
    rcases found with (_ | err) | _
    · exact .ret trivial
    · exact .ret trivial
    · exact .op rfl fun _ => .ret trivial

/-- Requests of the guard that enter no device into the cache. -/
def Op.plain (o : Op) : Prop := o.guarding = true ∧ ∀ key, o ≠ .deviceCacheSet key

theorem currentKeyVersion_plain (userId : String) :
    Prog.Only Op.plain (fun _ => True) (currentKeyVersion userId).run := by
  simp only [currentKeyVersion, run_bind, run_call, ask_bind, Prog.op_bind, Prog.ret_bind]
  refine .op ⟨rfl, fun _ h => nomatch h⟩ fun cached => ?_
  cases cached with
  | some kv => exact .ret trivial
  | none =>
    simp only [run_bind, run_call, ask_bind, Prog.op_bind, Prog.ret_bind]
    refine .op ⟨rfl, fun _ h => nomatch h⟩ fun found => ?_
    rcases found with (_ | err) | bytes
    · exact .ret trivial
    · exact .ret trivial
    · simp only [run_bind]
      cases Profile.parse bytes with
      | none => exact .ret trivial
      | some profile => exact .op ⟨rfl, fun _ h => nomatch h⟩ fun _ => .ret trivial

theorem admit_guarding (user : AuthedUser) (enforceKv : Bool) :
    Guarding (fun r => ∀ other, r = .ok other → other = user) (admitUser user enforceKv).run := by
  simp only [admitUser, run_bind]
  refine (checkDevice_guarding _).bind fun checked _ => ?_
  cases checked with
  | error e => exact .ret fun _ h => nomatch h
  | ok =>
    cases enforceKv with
    | false => exact .ret fun _ same => (Except.ok.inj same).symm
    | true =>
      simp only [if_true, run_bind]
      refine ((currentKeyVersion_plain _).mono fun _ plain => plain.1).bind fun current _ => ?_
      cases current with
      | error e => exact .ret fun _ h => nomatch h
      | ok kv =>
        simp only [run_check, Prog.ret_bind]
        split
        · exact .ret fun _ same => (Except.ok.inj same).symm
        · exact .ret fun _ h => nomatch h

theorem authenticate_guarding (env : Env) (token : Option String) (enforceKv : Bool) :
    Guarding (Identified env token) (authenticate env token enforceKv).run := by
  cases known : Token.identity env token with
  | none =>
    simp only [authenticate, run_bind, known, run_orFail_none, Prog.ret_bind]
    exact .ret fun _ h => by cases h
  | some user =>
    rw [authenticate_known known]
    refine (admit_guarding user enforceKv).weaken fun r itself other same => ?_
    rw [known, itself other same]

theorem authenticate_passive (env : Env) (token : Option String) (enforceKv : Bool) :
    Passive (Identified env token) (authenticate env token enforceKv).run :=
  (authenticate_guarding env token enforceKv).mono fun _ => Op.passive_of_guarding

/-! ### Following a handler -/

section Meets

variable {ι σ : Type} {α β : Type} {rules : Rules ι σ}
  {exec : ι → (o : Op) → σ → Res o → σ → Prop} {i : ι}

variable (rules exec) in
/-- From `s`, the handler keeps the rules, and what it returns satisfies `Q`. -/
def Meets {i : ι} (Q : Except ApiError α → rules.Assertion i) (h : Handler α) (s : σ) : Prop :=
  Safe rules exec i (fun r => Q r) h.run s

namespace Meets

variable {Q : Except ApiError β → rules.Assertion i} {s : σ}

theorem pure {b : β} (holds : Q (.ok b) s) : Meets rules exec Q (Pure.pure b) s := Safe.ret holds

/-- A sub-handler, by what is known of its result. -/
theorem bind {h : Handler α} {f : α → Handler β} {P : Except ApiError α → σ → Prop}
    (first : Safe rules exec i P h.run s) (failed : ∀ e t, P (.error e) t → Q (.error e) t)
    (rest : ∀ a t, P (.ok a) t → Meets rules exec Q (f a) t) :
    Meets rules exec Q (h >>= f) s := by
  unfold Meets
  rw [run_bind]
  refine Safe.bind first fun r t after => ?_
  cases r with
  | ok a => exact rest a t after
  | error e => exact Safe.ret (failed e t after)

theorem orFail {e : ApiError} {o : Option α} {f : α → Handler β}
    (failed : o = none → Q (.error e) s) (rest : ∀ a, o = some a → Meets rules exec Q (f a) s) :
    Meets rules exec Q (Atmin.orFail e o >>= f) s := by
  unfold Meets
  cases o with
  | none => exact Safe.ret (failed rfl)
  | some a => exact rest a rfl

theorem parsed {dec : Json → Option α} {body : Option Json} {f : α → Handler β}
    (failed : body.bind dec = none → Q (.error .badRequest) s)
    (rest : ∀ req, body.bind dec = some req → Meets rules exec Q (f req) s) :
    Meets rules exec Q (parseBody dec body >>= f) s :=
  orFail failed rest

theorem checked {e : ApiError} {c : Bool} {f : Unit → Handler β}
    (failed : c = false → Q (.error e) s) (rest : c = true → Meets rules exec Q (f ()) s) :
    Meets rules exec Q (check e c >>= f) s := by
  unfold Meets
  cases c with
  | false => exact Safe.ret (failed rfl)
  | true => exact rest rfl

theorem authenticated {env : Env} {token : Option String} {enforceKv : Bool}
    {f : AuthedUser → Handler β} (A : rules.Assertion i)
    (passive : ∀ o : Op, o.passive = true → Serves rules exec i o A fun _ => A) (holds : A s)
    (failed : ∀ e t, A t → Q (.error e) t)
    (rest : ∀ user t, Token.identity env token = some user → A t → Meets rules exec Q (f user) t) :
    Meets rules exec Q (authenticate env token enforceKv >>= f) s :=
  bind (Safe.only A passive (authenticate_passive env token enforceKv) holds)
    (fun e t after => failed e t after.2) fun user t after => rest user t (after.1 user rfl) after.2

/-- With a good token and a device that is there, the guard lets the user in. -/
theorem authenticate_present {env : Env} {token : Option String} {user : AuthedUser}
    (A : rules.Assertion i) (known : Token.identity env token = some user)
    (passive : ∀ o : Op, o.passive = true → Serves rules exec i o A fun _ => A)
    (present : Serves rules exec i (.headObject (keyDevice user.userId.str user.deviceId.str)) A
      fun r _ => r = .ok ()) (holds : A s) :
    Safe rules exec i (fun r t => r = .ok user ∧ A t) (authenticate env token false).run s := by
  have done (t : σ) (here : A t) :
      Safe rules exec i (fun (r : Except ApiError AuthedUser) t => r = .ok user ∧ A t)
        (.ret (.ok user) : Eff (Except ApiError AuthedUser)) t :=
    fun v moved => ⟨rfl, A.stable.others moved here⟩
  rw [authenticate_known known]
  simp only [admitUser, checkDevice, run_bind, run_call, ask_bind, Prog.ret_bind, Prog.op_bind]
  refine Safe.request A holds (passive (.deviceCacheValid _) rfl) fun seen t here => ?_
  cases seen with
  | true => exact done t here
  | false =>
    simp only [Bool.false_eq_true, if_false, run_bind, run_call, ask_bind, Prog.ret_bind,
      Prog.op_bind]
    refine Safe.request A here ((passive (.headObject _) rfl).and present) fun found v after => ?_
    obtain ⟨here, rfl⟩ := after
    exact Safe.request A here (passive (.deviceCacheSet _) rfl) fun _ w here => done w here

/-- A request whose reply the handler inspects itself. -/
theorem call {o : Op} {f : Res o → Handler β} (P : rules.Assertion i) {R : Res o → σ → Prop}
    (holds : P s) (serves : Serves rules exec i o P R)
    (rest : ∀ r t, R r t → Meets rules exec Q (f r) t) :
    Meets rules exec Q (Atmin.call (ask o) >>= f) s := by
  unfold Meets
  simp only [run_bind, run_call, ask_bind, Prog.op_bind, Prog.ret_bind]
  exact Safe.request P holds serves rest

theorem read {key : String} {f : Data → Handler β} (P : rules.Assertion i)
    {R : Except StoreError Data → σ → Prop} (holds : P s)
    (serves : Serves rules exec i (.getObject key) P R)
    (failed : ∀ e t, R (.error e) t → Q (.error (.ofStore e)) t)
    (rest : ∀ d t, R (.ok d) t → Meets rules exec Q (f d) t) :
    Meets rules exec Q (tryStore (ask (.getObject key)) >>= f) s := by
  unfold Meets
  simp only [run_bind, run_tryStore, ask_bind, Prog.op_bind]
  refine Safe.request P holds serves fun r t after => ?_
  cases r with
  | ok d => exact rest d t after
  | error e => exact Safe.ret (failed e t after)

theorem readAs {e : ApiError} {key : String} {f : Data → Handler β} (P : rules.Assertion i)
    {R : Except StoreError Data → σ → Prop} (holds : P s)
    (serves : Serves rules exec i (.getObject key) P R)
    (failed : ∀ err t, R (.error err) t → Q (.error e) t)
    (rest : ∀ d t, R (.ok d) t → Meets rules exec Q (f d) t) :
    Meets rules exec Q (tryStoreAs e (ask (.getObject key)) >>= f) s := by
  unfold Meets
  simp only [run_bind, run_tryStoreAs, ask_bind, Prog.op_bind]
  refine Safe.request P holds serves fun r t after => ?_
  cases r with
  | ok d => exact rest d t after
  | error err => exact Safe.ret (failed err t after)

theorem write {key : String} {d : Data} {f : Unit → Handler β} (P : rules.Assertion i)
    {R : Except StoreError Unit → σ → Prop} (holds : P s)
    (serves : Serves rules exec i (.putObject key d) P R)
    (failed : ∀ e t, R (.error e) t → Q (.error (.ofStore e)) t)
    (rest : ∀ t, R (.ok ()) t → Meets rules exec Q (f ()) t) :
    Meets rules exec Q (writeJson key d >>= f) s := by
  unfold Meets writeJson
  simp only [run_bind, run_tryStore, ask_bind, Prog.op_bind]
  refine Safe.request P holds serves fun r t after => ?_
  cases r with
  | ok => exact rest t after
  | error e => exact Safe.ret (failed e t after)

theorem writeAs {e : ApiError} {key : String} {d : Data} {f : Unit → Handler β}
    (P : rules.Assertion i) {R : Except StoreError Unit → σ → Prop} (holds : P s)
    (serves : Serves rules exec i (.putObject key d) P R)
    (failed : ∀ err t, R (.error err) t → Q (.error e) t)
    (rest : ∀ t, R (.ok ()) t → Meets rules exec Q (f ()) t) :
    Meets rules exec Q (tryStoreAs e (ask (.putObject key d)) >>= f) s := by
  unfold Meets
  simp only [run_bind, run_tryStoreAs, ask_bind, Prog.op_bind]
  refine Safe.request P holds serves fun r t after => ?_
  cases r with
  | ok => exact rest t after
  | error err => exact Safe.ret (failed err t after)

/-- A best-effort write goes on whatever the reply. -/
theorem attempted {key : String} {d : Data} {f : Unit → Handler β} (P : rules.Assertion i)
    {R : σ → Prop} (holds : P s) (serves : Serves rules exec i (.putObject key d) P fun _ => R)
    (rest : ∀ t, R t → Meets rules exec Q (f ()) t) :
    Meets rules exec Q (putBestEffort key d >>= f) s := by
  unfold Meets putBestEffort
  simp only [run_bind, run_call, ask_bind, Prog.op_bind, Prog.ret_bind, run_pure]
  exact Safe.request P holds serves fun _ t after => rest t after

theorem reprojected {p : Profile} {f : Unit → Handler β} (P : rules.Assertion i) (holds : P s)
    (serves : p.handle ≠ "" → Serves rules exec i
      (.putObject (keyHandle p.handle) (handleProjection p).data) P fun _ => P)
    (rest : ∀ t, P t → Meets rules exec Q (f ()) t) :
    Meets rules exec Q (reproject p >>= f) s := by
  unfold reproject
  split
  next => exact rest s holds
  next named => exact attempted P holds (serves named) rest

/-- Under a lock, the body's result is handed over when the lock is released. -/
theorem locked {lock : Lock} {onTimeout : Except ApiError β} {body : Handler β}
    (P : rules.Assertion i) {R : Except Contention Unit → σ → Prop} (holds : P s)
    (acquires : Serves rules exec i (.acquire lock) P R)
    (timeout : ∀ t, R (.error .mk) t → Q onTimeout t) (L : Except ApiError β → rules.Assertion i)
    (inside : ∀ t, R (.ok ()) t → Meets rules exec L body t)
    (releases : ∀ r, Serves rules exec i (.release lock) (L r) fun _ => Q r) :
    Meets rules exec Q (withLock lock onTimeout body) s := by
  unfold Meets
  rw [run_withLock]
  refine Safe.request P holds acquires fun r t after => ?_
  rcases r with ⟨⟨⟩⟩ | _
  · exact Safe.ret (timeout t after)
  · refine Safe.bind (inside t after) fun res u settled => ?_
    exact Safe.request (L res) settled (releases res) fun _ v done => Safe.ret done

end Meets

/-! ### Profile writers -/

section ProfileWriters

variable {env : Env}

/-- `updateProfile`: `Start` up to the read, then one assertion about the profile read
and one about the profile written. -/
theorem Meets.updateProfile {token : Option String} {body : Option Json} {s : σ}
    {Q : Except ApiError Unit → rules.Assertion i} (Start : rules.Assertion i)
    (Read Written : AuthedUser → Profile → rules.Assertion i) (start : Start s)
    (failed : ∀ e t, Start t → Q (.error e) t)
    (passive : ∀ o : Op, o.passive = true → Serves rules exec i o Start fun _ => Start)
    (reads : ∀ user, Token.identity env token = some user → Serves rules exec i
      (.getObject (keyProfile user.userId.str)) Start fun r t =>
        ∀ d p, r = .ok d → Profile.parse d = some p → Read user p t)
    (writes : ∀ user req p, Token.identity env token = some user →
      body.bind ProfileUpdateRequest.fromJson = some req → Serves rules exec i
        (.putObject (keyProfile user.userId.str) (req.apply p).data) (Read user p) fun r t =>
          (∀ e, r = .error e → Q (.error (.ofStore e)) t) ∧
            (r = .ok () → Written user (req.apply p) t))
    (projects : ∀ user p, Token.identity env token = some user → p.handle ≠ "" →
      Serves rules exec i (.putObject (keyHandle p.handle) (handleProjection p).data)
        (Written user p) fun _ => Q (.ok ()))
    (settles : ∀ user p t, p.handle = "" → Written user p t → Q (.ok ()) t) :
    Meets rules exec Q (Atmin.updateProfile env token body) s := by
  unfold Atmin.updateProfile
  refine Meets.authenticated Start passive start failed fun user t known here => ?_
  refine Meets.parsed (fun _ => failed _ t here) fun req read => ?_
  refine Meets.checked (fun _ => failed _ t here) fun _ => ?_
  refine Meets.read Start here ((passive (.getObject _) rfl).and (reads user known))
    (fun e u after => failed _ u after.1) fun d u after => ?_
  refine Meets.orFail (fun _ => failed _ u after.1) fun p parsed => ?_
  refine Meets.write (Read user p) (after.2 d p rfl parsed) (writes user req p known read)
    (fun e v wrote => wrote.1 e rfl) fun v wrote => ?_
  have written := wrote.2 rfl
  unfold reproject
  split
  next unnamed => exact Safe.ret (settles user _ v unnamed written)
  next named =>
    unfold Meets putBestEffort
    simp only [run_bind, run_call, ask_bind, Prog.op_bind, Prog.ret_bind, run_pure]
    exact Safe.request (Written user _) written (projects user _ known named)
      fun _ w done => Safe.ret done

/-- `updateLastActive`: the profile written is the profile read but for `last_active`. -/
theorem Meets.updateLastActive {uid : String} {s : σ}
    {Q : Except ApiError Unit → rules.Assertion i} (Start : rules.Assertion i)
    (Read : Profile → rules.Assertion i) (start : Start s)
    (skipped : ∀ t, Start t → Q (.ok ()) t) (kept : ∀ p t, Read p t → Q (.ok ()) t)
    (reads : Serves rules exec i (.getObject (keyProfile uid)) Start fun r t =>
      Start t ∧ ∀ d p, r = .ok d → Profile.parse d = some p → Read p t)
    (clock : ∀ p, Serves rules exec i .utcNow (Read p) fun _ => Read p)
    (writes : ∀ p stamp, Serves rules exec i
      (.putObject (keyProfile uid) { p with lastActive := stamp : Profile }.data) (Read p)
        fun _ => Q (.ok ())) :
    Meets rules exec Q (Atmin.updateLastActive env uid) s := by
  have stamps (p : Profile) (t : σ) (here : Read p t) :
      Meets rules exec Q (stampActive env (keyProfile uid) p) t := by
    unfold stampActive
    refine Meets.call (Read p) here (clock p) fun now u after => ?_
    unfold Meets putBestEffort
    simp only [run_bind, run_call, ask_bind, Prog.op_bind, Prog.ret_bind, run_pure]
    exact Safe.request (Read p) after (writes p _) fun _ v done => Safe.ret done
  unfold Atmin.updateLastActive
  refine Meets.call Start start reads fun found t after => ?_
  cases found with
  | error e => exact Safe.ret (skipped t after.1)
  | ok d =>
    cases parsed : Profile.parse d with
    | none =>
      simp only [parsed]
      exact Safe.ret (skipped t after.1)
    | some p =>
      simp only [parsed]
      have here := after.2 d p rfl parsed
      split
      · refine Meets.call (Read p) here (clock p) fun now u later => ?_
        split
        · exact Safe.ret (kept p u later)
        · exact stamps p u later
      · exact stamps p t here

end ProfileWriters

/-! ### Rotation -/

section Rotation

variable {env : Env}

/-- The user and request a rotation proceeds with. -/
structure Rotation (env : Env) (token : Option String) (body : Option Json) where
  user : AuthedUser
  req : RotateKeysRequest
  known : Token.identity env token = some user
  parsed : body.bind RotateKeysRequest.fromJson = some req
  valid : req.valid = true

namespace Rotation

variable {token : Option String} {body : Option Json} (x : Rotation env token body)

def uid : String := x.user.userId.str

def recordKey : String := keyRotationRecord x.uid x.req.requestId

def success : RotateOutcome :=
  .success (Token.generate env x.uid x.user.deviceId.str (.newOrOne x.req.keyVersion))
    x.req.keyVersion

/-- The key_version precondition and the continuity signature, against a stored credential. -/
def Accepted (c : Credential) : Prop :=
  x.req.keyVersion = c.currentKv + 1 ∧
    ∃ oldPub, decodeAuthKey c.authPublicKey = some oldPub ∧ x.req.continuous env oldPub = true

/-- The outcomes recorded without a change of the profile. -/
def Refused (c : Credential) : RotateOutcome → Prop
  | .keyVersionStale current => current = c.currentKv.toNat ∧ x.req.keyVersion ≠ c.currentKv + 1
  | .badContinuity => x.req.keyVersion = c.currentKv + 1 ∧
      ∀ oldPub, decodeAuthKey c.authPublicKey = some oldPub → x.req.continuous env oldPub = false
  | .success .. => False

variable {x}

theorem Refused.parse_record {c : Credential} {outcome : RotateOutcome}
    (refused : x.Refused c outcome) :
    RotationRecord.parse outcome.toRecord.data = some outcome.toRecord := by
  refine RotationRecord.parse_data _ fun current same => ?_
  cases outcome with
  | success token kv => cases same
  | badContinuity => cases same
  | keyVersionStale kv =>
    refine ⟨c.currentKv.toNat, ?_, by have := c.currentKv.toNat_lt; omega⟩
    rw [← refused.1]
    exact (Option.some.inj same).symm

theorem parse_success :
    RotationRecord.parse x.success.toRecord.data = some x.success.toRecord :=
  RotationRecord.parse_data _ fun _ same => nomatch same

end Rotation

/-- `rotateKeys`: `Guarded` is what the guard leaves, `Held` holds under the lock before the record is
looked up, `Missed` after a miss, then one assertion each about the profile read, the committed and
the recorded rotation; `Settled` is what the lock is released with. -/
theorem Meets.rotateKeys {token : Option String} {body : Option Json} {s : σ}
    {Q : Except ApiError RotateOutcome → rules.Assertion i}
    (Guarded : Except ApiError AuthedUser → σ → Prop) (Start : rules.Assertion i)
    (Held Missed : Rotation env token body → rules.Assertion i)
    (Read Committed Recorded : Rotation env token body → Profile → rules.Assertion i)
    (Settled : Rotation env token body → Except ApiError RotateOutcome → rules.Assertion i)
    (guard : Safe rules exec i (fun r t => Identified env token r ∧ Guarded r t)
      (authenticate env token false).run s)
    (refused : ∀ e t, Guarded (.error e) t → Q (.error e) t)
    (malformed : ∀ user t, Guarded (.ok user) t →
      (Rotation env token body → False) → Q (.error .badRequest) t)
    (admitted : ∀ user t, Guarded (.ok user) t → Start t)
    (acquires : ∀ x : Rotation env token body, Serves rules exec i (.acquire (.rotation x.uid))
      Start fun r t => (r = .ok () → Held x t) ∧
        (r = .error .mk → Q (.ok (.keyVersionStale (-1))) t))
    (looks : ∀ x : Rotation env token body, Serves rules exec i (.getObject x.recordKey) (Held x)
      fun r t => (∀ d rec, r = .ok d → RotationRecord.parse d = some rec →
          Settled x (.ok (.fromRecord rec)) t) ∧
        ((∀ d rec, r = .ok d → RotationRecord.parse d ≠ some rec) → Missed x t))
    (reads : ∀ x : Rotation env token body, Serves rules exec i (.getObject (keyProfile x.uid))
      (Missed x) fun r t => (∀ msg, Settled x (.error (.internal msg)) t) ∧
        ∀ d p, r = .ok d → Profile.parse d = some p → Read x p t)
    (keepsRead : ∀ (x : Rotation env token body) p t, Read x p t →
      ∀ msg, Settled x (.error (.internal msg)) t)
    (refuses : ∀ (x : Rotation env token body) p outcome, x.Refused p.credential outcome →
      Serves rules exec i (.putObject x.recordKey outcome.toRecord.data) (Read x p)
        fun _ => Settled x (.ok outcome))
    (commits : ∀ (x : Rotation env token body) p, x.Accepted p.credential → Serves rules exec i
      (.putObject (keyProfile x.uid) (x.req.install p).data) (Read x p) fun r t =>
        (r = .ok () → Committed x p t) ∧
          (∀ e, r = .error e → ∀ msg, Settled x (.error (.internal msg)) t))
    (projects : ∀ (x : Rotation env token body) p, p.handle ≠ "" → Serves rules exec i
      (.putObject (keyHandle p.handle) (handleProjection (x.req.install p)).data) (Committed x p)
        fun _ => Committed x p)
    (records : ∀ (x : Rotation env token body) p, Serves rules exec i
      (.putObject x.recordKey x.success.toRecord.data) (Committed x p) fun _ => Recorded x p)
    (invalidates : ∀ (x : Rotation env token body) p, Serves rules exec i
      (.profileCacheInvalidate x.uid) (Recorded x p) fun _ => Settled x (.ok x.success))
    (releases : ∀ (x : Rotation env token body) r, Serves rules exec i
      (.release (.rotation x.uid)) (Settled x r) fun _ => Q r) :
    Meets rules exec Q (Atmin.rotateKeys env token body) s := by
  unfold Atmin.rotateKeys
  refine Meets.bind guard (fun e t after => refused e t after.2) fun user t passed => ?_
  have known := passed.1 user rfl
  refine Meets.parsed (fun absent => malformed user t passed.2 fun x => ?_) fun req parsed => ?_
  · exact absurd x.parsed (by simp [absent])
  refine Meets.checked (fun bad => malformed user t passed.2 fun x => ?_) fun valid => ?_
  · have same : req = x.req := Option.some.inj (parsed.symm.trans x.parsed)
    exact absurd x.valid (by simp [← same, bad])
  let x : Rotation env token body := ⟨user, req, known, parsed, valid⟩
  refine Meets.locked Start (admitted user t passed.2) (acquires x) (fun u after => after.2 rfl) (Settled x)
    (fun u after => ?_) (releases x)
  -- The recorded refusals share the write and the reply.
  have refusal (p : Profile) (outcome : RotateOutcome) (refused : x.Refused p.credential outcome) (v : σ)
      (read : Read x p v) :
      Meets rules exec (Settled x) (recordOutcome x.recordKey outcome) v := by
    unfold recordOutcome
    exact Meets.attempted (Read x p) read (refuses x p outcome refused) fun w done => Safe.ret done
  have fresh (v : σ) (missed : Missed x v) :
      Meets rules exec (Settled x) (rotateFresh env user req x.recordKey) v := by
    unfold rotateFresh
    refine Meets.readAs (Missed x) missed (reads x) (fun e w bad => bad.1 _) fun d w good => ?_
    refine Meets.orFail (fun _ => good.1 _) fun p profile => ?_
    have read := good.2 d p rfl profile
    split
    next stale => exact refusal p (.keyVersionStale p.currentKv.toNat) ⟨rfl, stale⟩ w read
    next next =>
      have advances : req.keyVersion = p.currentKv + 1 := not_not.mp next
      refine Meets.orFail (fun _ => keepsRead x p w read _) fun oldPub decoded => ?_
      split
      next signed =>
        unfold commitRotation
        refine Meets.writeAs (Read x p) read (commits x p ⟨advances, oldPub, decoded, signed⟩)
          (fun e v' wrote => wrote.2 e rfl _) fun v' wrote => ?_
        refine Meets.reprojected (Committed x p) (wrote.1 rfl) (projects x p) fun u' committed => ?_
        unfold Meets recordOutcome putBestEffort
        simp only [run_bind, run_call, ask_bind, Prog.op_bind, Prog.ret_bind, run_pure]
        refine Safe.request (Committed x p) committed (records x p) fun _ w' recorded => ?_
        exact Safe.request (Recorded x p) recorded (invalidates x p)
          fun _ t' done => Safe.ret done
      next unsigned =>
        refine refusal p .badContinuity ⟨advances, fun pub same => ?_⟩ w read
        have unique : oldPub = pub := Option.some.inj (decoded.symm.trans same)
        rw [← unique]
        exact Bool.eq_false_iff.mpr unsigned
  unfold Meets rotateLocked
  simp only [run_bind, run_call, loadRotationRecord, ask_bind, Prog.op_bind]
  refine Safe.request (Held x) (after.1 rfl) (looks x) fun found v looked => ?_
  rcases found with (_ | err) | d
  · exact fresh v (looked.2 fun d rec same => nomatch same)
  · exact fresh v (looked.2 fun d rec same => nomatch same)
  · cases record : RotationRecord.parse d with
    | some rec =>
      simp only [record, Prog.ret_bind, run_pure]
      exact Safe.ret (looked.1 d rec rfl record)
    | none =>
      simp only [record, Prog.ret_bind]
      refine fresh v (looked.2 fun d' rec same => ?_)
      cases same
      simp [record]

end Rotation

end Meets

end Atmin
