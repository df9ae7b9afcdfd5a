import Atmin.Rotation.SignIns

/-!
# Sessions keep up with the password

However the tasks of an account are interleaved, each session has the keys of a version that was
stored, and each link wraps those of the version it starts from. So whatever was backed up in a
session opens in any session of the newest version, and a task that starts after a change of the
password gets nowhere with an older one.
-/

namespace Atmin.Web

open Interaction

variable {ι Secret CryptoKey : Type}

/-! ### What a change of the password knows -/

section Knowledge

variable {crypto : WebCrypto Secret CryptoKey} {submission : Submission} {c : Credential}
  {keys : DerivedKeys CryptoKey}

theorem KeysOf.belongs (known : KeysOf crypto c keys) : Belongs crypto c keys := by
  obtain ⟨⟨secret, derived⟩, auth⟩ := known
  refine ⟨⟨secret, derived⟩, ?_⟩
  have decoded : Base64.decode c.authPublicKey = some keys.authPublicKey := by
    rw [← auth]
    exact Base64.decode_encode _
  have length : keys.authPublicKey.length = 32 := crypto.authPublicKey_length secret keys derived
  simp [decodeAuthKey, decoded, length]

theorem deriveSecret_stretches {password : String} {salt kdf : Js} {secret : Secret}
    (derived : deriveSecretFromPassword crypto password salt kdf = .ok secret) :
    ∃ salt kdf, crypto.argonStretch password salt kdf = some secret := by
  unfold deriveSecretFromPassword at derived
  split at derived
  next given =>
    simp only [except_bind_ok, orRaise_ok] at derived
    obtain ⟨_, _, bytes, _, stretched⟩ := derived
    exact ⟨bytes, kdf, stretched⟩
  next => cases derived

/-- The keys that a submission goes on with are those of the password that was entered. -/
theorem prepare_derived {raw : Js} {prepared : Prepared CryptoKey}
    (ready : prepare crypto submission raw = .ok (some prepared)) :
    DerivedFrom crypto submission.currentPassword prepared.oldKeys := by
  simp only [prepare, except_bind_ok, orRaise_ok] at ready
  obtain ⟨profile, _, oldSecret, stretched, oldKeys, derived, ready⟩ := ready
  obtain ⟨salt, kdf, stretched⟩ := deriveSecret_stretches stretched
  split at ready
  next same =>
    simp only [except_bind_ok, orRaise_ok] at ready
    obtain ⟨newSecret, _, newKeys, _, ready⟩ := ready
    split at ready
    next k version =>
      cases ready
      exact ⟨salt, kdf, oldSecret, stretched, derived⟩
    next => cases ready
  next => cases ready

theorem keysAt_derived {password : String} {salt kdf version : Js} {found : DerivedKeys CryptoKey × Int}
    (derived : keysAt crypto password salt kdf version = .ok found) :
    DerivedFrom crypto password found.1 := by
  simp only [keysAt, except_bind_ok, orRaise_ok] at derived
  obtain ⟨secret, stretched, keys, known, derived⟩ := derived
  obtain ⟨salt, kdf, stretched⟩ := deriveSecret_stretches stretched
  split at derived
  next n version =>
    cases derived
    exact ⟨salt, kdf, secret, stretched, known⟩
  next => cases derived

theorem DerivedFrom.known {password : String} (derived : DerivedFrom crypto password keys) :
    ∃ secret, crypto.deriveKeys secret = some keys := by
  obtain ⟨_, _, secret, _, known⟩ := derived
  exact ⟨secret, known⟩

theorem deriveFor_derived {form : SignIn} {data : Js} {account : Resolved CryptoKey}
    (derived : deriveFor crypto form data = .ok account) :
    DerivedFrom crypto form.secretInput account.keys := by
  simp only [deriveFor, except_bind_ok] at derived
  obtain ⟨_, _, _, _, _, _, _, _, found, known, derived⟩ := derived
  cases derived
  exact keysAt_derived known

variable (crypto) in
/-- The version that a submission starts from, which is from `v` on. -/
def StartsFrom (prepared : Prepared CryptoKey) (v : Nat) (s : Rotating ι) : Prop :=
  ∃ c ∈ s.versions, v ≤ c.currentKv.toNat ∧
    (c.currentKv.toNat : Int) = effective prepared.currentKV ∧ Belongs crypto c prepared.oldKeys

theorem StartsFrom.grows {prepared : Prepared CryptoKey} {v : Nat} {s t : Rotating ι}
    (starts : StartsFrom crypto prepared v s) (grown : s.versions ⊆ t.versions) :
    StartsFrom crypto prepared v t := by
  obtain ⟨c, member, rest⟩ := starts
  exact ⟨c, grown member, rest⟩

/-- No version is below one. -/
theorem StartsFrom.positive {prepared : Prepared CryptoKey} {v : Nat} {s : Rotating ι}
    (starts : StartsFrom crypto prepared v s) : 0 < prepared.newKV := by
  obtain ⟨c, _, _, version, _⟩ := starts
  have above := currentKv_pos c
  unfold Prepared.newKV
  unfold effective at version
  split at version <;> omega

end Knowledge

/-! ### The requests of a page -/

section Requests

variable [DecidableEq ι] {crypto : WebCrypto Secret CryptoKey} {u : UserId}
  {each : ι → ClientTask CryptoKey} {i : ι} {s t : Rotating ι} {v : Nat}

/-- A page, under the rules of the tasks. -/
abbrev PageSafe {α : Type} (crypto : WebCrypto Secret CryptoKey) (u : UserId)
    (each : ι → ClientTask CryptoKey) (i : ι) (Q : α → Rotating ι → Prop) (p : SubmitProg α)
    (s : Rotating ι) : Prop :=
  Safe (clientRules crypto u each) (ClientExec crypto u) i Q p s

abbrev PageServes (crypto : WebCrypto Secret CryptoKey) (u : UserId) (each : ι → ClientTask CryptoKey)
    (i : ι) (act : SubmitAct) (P : Rotating ι → Prop) (R : SubmitReply act → Rotating ι → Prop) :
    Prop :=
  Serves (clientRules crypto u each) (ClientExec crypto u) i act P R

omit [DecidableEq ι] in
theorem Moved.refl (task : ClientTask CryptoKey) (s : Rotating ι) : Moved u task s s :=
  ⟨List.Subset.refl _, fun _ _ => rfl⟩

/-- The profile that is read has the newest version. -/
theorem getProfile_reads {r : SubmitReply .getProfile}
    (served : ClientExec crypto u i .getProfile s r t) :
    t = s ∧ ∀ raw, r = .ok raw → ∃ j p, raw = .ofJson j ∧ Profile.fromJson j = some p ∧
      s.versions.head? = some p.credential := by
  obtain ⟨_, c, done⟩ := performTimely_iff.mp served.1
  cases c with
  | answered =>
    cases done
    refine ⟨rfl, fun raw found => ?_⟩
    obtain ⟨p, stored, head⟩ := served.2.1.stored
    obtain ⟨d, object, parsed⟩ := Option.bind_eq_some_iff.mp stored
    obtain ⟨j, json, parsed⟩ := Option.bind_eq_some_iff.mp parsed
    simp only [Rotating.profileFile, object, json, Except.ok.injEq] at found
    exact ⟨j, p, found.symm, parsed, head⟩
  | refused e =>
    cases done
    refine ⟨rfl, fun raw found => ?_⟩
    cases found
  | _ => cases done

theorem getChain_reads {r : SubmitReply .getChain} (served : ClientExec crypto u i .getChain s r t) :
    t = s ∧ r = s.chain := by
  obtain ⟨_, c, done⟩ := performTimely_iff.mp served.1
  cases c with
  | answered =>
    cases done
    exact ⟨rfl, rfl⟩
  | _ => cases done

theorem presign_idle {r : SubmitReply .presignChain}
    (served : ClientExec crypto u i .presignChain s r t) : t = s := by
  obtain ⟨_, c, done⟩ := performTimely_iff.mp served.1
  cases c with
  | answered => cases done; rfl
  | refused e => cases done; rfl
  | _ => cases done

theorem post_idle {r : SubmitReply .post} (served : ClientExec crypto u i .post s r t) : t = s := by
  obtain ⟨_, c, done⟩ := performTimely_iff.mp served.1
  cases c with
  | posted how => cases done; rfl
  | _ => cases done

/-- A request that leaves everything as it is. -/
theorem idle_serves {act : SubmitAct} {P : Rotating ι → Prop} {R : SubmitReply act → Rotating ι → Prop}
    (idle : ∀ s r t, ClientExec crypto u i act s r t → t = s)
    (after : ∀ s r, P s → ClientExec crypto u i act s r s → R r s) :
    PageServes crypto u each i act P R := by
  intro s r t all holds served
  have same := idle s r t served
  subst same
  exact ⟨all, .refl _ _, after t r holds served⟩

/-- The link that is put is of the version that is stored. -/
theorem putChain_wraps {prepared : Prepared CryptoKey} {submission : Submission} {body : ChainFile}
    {r : SubmitReply (.putChain (prepared.link crypto submission) body)}
    (served : ClientExec crypto u i (.putChain (prepared.link crypto submission) body) s r t)
    (starts : StartsFrom crypto prepared v s) :
    t = { s with chain := some body, writers := i :: s.writers } ∧
      Wrapping crypto s.versions (prepared.link crypto submission) := by
  obtain ⟨timely, c, done⟩ := performTimely_iff.mp served.1
  cases c with
  | answered =>
    cases done
    refine ⟨rfl, ?_⟩
    obtain ⟨p, stored, _⟩ := served.2.1.stored
    have from_ : (.int prepared.currentKV : Number) = .int p.currentKv.toNat := by
      simpa [Web.timely, stored, Prepared.link, buildChainLink] using timely
    obtain ⟨c, member, _, version, belongs⟩ := starts
    -- The stored version is no less than one, so the profile that was read named it.
    have positive : 0 < p.currentKv.toNat := currentKv_pos p.credential
    have same : (c.currentKv.toNat : Int) = prepared.currentKV := by
      rw [version, effective, if_neg]
      have exact_ := Number.int.inj from_
      omega
    refine ⟨c, member, prepared.oldKeys, belongs, prepared.newKV, prepared.newKeys.backupKey,
      submission.iv, ?_⟩
    rw [same]
    rfl
  | _ => cases done

theorem dropHop_subset {link : KeyChainLink} {links others : List Js}
    (dropped : dropHop link links = .ok others) : others ⊆ links := by
  induction links generalizing others with
  | nil =>
    cases dropped
    exact List.Subset.refl _
  | cons first rest ih =>
    simp only [dropHop, except_bind_ok] at dropped
    obtain ⟨same, _, others', tail, dropped⟩ := dropped
    cases dropped
    split
    next => exact List.subset_cons_of_subset _ (ih tail)
    next => exact List.cons_subset_cons _ (ih tail)

end Requests

/-! ### The link -/

section Appending

variable {crypto : WebCrypto Secret CryptoKey} {u : UserId} {each : ι → ClientTask CryptoKey} {i : ι}
  {s t : Rotating ι} {v : Nat} {prepared : Prepared CryptoKey} {submission : Submission}

/-- No two rotations share a request id. -/
def OwnIds (each : ι → ClientTask CryptoKey) : Prop :=
  ∀ i j rid, (each i).requestId = some rid → (each j).requestId = some rid → i = j

/-- Nobody else puts the own rotation on record. -/
def unrecorded (distinct : OwnIds each) (i : ι) : (clientRules crypto u each).Assertion i where
  holds := Unrecorded u (each i)
  stable := by
    rintro s t _ _ ⟨j, differ, moved⟩ here rid mine
    rw [moved.records rid fun same => differ (distinct j i rid same mine)]
    exact here rid mine

variable (crypto u) in
/-- What holds from the read of the profile on. -/
def Begun (task : ClientTask CryptoKey) (prepared : Prepared CryptoKey) (v : Nat)
    (s : Rotating ι) : Prop :=
  StartsFrom crypto prepared v s ∧ Unrecorded u task s

variable (crypto u) in
/-- What holds from the read of the chain on. -/
def HasRead (task : ClientTask CryptoKey) (prepared : Prepared CryptoKey) (v : Nat) (links : List Js)
    (s : Rotating ι) : Prop :=
  Begun crypto u task prepared v s ∧ AllWrapping crypto s.versions links

def begun (distinct : OwnIds each) (i : ι) (prepared : Prepared CryptoKey) (v : Nat) :
    (clientRules crypto u each).Assertion i where
  holds := Begun crypto u (each i) prepared v
  stable := .and (outlasting _ fun _ _ grown starts => StartsFrom.grows starts grown).stable
    (unrecorded distinct i).stable

def hasRead (distinct : OwnIds each) (i : ι) (prepared : Prepared CryptoKey) (v : Nat)
    (links : List Js) : (clientRules crypto u each).Assertion i where
  holds := HasRead crypto u (each i) prepared v links
  stable := .and (begun distinct i prepared v).stable
    (outlasting _ fun _ _ grown all => AllWrapping.grows all grown).stable

variable [DecidableEq ι]

/-- An append adds a link that wraps, and keeps none that does not. -/
theorem putChain_serves_wrapping {current : List (String × Js)} {others : List Js}
    (dropped : dropHop (prepared.link crypto submission) (chainLinks current) = .ok others) :
    PageServes crypto u each i (.putChain (prepared.link crypto submission)
        (some (.obj (setMember current "links"
          (.arr (others ++ [(prepared.link crypto submission).toJs]))))))
      (HasRead crypto u (each i) prepared v (chainLinks current))
      fun _ => Begun crypto u (each i) prepared v := by
  intro s r t _ ⟨⟨starts, fresh⟩, read⟩ served
  obtain ⟨rfl, wrapping⟩ := putChain_wraps served starts
  have links : storedLinks (some (some (.obj (setMember current "links"
      (.arr (others ++ [(prepared.link crypto submission).toJs])))))) =
      others ++ [(prepared.link crypto submission).toJs] := by
    simp [storedLinks, chainLinks]
  refine ⟨?_, ⟨List.Subset.refl _, fun _ _ => rfl⟩, starts, fresh⟩
  intro l member
  rw [links, List.mem_append, List.mem_singleton] at member
  rcases member with old | rfl
  · exact read l (dropHop_subset dropped old)
  · exact ⟨_, rfl, wrapping⟩

theorem appendLink_wraps (distinct : OwnIds each) (here : Begun crypto u (each i) prepared v s) :
    PageSafe crypto u each i (fun _ => Begun crypto u (each i) prepared v)
      (appendLink (prepared.link crypto submission)) s := by
  have ends (r : Except Raised Unit) (t : Rotating ι) (kept : Begun crypto u (each i) prepared v t) :
      PageSafe crypto u each i (fun _ => Begun crypto u (each i) prepared v)
        (.ret r) t := Safe.ret (Q := fun _ => begun distinct i prepared v) kept
  have reads : PageServes crypto u each i .getChain (Begun crypto u (each i) prepared v) fun stored =>
      HasRead crypto u (each i) prepared v (chainLinks (fetchChain stored .answered)) := by
    intro s r t all holds served
    obtain ⟨rfl, rfl⟩ := getChain_reads served
    refine ⟨all, .refl _ _, holds, ?_⟩
    rw [fetchChain_answered]
    exact all
  apply Safe.request (begun distinct i prepared v) here reads
  intro stored t read
  dsimp only
  split
  next e _ => exact ends _ t read.1
  next others dropped =>
    apply Safe.request (hasRead distinct i prepared v _) read
      (idle_serves (fun _ _ _ => presign_idle) fun _ _ holds _ => holds)
    intro granted w kept
    cases granted with
    | error e => exact ends _ w kept.1
    | ok _ =>
      apply Safe.request (hasRead distinct i prepared v _) kept (putChain_serves_wrapping dropped)
      intro _ x written
      exact ends _ x written

end Appending

/-! ### The rotation -/

section Committing

variable [DecidableEq ι] {crypto : WebCrypto Secret CryptoKey} {u : UserId}
  {each : ι → ClientTask CryptoKey} {env : Env} {i : ι} {s t : Rotating ι} {v : Nat}
  {prepared : Prepared CryptoKey} {submission : Submission} {keys : DerivedKeys CryptoKey}

variable (crypto) in
/-- These are the keys of that version. -/
def Installed (keys : DerivedKeys CryptoKey) (kv : UInt32) (s : Rotating ι) : Prop :=
  ∃ c ∈ s.versions, c.currentKv = kv ∧ Belongs crypto c keys

omit [DecidableEq ι] in
theorem Installed.grows {kv : UInt32} (installed : Installed crypto keys kv s)
    (grown : s.versions ⊆ t.versions) : Installed crypto keys kv t := by
  obtain ⟨c, member, rest⟩ := installed
  exact ⟨c, grown member, rest⟩

def installed (i : ι) (keys : DerivedKeys CryptoKey) (kv : UInt32) :
    (clientRules crypto u each).Assertion i :=
  outlasting (Installed crypto keys kv) fun _ _ grown here => here.grows grown

variable (crypto) in
/-- What an answer of the rotation promises. -/
def Succeeded (keys : DerivedKeys CryptoKey) (r : Except ApiError RotateOutcome)
    (s : Rotating ι) : Prop :=
  ∀ token kv, r = .ok (.success token kv) → Installed crypto keys kv s

omit [DecidableEq ι] in
theorem Succeeded.grows {r : Except ApiError RotateOutcome} (succeeded : Succeeded crypto keys r s)
    (grown : s.versions ⊆ t.versions) : Succeeded crypto keys r t :=
  fun token kv ok => (succeeded token kv ok).grows grown

def succeeded (i : ι) (keys : DerivedKeys CryptoKey) (r : Except ApiError RotateOutcome) :
    (clientRules crypto u each).Assertion i :=
  outlasting (Succeeded crypto keys r) fun _ _ grown here => here.grows grown

theorem body_requestId {req : RotateKeysRequest}
    (parsed : RotateKeysRequest.fromJson (prepared.body submission) = some req) :
    req.requestId = submission.requestId := by
  unfold RotateKeysRequest.fromJson at parsed
  simp only [Option.bind_eq_bind, Option.bind_eq_some_iff] at parsed
  obtain ⟨f, readable, id, idRead, _, _, _, _, _, _, _, _, _, _, _, _, parsed⟩ := parsed
  cases parsed
  rw [Prepared.body, Json.members_obj (by simp)] at readable
  cases readable
  simpa using idRead.symm

/-- A request that puts nothing but the own rotation on record. -/
theorem own_serves {o : Op} {A : Rotating ι → Prop} (grows : ∀ s t, s.versions ⊆ t.versions → A s → A t)
    (spared : ∀ rid, (each i).requestId ≠ some rid → o.puts (keyRotationRecord u.str rid) = none ∧
      o.removes (keyRotationRecord u.str rid) = false) :
    ClientServes crypto u each i o A fun _ => A := by
  intro s r t all here served
  obtain ⟨kept, adds⟩ := serve_moved each all served spared
  exact ⟨kept, adds, grows s t adds.versions here⟩

/-- A request that puts nothing on record. -/
theorem unrecorded_serves {o : Op} (spared : ∀ rid, o.puts (keyRotationRecord u.str rid) = none ∧
      o.removes (keyRotationRecord u.str rid) = false) :
    ClientServes crypto u each i o (Unrecorded u (each i)) fun _ => Unrecorded u (each i) := by
  intro s r t all here served
  obtain ⟨kept, adds⟩ := serve_moved each all served fun rid _ => spared rid
  refine ⟨kept, adds, fun rid mine => ?_⟩
  rw [record_kept served (spared rid)]
  exact here rid mine

omit [DecidableEq ι] in
theorem passive_spared {o : Op} (passive : o.passive = true) (rid : String) :
    o.puts (keyRotationRecord u.str rid) = none ∧ o.removes (keyRotationRecord u.str rid) = false :=
  ⟨Op.puts_passive passive _, Op.removes_passive passive _⟩

omit [DecidableEq ι] in
theorem put_spared {key : String} (other : ∀ rid, keyRotationRecord u.str rid ≠ key) (d : Data)
    (rid : String) :
    (Op.putObject key d).puts (keyRotationRecord u.str rid) = none ∧
      (Op.putObject key d).removes (keyRotationRecord u.str rid) = false :=
  ⟨by simp [Op.puts, other rid], rfl⟩

/-- The write that commits installs the new keys. -/
theorem commit_installs (x : Rotation env (some submission.token) (some (prepared.body submission)))
    (positive : 0 < prepared.newKV)
    (derived : ∃ secret, crypto.deriveKeys secret = some prepared.newKeys) (p : Profile) :
    ClientServes crypto u each i (.putObject (keyProfile u.str) (x.req.install p).data) (fun _ => True)
      fun r t => r = .ok () → Installed crypto prepared.newKeys x.req.keyVersion t := by
  intro s r t all _ served
  obtain ⟨kept, adds⟩ := serve_moved each all served fun rid _ =>
    put_spared (fun rid => keyRecord_ne_profile u.str rid) _ rid
  refine ⟨kept, adds, fun ok => ?_⟩
  obtain ⟨w, done, rfl, _⟩ := handling_served served.1
  obtain ⟨q, stored, head⟩ := served.2.2.1.stored
  rcases served_putObject done with ⟨_, rfl⟩ | ⟨⟨e, _, _, failed⟩, _⟩
  · -- The stored version is the one that has just been written.
    have written : profileOf u (s.server.put (keyProfile u.str) (x.req.install p).data) =
        some (x.req.install p) := by
      rw [profileOf, Sys.put, ObjectMap.get_insert, if_pos rfl]
      exact Profile.parse_data _
    cases stored.symm.trans written
    obtain ⟨version, auth⟩ := body_parsed x.parsed
    have current : x.req.credential.currentKv = x.req.keyVersion :=
      credential_currentKv x.req (by omega)
    have belongs : Belongs crypto x.req.credential prepared.newKeys :=
      KeysOf.belongs ⟨derived, auth.symm⟩
    exact ⟨x.req.credential, List.mem_of_mem_head? head, current, belongs⟩
  · rw [ok] at failed
    cases failed

/-- A rotation that is on record under no id yet succeeds only by installing the new keys. -/
theorem rotateKeys_installs (distinct : OwnIds each)
    (mine : (each i).requestId = some submission.requestId)
    (account : ∀ user, Token.identity env (some submission.token) = some user → user.userId = u)
    (positive : 0 < prepared.newKV)
    (derived : ∃ secret, crypto.deriveKeys secret = some prepared.newKeys)
    (fresh : Unrecorded u (each i) s) :
    ServerMeets crypto u each (succeeded i prepared.newKeys)
      (rotateKeys env (some submission.token) (some (prepared.body submission))) s := by
  have uid (x : Rotation env (some submission.token) (some (prepared.body submission))) :
      x.uid = u.str := by
    rw [Rotation.uid, account x.user x.known]
  have key (x : Rotation env (some submission.token) (some (prepared.body submission))) :
      x.recordKey = keyRotationRecord u.str submission.requestId := by
    rw [Rotation.recordKey, uid x, body_requestId x.parsed]
  -- Its record is the only one that this task may write.
  have own (x : Rotation env (some submission.token) (some (prepared.body submission))) (d : Data)
      (rid : String) (other : (each i).requestId ≠ some rid) :
      (Op.putObject x.recordKey d).puts (keyRotationRecord u.str rid) = none ∧
        (Op.putObject x.recordKey d).removes (keyRotationRecord u.str rid) = false := by
    have apart : keyRotationRecord u.str rid ≠ keyRotationRecord u.str submission.requestId := by
      intro same
      rw [mine, keyRotationRecord_inj same] at other
      exact other rfl
    rw [key x]
    exact ⟨by simp [Op.puts, apart], rfl⟩
  have failed (e : ApiError) (t : Rotating ι) : Succeeded crypto prepared.newKeys (.error e) t := by
    intro token kv wrong
    cases wrong
  have outcome {o : RotateOutcome} (other : ∀ token kv, o ≠ .success token kv) (t : Rotating ι) :
      Succeeded crypto prepared.newKeys (.ok o) t := by
    intro token kv same
    exact absurd (Except.ok.inj same) (other token kv)
  have lasts (kv : UInt32) : ∀ s t : Rotating ι, s.versions ⊆ t.versions →
      Installed crypto prepared.newKeys kv s → Installed crypto prepared.newKeys kv t :=
    fun _ _ grown here => here.grows grown
  apply Meets.rotateKeys (fun _ => Unrecorded u (each i)) (unrecorded distinct i)
    (fun _ => unrecorded distinct i) (fun _ => .pure True) (fun _ _ => .pure True)
    (fun x _ => installed i prepared.newKeys x.req.keyVersion)
    (fun x _ => installed i prepared.newKeys x.req.keyVersion)
    (fun _ r => succeeded i prepared.newKeys r)
  -- The token is read
  · exact Safe.only (unrecorded distinct i)
      (fun o passive => unrecorded_serves (passive_spared passive))
      (authenticate_passive env (some submission.token) false) fresh
  · exact fun e t _ => failed e t
  · exact fun user t _ _ => failed _ t
  · exact fun user t here => here
  -- The lock is taken
  · intro x v r t all here served
    obtain ⟨kept, adds, after⟩ := unrecorded_serves (fun rid => ⟨rfl, rfl⟩) v r t all here served
    exact ⟨kept, adds, fun _ => after, fun _ => outcome (fun _ _ wrong => by cases wrong) t⟩
  -- No record is found
  · intro x v r t all here served
    obtain ⟨kept, adds, after⟩ := unrecorded_serves (passive_spared rfl) v r t all here served
    refine ⟨kept, adds, fun d rec ok parsed => ?_, fun _ => trivial⟩
    obtain ⟨w, done, rfl, _⟩ := handling_served served.1
    obtain ⟨_, found | ⟨e, _, _, wrong⟩⟩ := served_getObject done
    · have missing := here submission.requestId mine
      rw [ok, key x] at found
      rw [recordOf, lookup_eq_ok.mp found.symm, Option.bind_some, parsed] at missing
      cases missing
    · rw [ok] at wrong
      cases wrong
  -- The profile is read, and a refusal recorded
  · intro x v r t all here served
    obtain ⟨kept, adds⟩ := serve_moved each all served fun rid _ => passive_spared rfl rid
    exact ⟨kept, adds, fun msg => failed _ t, fun _ _ _ _ => trivial⟩
  · exact fun x p t _ msg => failed _ t
  · intro x p refusal refused v r t all here served
    obtain ⟨kept, adds⟩ := serve_moved each all served (own x _)
    refine ⟨kept, adds, outcome ?_ t⟩
    rintro token kv rfl
    exact refused
  -- The rotation is committed
  · intro x p _
    rw [uid x]
    intro v r t all here served
    obtain ⟨kept, adds, after⟩ := commit_installs x positive derived p v r t all here served
    exact ⟨kept, adds, after, fun e _ msg => failed _ t⟩
  -- What follows changes no version
  · exact fun x p _ => own_serves (lasts _) fun rid _ =>
      put_spared (fun rid => (keyHandle_ne_record _ _ _).symm) _ rid
  · exact fun x p => own_serves (lasts _) (own x _)
  · intro x p v r t all here served
    obtain ⟨kept, adds, after⟩ :=
      own_serves (lasts _) (fun rid _ => passive_spared rfl rid) v r t all here served
    refine ⟨kept, adds, fun token kv same => ?_⟩
    cases same
    exact after
  · exact fun x r => own_serves (fun _ _ grown here => here.grows grown) fun rid _ => ⟨rfl, rfl⟩

end Committing

/-! ### Each task -/

section Tasks

variable [DecidableEq ι] {crypto : WebCrypto Secret CryptoKey} {u : UserId}
  {each : ι → ClientTask CryptoKey} {env : Env} {i : ι} {s t : Rotating ι} {v : Nat}

variable (crypto u) in
/-- The keys of the session and the password that was given are those of stored versions, the
latter from `v` on. -/
def Vouched (password : String) (v : Nat) : Ended CryptoKey → Rotating ι → Prop
  | .session session, s => session.userId = .str u.str →
    session.Fits crypto s ∧ Knows crypto password v s
  | .revoked, s => Knows crypto password v s
  | .nothing, _ => True

omit [DecidableEq ι] in
theorem Vouched.grows {password : String} {ended : Ended CryptoKey}
    (vouched : Vouched crypto u password v ended s) (grown : s.versions ⊆ t.versions) :
    Vouched crypto u password v ended t := by
  cases ended with
  | session session => exact fun mine => ⟨(vouched mine).1.grows grown, (vouched mine).2.grows grown⟩
  | revoked => exact Knows.grows vouched grown
  | nothing => trivial

def vouched (i : ι) (password : String) (v : Nat) (ended : Ended CryptoKey) :
    (clientRules crypto u each).Assertion i :=
  outlasting (Vouched crypto u password v ended) fun _ _ grown here => here.grows grown

omit [DecidableEq ι] in
theorem Proven.knows {keys : DerivedKeys CryptoKey} {keyVersion : Int} {password : String}
    (proven : Proven crypto v keys keyVersion s) (derived : DerivedFrom crypto password keys) :
    Knows crypto password v s := by
  obtain ⟨c, member, above, _, belongs⟩ := proven
  exact ⟨c, member, above, keys, derived, belongs⟩

omit [DecidableEq ι] in
/-- The requests of a handler are served one by one. -/
theorem Safe.answered {α : Type} {rules : Rules ι (Rotating ι)}
    {exec : ι → (act : SubmitAct) → Rotating ι → SubmitReply act → Rotating ι → Prop}
    {Q : α → Rotating ι → Prop} {p : Eff α} (safe : Safe rules (fun i o => exec i (.serve o)) i Q p s) :
    Safe rules exec i Q (p.expand fun o => Prog.request (SubmitAct.serve o)) s := by
  induction p generalizing s with
  | ret a => exact safe
  | op o k ih =>
    intro t moved inv r w served
    obtain ⟨kept, own, rest⟩ := safe t moved inv r w served
    exact ⟨kept, own, ih r rest⟩

/-- An answer that comes back is worth what the handler's is. -/
theorem roundTrip_meets {α : Type} {handler : Handler α} (A : (clientRules crypto u each).Assertion i)
    (P : Except ApiError α → (clientRules crypto u each).Assertion i) (here : A s)
    (meets : ∀ t, A t → ServerMeets crypto u each P handler t) :
    PageSafe crypto u each i (fun answer t => ∀ r, answer = some r → P r t)
      (roundTrip handler) s := by
  have ends (answer : Option (Except ApiError α)) (t : Rotating ι)
      (holds : ∀ r, answer = some r → P r t) :
      PageSafe crypto u each i (fun answer t => ∀ r, answer = some r → P r t) (.ret answer) t :=
    fun w moved r same => (P r).stable.others moved (holds r same)
  apply Safe.request A here (idle_serves (fun _ _ _ => post_idle) fun _ _ holds _ => holds)
  intro how t holds
  have served := Safe.answered (meets t holds)
  cases how with
  | lost => exact ends none t fun _ wrong => by cases wrong
  | answered =>
    apply Safe.bind served
    intro r w after
    apply ends
    intro r' same
    cases same
    exact after
  | abandoned =>
    apply Safe.bind served
    intro r w _
    exact ends none w fun _ wrong => by cases wrong

omit [DecidableEq ι] in
theorem Safe.grown {α : Type}
    {exec : ι → (act : SubmitAct) → Rotating ι → SubmitReply act → Rotating ι → Prop}
    {Q : α → Rotating ι → Prop} {p : SubmitProg α}
    (safe : Safe (clientRules crypto u each) exec i Q p s) :
    Safe (clientRules crypto u each) exec i (fun a t => Q a t ∧ s.versions ⊆ t.versions) p s := by
  have others : ∀ s t, (clientRules crypto u each).rely i s t → s.versions ⊆ t.versions := by
    intro s t moved
    obtain ⟨_, _, moved⟩ := moved
    exact moved.versions
  exact @Safe.relates _ _ _ _ _ (clientRules crypto u each) _ i (fun s t => s.versions ⊆ t.versions)
    (fun _ => List.Subset.refl _) (fun _ _ _ first last => List.Subset.trans first last)
    others (fun _ _ moved => moved.versions) _ _ _ safe

variable (crypto u) in
/-- Who has signed in is vouched for. -/
def SignedIn (password : String) (v : Nat) (r : Except LoginError (Session CryptoKey))
    (s : Rotating ι) : Prop :=
  ∀ session, r = .ok session → Vouched crypto u password v (.session session) s

variable (crypto) in
/-- Who has revoked a device knew the password. -/
def HasRevoked (password : String) (v : Nat) (r : Except Raised Unit) (s : Rotating ι) : Prop :=
  r = .ok () → Knows crypto password v s

theorem signIn_vouches (ideal : Ideal env crypto) (builtins : FormBuiltins) (form : SignIn)
    (least : AtLeast v s) :
    PageSafe crypto u each i (SignedIn crypto u form.secretInput v)
      (handleLogin crypto env builtins form) s := by
  have failed (e : LoginError) (t : Rotating ι) : PageSafe crypto u each i
      (SignedIn crypto u form.secretInput v) (.ret (.error e)) t := by
    intro w _ session wrong
    cases wrong
  -- the lookup changes nothing that matters here
  have looked (t : Rotating ι) (here : AtLeast v t) : ServerMeets crypto u each (fun _ => atLeast i v)
      (Atmin.resolve env (builtins.normalise form.handle)) t :=
    (Safe.only (atLeast i v) (fun o => atLeast_serves) (resolve_neutral u env _) here).weaken
      fun _ _ after => after.2
  apply Safe.bind (roundTrip_meets (atLeast i v) _ least looked)
  intro answer t here
  cases answer with
  | none => exact failed _ t
  | some answer =>
    dsimp only
    split
    next e _ => exact failed e t
    next => exact failed _ t
    next => exact failed _ t
    next data _ =>
      split
      next e _ => exact failed _ t
      next account found =>
        -- what the form derives proves the password to `add_device`
        have derived := deriveFor_derived found
        apply Safe.bind (roundTrip_meets (atLeast i v) _ (here answer rfl)
          fun w least => addDevice_meets ideal derived.known least)
        intro added w proven
        rcases added with _ | _ | device
        · exact failed _ w
        · exact failed _ w
        · apply Safe.ret (Q := fun r => outlasting (SignedIn crypto u form.secretInput v r)
            fun _ _ grown here session ok => (here session ok).grows grown)
          intro session same
          cases same
          intro mine
          have known : Proven crypto v account.keys account.keyVersion w :=
            proven (.ok device) rfl device rfl mine
          refine ⟨?_, known.knows derived⟩
          obtain ⟨c, member, _, version, belongs⟩ := known
          exact ⟨c, member, version, belongs⟩

theorem revoke_vouches (ideal : Ideal env crypto) {revocation : DeviceRevocation}
    (account : ∀ user, Token.identity env (some revocation.token) = some user → user.userId = u)
    (least : AtLeast v s) :
    PageSafe crypto u each i (HasRevoked crypto revocation.secretInput v)
      (handleRevoke crypto env revocation) s := by
  have failed (e : Raised) (t : Rotating ι) : PageSafe crypto u each i
      (HasRevoked crypto revocation.secretInput v) (.ret (.error e)) t := by
    intro w _ wrong
    cases wrong
  apply Safe.request (atLeast i v) least
    (idle_serves (fun _ _ _ served => (getProfile_reads served).1) fun _ _ holds _ => holds)
  intro answer t here
  rcases answer with e | raw
  · exact failed _ t
  · dsimp only
    split
    next e _ => exact failed _ t
    next profile _ =>
      split
      next e _ => exact failed _ t
      next keys keyVersion found =>
        have derived := keysAt_derived found
        apply Safe.bind (roundTrip_meets (atLeast i v) _ here
          fun w least => revokeDevice_meets ideal account derived.known least)
        intro answer w proven
        rcases answer with _ | _ | _
        · exact failed _ w
        · exact failed _ w
        · apply Safe.ret (Q := fun r => outlasting (HasRevoked crypto revocation.secretInput v r)
            fun _ _ grown here ok => (here ok).grows grown)
          intro _
          exact (proven (.ok ()) rfl () rfl trivial).knows derived

/-- What the rotation leaves the client with. -/
def Rotated (crypto : WebCrypto Secret CryptoKey) (keys : DerivedKeys CryptoKey) (result : SubmitResult)
    (s : Rotating ι) : Prop :=
  ∀ token kv, result = .done token kv → Installed crypto keys kv s

theorem postRotation_installs {prepared : Prepared CryptoKey} {submission : Submission}
    (distinct : OwnIds each) (mine : (each i).requestId = some submission.requestId)
    (account : ∀ user, Token.identity env (some submission.token) = some user → user.userId = u)
    (derived : ∃ secret, crypto.deriveKeys secret = some prepared.newKeys)
    (here : Begun crypto u (each i) prepared v s) :
    PageSafe crypto u each i (Rotated crypto prepared.newKeys)
      (postRotation env submission.token (prepared.body submission)) s := by
  have ends (result : SubmitResult) (t : Rotating ι)
      (holds : Rotated crypto prepared.newKeys result t) :
      PageSafe crypto u each i (Rotated crypto prepared.newKeys) (.ret result) t :=
    Safe.ret (Q := fun result => outlasting (Rotated crypto prepared.newKeys result)
      fun _ _ grown here token kv done => (here token kv done).grows grown) holds
  have unheard (e : Raised) (t : Rotating ι) : Rotated crypto prepared.newKeys (caught e) t := by
    intro token kv wrong
    cases e <;> cases wrong
  apply Safe.request (begun distinct i prepared v) here
    (idle_serves (fun _ _ _ => post_idle) fun _ _ holds _ => holds)
  intro how t holds
  have rotation : PageSafe crypto u each i (Succeeded crypto prepared.newKeys)
      (handled env submission.token (prepared.body submission)) t :=
    Safe.answered (rotateKeys_installs distinct mine account holds.1.positive derived holds.2)
  cases how with
  | lost => exact ends _ t (unheard _ t)
  | answered =>
    apply Safe.bind rotation
    intro r w after
    apply ends
    intro token kv done
    -- Only a success makes a new session.
    rcases r with e | ⟨token', kv'⟩ | current | _
    · cases e <;> cases done
    · cases done
      exact after token kv rfl
    · cases done
    · cases done
  | abandoned =>
    apply Safe.bind rotation
    intro r w _
    exact ends _ w (unheard _ w)

/-- The session that a change of the password ends with has its keys. -/
def Changed (crypto : WebCrypto Secret CryptoKey) (password : String) (v : Nat)
    (done : SubmitResult × Option (Session CryptoKey)) (s : Rotating ι) : Prop :=
  ∀ next, done.2 = some next → next.Fits crypto s ∧ Knows crypto password v s

theorem change_vouches {session : Session CryptoKey} {submission : Submission}
    (distinct : OwnIds each) (mine : (each i).requestId = some submission.requestId)
    (account : ∀ user, Token.identity env (some submission.token) = some user → user.userId = u)
    (least : AtLeast v s) (fresh : Unrecorded u (each i) s) :
    PageSafe crypto u each i (Changed crypto submission.currentPassword v)
      (changePassword crypto env session submission) s := by
  have failed (result : SubmitResult) (t : Rotating ι) : PageSafe crypto u each i
      (Changed crypto submission.currentPassword v) (.ret (result, none)) t := by
    intro w _ next wrong
    cases wrong
  have reads : PageServes crypto u each i .getProfile (fun s => AtLeast v s ∧ Unrecorded u (each i) s)
      fun r t => ∀ raw prepared, r = .ok raw → prepare crypto submission raw = .ok (some prepared) →
        Begun crypto u (each i) prepared v t ∧
          ∃ secret, crypto.deriveKeys secret = some prepared.newKeys := by
    intro s r t all ⟨least, fresh⟩ served
    obtain ⟨rfl, found⟩ := getProfile_reads served
    refine ⟨all, .refl _ _, fun raw prepared ok ready => ?_⟩
    obtain ⟨j, p, rfl, parsed, head⟩ := found raw ok
    obtain ⟨keys, version, derived⟩ := prepare_parsed parsed ready
    obtain ⟨c, member, above⟩ := least
    -- The version that is read is the newest.
    have newest : v ≤ p.credential.currentKv.toNat := by
      rcases falling_head served.2.1.falling head member with rfl | below
      · exact above
      · omega
    have member := List.mem_of_mem_head? head
    exact ⟨⟨⟨p.credential, member, newest, version, keys.belongs⟩, fresh⟩, derived⟩
  apply Safe.request ((atLeast i v).and (unrecorded distinct i)) ⟨least, fresh⟩ reads
  intro answer t read
  cases answer with
  | error e => exact failed _ t
  | ok raw =>
    dsimp only
    split
    next e _ => exact failed _ t
    next => exact failed _ t
    next prepared ready =>
      obtain ⟨here, derived⟩ := read raw prepared rfl ready
      apply Safe.bind (appendLink_wraps distinct here)
      intro appended w kept
      cases appended with
      | error e => exact failed _ w
      | ok _ =>
        apply Safe.bind (Safe.grown (postRotation_installs distinct mine account derived kept))
        intro result x ⟨rotated, grown⟩
        apply Safe.ret (Q := fun done => outlasting (Changed crypto submission.currentPassword v done)
          fun _ _ grown here next same =>
            ⟨(here next same).1.grows grown, (here next same).2.grows grown⟩)
        intro next same
        cases result with
        | done token kv =>
          cases same
          obtain ⟨c, member, version, belongs⟩ := rotated token kv rfl
          refine ⟨⟨c, member, ?_, belongs⟩, ?_⟩
          · rw [version]
          · obtain ⟨c', member', above, _, known⟩ := kept.1.grows grown
            exact ⟨c', member', above, prepared.oldKeys, prepare_derived ready, known⟩
        | _ => cases same

theorem task_vouches (ideal : Ideal env crypto) (account : ∀ j, (each j).OnAccount env u)
    (distinct : OwnIds each) (least : AtLeast v s) (fresh : Unrecorded u (each i) s) :
    PageSafe crypto u each i (Vouched crypto u (each i).password v)
      ((each i).prog crypto env) s := by
  have ends (ended : Ended CryptoKey) (t : Rotating ι)
      (holds : Vouched crypto u (each i).password v ended t) :
      PageSafe crypto u each i (Vouched crypto u (each i).password v) (.ret ended) t :=
    Safe.ret (Q := vouched i (each i).password v) holds
  have mine := account i
  cases task : each i with
  -- a session answers to the password that it signed in with
  | signIn builtins form =>
    rw [task] at ends
    apply Safe.bind (signIn_vouches ideal builtins form least)
    intro r t signed
    cases r with
    | error e => exact ends .nothing t trivial
    | ok session => exact ends (.session session) t (signed session rfl)
  -- or to the new one
  | changePassword session submission =>
    rw [task] at ends mine
    have named : (each i).requestId = some submission.requestId := by rw [task]; rfl
    apply Safe.bind (change_vouches distinct named mine least fresh)
    intro done t changed
    rcases done with ⟨result, _ | next⟩
    · exact ends .nothing t trivial
    · exact ends (.session next) t fun _ => changed next rfl
  | revoke revocation =>
    rw [task] at ends mine
    apply Safe.bind (revoke_vouches ideal mine least)
    intro r t revoked
    cases r with
    | error e => exact ends .nothing t trivial
    | ok _ => exact ends .revoked t (revoked rfl)
  -- no other request gives a session
  | other handler =>
    rw [task] at ends mine
    have handled : Safe (clientRules crypto u each) (ServerExec crypto u) i
        (fun _ t => True ∧ AtLeast v t) handler.run s :=
      Safe.only (atLeast i v) (fun o => atLeast_serves) mine least
    apply Safe.bind (Safe.answered handled)
    intro r t _
    exact ends .nothing t trivial

end Tasks

/-! ### Tasks that leave the rotations alone -/

section Sparing

variable {crypto : WebCrypto Secret CryptoKey} {u : UserId} {env : Env}

/-- Requests of a page that leave profile, lock and chain alone. -/
def SubmitAct.Spares (u : UserId) : SubmitAct → Prop
  | .getProfile | .post => True
  | .serve o => Neutral u o
  | _ => False

abbrev Sparing (u : UserId) {α : Type} (p : SubmitProg α) : Prop :=
  Prog.Only (SubmitAct.Spares u) (fun _ => True) p

theorem onHandler_spares {α : Type} {handler : Handler α} (asks : Asks (Neutral u) handler) :
    Sparing u (onHandler handler) :=
  Prog.Only.expand asks fun _ apart => .op apart fun _ => .ret trivial

theorem roundTrip_spares {α : Type} {handler : Handler α} (asks : Asks (Neutral u) handler) :
    Sparing u (roundTrip handler) := by
  apply Prog.Only.op
  · trivial
  intro how
  cases how with
  | lost => exact .ret trivial
  | answered => exact (onHandler_spares asks).bind fun _ _ => .ret trivial
  | abandoned => exact (onHandler_spares asks).bind fun _ _ => .ret trivial

theorem handleLogin_spares (builtins : FormBuiltins) (form : SignIn) :
    Sparing u (handleLogin crypto env builtins form) := by
  apply Prog.Only.bind (roundTrip_spares (resolve_neutral u env _))
  intro answer _
  cases answer with
  | none => exact .ret trivial
  | some answer =>
    dsimp only
    split
    next => exact .ret trivial
    next => exact .ret trivial
    next => exact .ret trivial
    next =>
      split
      next => exact .ret trivial
      next account _ =>
        apply Prog.Only.bind (roundTrip_spares (addDevice_neutral u env _))
        intro added _
        rcases added with _ | _ | device
        · exact .ret trivial
        · exact .ret trivial
        · exact .ret trivial

theorem handleRevoke_spares (revocation : DeviceRevocation) :
    Sparing u (handleRevoke crypto env revocation) := by
  apply Prog.Only.op
  · trivial
  intro answer
  cases answer with
  | error e => exact .ret trivial
  | ok raw =>
    dsimp only
    split
    next => exact .ret trivial
    next =>
      split
      next => exact .ret trivial
      next =>
        apply Prog.Only.bind (roundTrip_spares (revokeDevice_neutral u env _ _))
        intro revoked _
        rcases revoked with _ | _ | _
        · exact .ret trivial
        · exact .ret trivial
        · exact .ret trivial

variable [DecidableEq ι] {i : ι} {s t : Rotating ι}

theorem spares_serves {act : SubmitAct} (spares : act.Spares u) :
    Serves (chainRules crypto u) (execOf (performTimely u)) i act (fun _ => True) fun _ _ => True := by
  cases act with
  | getProfile =>
    intro s r t order _ served
    obtain ⟨_, c, done⟩ := performTimely_iff.mp served
    cases c with
    | answered => cases done; exact ⟨order, .refl i s, trivial⟩
    | refused e => cases done; exact ⟨order, .refl i s, trivial⟩
    | _ => cases done
  | post => exact post_serves
  | serve o => exact aside_serves spares.toAside fun _ _ _ _ => trivial
  | _ => cases spares

theorem sparing_ordered {α : Type} {p : SubmitProg α} (spares : Sparing u p) :
    Safe (chainRules crypto u) (execOf (performTimely u)) i (fun _ _ => True) p s :=
  (Safe.only (.pure True) (fun _ => spares_serves) spares trivial).weaken fun _ _ _ => trivial

/-- Whatever the task, it keeps the order of the rotations. -/
theorem task_ordered {task : ClientTask CryptoKey} (account : task.OnAccount env u) (s : Rotating ι) :
    Safe (chainRules crypto u) (execOf (performTimely u)) i (fun _ _ => True)
      (task.prog crypto env) s := by
  cases task with
  | signIn builtins form =>
    apply sparing_ordered
    apply Prog.Only.bind (handleLogin_spares builtins form)
    intro r _
    cases r <;> exact .ret trivial
  | changePassword session submission =>
    have submitted : Safe (chainRules crypto u) (execOf (performTimely u)) i (fun _ _ => True)
        (submit crypto env submission) s := submit_linked account s
    rw [← changePassword_submit crypto env session submission] at submitted
    apply Safe.bind (Safe.of_bind submitted)
    intro done t _
    rcases done with ⟨result, _ | next⟩
    · exact fun _ _ => trivial
    · exact fun _ _ => trivial
  | revoke revocation =>
    apply sparing_ordered
    apply Prog.Only.bind (handleRevoke_spares revocation)
    intro r _
    cases r <;> exact .ret trivial
  | other handler =>
    apply sparing_ordered
    apply Prog.Only.bind (onHandler_spares account)
    intro r _
    exact .ret trivial

end Sparing

/-! ### Runs -/

section Runs

variable [DecidableEq ι] {crypto : WebCrypto Secret CryptoKey} {u : UserId}
  {each : ι → ClientTask CryptoKey} {env : Env} {v : Nat}

/-- The rules of the rotations, and those of the tasks on top. -/
abbrev accountRules (crypto : WebCrypto Secret CryptoKey) (u : UserId)
    (each : ι → ClientTask CryptoKey) : Rules ι (Rotating ι) :=
  (chainRules crypto u).meet (clientRules crypto u each)

/-- What is known of a task before it starts. -/
def Unstarted (u : UserId) (each : ι → ClientTask CryptoKey) (v : Nat) (i : ι)
    (s : Rotating ι) : Prop :=
  AtLeast v s ∧ Unrecorded u (each i) s

theorem clients_contracts (ideal : Ideal env crypto) (account : ∀ i, (each i).OnAccount env u)
    (distinct : OwnIds each) (v : Nat) :
    Contracts (accountRules crypto u each) (clients crypto env u each) (Unstarted u each v)
      fun i => Vouched crypto u (each i).password v where
  stable i s t before after rely ready := by
    obtain ⟨j, _, moved⟩ := rely.2
    exact ⟨ready.1.grows moved.versions,
      (unrecorded distinct i).stable s t before.2 after.2 rely.2 ready.2⟩
  arrives i s _ ready := by
    have ordered : Safe (chainRules crypto u) (execOf (performTimely u)) i (fun _ _ => True)
        ((each i).prog crypto env) s := task_ordered (account i) s
    have both := Safe.meet ordered (task_vouches ideal account distinct ready.1 ready.2)
    exact both.weaken fun _ _ after => after.2

end Runs

end Atmin.Web
