import Atmin.Rotation.Ledger
import Atmin.Server.Alone
import Atmin.Server.Sample

/-!
# A rotation sent again

A client that lost the answer to its rotation sends the request again. The record of the outcome
is what saves it from being told that its version is stale: the profile has moved on. But the
record is saved on a best-effort basis, and a load that fails counts as a miss.
-/

namespace Atmin

open Interaction

/-- What the load makes of the answer of the store. -/
def loadedRecord : Except StoreError Data → Except StoreError (Option RotationRecord)
  | .ok d => match RotationRecord.parse d with
    | some rec => .ok (some rec)
    | none => .error (.backend "invalid rotation record")
  | .error .notFound => .ok none
  | .error e => .error e

namespace Ends

variable {σ β : Type} {exec : (o : Op) → σ → Res o → σ → Prop} {s : σ}
  {Q : Except ApiError β → σ → Prop}

theorem readAs {e : ApiError} {key : String} {f : Data → Handler β}
    (failed : ∀ err t, exec (.getObject key) s (.error err) t → Q (.error e) t)
    (rest : ∀ d t, exec (.getObject key) s (.ok d) t → Ends exec (f d).run t Q) :
    Ends exec (tryStoreAs e (ask (.getObject key)) >>= f).run s Q := by
  simp only [run_bind, run_tryStoreAs, ask_bind, Prog.op_bind]
  refine .op fun r t served => ?_
  cases r with
  | ok d => exact rest d t served
  | error err => exact .ret (failed err t served)

theorem writeAs {e : ApiError} {key : String} {d : Data} {f : Unit → Handler β}
    (failed : ∀ err t, exec (.putObject key d) s (.error err) t → Q (.error e) t)
    (rest : ∀ t, exec (.putObject key d) s (.ok ()) t → Ends exec (f ()).run t Q) :
    Ends exec (tryStoreAs e (ask (.putObject key d)) >>= f).run s Q := by
  simp only [run_bind, run_tryStoreAs, ask_bind, Prog.op_bind]
  refine .op fun r t served => ?_
  cases r with
  | ok _ => exact rest t served
  | error err => exact .ret (failed err t served)

/-- The load of a record is one read. -/
theorem loads {key : String} {f : Except StoreError (Option RotationRecord) → Handler β}
    (rest : ∀ r t, exec (.getObject key) s r t → Ends exec (f (loadedRecord r)).run t Q) :
    Ends exec (Atmin.call (loadRotationRecord key) >>= f).run s Q := by
  simp only [run_bind, run_call, loadRotationRecord, ask_bind, Prog.op_bind]
  refine .op fun r t served => ?_
  have next := rest r t served
  rcases r with (_ | _) | d
  · exact next
  · exact next
  · unfold loadedRecord at next
    dsimp only at next ⊢
    cases parsed : RotationRecord.parse d with
    | none => rw [parsed] at next; exact next
    | some rec => rw [parsed] at next; exact next

end Ends

section Resend

variable {ι : Type} {i : ι} {s t : Sys ι} {env : Env} {token : Option String} {body : Option Json}

/-! ### The request that wrote the profile -/

theorem putBestEffort_faulty (key : String) (d : Data) :
    Interaction.Ends (Faulty i) (putBestEffort key d).run s fun r t =>
      r = .ok () ∧ ∀ k, k ≠ key → t.objects.get k = s.objects.get k := by
  unfold putBestEffort
  refine Ends.call fun r t served => .ret ⟨rfl, fun k other => ?_⟩
  have put : (s.put key d).objects.get k = s.objects.get k := by
    rw [Sys.put, ObjectMap.get_insert, if_neg other]
  rcases served_putObject served with ⟨_, rfl⟩ | ⟨_, rfl | rfl⟩
  · exact put
  · exact put
  · rfl

theorem recordOutcome_faulty (key : String) (outcome : RotateOutcome) :
    Interaction.Ends (Faulty i) (recordOutcome key outcome).run s fun r t =>
      r = .ok outcome ∧ ∀ k, k ≠ key → t.objects.get k = s.objects.get k :=
  Ends.andThen (putBestEffort_faulty key outcome.toRecord.data) (fun _ _ wrong => nomatch wrong.1)
    fun _ _ ⟨_, kept⟩ => .ret ⟨rfl, kept⟩

theorem reproject_faulty (p : Profile) :
    Interaction.Ends (Faulty i) (reproject p).run s fun r t =>
      r = .ok () ∧ ∀ k, k ≠ keyHandle p.handle → t.objects.get k = s.objects.get k := by
  unfold reproject
  split
  next => exact .ret ⟨rfl, fun _ _ => rfl⟩
  next => exact putBestEffort_faulty _ _

variable (x : Rotation env token body)

/-- The profile is stored as it was, or with the request's credential, which then advances the
version by one. -/
def Wrote (s t : Sys ι) : Prop :=
  t.objects.get (keyProfile x.uid) = s.objects.get (keyProfile x.uid) ∨
    ∃ p, profileOf x.user.userId s = some p ∧ x.req.keyVersion = p.currentKv + 1 ∧
      t.objects.get (keyProfile x.uid) = some (x.req.install p).data

variable {x}

theorem commitRotation_writes {p : Profile} (stored : profileOf x.user.userId s = some p)
    (next : x.req.keyVersion = p.currentKv + 1) :
    Interaction.Ends (Faulty i) (commitRotation env x.user x.req p x.recordKey).run s fun _ t =>
      Wrote x s t := by
  unfold commitRotation
  have written : (s.put (keyProfile x.uid) (x.req.install p).data).objects.get (keyProfile x.uid) =
      some (x.req.install p).data := by rw [Sys.put, ObjectMap.get_insert, if_pos rfl]
  refine Ends.writeAs (fun err t served => ?_) fun t served => ?_
  · rcases served_putObject served with ⟨wrong, _⟩ | ⟨_, rfl | rfl⟩
    · cases wrong
    · exact .inr ⟨p, stored, next, written⟩
    · exact .inl rfl
  · have same : t = s.put (keyProfile x.uid) (x.req.install p).data := by
      rcases served_putObject served with ⟨_, same⟩ | ⟨⟨_, _, _, wrong⟩, _⟩
      · exact same
      · cases wrong
    subst same
    -- The other writes leave the profile alone.
    refine Ends.andThen (reproject_faulty _) (fun _ _ wrong => by cases wrong.1) fun _ u projected => ?_
    have kept := projected.2
    refine Ends.andThen (recordOutcome_faulty _ _) (fun _ _ wrong => by cases wrong.1)
      fun _ v recorded => ?_
    have kept' := recorded.2
    refine Ends.call fun _ w served => .ret (.inr ⟨p, stored, next, ?_⟩)
    obtain ⟨_, _, _, rfl⟩ := served_volatile served rfl
    show v.objects.get _ = _
    rw [kept' _ (keyRecord_ne_profile _ _).symm, kept _ (keyHandle_ne_profile _ _).symm]
    exact written

theorem rotateFresh_writes :
    Interaction.Ends (Faulty i) (rotateFresh env x.user x.req x.recordKey).run s fun _ t =>
      Wrote x s t := by
  unfold rotateFresh
  have refuses (outcome : RotateOutcome) : Interaction.Ends (Faulty i)
      (recordOutcome x.recordKey outcome).run s fun _ t => Wrote x s t :=
    (recordOutcome_faulty _ _).weaken fun _ _ ⟨_, kept⟩ => .inl (kept _ (keyRecord_ne_profile _ _).symm)
  refine Ends.readAs (fun err t served => ?_) fun d t served => ?_
  · rw [(served_getObject served).1]
    exact .inl rfl
  obtain ⟨rfl, found⟩ := served_getObject served
  have here : t.objects.get (keyProfile x.uid) = some d := by
    rcases found with found | ⟨_, _, _, wrong⟩
    · exact lookup_eq_ok.mp found.symm
    · cases wrong
  refine Ends.orFail (fun _ => .inl rfl) fun p parsed => ?_
  have stored : profileOf x.user.userId t = some p := Option.bind_eq_some_iff.mpr ⟨d, here, parsed⟩
  split
  next => exact refuses _
  next next =>
    refine Ends.orFail (fun _ => .inl rfl) fun oldPub _ => ?_
    split
    next => exact commitRotation_writes stored (not_not.mp next)
    next => exact refuses _

theorem rotateLocked_writes :
    Interaction.Ends (Faulty i) (rotateLocked env x.user x.req x.recordKey).run s fun _ t =>
      Wrote x s t := by
  unfold rotateLocked
  refine Ends.loads fun r t served => ?_
  rw [(served_getObject served).1]
  split
  next => exact .ret (.inl rfl)
  next => exact rotateFresh_writes

/-- A run of the request writes the profile with its credential, or not at all. -/
theorem rotateKeys_writes :
    Interaction.Ends (Faulty i) (rotateKeys env token body).run s fun _ t => Wrote x s t := by
  have same {t : Sys ι} (objects : t.objects = s.objects) : Wrote x s t := .inl (by rw [objects])
  unfold rotateKeys
  have guarded : Interaction.Ends (Faulty i) (authenticate env token false).run s fun r t =>
      Identified env token r ∧ t.objects = s.objects := by
    refine Interaction.Ends.keeping (authenticate_passive env token false) ?_ rfl
    intro o v r t passive served objects
    obtain ⟨_, _, _, _, _, rfl⟩ := served_passive served passive
    exact objects
  refine Ends.andThen guarded (fun _ _ ⟨_, objects⟩ => same objects) fun user t ⟨known, objects⟩ => ?_
  cases (known user rfl).symm.trans x.known
  rw [parseBody, x.parsed]
  refine Ends.checked (fun _ => same objects) fun _ => ?_
  rw [run_withLock]
  refine .op fun got u served => ?_
  have through {u : Sys ι} (objects : u.objects = s.objects) : Interaction.Ends (Faulty i)
      (Prog.bind (rotateLocked env x.user x.req x.recordKey).run fun res =>
        .op (.release (.rotation x.uid)) fun _ => .ret res) u fun _ t => Wrote x s t := by
    refine Interaction.Ends.bind rotateLocked_writes fun r v wrote => .op fun _ w released => .ret ?_
    rw [served_release released]
    rcases wrote with kept | ⟨p, stored, next, written⟩
    · exact .inl (by rw [← objects]; exact kept)
    · refine .inr ⟨p, ?_, next, written⟩
      rw [← stored, profileOf, profileOf, objects]
  rcases served_acquire served with ⟨rfl, _, rfl⟩ | ⟨rfl, rfl⟩
  · exact through objects
  · exact .ret (same objects)

/-- The version a profile is at is not the next one. -/
theorem currentKv_next (p : Profile) : p.keyVersion ≠ p.currentKv + 1 := by
  show p.keyVersion ≠ (if p.keyVersion = 0 then 1 else p.keyVersion) + 1
  split
  next zero =>
    rw [zero]
    decide
  next =>
    intro same
    have sizes := congrArg UInt32.toNat same
    have bound := p.keyVersion.toNat_lt
    rw [UInt32.toNat_add, show (1 : UInt32).toNat = 1 from rfl] at sizes
    omega

/-! ### The request sent again -/

/-- Nobody else is around, and storage does not fail, but for the load of the rotation record,
which may. A lock that is free is had; one that is held is waited for in vain. -/
def resent (m : Moment) (recordKey : String) (fails : Option String) (i : ι) (o : Op) (c : Choice)
    (s : Sys ι) : Option (Res o × Sys ι) :=
  match o with
  | .acquire lock =>
    if s.holder lock = none then some (.ok (), { s with holder := Function.update s.holder lock (some i) })
    else some (.error .mk, s)
  | .getObject key => match fails with
    | some err => if key = recordKey then some (.error (.backend err), s) else some (s.lookup key, s)
    | none => some (s.lookup key, s)
  | o => alone none m i o c s

abbrev Resent (m : Moment) (recordKey : String) (fails : Option String) (i : ι) :
    (o : Op) → Sys ι → Res o → Sys ι → Prop := execOf (resent m recordKey fails) i

section Served

variable {m : Moment} {recordKey : String} {fails : Option String}

theorem resent_alone {o : Op} {r : Res o} (served : Resent m recordKey fails i o s r t)
    (lock : ∀ l, o ≠ .acquire l) (read : ∀ key, o ≠ .getObject key) : Alone none m i o s r t := by
  obtain ⟨c, h⟩ := served
  cases o with
  | acquire l => exact absurd rfl (lock l)
  | getObject key => exact absurd rfl (read key)
  | _ => exact ⟨c, h⟩

/-- Every request is answered. -/
theorem resent_total (m : Moment) (recordKey : String) (fails : Option String) (i : ι) (o : Op)
    (s : Sys ι) : ∃ r t, Resent m recordKey fails i o s r t := by
  cases o with
  | acquire lock =>
    by_cases free : s.holder lock = none
    · exact ⟨_, _, .ok, if_pos free⟩
    · exact ⟨_, _, .ok, if_neg free⟩
  | getObject key =>
    cases fails with
    | none => exact ⟨_, _, .ok, rfl⟩
    | some err =>
      by_cases mine : key = recordKey
      · exact ⟨_, _, .ok, if_pos mine⟩
      · exact ⟨_, _, .ok, if_neg mine⟩
  | _ => exact alone_total none m i _ s

theorem resent_acquire {l : Lock} {r : Res (.acquire l)}
    (served : Resent m recordKey fails i (.acquire l) s r t) :
    (s.holder l = none ∧ r = .ok () ∧ t.objects = s.objects) ∨
      (s.holder l ≠ none ∧ r = .error .mk ∧ t = s) := by
  obtain ⟨c, h⟩ := served
  by_cases free : s.holder l = none
  · rw [resent, if_pos free] at h
    cases h
    exact .inl ⟨free, rfl, rfl⟩
  · rw [resent, if_neg free] at h
    cases h
    exact .inr ⟨free, rfl, rfl⟩

theorem resent_record {r : Res (.getObject recordKey)}
    (served : Resent m recordKey fails i (.getObject recordKey) s r t) :
    t = s ∧ r = match fails with
      | some err => .error (.backend err)
      | none => s.lookup recordKey := by
  obtain ⟨c, h⟩ := served
  cases fails with
  | none => cases h; exact ⟨rfl, rfl⟩
  | some err =>
    simp only [resent, if_pos] at h
    cases h
    exact ⟨rfl, rfl⟩

theorem resent_get {key : String} (other : key ≠ recordKey) {r : Res (.getObject key)}
    (served : Resent m recordKey fails i (.getObject key) s r t) : t = s ∧ r = s.lookup key := by
  obtain ⟨c, h⟩ := served
  cases fails with
  | none => cases h; exact ⟨rfl, rfl⟩
  | some err =>
    simp only [resent, if_neg other] at h
    cases h
    exact ⟨rfl, rfl⟩

/-- The record that the request finds. -/
def recordSeen (x : Rotation env token body) (fails : Option String) (s : Sys ι) : Option RotationRecord :=
  match fails with
  | some _ => none
  | none => recordOf x.user.userId x.req.requestId s

/-- The answer to a request whose version has been passed. -/
def answerTo (x : Rotation env token body) (fails : Option String) (p : Profile) (s : Sys ι) :
    RotateOutcome :=
  if s.holder (.rotation x.uid) = none then
    match recordSeen x fails s with
    | some rec => .fromRecord rec
    | none => .keyVersionStale p.currentKv.toNat
  else .keyVersionStale (-1)

theorem checkDevice_resent {key : String} (registered : (s.objects.get key).isSome) :
    Interaction.Ends (Resent m recordKey fails i) (checkDevice key).run s fun r t =>
      r = .ok () ∧ t.objects = s.objects ∧ t.holder = s.holder := by
  unfold checkDevice
  refine Ends.call fun seen t served => ?_
  obtain ⟨rfl, _⟩ := served_deviceCacheValid
    (alone_healthy (resent_alone served nofun nofun) nofun nofun nofun)
  cases seen with
  | true => exact .ret ⟨rfl, rfl, rfl⟩
  | false =>
    refine Ends.call fun found t served => ?_
    obtain ⟨rfl, rfl⟩ := alone_headObject (resent_alone served nofun nofun) registered
    refine .op fun _ t served => .ret ⟨rfl, ?_⟩
    rw [served_deviceCacheSet (alone_healthy (resent_alone served nofun nofun) nofun nofun nofun)]
    exact ⟨rfl, rfl⟩

/-- What a missed record leads to, when the version has been passed. -/
theorem rotateFresh_resent {p : Profile} (stored : profileOf x.user.userId s = some p)
    (passed : x.req.keyVersion ≠ p.currentKv + 1) :
    Interaction.Ends (Resent m x.recordKey fails i) (rotateFresh env x.user x.req x.recordKey).run s
      fun r _ => r = .ok (.keyVersionStale p.currentKv.toNat) := by
  obtain ⟨d, here, parsed⟩ := Option.bind_eq_some_iff.mp stored
  have here : s.lookup (keyProfile x.uid) = .ok d := lookup_eq_ok.mpr here
  have apart : keyProfile x.uid ≠ x.recordKey := (keyRecord_ne_profile _ _).symm
  unfold rotateFresh
  refine Ends.readAs (fun err t served => ?_) fun d' t served => ?_
  · have wrong := (resent_get apart served).2
    rw [here] at wrong
    cases wrong
  · obtain ⟨rfl, found⟩ := resent_get apart served
    cases found.trans here
    rw [parsed]
    show Interaction.Ends _ (if x.req.keyVersion ≠ p.currentKv + 1 then _ else _ : Handler _).run _ _
    rw [if_pos passed]
    unfold recordOutcome putBestEffort
    refine Ends.andThen (P := fun r _ => r = .ok ()) (Ends.call fun _ _ _ => .ret rfl) ?_ ?_
    · exact fun _ _ wrong => nomatch wrong
    · exact fun _ _ _ => .ret rfl

theorem rotateLocked_resent {p : Profile} (stored : profileOf x.user.userId s = some p)
    (passed : x.req.keyVersion ≠ p.currentKv + 1) :
    Interaction.Ends (Resent m x.recordKey fails i) (rotateLocked env x.user x.req x.recordKey).run s
      fun r _ => r = .ok (match recordSeen x fails s with
        | some rec => .fromRecord rec
        | none => .keyVersionStale p.currentKv.toNat) := by
  unfold rotateLocked
  refine Ends.loads fun r t served => ?_
  obtain ⟨rfl, found⟩ := resent_record served
  have missed (no : recordSeen x fails t = none) : Interaction.Ends (Resent m x.recordKey fails i)
      (rotateFresh env x.user x.req x.recordKey).run t fun r _ => r = .ok (match recordSeen x fails t with
        | some rec => .fromRecord rec
        | none => .keyVersionStale p.currentKv.toNat) := by
    rw [no]
    exact rotateFresh_resent stored passed
  rw [found]
  cases fails with
  | some err => exact missed rfl
  | none =>
    cases here : t.objects.get x.recordKey with
    | none =>
      rw [Sys.lookup, here]
      refine missed ?_
      show (t.objects.get x.recordKey).bind RotationRecord.parse = none
      rw [here, Option.bind_none]
    | some d =>
      rw [lookup_eq_ok.mpr here, loadedRecord]
      have seen : recordSeen x none t = RotationRecord.parse d := by
        show (t.objects.get x.recordKey).bind RotationRecord.parse = _
        rw [here, Option.bind_some]
      cases parsed : RotationRecord.parse d with
      | none => exact missed (seen.trans parsed)
      | some rec =>
        rw [seen, parsed]
        exact .ret rfl

/-- Sent again, a request whose version has been passed is answered by its record, or refused. -/
theorem rotateKeys_resent {p : Profile} (stored : profileOf x.user.userId s = some p)
    (passed : x.req.keyVersion ≠ p.currentKv + 1)
    (registered : (s.objects.get (keyDevice x.uid x.user.deviceId.str)).isSome) :
    Interaction.Ends (Resent m x.recordKey fails i) (rotateKeys env token body).run s
      fun r _ => r = .ok (answerTo x fails p s) := by
  have guarded : Interaction.Ends (Resent m x.recordKey fails i) (authenticate env token false).run s
      fun r t => r = .ok x.user ∧ t.objects = s.objects ∧ t.holder = s.holder := by
    rw [authenticate_known x.known, admitUser]
    exact Ends.andThen (checkDevice_resent registered) (fun _ _ wrong => by cases wrong.1)
      fun _ t checked => .ret ⟨rfl, checked.2⟩
  unfold rotateKeys
  refine Ends.andThen guarded (fun _ _ wrong => by cases wrong.1) ?_
  rintro _ t ⟨⟨⟩, objects, holder⟩
  rw [parseBody, x.parsed]
  refine Ends.checked (fun wrong => absurd (x.valid.symm.trans wrong) (by simp)) fun _ => ?_
  rw [run_withLock]
  refine .op fun got u served => ?_
  unfold answerTo
  rw [← holder]
  rcases resent_acquire served with ⟨free, rfl, same⟩ | ⟨held, rfl, rfl⟩
  · have free : t.holder (.rotation x.uid) = none := free
    rw [if_pos free]
    have stored' : profileOf x.user.userId u = some p := by
      rw [← stored, profileOf, profileOf, same, objects]
    have seen : recordSeen x fails u = recordSeen x fails s := by
      unfold recordSeen recordOf
      rw [same, objects]
    rw [← seen]
    refine Interaction.Ends.bind (rotateLocked_resent stored' passed) fun r v answer => ?_
    exact .op fun _ _ _ => .ret answer
  · have held : u.holder (.rotation x.uid) ≠ none := held
    rw [if_neg held]
    exact .ret rfl

end Served

/-! ### Replayed or refused -/

/-- The recorded success, or an error the client may try again on; neither a stale version nor a
bad continuity. -/
def ReplayedTo (x : Rotation env token body) (s : Sys ι) (r : Except ApiError RotateOutcome) : Prop :=
  (∃ rec token' kv, recordOf x.user.userId x.req.requestId s = some rec ∧
    RotateOutcome.fromRecord rec = .success token' kv ∧ r = .ok (.success token' kv)) ∨
  ∃ message, r = .error (.internal message)

/-- A rotation that wrote the profile and is sent again is replayed exactly where the lock is free,
a success is on record under its id, and the load of the record does not fail. -/
theorem resend_replayed_iff {j : ι} {s0 s1 : Sys ι} {r0 : Except ApiError RotateOutcome}
    (x : Rotation env token body) (first : Runs (Faulty i) (rotateKeys env token body).run s0 r0 s1)
    (wrote : profileOf x.user.userId s1 ≠ profileOf x.user.userId s0)
    (kept : (profileOf x.user.userId s).map Profile.keyVersion =
      (profileOf x.user.userId s1).map Profile.keyVersion)
    (registered : (s.objects.get (keyDevice x.uid x.user.deviceId.str)).isSome) (m : Moment)
    (fails : Option String) :
    Interaction.Ends (Resent m x.recordKey fails j) (rotateKeys env token body).run s fun r _ =>
      ReplayedTo x s r ↔ s.holder (.rotation x.uid) = none ∧ fails = none ∧
        ∃ rec token' kv, recordOf x.user.userId x.req.requestId s = some rec ∧
          RotateOutcome.fromRecord rec = .success token' kv := by
  -- What the first run wrote is at the version of the request.
  obtain ⟨p, stored, version⟩ :
      ∃ p, profileOf x.user.userId s = some p ∧ p.keyVersion = x.req.keyVersion := by
    rcases rotateKeys_writes (x := x) _ _ first with same | ⟨q, _, _, written⟩
    · exact absurd (by rw [profileOf, profileOf]; exact congrArg (·.bind Profile.parse) same) wrote
    · have now : profileOf x.user.userId s1 = some (x.req.install q) := by
        show (s1.objects.get (keyProfile x.uid)).bind Profile.parse = _
        rw [written, Option.bind_some, Profile.parse_data]
      rw [now, Option.map_some] at kept
      obtain ⟨p, stored, version⟩ := Option.map_eq_some_iff.mp kept
      exact ⟨p, stored, version⟩
  have passed : x.req.keyVersion ≠ p.currentKv + 1 := version ▸ currentKv_next p
  refine (rotateKeys_resent stored passed registered).weaken fun r _ answer => ?_
  subst answer
  unfold answerTo
  constructor
  · rintro (⟨rec, token', kv, found, success, same⟩ | ⟨_, wrong⟩)
    · split at same
      next free =>
        cases fails with
        | some _ => cases same
        | none => exact ⟨free, rfl, rec, token', kv, found, success⟩
      next => cases same
    · cases wrong
  · rintro ⟨free, rfl, rec, token', kv, found, success⟩
    refine .inl ⟨rec, token', kv, found, success, ?_⟩
    rw [if_pos free, recordSeen, found]
    exact congrArg _ success

end Resend

section Samples

open Sample

def sampleId : String := "00000000-0000-4000-8000-000000000001"

def sampleRequest : RotateKeysRequest :=
  ⟨sampleId, 2, "gTl3Dqh9F19Wo1Rmw0x-zMuNipG07jeiXfYPW4_Js5Q", sharingPublicKey, salt, some kdf, signature⟩

def sampleRotation : Rotation env token (some rotation) where
  user := authed
  req := sampleRequest
  known := identity_token
  parsed := by decide +kernel
  valid := by decide +kernel

/-- The save of the record fails. -/
def recordFails : Op → Choice
  | .putObject key _ => if key = sampleRotation.recordKey then .fail "SlowDown" false else .ok
  | _ => .ok

/-- The rotation, on a store that fails so. -/
def sentOnce (first : Op → Choice) : Option (Except ApiError RotateOutcome × Sys Unit) :=
  (rotateKeys env token (some rotation)).run.execute (fun o s => serve (fun _ => true) () o (first o) s)
    (sys Unit)

theorem sentOnce_runs {first : Op → Choice} {r : Except ApiError RotateOutcome} {s : Sys Unit}
    (sent : sentOnce first = some (r, s)) :
    Runs (Faulty ()) (rotateKeys env token (some rotation)).run (sys Unit) r s :=
  (runs_of_execute sent).mono fun _ _ _ _ served => ⟨_, served⟩

def versionIn (s : Sys Unit) : Option UInt32 := (profileOf user s).map Profile.keyVersion

theorem version_written {s : Sys Unit} (version : versionIn s = some 2) :
    profileOf user s ≠ profileOf user (sys Unit) := by
  intro same
  rw [versionIn, same, stored_profile] at version
  exact absurd version (by decide)

/-- The device is registered, the lock is free. -/
def welcome (s : Sys Unit) : Bool :=
  (s.objects.get (keyDevice uid did)).isSome && decide (s.holder (.rotation uid) = none)

theorem unrecorded_observed : (sentOnce recordFails).map (fun a =>
    (versionIn a.2, welcome a.2, (recordOf user sampleId a.2).isNone)) = some (some 2, true, true) := by
  simp only [sentOnce, rotateKeys, authenticate_known identity_token]
  decide +kernel

/-- Without its record, the rotation that was applied is told that its version is stale. -/
theorem applied_rotation_refused : ∃ r s r' t,
    Runs (Faulty ()) (rotateKeys env token (some rotation)).run (sys Unit) r s ∧
    profileOf user s ≠ profileOf user (sys Unit) ∧
    Runs (Resent ⟨0, ""⟩ sampleRotation.recordKey none ()) (rotateKeys env token (some rotation)).run s
      r' t ∧
    r' = .ok (.keyVersionStale 2) := by
  obtain ⟨⟨r, s⟩, sent, seen⟩ := Option.map_eq_some_iff.mp unrecorded_observed
  simp only [Prod.mk.injEq, welcome, Bool.and_eq_true, decide_eq_true_eq, Option.isNone_iff_eq_none] at seen
  obtain ⟨version, ⟨registered, free⟩, unrecorded⟩ := seen
  obtain ⟨p, stored, two⟩ := Option.map_eq_some_iff.mp version
  have passed : sampleRotation.req.keyVersion ≠ p.currentKv + 1 := by
    have next := currentKv_next p
    rw [two] at next
    exact next
  obtain ⟨r', t, again⟩ := exists_runs (resent_total ⟨0, ""⟩ sampleRotation.recordKey none ())
    (rotateKeys env token (some rotation)).run s
  refine ⟨r, s, r', t, sentOnce_runs sent, version_written version, again, ?_⟩
  have open_ : s.holder (.rotation sampleRotation.uid) = none := free
  have missed : recordSeen sampleRotation none s = none := unrecorded
  rw [rotateKeys_resent (x := sampleRotation) stored passed registered r' t again, answerTo, if_pos open_,
    missed]
  show Except.ok (RotateOutcome.keyVersionStale ((if p.keyVersion = 0 then 1 else p.keyVersion).toNat)) = _
  rw [two]
  rfl

theorem recorded_observed : (sentOnce fun _ => .ok).map (fun a => (versionIn a.2, welcome a.2,
    (recordOf user sampleId a.2).map fun rec => rec.status)) = some (some 2, true, some 200) := by
  simp only [sentOnce, rotateKeys, authenticate_known identity_token]
  decide +kernel

/-- With its record, it is replayed. -/
theorem applied_rotation_replayed : ∃ r s r' t,
    Runs (Faulty ()) (rotateKeys env token (some rotation)).run (sys Unit) r s ∧
    Runs (Resent ⟨0, ""⟩ sampleRotation.recordKey none ()) (rotateKeys env token (some rotation)).run s
      r' t ∧
    ReplayedTo sampleRotation s r' := by
  obtain ⟨⟨r, s⟩, sent, seen⟩ := Option.map_eq_some_iff.mp recorded_observed
  simp only [Prod.mk.injEq, welcome, Bool.and_eq_true, decide_eq_true_eq] at seen
  obtain ⟨version, ⟨registered, free⟩, recorded⟩ := seen
  obtain ⟨rec, found, status⟩ := Option.map_eq_some_iff.mp recorded
  obtain ⟨r', t, again⟩ := exists_runs (resent_total ⟨0, ""⟩ sampleRotation.recordKey none ())
    (rotateKeys env token (some rotation)).run s
  have once := sentOnce_runs sent
  refine ⟨r, s, r', t, once, again, ?_⟩
  refine (resend_replayed_iff sampleRotation once (version_written version) rfl registered ⟨0, ""⟩ none
    _ _ again).mpr ⟨free, rfl, rec, rec.token.getD "", rec.keyVersion.getD 1, found, ?_⟩
  rw [RotateOutcome.fromRecord, if_pos (by rw [status]; decide)]

end Samples

end Atmin
