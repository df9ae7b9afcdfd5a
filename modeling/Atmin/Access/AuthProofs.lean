import Atmin.Interaction.Session
import Atmin.Access.Tokens
import Atmin.Server.Sequential

/-!
# What an auth proof authorizes

Devices are added and revoked under a proof of the account's credential. The proof names an
account and a device of its own; only `add_device` looks at the device, and neither handler
at the account.
-/

namespace Atmin

open Interaction

/-- A proof by the credential of the profile, signed within the window before `now`. -/
structure Genuine (env : Env) (profile : Profile) (proof : AuthProof) (now : Int)
    (payload : AuthProofPayload) : Prop where
  signed : ∃ key sig, decodeAuthKey profile.authPublicKey = some key ∧
    Base64.decode proof.signature = some sig ∧ verify env key proof.payload sig = true
  carried : AuthProofPayload.fromJson proof.payload = some payload
  fresh : ∃ ts, env.parseRfc3339 payload.timestamp = some ts ∧ isFresh now ts = true
  current : payload.keyVersion = profile.currentKv

section Handlers

variable {ι : Type} (env : Env) (i : ι) (names : UserId → String → AuthProofPayload → Prop)

/-- `add_device` touches a device record only under a genuine proof that `names` it. -/
def AddsProven (s t : Sys ι) : Prop :=
  ∀ (body : Option Json) r, Runs (Faulty i) (addDevice env body).run s r t →
    ∀ (u : UserId) d, t.objects.get (keyDevice u.str d) ≠ s.objects.get (keyDevice u.str d) →
      ∃ req profile now payload, body.bind AddDeviceRequest.fromJson = some req ∧ req.userId = u.str ∧
        profileOf u s = some profile ∧ s.clock ≤ now ∧ now ≤ t.clock ∧
        Genuine env profile req.authProof now payload ∧ names u d payload

/-- `revoke_device` touches a device record only under a genuine proof that `names` it. -/
def RevokesProven (s t : Sys ι) : Prop :=
  ∀ (token : Option String) (body : Option Json) r, Runs (Faulty i) (revokeDevice env token body).run s r t →
    ∀ (u : UserId) d, t.objects.get (keyDevice u.str d) ≠ s.objects.get (keyDevice u.str d) →
      ∃ user req profile now payload, Token.identity env token = some user ∧ user.userId = u ∧
        body.bind RevokeDeviceRequest.fromJson = some req ∧ req.deviceId = d ∧
        profileOf u s = some profile ∧ s.clock ≤ now ∧ now ≤ t.clock ∧
        Genuine env profile req.authProof now payload ∧ names u d payload

variable {env i names} {s : Sys ι}

theorem verifyProof_signed {key : List UInt8} {proof : AuthProof} {now : Int} {payload : AuthProofPayload}
    (verified : verifyProof env key proof now = some payload) :
    (∃ sig, Base64.decode proof.signature = some sig ∧ verify env key proof.payload sig = true) ∧
      AuthProofPayload.fromJson proof.payload = some payload := by
  simp only [verifyProof, Option.bind_eq_bind, Option.bind_eq_some_iff] at verified
  obtain ⟨sig, decoded, _, checked, _, read, _, _, _, _, _, _, same⟩ := verified
  cases same
  refine ⟨⟨sig, decoded, ?_⟩, read⟩
  by_contra refused
  simp [guard, refused] at checked

theorem verifyAccountProof_ends {profile : Profile} {proof : AuthProof} :
    Ends (Faulty i) (verifyAccountProof env profile proof).run s fun a t => t.objects = s.objects ∧
      ∀ payload, a = .ok payload → s.clock ≤ t.clock ∧ Genuine env profile proof t.clock payload := by
  refine Ends.orFail (fun _ => ⟨rfl, fun _ wrong => nomatch wrong⟩) fun key decoded => ?_
  refine Ends.call fun now t read => ?_
  obtain ⟨later, rfl⟩ := served_utcNow read
  refine Ends.orFail (fun _ => ⟨rfl, fun _ wrong => nomatch wrong⟩) fun payload verified => ?_
  refine Ends.checked (fun _ => ⟨rfl, fun _ wrong => nomatch wrong⟩) fun current => .ret ⟨rfl, ?_⟩
  intro other same
  cases same
  obtain ⟨⟨sig, signature, accepted⟩, carried⟩ := verifyProof_signed verified
  exact ⟨later, ⟨key, sig, decoded, signature, accepted⟩, carried, verifyProof_fresh verified,
    of_decide_eq_true current⟩

/-- The profile of the account, as a handler reads it. -/
theorem readProfile_ends {β : Type} {u : UserId} {e : ApiError} {f : Profile → Handler β}
    {Q : Except ApiError β → Sys ι → Prop} (failed : ∀ e, Q (.error e) s)
    (rest : ∀ profile, profileOf u s = some profile → Ends (Faulty i) (f profile).run s Q) :
    Ends (Faulty i) (do
      let bytes ← tryStore (ask (.getObject (keyProfile u.str)))
      let profile ← orFail e (Profile.parse bytes)
      f profile : Handler β).run s Q := by
  refine Ends.read (fun err t read => ?_) fun bytes t read => ?_
  · rw [(served_getObject read).1]
    exact failed _
  · obtain ⟨rfl, found | ⟨_, _, _, fault⟩⟩ := served_getObject read
    · refine Ends.orFail (fun _ => failed _) fun profile parsed => rest profile ?_
      rw [profileOf, lookup_eq_ok.mp found.symm]
      exact parsed
    · cases fault

theorem writeJson_ends {key : String} {d : Data} :
    Ends (Faulty i) (writeJson key d).run s fun _ t => t.clock = s.clock ∧
      ∀ other, other ≠ key → t.objects.get other = s.objects.get other := by
  refine .op fun r t served => ?_
  have written : t = s.put key d ∨ t = s := by
    rcases served_putObject served with ⟨_, same⟩ | ⟨_, same⟩
    · exact Or.inl same
    · exact same
  have after : t.clock = s.clock ∧ ∀ other, other ≠ key → t.objects.get other = s.objects.get other := by
    rcases written with rfl | rfl
    · exact ⟨rfl, fun other differs => by simp [Sys.put, differs]⟩
    · exact ⟨rfl, fun _ _ => rfl⟩
  cases r <;> exact .ret after

theorem removeDevice_faulty {key : String} :
    Ends (Faulty i) (removeDevice key).run s fun _ t => t.clock = s.clock ∧
      ∀ other, other ≠ key → t.objects.get other = s.objects.get other := by
  refine .op fun r t served => ?_
  have removed : t = s.remove [key] ∨ t = s := by
    rcases served_deleteObject served with ⟨_, same⟩ | ⟨_, same⟩
    · exact Or.inl same
    · exact same
  have after : t.clock = s.clock ∧ ∀ other, other ≠ key → t.objects.get other = s.objects.get other := by
    rcases removed with rfl | rfl
    · exact ⟨rfl, fun other differs => by simp [Sys.remove, differs]⟩
    · exact ⟨rfl, fun _ _ => rfl⟩
  cases r with
  | error e => exact .ret after
  | ok _ =>
    refine .op fun _ v evicted => .ret ?_
    rw [served_deviceCacheInvalidate evicted]
    exact after

theorem addDevice_proven (s t : Sys ι) :
    AddsProven env i (fun _ d payload => payload.deviceId = d) s t := by
  intro body r run u d
  let Q (t : Sys ι) : Prop :=
    t.objects.get (keyDevice u.str d) ≠ s.objects.get (keyDevice u.str d) →
      ∃ req profile now payload, body.bind AddDeviceRequest.fromJson = some req ∧ req.userId = u.str ∧
        profileOf u s = some profile ∧ s.clock ≤ now ∧ now ≤ t.clock ∧
        Genuine env profile req.authProof now payload ∧ payload.deviceId = d
  suffices ends : Ends (Faulty i) (addDevice env body).run s fun _ t => Q t from ends _ _ run
  -- up to the write nothing changes
  have unchanged {t : Sys ι} (same : t.objects = s.objects) : Q t :=
    fun changed => absurd (by rw [same]) changed
  refine Ends.orFail (fun _ => unchanged rfl) fun req parsed => ?_
  refine Ends.orFail (fun _ => unchanged rfl) fun uid named => ?_
  refine readProfile_ends (fun _ => unchanged rfl) fun profile stored => ?_
  refine Ends.andThen verifyAccountProof_ends (fun _ _ after => unchanged after.1)
    fun payload t ⟨same, verified⟩ => ?_
  obtain ⟨later, genuine⟩ := verified payload rfl
  refine Ends.orFail (fun _ => unchanged same) fun did device => ?_
  refine Ends.call fun stamp v read => ?_
  obtain ⟨after, rfl⟩ := served_utcNow read
  -- the write changes one file, for which the proof was verified
  have written {w : Sys ι} (wrote : w.clock = stamp ∧ ∀ other, other ≠ keyDevice uid.str did.str →
      w.objects.get other = t.objects.get other) : Q w := by
    intro changed
    have mine : keyDevice u.str d = keyDevice uid.str did.str := by
      by_contra other
      exact changed (by rw [wrote.2 _ other, same])
    obtain ⟨rfl, rfl⟩ := keyDevice_inj mine
    exact ⟨req, profile, t.clock, payload, parsed, (UserId.new_str named).symm, stored, later,
      wrote.1 ▸ after, genuine, (DeviceId.new_str device).symm⟩
  exact Ends.andThen writeJson_ends (fun _ _ => written) fun _ _ wrote => .ret (written wrote)

theorem revokeDevice_proven (s t : Sys ι) : RevokesProven env i (fun _ _ _ => True) s t := by
  intro token body r run u d
  let Q (t : Sys ι) : Prop :=
    t.objects.get (keyDevice u.str d) ≠ s.objects.get (keyDevice u.str d) →
      ∃ user req profile now payload, Token.identity env token = some user ∧ user.userId = u ∧
        body.bind RevokeDeviceRequest.fromJson = some req ∧ req.deviceId = d ∧
        profileOf u s = some profile ∧ s.clock ≤ now ∧ now ≤ t.clock ∧
        Genuine env profile req.authProof now payload ∧ True
  suffices ends : Ends (Faulty i) (revokeDevice env token body).run s fun _ t => Q t from ends _ _ run
  have unchanged {t : Sys ι} (same : t.objects = s.objects) : Q t :=
    fun changed => absurd (by rw [same]) changed
  -- the guard reads only
  have guarded : Ends (Faulty i) (authenticate env token true).run s fun a t =>
      Identified env token a ∧ t.objects = s.objects ∧ s.clock ≤ t.clock := by
    refine .keeping (authenticate_passive env token true) (fun o v a w passive served kept => ?_)
      ⟨rfl, le_rfl⟩
    obtain ⟨_, _, _, _, later, rfl⟩ := served_passive served passive
    exact ⟨kept.1, kept.2.trans later⟩
  refine Ends.andThen guarded (fun _ _ after => unchanged after.2.1) fun user t ⟨known, same, clock⟩ => ?_
  refine Ends.orFail (fun _ => unchanged same) fun req parsed => ?_
  refine readProfile_ends (fun _ => unchanged same) fun profile stored => ?_
  refine Ends.andThen verifyAccountProof_ends (fun _ _ after => unchanged (after.1.trans same))
    fun payload v ⟨kept, verified⟩ => ?_
  obtain ⟨later, genuine⟩ := verified payload rfl
  -- one file is removed; what the proof names is not compared with it
  have removed {w : Sys ι} (gone : w.clock = v.clock ∧
      ∀ other, other ≠ keyDevice user.userId.str req.deviceId →
        w.objects.get other = v.objects.get other) : Q w := by
    intro changed
    have mine : keyDevice u.str d = keyDevice user.userId.str req.deviceId := by
      by_contra other
      exact changed (by rw [gone.2 _ other, kept, same])
    obtain ⟨rfl, rfl⟩ := keyDevice_inj mine
    rw [profileOf, same] at stored
    exact ⟨user, req, profile, v.clock, payload, known _ rfl, rfl, parsed, rfl, stored,
      clock.trans later, gone.1.ge, genuine, trivial⟩
  exact removeDevice_faulty.weaken fun _ _ => removed

/-- What is done to a device record is done under a genuine proof by the account; only
`add_device` has the proof name the device. -/
theorem devices_proven (env : Env) (i : ι) (s t : Sys ι) :
    AddsProven env i (fun _ d payload => payload.deviceId = d) s t ∧
      RevokesProven env i (fun _ _ _ => True) s t :=
  ⟨addDevice_proven s t, revokeDevice_proven s t⟩

end Handlers

/-! ### One proof, two accounts, two devices -/

section Borrowed

open Sample

/-- An account that was registered with the credential of `user`. -/
def dora : UserId := ⟨"01DDDDDDDDDDDDDDDDDDDDDDDD", by decide +kernel⟩

def laptop : DeviceId := ⟨"01CX5ZZKBKACTAV9WEVGEMMVRZ", by decide +kernel⟩

/-- HMAC-SHA256 of the message in the token below as well. -/
def doraEnv : Env :=
  { env with
    hmac := fun secret message =>
      if message = Token.utf8 (Token.payload dora.str did "1") then
        [38, 178, 152, 60, 40, 58, 131, 183, 196, 15, 24, 183, 164, 230, 109, 171, 176, 255, 72, 1,
          96, 185, 11, 128, 212, 52, 179, 51, 60, 194, 140, 114]
      else env.hmac secret message }

def doraToken : Option String := some (Token.generate doraEnv dora.str device.str .ONE)

theorem identity_doraToken : Token.identity doraEnv doraToken = some ⟨dora, device, .ONE⟩ := by
  simp only [Token.identity, doraToken, Option.bind_eq_bind, Option.bind_some, Token.generate_parses]
  rw [UserId.new, dif_pos dora.ulid, DeviceId.new, dif_pos device.ulid]
  rfl

def house : Sys Unit where
  objects := (ObjectMap.empty.insert (keyProfile dora.str)
    { profile with userId := dora.str, handle := "dora" : Profile }.data).insert
      (keyDevice dora.str laptop.str) (deviceFile laptop.str "laptop" epoch)

/-- The proof names `user` and `device`. -/
def borrowed : Json :=
  .obj [("payload", .obj [("device_id", .str did), ("key_version", .ofU32 1), ("timestamp", .str epoch),
    ("user_id", .str uid)]), ("signature", .str proofSignature)]

def addition : Json :=
  .obj [("user_id", .str dora.str), ("auth_proof", borrowed), ("device_label", .str "phone")]

def revocation : Json := .obj [("device_id", .str laptop.str), ("auth_proof", borrowed)]

theorem revocation_prog : (revokeDevice doraEnv doraToken (some revocation)).run =
    (do
      let user ← admitUser ⟨dora, device, .ONE⟩ true
      let req ← parseBody RevokeDeviceRequest.fromJson (some revocation)
      let bytes ← tryStore (ask (.getObject (keyProfile user.userId.str)))
      let profile ← orFail (.internal "Failed to read profile") (Profile.parse bytes)
      let _ ← verifyAccountProof doraEnv profile req.authProof
      removeDevice (keyDevice user.userId.str req.deviceId) : Handler Unit).run := by
  rw [revokeDevice, authenticate_known identity_doraToken]

theorem borrowed_observed :
    ((addDevice doraEnv (some addition)).run.evaluate (serve (fun _ => true) ())
        [.ok, .read 0, .read 0, .ok] house).any fun x =>
      (house.objects.get (keyDevice dora.str did)).isNone &&
      (x.2.objects.get (keyDevice dora.str did)).isSome &&
      (x.2.objects.get (keyDevice dora.str laptop.str)).isSome &&
      ((revokeDevice doraEnv doraToken (some revocation)).run.evaluate (serve (fun _ => true) ())
        [.ok, .ok, .ok, .ok, .ok, .ok, .ok, .read 0, .ok, .ok] x.2).any fun y =>
          (y.2.objects.get (keyDevice dora.str laptop.str)).isNone := by
  rw [revocation_prog]
  decide +kernel

theorem addition_names : ((some addition).bind AddDeviceRequest.fromJson).bind
    (fun req => AuthProofPayload.fromJson req.authProof.payload) = some ⟨uid, did, epoch, 1⟩ := by
  decide

theorem revocation_names : ((some revocation).bind RevokeDeviceRequest.fromJson).bind
    (fun req => AuthProofPayload.fromJson req.authProof.payload) = some ⟨uid, did, epoch, 1⟩ := by
  decide

/-- With the proof, `add_device` adds a device to the house, and `revoke_device` removes another. -/
theorem borrowed_runs : ∃ t v : Sys Unit,
    (∃ r, Runs (Faulty ()) (addDevice doraEnv (some addition)).run house r t) ∧
    t.objects.get (keyDevice dora.str did) ≠ house.objects.get (keyDevice dora.str did) ∧
    (∃ r, Runs (Faulty ()) (revokeDevice doraEnv doraToken (some revocation)).run t r v) ∧
    v.objects.get (keyDevice dora.str laptop.str) ≠ t.objects.get (keyDevice dora.str laptop.str) := by
  obtain ⟨⟨r, t⟩, added, observed⟩ := (Option.any_eq_true _ _).mp borrowed_observed
  simp only [Bool.and_eq_true, Option.isNone_iff_eq_none] at observed
  obtain ⟨⟨⟨free, device⟩, present⟩, observed⟩ := observed
  obtain ⟨⟨r', v⟩, revoked, gone⟩ := (Option.any_eq_true _ _).mp observed
  refine ⟨t, v, ⟨r, runs_of_evaluate added⟩, ?_, ⟨r', runs_of_evaluate revoked⟩, ?_⟩
  · rw [free]
    exact Option.isSome_iff_ne_none.mp device
  · rw [Option.isNone_iff_eq_none.mp gone]
    exact (Option.isSome_iff_ne_none.mp present).symm

/-- The proof of both requests verifies under the key that is stored for the house. -/
theorem proofs_verified : ∃ t v : Sys Unit,
    t.objects.get (keyDevice dora.str did) ≠ house.objects.get (keyDevice dora.str did) ∧
    (∃ req profile now payload, (some addition).bind AddDeviceRequest.fromJson = some req ∧
      profileOf dora house = some profile ∧ Genuine doraEnv profile req.authProof now payload ∧
      payload.deviceId = did) ∧
    v.objects.get (keyDevice dora.str laptop.str) ≠ t.objects.get (keyDevice dora.str laptop.str) ∧
    ∃ req profile now payload, (some revocation).bind RevokeDeviceRequest.fromJson = some req ∧
      profileOf dora t = some profile ∧ Genuine doraEnv profile req.authProof now payload := by
  obtain ⟨t, v, ⟨r, adds⟩, changed, ⟨r', revokes⟩, removed⟩ := borrowed_runs
  obtain ⟨req, profile, now, payload, parsed, _, stored, _, _, genuine, named⟩ :=
    (devices_proven doraEnv () house t).1 _ r adds dora did changed
  obtain ⟨_, req', profile', now', payload', _, _, parsed', _, stored', _, _, genuine', _⟩ :=
    (devices_proven doraEnv () t v).2 _ _ r' revokes dora laptop.str removed
  exact ⟨t, v, changed, ⟨req, profile, now, payload, parsed, stored, genuine, named⟩, removed,
    req', profile', now', payload', parsed', stored', genuine'⟩

/-- A device of one account is added, and another of them revoked, under a proof for a third
device of another account. -/
theorem borrowed_proof : ∃ t v : Sys Unit,
    ¬ AddsProven doraEnv () (fun u _ payload => payload.userId = u.str) house t ∧
    ¬ RevokesProven doraEnv () (fun u _ payload => payload.userId = u.str) t v ∧
    ¬ RevokesProven doraEnv () (fun _ d payload => payload.deviceId = d) t v := by
  obtain ⟨t, v, ⟨_, adds⟩, changed, ⟨_, revokes⟩, removed⟩ := borrowed_runs
  -- the proof names another device and another user than it is used for
  have named {req : RevokeDeviceRequest} {payload : AuthProofPayload}
      (parsed : (some revocation).bind RevokeDeviceRequest.fromJson = some req)
      (carried : AuthProofPayload.fromJson req.authProof.payload = some payload) :
      payload = ⟨uid, did, epoch, 1⟩ := by
    have named := revocation_names
    rw [parsed, Option.bind_some, carried] at named
    exact Option.some.inj named
  refine ⟨t, v, fun proven => ?_, fun proven => ?_, fun proven => ?_⟩
  · obtain ⟨req, _, _, payload, parsed, _, _, _, _, genuine, names⟩ :=
      proven _ _ adds dora did changed
    have named := addition_names
    rw [parsed, Option.bind_some, genuine.carried] at named
    rw [Option.some.inj named] at names
    exact absurd names (by decide)
  · obtain ⟨_, req, _, _, payload, _, _, parsed, _, _, _, _, genuine, names⟩ :=
      proven _ _ _ revokes dora laptop.str removed
    rw [named parsed genuine.carried] at names
    exact absurd names (by decide)
  · obtain ⟨_, req, _, _, payload, _, _, parsed, _, _, _, _, genuine, names⟩ :=
      proven _ _ _ revokes dora laptop.str removed
    rw [named parsed genuine.carried] at names
    exact absurd names (by decide)

end Borrowed

end Atmin
