import Atmin.Interaction.Session
import Atmin.Retention.Deletion

/-!
# Retrying a deletion

A deletion that fails on the way may already have removed what it needs to be let in again: the
wipe starts with the prefix that holds the device files and the profile. Sent once more, with no
fault, it comes through exactly where those two are still there.
-/

namespace Atmin

open Interaction

section Retry

variable {ι : Type} {limit : Option Nat} {m : Moment} {i : ι} {s t u : Sys ι} {env : Env}
  {token : Option String} {user : AuthedUser} {p : Profile}

/-! ### What a failed deletion leaves -/

def deviceOf (user : AuthedUser) : String := keyDevice user.userId.str user.deviceId.str

/-- The guard has changed no object, and the cached version is the token's. -/
structure Entering (user : AuthedUser) (s t : Sys ι) : Prop where
  objects : t.objects = s.objects
  cached : ∀ kv, (user.userId.str, kv) ∈ t.profileCache → kv = user.keyVersion.get

theorem Entering.step {o : Op} {r : Res o} (entering : Entering user s t) (served : Faulty i o t r u)
    (passive : o.passive = true)
    (version : ∀ kv, o = .profileCacheSet user.userId.str kv → kv = user.keyVersion.get) :
    Entering user s u := by
  constructor
  · obtain ⟨_, _, _, _, _, rfl⟩ := served_passive served passive
    exact entering.objects
  · intro kv member
    rcases (served_profileCache served member).1 with set | old
    · exact version kv set
    · exact entering.cached kv old

theorem checkDevice_enters (entering : Entering user s t) (key : String) :
    Interaction.Ends (Faulty i) (checkDevice key).run t fun _ u => Entering user s u := by
  unfold checkDevice
  refine Ends.call fun seen u served => ?_
  have first := entering.step served rfl nofun
  cases seen with
  | true => exact .ret first
  | false =>
    refine Ends.call fun found v served => ?_
    have second := first.step served rfl nofun
    rcases found with (_ | err) | _
    · exact .ret second
    · exact .ret second
    · exact .op fun _ w served => .ret (second.step served rfl nofun)

/-- The version it caches is that of the stored profile. -/
theorem currentKeyVersion_enters (stored : profileOf user.userId s = some p)
    (current : p.currentKv = user.keyVersion.get) (entering : Entering user s t) :
    Interaction.Ends (Faulty i) (currentKeyVersion user.userId.str).run t fun _ u =>
      Entering user s u := by
  unfold currentKeyVersion
  refine Ends.call fun hit u served => ?_
  have first := entering.step served rfl nofun
  cases hit with
  | some kv => exact .ret first
  | none =>
    refine Ends.call fun found v served => ?_
    have second := first.step served rfl nofun
    obtain ⟨rfl, answer⟩ := served_getObject served
    rcases found with (_ | err) | bytes
    · exact .ret second
    · exact .ret second
    · refine Ends.orFail (fun _ => second) fun q parsed => ?_
      have its : q = p := by
        rcases answer with found | ⟨_, _, _, wrong⟩
        · have here : s.objects.get (keyProfile user.userId.str) = some bytes := by
            rw [← second.objects]
            exact lookup_eq_ok.mp found.symm
          rw [profileOf, here] at stored
          exact Option.some.inj (parsed.symm.trans stored)
        · cases wrong
      refine Ends.call fun _ w served => .ret (second.step served rfl fun kv set => ?_)
      cases set
      rw [its, current]

theorem authenticate_enters (admits : Admits env token user s) :
    Interaction.Ends (Faulty i) (authenticate env token true).run s fun r t =>
      (∀ other, r = .ok other → other = user) ∧ Entering user s t := by
  obtain ⟨p, stored, current⟩ := admits.profile
  rw [authenticate_known admits.identity, admitUser]
  refine Ends.andThen (checkDevice_enters ⟨rfl, admits.cached⟩ _) (fun _ _ entering => ⟨by simp, entering⟩)
    fun _ t entering => ?_
  rw [if_pos rfl]
  refine Ends.andThen (currentKeyVersion_enters stored current entering)
    (fun _ _ entering => ⟨by simp, entering⟩) fun kv u entering => ?_
  refine Ends.checked (fun _ => ⟨by simp, entering⟩) fun _ => .ret ⟨?_, entering⟩
  rintro other ⟨⟩
  rfl

/-- Outside the handles nothing is written; the device file goes only with its cache entry; and the
cached version is the token's. -/
structure Left (user : AuthedUser) (s t : Sys ι) : Prop where
  kept : ∀ key, startsWith key "handles/" = false →
    t.objects.get key = s.objects.get key ∨ t.objects.get key = none
  evicted : t.objects.get (deviceOf user) = none → deviceOf user ∉ t.deviceCache
  cached : ∀ kv, (user.userId.str, kv) ∈ t.profileCache → kv = user.keyVersion.get

theorem Entering.left (entering : Entering user s t) (present : (s.objects.get (deviceOf user)).isSome) :
    Left user s t := by
  refine ⟨fun key _ => .inl (by rw [entering.objects]), fun gone => ?_, entering.cached⟩
  rw [entering.objects] at gone
  rw [gone] at present
  cases present

/-- A request that removes the device file, if at all, after its cache entry. -/
theorem Left.step {o : Op} {r : Res o} (left : Left user s t) (served : Faulty i o t r u)
    (shrinks : ∀ key, startsWith key "handles/" = false →
      u.objects.get key = t.objects.get key ∨ u.objects.get key = none)
    (evicted : u.objects.get (deviceOf user) = none →
      t.objects.get (deviceOf user) = none ∨ deviceOf user ∉ t.deviceCache)
    (plain : ∀ key, o ≠ .deviceCacheSet key) (version : ∀ kv, o ≠ .profileCacheSet user.userId.str kv) :
    Left user s u := by
  constructor
  · intro key outside
    rcases shrinks key outside with same | gone
    · rw [same]
      exact left.kept key outside
    · exact .inr gone
  · intro gone member
    have before := served_deviceCache served plain member
    rcases evicted gone with earlier | absent
    · exact left.evicted earlier before
    · exact absent before
  · intro kv member
    rcases (served_profileCache served member).1 with set | old
    · exact absurd set (version kv)
    · exact left.cached kv old

theorem Left.quiet {o : Op} {r : Res o} (left : Left user s t) (served : Faulty i o t r u)
    (same : u.objects = t.objects) (plain : ∀ key, o ≠ .deviceCacheSet key)
    (version : ∀ kv, o ≠ .profileCacheSet user.userId.str kv) : Left user s u :=
  left.step served (fun key _ => .inl (by rw [same])) (fun gone => .inl (by rw [← same]; exact gone))
    plain version

theorem Left.passive {o : Op} {r : Res o} (left : Left user s t) (served : Faulty i o t r u)
    (passive : o.passive = true) (plain : ∀ key, o ≠ .deviceCacheSet key)
    (version : ∀ kv, o ≠ .profileCacheSet user.userId.str kv) : Left user s u := by
  refine left.quiet served ?_ plain version
  obtain ⟨_, _, _, _, _, rfl⟩ := served_passive served passive
  rfl

/-- The devices among the keys are evicted, and no object changes. -/
theorem evictDevices_leaves (devices : String) (keys : List String) (left : Left user s t) :
    Interaction.Ends (Faulty i) (evictDevices devices keys).run t fun r u =>
      r = .ok () ∧ Left user s u ∧ u.objects = t.objects ∧ u.deviceCache ⊆ t.deviceCache ∧
        ∀ key ∈ keys, startsWith key devices = true → key ∉ u.deviceCache := by
  induction keys generalizing t with
  | nil => exact .ret ⟨rfl, left, rfl, fun _ member => member, by simp⟩
  | cons k rest ih =>
    unfold evictDevices
    split
    next =>
      refine Ends.call fun _ u served => ?_
      have first := left.passive served rfl (by simp) (by simp)
      have same := served_deviceCacheInvalidate served
      refine (ih first).weaken fun r v after => ?_
      obtain ⟨ok, last, objects, fewer, evicted⟩ := after
      rw [same] at objects fewer
      refine ⟨ok, last, objects, fun key member => (List.mem_filter.mp (fewer member)).1, ?_⟩
      intro key member device cached
      rcases List.mem_cons.mp member with rfl | later
      · exact of_decide_eq_true (List.mem_filter.mp (fewer cached)).2 rfl
      · exact evicted key later device cached
    next other =>
      refine (ih left).weaken fun r v after => ?_
      obtain ⟨ok, last, objects, fewer, evicted⟩ := after
      refine ⟨ok, last, objects, fewer, fun key member device => ?_⟩
      rcases List.mem_cons.mp member with rfl | later
      · exact absurd device other
      · exact evicted key later device

theorem wipePrefixes_leaves (prefixes : List String) (left : Left user s t) :
    Interaction.Ends (Faulty i) (wipePrefixes (prefixUserDevices user.userId.str) prefixes).run t
      fun _ u => Left user s u := by
  induction prefixes generalizing t with
  | nil => exact .ret left
  | cons pre rest ih =>
    unfold wipePrefixes
    refine Ends.andThen (P := fun _ u => Left user s u) ?_ (fun _ _ left => left) fun page u left => ?_
    · rw [run_tryStoreAs, ask_bind]
      refine .op fun r u served => ?_
      have listed := left.passive served rfl (by simp) (by simp)
      cases r <;> exact .ret listed
    refine Ends.andThen (evictDevices_leaves _ page.keys left) (fun _ _ done => done.2.1)
      fun _ v after => ?_
    obtain ⟨_, left, _, _, evicted⟩ := after
    split
    next => exact ih left
    next =>
      refine Ends.andThen (P := fun _ u => Left user s u) ?_ (fun _ _ left => left) fun _ w left => ih left
      rw [run_tryStoreAs, ask_bind]
      refine .op fun r w served => ?_
      -- what goes was listed, so its cache entry went first
      have wiped : Left user s w := by
        obtain ⟨gone, part, same⟩ : ∃ gone, (∀ key ∈ gone, key ∈ page.keys) ∧ w = v.remove gone := by
          rcases served_deleteObjects served with ⟨_, all⟩ | ⟨_, some_, _, _, part⟩
          · exact ⟨page.keys, fun _ member => member, all⟩
          · exact ⟨_, fun key member => (List.mem_filter.mp member).1, part⟩
        have after (key : String) : w.objects.get key = if key ∈ gone then none else v.objects.get key := by
          rw [same, Sys.remove, ObjectMap.get_eraseAll]
        refine left.step served (fun key _ => ?_) (fun absent => ?_) (by simp) (by simp)
        · rw [after]
          split
          next => exact .inr rfl
          next => exact .inl rfl
        · rw [after] at absent
          split at absent
          next listed =>
            exact .inr (evicted _ (part _ listed) (device_within _ _))
          next => exact .inl absent
      cases r <;> exact .ret wiped

theorem writeTombstone_leaves (env : Env) (handle : String) (left : Left user s t) :
    Interaction.Ends (Faulty i) (writeTombstone env handle).run t fun _ u => Left user s u := by
  refine Ends.call fun now u served => ?_
  have timed := left.passive served rfl (by simp) (by simp)
  rw [run_tryStoreAs, ask_bind]
  refine .op fun r v served => ?_
  have written : Left user s v := by
    have other {key : String} (outside : key ≠ keyHandle handle) :
        v.objects.get key = u.objects.get key := by
      have put : (u.put (keyHandle handle) (tombstone env now).data).objects.get key = u.objects.get key := by
        rw [Sys.put, ObjectMap.get_insert, if_neg outside]
      rcases served_putObject served with ⟨_, rfl⟩ | ⟨_, rfl | rfl⟩
      · exact put
      · exact put
      · rfl
    have elsewhere {key : String} (outside : startsWith key "handles/" = false) : key ≠ keyHandle handle := by
      rintro rfl
      rw [keyHandle_within] at outside
      cases outside
    refine timed.step served (fun key outside => .inl (other (elsewhere outside))) (fun gone => .inl ?_)
      (by simp) (by simp)
    rw [deviceOf, ← other (keyHandle_ne_device handle user.userId.str user.deviceId.str).symm]
    exact gone
  cases r <;> exact .ret written

theorem releaseHandle_leaves (env : Env) (handle : String) (left : Left user s t) :
    Interaction.Ends (Faulty i) (releaseHandle env handle).run t fun _ u => Left user s u := by
  by_cases named : handle = ""
  · rw [releaseHandle, if_pos named]
    exact .ret left
  · rw [releaseHandle_eq env named, run_withLock]
    refine .op fun got u served => ?_
    have same : u.objects = t.objects := by
      rcases served_acquire served with ⟨_, _, rfl⟩ | ⟨_, rfl⟩ <;> rfl
    have waited := left.quiet served same (by simp) (by simp)
    rcases got with _ | _
    · exact .ret waited
    · refine Interaction.Ends.bind (writeTombstone_leaves env handle waited) fun r v left =>
        .op fun _ w served => .ret (left.quiet served ?_ (by simp) (by simp))
      rw [served_release served]

/-- Wherever a deletion ends, whatever fails. -/
theorem deleteProfile_left (admits : Admits env token user s) :
    Interaction.Ends (Faulty i) (deleteProfile env token).run s fun _ t => Left user s t := by
  have present : (s.objects.get (deviceOf user)).isSome := admits.device
  unfold deleteProfile
  refine Ends.andThen (authenticate_enters admits) (fun _ _ done => done.2.left present)
    fun other t ⟨its, entering⟩ => ?_
  obtain rfl := its other rfl
  have left := entering.left present
  refine Ends.read (fun e u served => left.passive served rfl nofun nofun) fun d u served => ?_
  have read := left.passive served rfl nofun nofun
  refine Ends.orFail (fun _ => read) fun profile _ => ?_
  exact Ends.andThen (wipePrefixes_leaves _ read) (fun _ _ left => left)
    fun _ v left => releaseHandle_leaves env profile.handle left

/-! ### The retry -/

/-- Nothing is left under the prefixes of the account, and its handle is cooling down. -/
structure Deleted (env : Env) (now : Int) (x : UserId) (p : Profile) (s : Sys ι) : Prop where
  wiped : ∀ pre ∈ ownedPrefixes x.str, Wiped s pre
  released : p.handle ≠ "" → s.objects.get (keyHandle p.handle) = some (tombstone env now).data

/-- Sent alone and with no fault, the deletion is let in and completes. It may only be turned away
by the lock of the handle. -/
structure Completes (limit : Option Nat) (m : Moment) (i : ι) (env : Env) (token : Option String)
    (x : UserId) (p : Profile) (s : Sys ι) : Prop where
  succeeds : ∃ t, Runs (Alone limit m i) (deleteProfile env token).run s (.ok ()) t
  deletes : ∀ r t, Runs (Alone limit m i) (deleteProfile env token).run s r t →
    r ≠ .error .registrationUnavailable → r = .ok () ∧ Deleted env m.now x p t

/-- No lock is held. -/
def Sys.unlocked (s : Sys ι) : Sys ι := { s with holder := fun _ => none }

/-- What a retry needs: the device file and the profile, and no more than a page in each prefix. -/
structure Retriable (user : AuthedUser) (s : Sys ι) : Prop where
  device : (s.objects.get (deviceOf user)).isSome
  profile : (s.objects.get (keyProfile user.userId.str)).isSome
  pages : ∀ pre ∈ ownedPrefixes user.userId.str, (keysUnder s pre).length ≤ 1000

theorem writeTombstone_releases (env : Env) (handle : String) :
    Interaction.Ends (Alone limit m i) (writeTombstone env handle).run s fun r t =>
      r = .ok () ∧ t.objects.get (keyHandle handle) = some (tombstone env m.now).data := by
  refine Ends.call fun now t served => ?_
  obtain ⟨rfl, rfl⟩ := alone_utcNow served
  rw [run_tryStoreAs, ask_bind]
  refine .op fun r t served => ?_
  obtain ⟨rfl, rfl⟩ := alone_putObject served
  refine .ret ⟨rfl, ?_⟩
  rw [Sys.put, ObjectMap.get_insert, if_pos rfl]

theorem releaseHandle_releases (env : Env) (handle : String) :
    Interaction.Ends (Alone limit m i) (releaseHandle env handle).run s fun r t =>
      r = .error .registrationUnavailable ∨ r = .ok () ∧
        (handle ≠ "" → t.objects.get (keyHandle handle) = some (tombstone env m.now).data) := by
  by_cases named : handle = ""
  · rw [releaseHandle, if_pos named]
    exact .ret (.inr ⟨rfl, fun other => absurd named other⟩)
  · rw [releaseHandle_eq env named, run_withLock]
    refine .op fun got t served => ?_
    rcases served_acquire (alone_healthy served (by simp) (by simp) (by simp)) with ⟨rfl, _, rfl⟩ | ⟨rfl, rfl⟩
    · refine Interaction.Ends.bind (writeTombstone_releases env handle) fun r v released =>
        .op fun _ w freed => .ret (.inr ⟨released.1, fun _ => ?_⟩)
      rw [served_release (alone_healthy freed (by simp) (by simp) (by simp))]
      exact released.2
    · exact .ret (.inl rfl)

/-- A user let in, with no more than a page in each prefix, deletes the account. -/
theorem deleteProfile_finishes_alone (takes : TakesPage limit) (admits : Admits env token user s)
    (stored : profileOf user.userId s = some p)
    (pages : ∀ pre ∈ ownedPrefixes user.userId.str, (keysUnder s pre).length ≤ 1000) :
    Interaction.Ends (Alone limit m i) (deleteProfile env token).run s fun r t =>
      r = .error .registrationUnavailable ∨ r = .ok () ∧ Deleted env m.now user.userId p t := by
  have complete : Interaction.Ends (Alone limit m i) (deleteProfile env token).run s fun r t =>
      r = .ok () → ∀ pre ∈ ownedPrefixes user.userId.str, Wiped t pre := by
    refine (deletion_complete_iff takes).weaken fun r t wiped ok => ?_
    obtain ⟨other, known, iff_⟩ := wiped ok
    obtain rfl := Option.some.inj (known.symm.trans admits.identity)
    exact iff_.mpr pages
  have released : Interaction.Ends (Alone limit m i) (deleteProfile env token).run s fun r t =>
      r = .error .registrationUnavailable ∨ r = .ok () ∧ (p.handle ≠ "" →
        t.objects.get (keyHandle p.handle) = some (tombstone env m.now).data) := by
    unfold deleteProfile
    refine Ends.andThen (authenticate_alone admits) (fun _ _ wrong => nomatch wrong.1)
      fun other t ⟨its, same⟩ => ?_
    obtain rfl := Except.ok.inj its
    obtain ⟨d, here, parsed⟩ := Option.bind_eq_some_iff.mp stored
    rw [← same] at here
    refine Ends.read (fun e u served => ?_) fun d' u served => ?_
    · obtain ⟨_, found⟩ := alone_getObject served
      rw [lookup_eq_ok.mpr here] at found
      cases found
    · obtain ⟨rfl, found⟩ := alone_getObject served
      rw [lookup_eq_ok.mpr here] at found
      cases found
      rw [parsed]
      refine Ends.orFail nofun fun q its => ?_
      obtain rfl := Option.some.inj its
      exact Ends.andThen (wipePrefixes_alone takes _ _) (fun _ _ wrong => nomatch wrong.1)
        fun _ v _ => releaseHandle_releases env p.handle
  intro r t run
  rcases released r t run with busy | ⟨ok, handle⟩
  · exact .inl busy
  · exact .inr ⟨ok, complete r t run ok, handle⟩

/-- Without its file and its cache entry, the device is taken for a revoked one. -/
theorem deleteProfile_refused (known : Token.identity env token = some user)
    (absent : s.objects.get (deviceOf user) = none) (uncached : deviceOf user ∉ s.deviceCache) :
    Interaction.Ends (Alone limit m i) (deleteProfile env token).run s fun r _ =>
      r = .error .deviceRevoked := by
  have refused : Interaction.Ends (Alone limit m i) (checkDevice (deviceOf user)).run s fun r _ =>
      r = .error .deviceRevoked := by
    unfold checkDevice
    refine Ends.call fun seen t served => ?_
    obtain ⟨rfl, hit⟩ := served_deviceCacheValid (alone_healthy served (by simp) (by simp) (by simp))
    cases seen with
    | true => exact absurd (hit rfl) uncached
    | false =>
      refine Ends.call fun found t served => ?_
      rcases served_headObject (alone_healthy served (by simp) (by simp) (by simp)) with
        ⟨_, ⟨_, present⟩ | ⟨rfl, _⟩ | fault⟩
      · rw [absent] at present
        cases present
      · exact .ret rfl
      · exact absurd fault not_faulted_healthy
  unfold deleteProfile
  rw [authenticate_known known, admitUser]
  refine Ends.andThen (P := fun r _ => r = .error .deviceRevoked) ?_ (fun _ _ wrong => by cases wrong; rfl)
    fun _ _ wrong => by cases wrong
  exact Ends.andThen refused (fun _ _ wrong => by cases wrong; rfl) fun _ _ wrong => by cases wrong

/-- The handler reads the profile for the handle. -/
theorem deleteProfile_reads : Interaction.Ends (Alone limit m i) (deleteProfile env token).run s fun r _ =>
    r = .ok () → ∃ user, Token.identity env token = some user ∧
      (s.objects.get (keyProfile user.userId.str)).isSome := by
  unfold deleteProfile
  refine Ends.andThen (authenticate_still env token true) (fun _ _ _ wrong => nomatch wrong)
    fun user t ⟨known, same, _⟩ => ?_
  refine Ends.read (fun _ _ _ wrong => nomatch wrong) fun d u served => ?_
  obtain ⟨_, found⟩ := alone_getObject served
  have here : t.objects.get (keyProfile user.userId.str) = some d := lookup_eq_ok.mp found.symm
  intro r v _ _
  refine ⟨user, known user rfl, ?_⟩
  rw [← same, here]
  rfl

/-- A deletion that failed can be finished exactly where it has left the device file and the profile,
and no more than a page in each prefix. -/
theorem deletion_retried_iff {j : ι} {e : ApiError} (takes : TakesPage limit)
    (admits : Admits env token user s) (stored : profileOf user.userId s = some p)
    (failed : Runs (Faulty i) (deleteProfile env token).run s (.error e) t) :
    Completes limit m j env token user.userId p t.unlocked ↔ Retriable user t := by
  have left : Left user s t := deleteProfile_left admits _ _ failed
  constructor
  · rintro ⟨⟨u, run⟩, deletes⟩
    have done := (deletes _ _ run nofun).2
    constructor
    · -- without the device file the guard refuses the retry
      by_contra gone
      have absent : t.objects.get (deviceOf user) = none := by simpa using gone
      have gone : t.unlocked.objects.get (deviceOf user) = none := absent
      have refused := deleteProfile_refused admits.identity gone (left.evicted absent) _ _ run
      cases refused
    · obtain ⟨other, known, here⟩ := deleteProfile_reads _ _ run rfl
      obtain rfl := Option.some.inj (known.symm.trans admits.identity)
      exact here
    · obtain ⟨other, known, complete⟩ := deletion_complete_iff takes _ _ run rfl
      obtain rfl := Option.some.inj (known.symm.trans admits.identity)
      exact complete.mp done.wiped
  · intro retriable
    -- a wiped object is as it was or gone, and the profile is there
    have there : profileOf user.userId t = some p := by
      have outside : startsWith (keyProfile user.userId.str) "handles/" = false :=
        Bool.eq_false_iff.mpr (owned_not_handle (List.mem_cons_self : _ ∈ ownedPrefixes _)
          (by rw [keyProfile_eq]; exact startsWith_append _ _))
      rcases left.kept _ outside with same | gone
      · rw [profileOf, same]
        exact stored
      · have present := retriable.profile
        rw [gone] at present
        cases present
    obtain ⟨q, its, current⟩ := admits.profile
    obtain rfl := Option.some.inj (its.symm.trans stored)
    have again : Admits env token user t.unlocked :=
      ⟨admits.identity, retriable.device, ⟨q, there, current⟩, left.cached⟩
    constructor
    · exact deleteProfile_runs takes again there rfl
    · intro r u run other
      have pages : ∀ pre ∈ ownedPrefixes user.userId.str,
          (keysUnder t.unlocked pre).length ≤ 1000 := retriable.pages
      exact (deleteProfile_finishes_alone takes again there pages r u run).resolve_left other

end Retry

section Samples

open Sample

/-- A deletion as it is served, choice by choice. -/
abbrev deletion (cs : List Choice) : Option (Except ApiError Unit × Sys Unit) :=
  (deleteProfile env token).run.evaluate (serve (fun _ => true) ()) cs (sys Unit)

/-- Past the wipe, somebody holds the lock of the handle. -/
def contended : List Choice := List.replicate 11 .ok ++ [.expire]

/-- The first listing fails. -/
def unlisted : List Choice := List.replicate 5 .ok ++ [.fail "SlowDown" false]

theorem deletion_prog : (deleteProfile env token).run = (admitUser authed true >>= fun user => do
    let uid := user.userId.str
    let bytes ← tryStore (ask (.getObject (keyProfile uid)))
    let profile ← orFail (.internal "Failed to read profile") (Profile.parse bytes)
    wipePrefixes (prefixUserDevices uid) (ownedPrefixes uid)
    releaseHandle env profile.handle : Handler Unit).run := by
  rw [deleteProfile, authenticate_known identity_token]

theorem contended_observed : (deletion contended).any fun x =>
    decide (x.1 = .error .registrationUnavailable) && (x.2.objects.get (deviceOf authed)).isNone &&
      decide (deviceOf authed ∉ x.2.deviceCache) := by
  rw [deletion, deletion_prog]
  decide

theorem unlisted_observed : (deletion unlisted).any fun x =>
    decide (x.1 = .error (.internal "Failed to list objects")) &&
      (x.2.objects.get (deviceOf authed)).isSome && (x.2.objects.get (keyProfile uid)).isSome &&
      decide (x.2.objects.entries.length = 3) := by
  rw [deletion, deletion_prog]
  decide

theorem sys_admits : Admits env token authed (sys Unit) where
  identity := identity_token
  device := by decide
  profile := ⟨profile, stored_profile, rfl⟩
  cached _ member := nomatch member

/-- The lock is held when the wipe is over; from then on the device counts as revoked, and the handle
stays taken. -/
theorem deletion_unfinished : ∃ t,
    Runs (Faulty ()) (deleteProfile env token).run (sys Unit) (.error .registrationUnavailable) t ∧
      ¬ Completes (some S3_DELETE_LIMIT) moment () env token user profile t.unlocked := by
  obtain ⟨⟨r, t⟩, ran, observed⟩ := (Option.any_eq_true _ _).mp contended_observed
  simp only [Bool.and_eq_true, decide_eq_true_eq, Option.isNone_iff_eq_none] at observed
  obtain ⟨⟨rfl, absent⟩, uncached⟩ := observed
  refine ⟨t, runs_of_evaluate ran, fun completes => ?_⟩
  obtain ⟨⟨u, run⟩, _⟩ := completes
  have gone : t.unlocked.objects.get (deviceOf authed) = none := absent
  have refused := deleteProfile_refused identity_token gone uncached _ _ run
  cases refused

/-- The first listing failed; sent again, the deletion completes. -/
theorem deletion_resent : ∃ t e, Runs (Faulty ()) (deleteProfile env token).run (sys Unit) (.error e) t ∧
    Completes (some S3_DELETE_LIMIT) moment () env token user profile t.unlocked := by
  obtain ⟨⟨r, t⟩, ran, observed⟩ := (Option.any_eq_true _ _).mp unlisted_observed
  simp only [Bool.and_eq_true, decide_eq_true_eq] at observed
  obtain ⟨⟨⟨rfl, device⟩, stored⟩, few⟩ := observed
  have run := runs_of_evaluate ran
  refine ⟨t, _, run, (deletion_retried_iff takes_page sys_admits stored_profile run).mpr ?_⟩
  refine ⟨device, stored, fun pre _ => ?_⟩
  exact (ObjectMap.keysAfter_length_le _ _ none).trans (few.le.trans (by decide))

end Samples

end Atmin
