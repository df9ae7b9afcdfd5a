import Atmin.Interaction.Paging
import Atmin.Retention.Policy
import Atmin.Inbox.Progress

/-!
# What a deletion leaves

A deleted account is wiped by one listing page of each of its prefixes. That is everything
where no prefix holds more objects than a page; else what follows the first page stays.
-/

namespace Atmin

open Interaction

section Deletion

variable {ι : Type} {limit : Option Nat} {m : Moment} {i : ι} {s t : Sys ι} {env : Env}
  {token : Option String}

/-- The keys stored under a prefix, in order. -/
def keysUnder (s : Sys ι) (pre : String) : List String := s.objects.keysAfter (startsWith · pre) none

/-- A passive request changes no object and no lock. -/
theorem alone_passive {o : Op} {r : Res o} (served : Alone limit m i o s r t)
    (passive : o.passive = true) : t.objects = s.objects ∧ t.holder = s.holder := by
  cases o with
  | utcNow =>
    rw [(alone_utcNow served).2]
    exact ⟨rfl, rfl⟩
  | newUlid => cases passive
  | deleteObjects keys => cases passive
  | _ =>
    obtain ⟨_, _, _, _, _, rfl⟩ := served_passive (alone_healthy served nofun nofun nofun) passive
    exact ⟨rfl, rfl⟩

/-- The guard changes no object and no lock. -/
theorem authenticate_still (env : Env) (token : Option String) (enforceKv : Bool) :
    Interaction.Ends (Alone limit m i) (authenticate env token enforceKv).run s fun r t =>
      Identified env token r ∧ t.objects = s.objects ∧ t.holder = s.holder := by
  refine Interaction.Ends.keeping (authenticate_passive env token enforceKv) ?_ ⟨rfl, rfl⟩
  intro o v r t passive served ⟨objects, holder⟩
  have still := alone_passive served passive
  exact ⟨still.1.trans objects, still.2.trans holder⟩

theorem evictDevices_alone (devices : String) (keys : List String) :
    Interaction.Ends (Alone limit m i) (evictDevices devices keys).run s fun r t =>
      r = .ok () ∧ t.objects = s.objects ∧ t.holder = s.holder := by
  induction keys generalizing s with
  | nil => exact .ret ⟨rfl, rfl, rfl⟩
  | cons k rest ih =>
    unfold evictDevices
    split
    next =>
      refine Ends.call fun _ t served => ?_
      have still := alone_passive served rfl
      exact ih.weaken fun r v evicted =>
        ⟨evicted.1, evicted.2.1.trans still.1, evicted.2.2.trans still.2⟩
    next => exact ih

theorem listPage_alone (e : ApiError) (pre : String) (n : Nat) (cursor : Option String) :
    Interaction.Ends (Alone limit m i) (tryStoreAs e (ask (.listObjects pre n cursor))).run s fun r t =>
      r = .ok (s.listing pre n cursor) ∧ t = s := by
  rw [run_tryStoreAs, ask_bind]
  refine .op fun r v served => ?_
  obtain ⟨rfl, rfl⟩ := alone_listObjects served
  exact .ret ⟨rfl, rfl⟩

theorem deleteKeys_alone (e : ApiError) {keys : List String} (takes : ∀ n ∈ limit, keys.length ≤ n) :
    Interaction.Ends (Alone limit m i) (tryStoreAs e (ask (.deleteObjects keys))).run s fun r t =>
      r = .ok () ∧ t = s.remove keys := by
  rw [run_tryStoreAs, ask_bind]
  refine .op fun r v served => ?_
  rcases alone_deleteObjects served with ⟨_, rfl, rfl⟩ | ⟨refused, _⟩
  · exact .ret ⟨rfl, rfl⟩
  · exact absurd takes refused

/-- A page of each prefix goes. -/
def erasePages (prefixes : List String) (objects : ObjectMap String Data) : ObjectMap String Data :=
  prefixes.foldl (fun objects pre => objects.eraseAll (objects.page (startsWith · pre) 1000 none).1)
    objects

/-- A bulk delete takes a page. -/
def TakesPage (limit : Option Nat) : Prop := ∀ n ∈ limit, 1000 ≤ n

theorem listing_length (s : Sys ι) (pre : String) (n : Nat) (cursor : Option String) :
    (s.listing pre n cursor).keys.length ≤ n := by
  rw [Sys.listing, ObjectMap.page_take]
  exact List.length_take_le _ _

theorem eraseAll_nil (objects : ObjectMap String Data) : objects.eraseAll [] = objects := by
  simp [ObjectMap.eraseAll, ObjectMap.eraseWhere]

theorem wipePrefixes_alone (takes : TakesPage limit) (devices : String) (prefixes : List String) :
    Interaction.Ends (Alone limit m i) (wipePrefixes devices prefixes).run s fun r t =>
      r = .ok () ∧ t.objects = erasePages prefixes s.objects ∧ t.holder = s.holder := by
  induction prefixes generalizing s with
  | nil => exact .ret ⟨rfl, rfl, rfl⟩
  | cons pre rest ih =>
    unfold wipePrefixes
    refine Ends.andThen (listPage_alone _ pre 1000 none) (fun _ _ wrong => by cases wrong.1) ?_
    rintro _ s ⟨⟨⟩, rfl⟩
    refine Ends.andThen (evictDevices_alone devices _) (fun _ _ wrong => by cases wrong.1)
      fun _ w evicted => ?_
    obtain ⟨_, same, free⟩ := evicted
    -- what the page lists is erased, and the rest of the prefixes by induction
    have wiped {t : Sys ι} (gone : t.objects = s.objects.eraseAll (s.listing pre 1000 none).keys)
        (held : t.holder = s.holder) :
        Interaction.Ends (Alone limit m i) (wipePrefixes devices rest).run t fun r v =>
          r = .ok () ∧ v.objects = erasePages (pre :: rest) s.objects ∧ v.holder = s.holder :=
      ih.weaken fun r v wiped => ⟨wiped.1, by rw [wiped.2.1, gone]; rfl, wiped.2.2.trans held⟩
    split
    -- an empty page is not deleted
    next empty => exact wiped (by rw [empty, eraseAll_nil, same]) free
    next =>
      refine Ends.andThen (deleteKeys_alone _ fun n given =>
        (listing_length s pre 1000 none).trans (takes n given)) (fun _ _ wrong => by cases wrong.1) ?_
      rintro _ _ ⟨_, rfl⟩
      exact wiped (by rw [Sys.remove, same]) free

/-- What `releaseHandle` does under its lock. -/
def writeTombstone (env : Env) (handle : String) : Handler Unit := do
  let now ← call (ask .utcNow)
  tryStoreAs (.internal "Failed to write handle tombstone")
    (ask (.putObject (keyHandle handle) (tombstone env now).data))

theorem writeTombstone_alone (env : Env) (handle : String) :
    Interaction.Ends (Alone limit m i) (writeTombstone env handle).run s fun r t =>
      r = .ok () ∧ ∀ key, key ≠ keyHandle handle → t.objects.get key = s.objects.get key := by
  refine Ends.call fun now t served => ?_
  obtain ⟨_, rfl⟩ := alone_utcNow served
  rw [run_tryStoreAs, ask_bind]
  refine .op fun r t served => ?_
  obtain ⟨rfl, rfl⟩ := alone_putObject served
  refine .ret ⟨rfl, fun key other => ?_⟩
  show (ObjectMap.insert _ _ _).get key = _
  rw [ObjectMap.get_insert, if_neg other]

theorem releaseHandle_eq (env : Env) {handle : String} (named : handle ≠ "") :
    releaseHandle env handle = withLock (.handleClaim handle) (.error .registrationUnavailable)
      (writeTombstone env handle) := by
  rw [releaseHandle, if_neg named]
  rfl

/-- Releasing the handle touches nothing but its file. -/
theorem releaseHandle_alone (env : Env) (handle : String) :
    Interaction.Ends (Alone limit m i) (releaseHandle env handle).run s fun _ t =>
      ∀ key, startsWith key "handles/" = false → t.objects.get key = s.objects.get key := by
  by_cases named : handle = ""
  · rw [releaseHandle, if_pos named]
    exact .ret fun _ _ => rfl
  · rw [releaseHandle_eq env named, run_withLock]
    refine .op fun got t served => ?_
    rcases served_acquire (alone_healthy served nofun nofun nofun) with ⟨rfl, _, rfl⟩ | ⟨rfl, rfl⟩
    · refine Interaction.Ends.bind (writeTombstone_alone env handle) fun r v ⟨_, kept⟩ =>
        .op fun _ w released => .ret fun key other => ?_
      rw [served_release (alone_healthy released nofun nofun nofun)]
      refine kept key ?_
      rintro rfl
      rw [keyHandle_within] at other
      cases other
    · exact .ret fun _ _ => rfl

/-! ### The four prefixes -/

/-- The owned prefixes of one account are disjoint. -/
theorem owned_apart {uid a b key : String} (ownedA : a ∈ ownedPrefixes uid) (ownedB : b ∈ ownedPrefixes uid)
    (apart : a ≠ b) (within : startsWith key a = true) : startsWith key b = false := by
  by_contra both
  rw [Bool.not_eq_false] at both
  simp only [startsWith, List.isPrefixOf_iff_prefix] at within both
  obtain ⟨ra, splitA⟩ := within
  obtain ⟨rb, splitB⟩ := both
  have heads := congrArg List.head? (splitA.trans splitB.symm)
  simp only [ownedPrefixes, List.mem_cons, List.not_mem_nil, or_false] at ownedA ownedB
  rcases ownedA with rfl | rfl | rfl | rfl <;> rcases ownedB with rfl | rfl | rfl | rfl <;>
    first
      | exact apart rfl
      | simp [prefixUser, prefixInbox, prefixKeys, prefixMedia] at heads

theorem mem_page_within {objects : ObjectMap String Data} {pre key : String} {n : Nat}
    (listed : key ∈ (objects.page (startsWith · pre) n none).1) : startsWith key pre = true :=
  (ObjectMap.mem_page objects (startsWith · pre) n none key listed).2

/-- Pages of other prefixes leave the keys under one as they are. -/
theorem erasePages_other {uid pre : String} (owned : pre ∈ ownedPrefixes uid) {prefixes : List String}
    (others : ∀ q ∈ prefixes, q ∈ ownedPrefixes uid ∧ q ≠ pre) (objects : ObjectMap String Data) :
    (erasePages prefixes objects).keysAfter (startsWith · pre) none =
      objects.keysAfter (startsWith · pre) none := by
  induction prefixes generalizing objects with
  | nil => rfl
  | cons q rest ih =>
    obtain ⟨its, apart⟩ := others q (by simp)
    rw [erasePages, List.foldl_cons, ← erasePages, ih fun q' member => others q' (by simp [member])]
    exact ObjectMap.keysAfter_eraseOthers
      (fun key listed => owned_apart its owned apart (mem_page_within listed)) none

/-- What follows the first page of each prefix is left. -/
theorem erasePages_drop {uid pre : String} {prefixes : List String}
    (part : ∀ q ∈ prefixes, q ∈ ownedPrefixes uid)
    (once : prefixes.Nodup) (member : pre ∈ prefixes) (objects : ObjectMap String Data) :
    (erasePages prefixes objects).keysAfter (startsWith · pre) none =
      (objects.keysAfter (startsWith · pre) none).drop 1000 := by
  induction prefixes generalizing objects with
  | nil => cases member
  | cons q rest ih =>
    obtain ⟨fresh, once'⟩ := List.nodup_cons.mp once
    rw [erasePages, List.foldl_cons, ← erasePages]
    rcases List.mem_cons.mp member with rfl | later
    · rw [erasePages_other (part pre (by simp)) fun q' inside =>
        ⟨part q' (by simp [inside]), fun same => fresh (same ▸ inside)⟩]
      exact ObjectMap.keysAfter_erasePage objects _ 1000
    · have apart : q ≠ pre := fun same => fresh (same ▸ later)
      rw [ih (fun q' inside => part q' (by simp [inside])) once' later,
        ObjectMap.keysAfter_eraseOthers fun key listed =>
          owned_apart (part q (by simp)) (part pre member) apart (mem_page_within listed)]

theorem owned_nodup (uid : String) : (ownedPrefixes uid).Nodup := by
  refine List.Nodup.of_map (fun pre => pre.toList.head?) ?_
  simp [ownedPrefixes, prefixUser, prefixInbox, prefixKeys, prefixMedia]

/-- A deletion that succeeds leaves what follows the first page of each prefix. -/
theorem deleteProfile_leaves (takes : TakesPage limit) (env : Env) (token : Option String) :
    Interaction.Ends (Alone limit m i) (deleteProfile env token).run s fun r t => r = .ok () →
      ∃ user, Token.identity env token = some user ∧ ∀ pre ∈ ownedPrefixes user.userId.str,
        keysUnder t pre = (keysUnder s pre).drop 1000 := by
  unfold deleteProfile
  refine Ends.andThen (authenticate_still env token true) (fun _ _ _ wrong => nomatch wrong)
    fun user t ⟨known, same, _⟩ => ?_
  refine Ends.read (fun _ _ _ wrong => nomatch wrong) fun d t served => ?_
  obtain ⟨rfl, _⟩ := alone_getObject served
  refine Ends.orFail (fun _ wrong => nomatch wrong) fun profile _ => ?_
  refine Ends.andThen (wipePrefixes_alone takes _ _) (fun _ _ wrong => nomatch wrong.1)
    fun _ u ⟨_, wiped, _⟩ => ?_
  refine (releaseHandle_alone env profile.handle).weaken fun r v kept _ => ⟨user, known user rfl, ?_⟩
  intro pre owned
  have rest : keysUnder v pre = keysUnder u pre := by
    refine ObjectMap.keysAfter_congr fun key within _ => ?_
    rw [kept key (Bool.not_eq_true _ ▸ owned_not_handle owned within)]
  rw [rest, keysUnder, wiped, erasePages_drop (fun _ its => its) (owned_nodup _) owned, same, keysUnder]

/-- No object under the prefix. -/
def Wiped (s : Sys ι) (pre : String) : Prop := ∀ key, startsWith key pre = true → s.objects.get key = none

theorem wiped_iff {pre : String} : Wiped s pre ↔ keysUnder s pre = [] :=
  ObjectMap.keysAfter_nil_iff.symm

/-- A deletion that succeeds is complete exactly where no prefix holds more than a page. -/
theorem deletion_complete_iff (takes : TakesPage limit) :
    Interaction.Ends (Alone limit m i) (deleteProfile env token).run s fun r t => r = .ok () →
      ∃ user, Token.identity env token = some user ∧
        ((∀ pre ∈ ownedPrefixes user.userId.str, Wiped t pre) ↔
          ∀ pre ∈ ownedPrefixes user.userId.str, (keysUnder s pre).length ≤ 1000) := by
  refine (deleteProfile_leaves takes env token).weaken fun r t leaves ok => ?_
  obtain ⟨user, known, left⟩ := leaves ok
  refine ⟨user, known, forall₂_congr fun pre owned => ?_⟩
  rw [wiped_iff, left pre owned, List.drop_eq_nil_iff]

/-- A run of a handler goes on where its first part succeeded. -/
theorem runs_andThen {α β : Type} {exec : (o : Op) → Sys ι → Res o → Sys ι → Prop} {h : Handler α}
    {f : α → Handler β} {a : α} {r : Except ApiError β} {u : Sys ι} (first : Runs exec h.run s (.ok a) t)
    (rest : Runs exec (f a).run t r u) : Runs exec (h >>= f).run s r u := by
  rw [run_bind]
  exact runs_bind.mpr ⟨.ok a, t, first, rest⟩

/-- A program that ends well whenever it ends has such a run. -/
theorem exists_alone {α : Type} {p : Eff α} {Q : α → Sys ι → Prop}
    (ends : Interaction.Ends (Alone limit m i) p s Q) : ∃ a t, Runs (Alone limit m i) p s a t ∧ Q a t := by
  obtain ⟨a, t, run⟩ := exists_runs (alone_total limit m i) p s
  exact ⟨a, t, run, ends a t run⟩

/-- Where the lock of the handle is free, the release comes through. -/
theorem releaseHandle_runs (env : Env) (handle : String) (free : s.holder (.handleClaim handle) = none) :
    ∃ t, Runs (Alone limit m i) (releaseHandle env handle).run s (.ok ()) t := by
  by_cases named : handle = ""
  · rw [releaseHandle, if_pos named]
    exact ⟨s, .ret _ _⟩
  · rw [releaseHandle_eq env named, run_withLock]
    have locked : Alone limit m i (.acquire (.handleClaim handle)) s (.ok ())
        { s with holder := Function.update s.holder (.handleClaim handle) (some i) } :=
      ⟨.ok, by simp only [alone, serve, Choice.healthy, if_true, exec, free]⟩
    have writes : Interaction.Ends (Alone limit m i) (writeTombstone env handle).run
        { s with holder := Function.update s.holder (.handleClaim handle) (some i) } _ :=
      writeTombstone_alone env handle
    obtain ⟨_, t, run, rfl, _⟩ := exists_alone writes
    obtain ⟨_, u, released⟩ := alone_total limit m i (.release (.handleClaim handle)) t
    exact ⟨u, .op locked (runs_bind.mpr ⟨_, t, run, .op released (.ret _ _)⟩)⟩

/-- A user with a good token, whose handle nobody claims, can delete the account. -/
theorem deleteProfile_runs (takes : TakesPage limit) {user : AuthedUser} {p : Profile}
    (admits : Admits env token user s) (stored : profileOf user.userId s = some p)
    (free : s.holder (.handleClaim p.handle) = none) :
    ∃ t, Runs (Alone limit m i) (deleteProfile env token).run s (.ok ()) t := by
  have enters : Interaction.Ends (Alone limit m i) (authenticate env token true).run s fun r t =>
      (r = .ok user ∧ t.objects = s.objects) ∧ t.holder = s.holder := fun r t run =>
    ⟨authenticate_alone admits r t run, (authenticate_still env token true r t run).2.2⟩
  obtain ⟨_, t, entered, ⟨rfl, objects⟩, holder⟩ := exists_alone enters
  obtain ⟨d, here, parsed⟩ := Option.bind_eq_some_iff.mp stored
  rw [← objects] at here
  -- the profile is there after the guard
  have read : Runs (Alone limit m i) (tryStore (ask (.getObject (keyProfile user.userId.str)))).run t
      (.ok d) t := by
    obtain ⟨r, v, served⟩ := alone_total limit m i (.getObject (keyProfile user.userId.str)) t
    obtain ⟨rfl, rfl⟩ := alone_getObject served
    rw [lookup_eq_ok.mpr here] at served
    exact .op served (.ret _ _)
  obtain ⟨_, u, wiped, rfl, _, kept⟩ := exists_alone
    (wipePrefixes_alone (i := i) (m := m) (s := t) takes (prefixUserDevices user.userId.str)
      (ownedPrefixes user.userId.str))
  -- and the lock of the handle is free
  obtain ⟨v, released⟩ : ∃ v, Runs (Alone limit m i) (releaseHandle env p.handle).run u (.ok ()) v :=
    releaseHandle_runs env p.handle (by rw [kept, holder, free])
  refine ⟨v, ?_⟩
  unfold deleteProfile
  refine runs_andThen entered (runs_andThen read ?_)
  rw [parsed]
  exact runs_andThen (.ret _ _) (runs_andThen wiped released)

end Deletion

section Samples

open Sample

theorem takes_page : TakesPage (some S3_DELETE_LIMIT) := by
  rintro n ⟨⟩
  decide

theorem withMail_deletes (msgIds : List String) : ∃ t,
    Runs (Alone (some S3_DELETE_LIMIT) moment ()) (deleteProfile env token).run (withMail msgIds) (.ok ()) t := by
  obtain ⟨p, stored, _⟩ := (withMail_admits msgIds).profile
  exact deleteProfile_runs takes_page (withMail_admits msgIds) stored rfl

theorem live_under (s : Sys Unit) (upTo : String) :
    liveUpTo s.objects (prefixInboxLive uid) upTo ⊆ keysUnder s (prefixInbox uid) := by
  intro key listed
  obtain ⟨there, live, _⟩ := (ObjectMap.mem_keysAfter _ _ _ key).mp (List.mem_of_mem_filter listed)
  have within : startsWith key (prefixInbox user.str) = true := inbox_of_live live
  exact (ObjectMap.mem_keysAfter _ _ _ key).mpr ⟨there, within, nofun⟩

theorem crowd_under (size : Nat) : size ≤ (keysUnder (withMail (crowd size)) (prefixInbox uid)).length := by
  have once : (liveUpTo (withMail (crowd size)).objects (prefixInboxLive uid) (lastId size)).Nodup :=
    ((withMail (crowd size)).objects.keysAfter_nodup _ none).filter _
  exact (crowd_listed size).trans (List.subperm_of_subset once (live_under _ _)).length_le

theorem crowd_left {size : Nat} (many : 1000 < size) {t : Sys Unit}
    (run : Runs (Alone (some S3_DELETE_LIMIT) moment ()) (deleteProfile env token).run
      (withMail (crowd size)) (.ok ()) t) : ¬ ∀ pre ∈ ownedPrefixes uid, Wiped t pre := by
  intro wiped
  obtain ⟨other, known, left⟩ := deleteProfile_leaves takes_page env token _ t run rfl
  have inbox : prefixInbox uid ∈ ownedPrefixes uid := by simp [ownedPrefixes]
  have same := token_user known
  have rest := left (prefixInbox uid) (by rw [same]; exact inbox)
  rw [wiped_iff.mp (wiped _ inbox), eq_comm, List.drop_eq_nil_iff] at rest
  have fewer := crowd_under size
  omega

/-- A thousand and one envelopes are one too many. -/
theorem crowd_survives : ∃ t,
    Runs (Alone (some S3_DELETE_LIMIT) moment ()) (deleteProfile env token).run (withMail (crowd 1001))
      (.ok ()) t ∧ ¬ ∀ pre ∈ ownedPrefixes uid, Wiped t pre := by
  obtain ⟨t, run⟩ := withMail_deletes (crowd 1001)
  exact ⟨t, run, crowd_left (by decide) run⟩

/-- The account with mail and an archive, and with a key backup and a blob. -/
def fullAccount : Sys Unit :=
  { withArchive with
    objects := (withArchive.objects.insert (prefixKeys uid ++ "session") (.raw [1])).insert
      (prefixMedia uid ++ "photo") (.raw [2]) }

theorem fullAccount_admits : Admits env token authed fullAccount := by
  refine withArchive_admits.kept (fun {k} own => ?_) withArchive_admits.cached
  have blob : k ≠ prefixMedia uid ++ "photo" := by
    rintro rfl
    exact absurd own (by decide)
  have backup : k ≠ prefixKeys uid ++ "session" := by
    rintro rfl
    exact absurd own (by decide)
  simp only [fullAccount, ObjectMap.get_insert, if_neg blob, if_neg backup]

/-- With something under each of the prefixes, nothing is left under any. -/
theorem account_wiped : (∀ pre ∈ ownedPrefixes uid, ¬ Wiped fullAccount pre) ∧ ∃ t,
    Runs (Alone (some S3_DELETE_LIMIT) moment ()) (deleteProfile env token).run fullAccount (.ok ()) t ∧
      ∀ pre ∈ ownedPrefixes uid, Wiped t pre := by
  have stocked : ∀ pre ∈ ownedPrefixes uid, (keysUnder fullAccount pre).length ∈ [1, 2, 3] := by
    decide +kernel
  constructor
  · intro pre owned wiped
    have some := stocked pre owned
    rw [wiped_iff.mp wiped] at some
    exact absurd some (by decide)
  · obtain ⟨p, stored, _⟩ := fullAccount_admits.profile
    obtain ⟨t, run⟩ := deleteProfile_runs takes_page fullAccount_admits stored (m := moment) rfl
    obtain ⟨other, known, complete⟩ := deletion_complete_iff takes_page _ t run rfl
    have same := token_user known
    rw [same] at complete
    refine ⟨t, run, complete.mpr fun pre owned => ?_⟩
    have few := stocked pre owned
    simp only [List.mem_cons, List.not_mem_nil, or_false] at few
    omega

end Samples

end Atmin
