import Atmin.Server.Cleanup
import Atmin.Access.HandleOwnership

/-!
# What a cleanup sweep may delete

A sweep judges an account by the profile that a handle file points to, and wipes by the id
and the handle inside that profile. Where the two agree, it deletes nothing but the matter of
accounts that meet a policy, and expired tombstones.
-/

namespace Atmin

open Interaction

section Policy

variable {ι : Type} (env : Env) (opts : CleanupOpts)

/-- No live and no archived message. -/
def InboxEmpty (uid : String) (s : Sys ι) : Prop :=
  ∀ key, (startsWith key (prefixInboxLive uid) = true ∨ startsWith key (prefixInboxArchive uid) = true) →
    s.objects.get key = none

/-- A registration that was never used: no name, past its grace period, an empty inbox. -/
def Abandoned (uid : String) (p : Profile) (s : Sys ι) : Prop :=
  p.displayName = "" ∧ olderThan env opts.now ABANDONED_GRACE_DAYS p.createdAt = true ∧ InboxEmpty uid s

/-- The account itself, by its own profile and inbox, is abandoned or inactive. -/
def MeetsPolicy (s : Sys ι) (x : UserId) : Prop :=
  ∃ p, profileOf x s = some p ∧ (Abandoned env opts x.str p s ∨ isInactive env opts p = true)

/-- The handle projection stored under a key. -/
def projectionAt (s : Sys ι) (key : String) : Option PublicHandleData :=
  (s.objects.get key).bind PublicHandleData.parse

/-- A tombstone past its cooldown. -/
def ExpiredTombstone (s : Sys ι) (key : String) : Prop :=
  ∃ h released, projectionAt s key = some h ∧ h.userId = "" ∧
    env.parseRfc3339 h.releasedAt = some released ∧ days HANDLE_COOLDOWN_DAYS < opts.now - released

/-- The handle is the account's, by its profile and by its projection. -/
def HandleOf (s : Sys ι) (x : UserId) (handle : String) : Prop :=
  (∃ p, profileOf x s = some p ∧ p.handle = handle) ∧
    ∃ h, projectionAt s (keyHandle handle) = some h ∧ h.userId = x.str

/-- Policy names the object. -/
structure NamedByPolicy (s : Sys ι) (key : String) : Prop where
  account : ∀ x : UserId, ∀ pre ∈ ownedPrefixes x.str, startsWith key pre = true →
    MeetsPolicy env opts s x
  handle : ∀ handle, key = keyHandle handle → ExpiredTombstone env opts s key ∨
    ∃ x, MeetsPolicy env opts s x ∧ HandleOf s x handle

/-- Only what policy names is gone; the rest is as it was. -/
def SweptByPolicy (s t : Sys ι) : Prop :=
  ∀ key, t.objects.get key = s.objects.get key ∨
    (t.objects.get key = none ∧ NamedByPolicy env opts s key)

/-- A handle file may be deleted along with the account. -/
def MayGo (s : Sys ι) (x : UserId) (handle : String) : Prop :=
  (∃ h, projectionAt s (keyHandle handle) = some h ∧ h.userId = x.str) ∨
    ExpiredTombstone env opts s (keyHandle handle) ∨ s.objects.get (keyHandle handle) = none

/-- A policy matches the profile under `uid`, or may once what policy names is gone. -/
def Matched (s : Sys ι) (uid : String) (p : Profile) : Prop :=
  (p.displayName = "" ∧ olderThan env opts.now ABANDONED_GRACE_DAYS p.createdAt = true ∧
    ∀ pre ∈ [prefixInboxLive uid, prefixInboxArchive uid], ∀ key, startsWith key pre = true →
      s.objects.get key = none ∨ NamedByPolicy env opts s key) ∨ isInactive env opts p = true

/-- Wherever a handle file leads to a profile that a policy matches, the file names an account,
the profile is that account's, and so is the handle in it. -/
def Agreeing (s : Sys ι) : Prop :=
  ∀ key h p, startsWith key "handles/" = true → projectionAt s key = some h → h.userId ≠ "" →
    (s.objects.get (keyProfile h.userId)).bind Profile.parse = some p →
    Matched env opts s h.userId p →
      ∃ x : UserId, h.userId = x.str ∧ p.userId = x.str ∧ (p.handle = "" ∨ MayGo env opts s x p.handle)

end Policy

/-! ### Owned prefixes -/

theorem owned_not_handle {uid key pre : String} (owned : pre ∈ ownedPrefixes uid)
    (within : startsWith key pre = true) : ¬ startsWith key "handles/" = true := by
  intro handle
  simp only [startsWith, List.isPrefixOf_iff_prefix] at within handle
  obtain ⟨rest, split⟩ := within
  obtain ⟨name, rfl⟩ : ∃ name, key = String.ofList ("handles/".toList ++ name) := by
    obtain ⟨name, same⟩ := handle
    exact ⟨name, by rw [same, String.ofList_toList]⟩
  have heads := congrArg List.head? split
  simp only [ownedPrefixes, List.mem_cons, List.not_mem_nil, or_false] at owned
  rcases owned with rfl | rfl | rfl | rfl <;>
    simp [prefixUser, prefixInbox, prefixKeys, prefixMedia] at heads

theorem keyHandle_within (handle : String) : startsWith (keyHandle handle) "handles/" = true := by
  rw [keyHandle, String.append_assoc]
  exact startsWith_append _ _

/-- Each owned prefix is a root with an id. -/
theorem owned_root {uid pre : String} (owned : pre ∈ ownedPrefixes uid) :
    ∃ root ∈ ["users/", "inbox/", "keys/", "media/"], pre = root ++ uid ++ "/" := by
  simp only [ownedPrefixes, List.mem_cons, List.not_mem_nil, or_false] at owned
  rcases owned with rfl | rfl | rfl | rfl
  · exact ⟨"users/", by simp, rfl⟩
  · exact ⟨"inbox/", by simp, rfl⟩
  · exact ⟨"keys/", by simp, rfl⟩
  · exact ⟨"media/", by simp, rfl⟩

/-- The owned prefixes of two accounts are disjoint. -/
theorem owned_once {x y : UserId} {key a b : String} (ownedA : a ∈ ownedPrefixes x.str)
    (ownedB : b ∈ ownedPrefixes y.str) (inA : startsWith key a = true) (inB : startsWith key b = true) :
    x = y := by
  obtain ⟨r, rootA, rfl⟩ := owned_root ownedA
  obtain ⟨q, rootB, rfl⟩ := owned_root ownedB
  simp only [startsWith, List.isPrefixOf_iff_prefix, String.toList_append] at inA inB
  obtain ⟨ra, splitA⟩ := inA
  obtain ⟨rb, splitB⟩ := inB
  have same := splitA.trans splitB.symm
  have roots : r = q := by
    have heads := congrArg List.head? same
    simp only [List.mem_cons, List.not_mem_nil, or_false] at rootA rootB
    rcases rootA with rfl | rfl | rfl | rfl <;> rcases rootB with rfl | rfl | rfl | rfl <;>
      first | rfl | (simp at heads)
  subst roots
  have ids : x.str.toList = y.str.toList := by
    simp only [List.append_assoc] at same
    have rest := List.append_cancel_left same
    exact (List.append_inj rest (by rw [validateUlid_length x.ulid, validateUlid_length y.ulid])).1
  cases x
  cases y
  cases String.toList_inj.mp ids
  rfl

/-! ### Following the sweep -/

section Sweeping

variable {ι : Type} {env : Env} {opts : CleanupOpts} {s0 s t : Sys ι} {i : ι} {α β : Type}

theorem SweptByPolicy.refl (s : Sys ι) : SweptByPolicy env opts s s := fun _ => .inl rfl

/-- What is still there was there before. -/
theorem SweptByPolicy.get (swept : SweptByPolicy env opts s0 s) {key : String} {d : Data}
    (found : s.objects.get key = some d) : s0.objects.get key = some d := by
  rcases swept key with same | ⟨gone, _⟩
  · rw [← same]
    exact found
  · rw [gone] at found
    cases found

/-- What is missing was never there, or policy names it. -/
theorem SweptByPolicy.missing (swept : SweptByPolicy env opts s0 s) {key : String}
    (missing : s.objects.get key = none) : s0.objects.get key = none ∨ NamedByPolicy env opts s0 key := by
  rcases swept key with same | ⟨_, named⟩
  · exact .inl (same.symm.trans missing)
  · exact .inr named

/-- Some keys may go. -/
theorem SweptByPolicy.remove (swept : SweptByPolicy env opts s0 s) {keys : List String}
    (allowed : ∀ key ∈ keys, s0.objects.get key = none ∨ NamedByPolicy env opts s0 key) :
    SweptByPolicy env opts s0 (s.remove keys) := by
  intro key
  simp only [Sys.remove, ObjectMap.get_eraseAll]
  split
  next member =>
    rcases allowed key member with absent | named
    · exact .inl absent.symm
    · exact .inr ⟨rfl, named⟩
  next => exact swept key

variable (env opts s0) in
/-- Whoever sweeps deletes only what policy names. -/
abbrev sweepRules : Rules ι (Sys ι) := .ofInvariant (SweptByPolicy env opts s0)

variable (env opts s0 i) in
/-- From any point on, the step deletes only what policy names, and what it returns
satisfies `Q`. -/
def Sweeps (Q : Except StoreError α → Prop) (h : Sweep α) : Prop :=
  ∀ s, Safe (sweepRules env opts s0) Faulty i (fun r _ => Q r) h.run s

namespace Sweeps

variable {Q : Except StoreError β → Prop}

theorem ret {r : Except StoreError β} (holds : Q r) : Sweeps env opts s0 i Q (ExceptT.mk (.ret r)) :=
  fun _ _ _ => holds

theorem bind {P : Except StoreError α → Prop} {h : Sweep α} {f : α → Sweep β}
    (first : Sweeps env opts s0 i P h) (failed : ∀ e, P (.error e) → Q (.error e))
    (rest : ∀ a, P (.ok a) → Sweeps env opts s0 i Q (f a)) : Sweeps env opts s0 i Q (h >>= f) := by
  intro s
  show Safe _ _ i _ (Prog.bind h.run (ExceptT.bindCont f)) s
  refine Safe.bind (first s) fun r t after => ?_
  cases r with
  | ok a => exact rest a after t
  | error e => exact fun _ _ => failed e after

theorem attempt {P : Except StoreError α → Prop} {h : Sweep α} (first : Sweeps env opts s0 i P h) :
    Sweeps env opts s0 i (fun r => ∃ r', r = .ok r' ∧ P r') (Sweep.attempt h) := by
  intro s
  refine Safe.bind (first s) fun r t after => ?_
  exact fun _ _ => ⟨r, rfl, after⟩

theorem orBackend {err : String} {o : Option α} {f : α → Sweep β}
    (failed : Q (.error (.backend err))) (rest : ∀ a, o = some a → Sweeps env opts s0 i Q (f a)) :
    Sweeps env opts s0 i Q (Sweep.orBackend err o >>= f) := by
  cases o with
  | none => exact fun _ _ _ => failed
  | some a => exact rest a rfl

theorem weaken {P : Except StoreError β → Prop} {h : Sweep β} (first : Sweeps env opts s0 i P h)
    (weaker : ∀ r, P r → Q r) : Sweeps env opts s0 i Q h :=
  fun s => (first s).weaken fun r _ after => weaker r after

/-- One request. -/
theorem store {o : Op} {f : Res o → Except StoreError β}
    (serves : ∀ s r t, SweptByPolicy env opts s0 s → Faulty i o s r t →
      SweptByPolicy env opts s0 t ∧ Q (f r)) :
    Sweeps env opts s0 i Q (ExceptT.mk (.op o fun r => .ret (f r))) := by
  intro s t _ swept r u served
  obtain ⟨kept, holds⟩ := serves t r u swept served
  exact ⟨kept, trivial, fun _ _ => holds⟩

theorem get (key : String) : Sweeps env opts s0 i
    (fun r => ∀ d, r = .ok d → s0.objects.get key = some d) (Sweep.store (ask (.getObject key))) := by
  refine store fun s r t swept served => ?_
  obtain ⟨rfl, found | ⟨_, _, _, fault⟩⟩ := served_getObject served
  · exact ⟨swept, fun d ok => swept.get (lookup_eq_ok.mp (found.symm.trans ok))⟩
  · refine ⟨swept, fun d ok => ?_⟩
    rw [fault] at ok
    cases ok

/-- A listed key lies under the prefix; an empty page means that nothing is left there. -/
theorem list (pre : String) {limit : Nat} (some_ : 0 < limit) (cursor : Option String) :
    Sweeps env opts s0 i (fun r => ∀ page, r = .ok page →
      (∀ key ∈ page.keys, startsWith key pre = true) ∧
      (cursor = none → page.keys = [] → ∀ key, startsWith key pre = true →
        s0.objects.get key = none ∨ NamedByPolicy env opts s0 key))
      (Sweep.store (ask (.listObjects pre limit cursor))) := by
  refine store fun s r t swept served => ?_
  obtain ⟨rfl, found | ⟨_, _, _, fault⟩⟩ := served_listObjects served
  · refine ⟨swept, fun page ok => ?_⟩
    rw [found] at ok
    cases ok
    refine ⟨fun key listed => (ObjectMap.mem_page _ _ _ _ _ listed).2, fun start empty key within => ?_⟩
    subst start
    refine swept.missing ?_
    by_contra present
    have fits : (t.objects.keysAfter (startsWith · pre) none).length ≤ limit := by
      by_contra many
      simp only [Sys.listing, ObjectMap.page, if_neg many, List.take_eq_nil_iff] at empty
      rcases empty with zero | none_
      · exact absurd zero (Nat.pos_iff_ne_zero.mp some_)
      · rw [none_] at many
        exact many (Nat.zero_le _)
    have listed := ObjectMap.page_complete t.objects (startsWith · pre) limit fits key
      (Option.ne_none_iff_exists'.mp present) within
    rw [show (t.objects.page (startsWith · pre) limit none).1 = [] from empty] at listed
    cases listed
  · refine ⟨swept, fun page ok => ?_⟩
    rw [fault] at ok
    cases ok

theorem delete {key : String}
    (allowed : s0.objects.get key = none ∨ NamedByPolicy env opts s0 key) :
    Sweeps env opts s0 i (fun _ => True) (Sweep.store (ask (.deleteObject key))) := by
  refine store fun s r t swept served => ⟨?_, trivial⟩
  have gone : SweptByPolicy env opts s0 (s.remove [key]) :=
    swept.remove fun k member => by rw [List.mem_singleton.mp member]; exact allowed
  rcases served_deleteObject served with ⟨_, rfl⟩ | ⟨_, rfl | rfl⟩
  · exact gone
  · exact gone
  · exact swept

theorem deleteAll {keys : List String}
    (allowed : ∀ key ∈ keys, s0.objects.get key = none ∨ NamedByPolicy env opts s0 key) :
    Sweeps env opts s0 i (fun _ => True) (Sweep.store (ask (.deleteObjects keys))) := by
  refine store fun s r t swept served => ⟨?_, trivial⟩
  rcases served_deleteObjects served with ⟨_, rfl⟩ | ⟨err, gone, _, _, rfl⟩
  · exact swept.remove allowed
  · exact swept.remove fun key member => allowed key (List.mem_filter.mp member).1

end Sweeps

/-! ### The verdict -/

/-- An inbox found empty was empty at the start, but for what policy names. -/
theorem prefixesEmpty_sweeps (prefixes : List String) : Sweeps env opts s0 i
    (fun r => r = .ok true → ∀ pre ∈ prefixes, ∀ key, startsWith key pre = true →
      s0.objects.get key = none ∨ NamedByPolicy env opts s0 key) (prefixesEmpty prefixes) := by
  induction prefixes with
  | nil => exact .ret fun _ _ member => by cases member
  | cons pre rest ih =>
    refine .bind (.list pre Nat.one_pos none) (fun e _ wrong => by cases wrong) fun page listed => ?_
    obtain ⟨_, nothing⟩ := listed page rfl
    split
    next => exact .ret fun wrong => by cases wrong
    next empty =>
      refine ih.weaken fun r holds ok pre' member => ?_
      rcases List.mem_cons.mp member with rfl | later
      · exact nothing rfl (not_not.mp empty)
      · exact holds ok pre' later

variable (env opts s0) in
/-- A match of `classify` is this profile, and a policy matches it. -/
def MatchOf (uid : String) (p : Profile) (r : Except StoreError (Option (Policy × Option Profile))) :
    Prop :=
  ∀ policy pr, r = .ok (some (policy, pr)) →
    policy ≠ .tombstone ∧ pr = some p ∧ Matched env opts s0 uid p

theorem classify_sweeps (uid : String) (p : Profile) :
    Sweeps env opts s0 i (MatchOf env opts s0 uid p) (classify env opts uid p) := by
  have inactive : Sweeps env opts s0 i (MatchOf env opts s0 uid p)
      (if isInactive env opts p then pure (some (.inactive, some p)) else pure none) := by
    split
    next silent =>
      refine .ret fun policy pr same => ?_
      cases same
      exact ⟨nofun, rfl, .inr silent⟩
    next => exact .ret fun policy pr same => nomatch same
  unfold classify
  dsimp only
  split
  next old =>
    refine Sweeps.bind (Q := MatchOf env opts s0 uid p) (prefixesEmpty_sweeps _)
      (fun e _ policy pr wrong => nomatch wrong) fun abandoned empty => ?_
    split
    next yes =>
      refine .ret fun policy pr same => ?_
      cases same
      exact ⟨nofun, rfl, .inl ⟨old.1, old.2, empty (by rw [yes])⟩⟩
    next => exact inactive
  next => exact inactive

/-- An account that is matched meets a policy: its inbox was empty at the start, or policy
names what was in it. -/
theorem Matched.meets {x : UserId} {p : Profile} (matched : Matched env opts s0 x.str p)
    (stored : profileOf x s0 = some p) : MeetsPolicy env opts s0 x := by
  rcases matched with ⟨unnamed, old, cleared⟩ | silent
  · by_cases empty : InboxEmpty x.str s0
    · exact ⟨p, stored, .inl ⟨unnamed, old, empty⟩⟩
    · simp only [InboxEmpty, not_forall] at empty
      obtain ⟨key, within, present⟩ := empty
      have inInbox (pre : String) (member : pre ∈ [prefixInboxLive x.str, prefixInboxArchive x.str])
          (inside : startsWith key pre = true) (root : startsWith pre (prefixInbox x.str) = true) :
          MeetsPolicy env opts s0 x := by
        rcases cleared pre member key inside with absent | named
        · exact absurd absent present
        · exact named.account x _ (by simp [ownedPrefixes]) (startsWith_trans inside root)
      have live : startsWith (prefixInboxLive x.str) (prefixInbox x.str) = true := by
        rw [show prefixInboxLive x.str = prefixInbox x.str ++ "live/" by
          simp only [prefixInboxLive, prefixInbox, String.append_assoc]; rfl]
        exact startsWith_append _ _
      have archive : startsWith (prefixInboxArchive x.str) (prefixInbox x.str) = true := by
        rw [show prefixInboxArchive x.str = prefixInbox x.str ++ "archive/" by
          simp only [prefixInboxArchive, prefixInbox, String.append_assoc]; rfl]
        exact startsWith_append _ _
      rcases within with inside | inside
      · exact inInbox _ (by simp) inside live
      · exact inInbox _ (by simp) inside archive
  · exact ⟨p, stored, .inr silent⟩

variable (env opts s0) in
/-- What a match allows to delete: the handle file of an expired tombstone, or an account that
meets a policy together with its handle. -/
def Deletable (handleKey : String) : Policy × Option Profile → Prop
  | (.tombstone, _) => ExpiredTombstone env opts s0 handleKey
  | (_, some p) => ∃ x : UserId, p.userId = x.str ∧ MeetsPolicy env opts s0 x ∧
      profileOf x s0 = some p ∧ (p.handle = "" ∨ MayGo env opts s0 x p.handle)
  | (_, none) => True

theorem evaluateUser_sweeps (agree : Agreeing env opts s0) {handleKey : String}
    (handle : startsWith handleKey "handles/" = true) : Sweeps env opts s0 i
    (fun r => ∀ found, r = .ok (some found) → Deletable env opts s0 handleKey found)
    (evaluateUser env opts handleKey) := by
  have error (e : StoreError) (found : Policy × Option Profile)
      (wrong : (.error e : Except StoreError (Option (Policy × Option Profile))) = .ok (some found)) :
      Deletable env opts s0 handleKey found := nomatch wrong
  unfold evaluateUser
  refine Sweeps.bind (.get handleKey) (fun e _ => error e) fun data read => ?_
  refine Sweeps.orBackend (error _) fun h parsed => ?_
  have projected : projectionAt s0 handleKey = some h := by
    rw [projectionAt, read data rfl, Option.bind_some, parsed]
  split
  -- without an owner it is a tombstone, which goes when its cooldown is over
  next unowned =>
    split
    next => exact .ret fun _ wrong => nomatch wrong
    next =>
      refine Sweeps.orBackend (error _) fun released stamp => ?_
      split
      next expired =>
        refine .ret fun found same => ?_
        cases same
        exact ⟨h, released, projected, unowned, stamp, expired⟩
      next => exact .ret fun _ wrong => nomatch wrong
  -- with an owner the profile decides
  next named =>
    refine Sweeps.bind (.attempt (.get (keyProfile h.userId))) (fun e _ => error e) fun found read => ?_
    obtain ⟨_, same, read⟩ := read
    cases same
    rcases found with (_ | err) | bytes
    · exact .ret fun _ wrong => nomatch wrong
    · exact .ret fun _ wrong => nomatch wrong
    · refine Sweeps.orBackend (error _) fun p parsed => ?_
      have stored : (s0.objects.get (keyProfile h.userId)).bind Profile.parse = some p := by
        rw [read bytes rfl, Option.bind_some, parsed]
      refine (classify_sweeps h.userId p).weaken fun r judged found same => ?_
      obtain ⟨policy, pr⟩ := found
      obtain ⟨account, rfl, matched⟩ := judged policy pr same
      -- the projection names the account whose handle it is
      obtain ⟨x, owner, mine, its⟩ := agree handleKey h p handle projected named stored matched
      rw [owner] at stored matched
      cases policy with
      | tombstone => exact absurd rfl account
      | abandoned => exact ⟨x, mine, matched.meets stored, stored, its⟩
      | inactive => exact ⟨x, mine, matched.meets stored, stored, its⟩

/-! ### The deletions -/

theorem wipePrefix_sweeps {pre : String}
    (allowed : ∀ key, startsWith key pre = true → NamedByPolicy env opts s0 key) (pages : Nat) :
    Sweeps env opts s0 i (fun _ => True) (wipePrefix pre pages) := by
  induction pages with
  | zero => exact .ret trivial
  | succ pages ih =>
    refine Sweeps.bind (.list pre (by decide) none) (fun _ _ => trivial) fun page listed => ?_
    split
    · exact .ret trivial
    · refine Sweeps.bind (.deleteAll fun key member => .inr (allowed key ((listed page rfl).1 key member)))
        (fun _ _ => trivial) fun _ _ => ?_
      split
      · exact .ret trivial
      · exact ih

theorem wipeAll_sweeps {prefixes : List String} (allowed : ∀ pre ∈ prefixes, ∀ key,
      startsWith key pre = true → NamedByPolicy env opts s0 key) (pages : Nat) :
    Sweeps env opts s0 i (fun _ => True) (wipeAll pages prefixes) := by
  induction prefixes with
  | nil => exact .ret trivial
  | cons pre rest ih =>
    refine Sweeps.bind (wipePrefix_sweeps (allowed pre List.mem_cons_self) pages) (fun _ _ => trivial)
      fun _ _ => ?_
    exact ih fun pre' member => allowed pre' (List.mem_cons_of_mem _ member)

/-- What lies under an owned prefix of an account that meets a policy. -/
theorem named_of_owned {x : UserId} (meets : MeetsPolicy env opts s0 x) {pre key : String}
    (owned : pre ∈ ownedPrefixes x.str) (within : startsWith key pre = true) :
    NamedByPolicy env opts s0 key where
  account _ _ ownedOther withinOther := owned_once owned ownedOther within withinOther ▸ meets
  handle handle same := by
    subst same
    exact absurd (keyHandle_within handle) (owned_not_handle owned within)

theorem named_of_handle {handle : String} (reason : ExpiredTombstone env opts s0 (keyHandle handle) ∨
      ∃ x, MeetsPolicy env opts s0 x ∧ HandleOf s0 x handle) :
    NamedByPolicy env opts s0 (keyHandle handle) where
  account _ _ owned within := absurd (keyHandle_within handle) (owned_not_handle owned within)
  handle _ same := keyHandle_inj same ▸ reason

theorem deleteUser_sweeps {x : UserId} {p : Profile} (mine : p.userId = x.str)
    (meets : MeetsPolicy env opts s0 x) (stored : profileOf x s0 = some p)
    (its : p.handle = "" ∨ MayGo env opts s0 x p.handle) (pages : Nat) :
    Sweeps env opts s0 i (fun _ => True) (deleteUser pages p) := by
  unfold deleteUser
  refine Sweeps.bind (wipeAll_sweeps (fun pre owned key within => ?_) pages) (fun _ _ => trivial)
    fun _ _ => ?_
  · rw [mine] at owned
    exact named_of_owned meets owned within
  · split
    next => exact .ret trivial
    next handled =>
      refine .delete ?_
      rcases its.resolve_left handled with ⟨h, projected, owner⟩ | expired | absent
      · exact .inr (named_of_handle (.inr ⟨x, meets, ⟨p, stored, rfl⟩, h, projected, owner⟩))
      · exact .inr (named_of_handle (.inl expired))
      · exact .inl absent

theorem deleteMatch_sweeps {handleKey : String} (handle : startsWith handleKey "handles/" = true)
    {found : Policy × Option Profile}
    (deletable : Deletable env opts s0 handleKey found) (pages : Nat) :
    Sweeps env opts s0 i (fun _ => True) (deleteMatch pages handleKey found) := by
  obtain ⟨policy, pr⟩ := found
  have account (p : Profile) (h : ∃ x : UserId, p.userId = x.str ∧ MeetsPolicy env opts s0 x ∧
      profileOf x s0 = some p ∧ (p.handle = "" ∨ MayGo env opts s0 x p.handle)) :
      Sweeps env opts s0 i (fun _ => True) (deleteUser pages p) := by
    obtain ⟨x, mine, meets, stored, its⟩ := h
    exact deleteUser_sweeps mine meets stored its pages
  cases policy with
  | tombstone =>
    refine .delete (.inr ⟨fun x pre owned within => ?_, fun _ _ => .inl deletable⟩)
    exact absurd handle (owned_not_handle owned within)
  | abandoned =>
    cases pr with
    | none => exact .ret trivial
    | some p => exact account p deletable
  | inactive =>
    cases pr with
    | none => exact .ret trivial
    | some p => exact account p deletable

/-! ### The loop over the handle files -/

theorem sweepHandle_sweeps (agree : Agreeing env opts s0) {handleKey : String}
    (handle : startsWith handleKey "handles/" = true) (pages : Nat) (res : CleanupResult) :
    Sweeps env opts s0 i (fun _ => True) (sweepHandle env opts pages res handleKey) := by
  unfold sweepHandle
  refine Sweeps.bind (.attempt (evaluateUser_sweeps agree handle)) (fun _ _ => trivial)
    fun evaluated judged => ?_
  obtain ⟨_, same, judged⟩ := judged
  cases same
  rcases evaluated with e | (_ | found)
  · exact .ret trivial
  · exact .ret trivial
  · dsimp only
    split
    · exact .ret trivial
    · refine Sweeps.bind (.attempt (deleteMatch_sweeps handle (judged found rfl) pages))
        (fun _ _ => trivial) fun deleted _ => ?_
      cases deleted <;> exact .ret trivial

theorem sweepPage_sweeps (agree : Agreeing env opts s0) {keys : List String}
    (handles : ∀ key ∈ keys, startsWith key "handles/" = true) (pages : Nat) (res : CleanupResult) :
    Sweeps env opts s0 i (fun _ => True) (sweepPage env opts pages keys res) := by
  induction keys generalizing res with
  | nil => exact .ret trivial
  | cons key rest ih =>
    unfold sweepPage
    dsimp only
    split
    · exact .ret trivial
    · refine Sweeps.bind (sweepHandle_sweeps agree (handles key List.mem_cons_self) pages _)
        (fun _ _ => trivial) fun res _ => ?_
      exact ih (fun k member => handles k (List.mem_cons_of_mem _ member)) res

theorem sweepHandles_sweeps (agree : Agreeing env opts s0) (pages rounds : Nat) (cursor : Option String)
    (res : CleanupResult) :
    Sweeps env opts s0 i (fun _ => True) (sweepHandles env opts pages rounds cursor res) := by
  induction rounds generalizing cursor res with
  | zero => exact .ret trivial
  | succ rounds ih =>
    unfold sweepHandles
    split
    · exact .ret trivial
    · refine Sweeps.bind (.list "handles/" (by decide) cursor) (fun _ _ => trivial) fun page listed => ?_
      refine Sweeps.bind (sweepPage_sweeps agree (listed page rfl).1 pages res) (fun _ _ => trivial)
        fun res _ => ?_
      cases page.nextCursor with
      | none => exact .ret trivial
      | some c => exact ih (some c) res

variable [DecidableEq ι]

variable (env opts) in
/-- Sweeps under the same options, any number of them at a time. -/
def sweeps (pages : Nat) : System ι Op Res (Except StoreError CleanupResult) (Sys ι) where
  prog _ := (runCleanup env pages opts).run
  exec := Faulty

theorem swept_by_policy (agree : Agreeing env opts s0) {pages : Nat}
    {w : World ι Op Res (Except StoreError CleanupResult) (Sys ι)}
    (reached : Reach (sweeps env opts pages) s0 w) : SweptByPolicy env opts s0 w.sys := by
  have contracts : Contracts (sweepRules env opts s0) (sweeps env opts pages) (fun _ _ => True)
      fun _ _ _ => True :=
    ⟨fun _ => .const True, fun i s _ _ => sweepHandles_sweeps agree pages pages none {} s⟩
  have start : Secured (sweepRules env opts s0) (sweeps env opts pages) (fun _ _ => True)
      (fun _ _ _ => True) (.init s0) := .init (.refl s0) fun _ => trivial
  exact (start.run contracts reached).1

end Sweeping

/-! ### A profile that names somebody else's account -/

section Decoy

open Sample

def sweepOpts : CleanupOpts := { inactiveDays := 365, batchSize := 10, dryRun := false, now := days 10 }

/-- Bob has a name, so he is no abandoned registration. -/
def namedBob : Profile := { bobProfile with displayName := "Bob" }

/-- The handle files of Alice and Bob, what she has uploaded as her profile, and his. -/
def sweptStore (alices : Profile) : ObjectMap String Data :=
  (((ObjectMap.empty.insert (keyHandle "bob") (handleProjection namedBob).data).insert
    (keyHandle "alice") (handleProjection profile).data).insert (keyProfile uid) alices.data).insert
      (keyProfile bobId.str) namedBob.data

def sweptSys (alices : Profile) : Sys Unit := { objects := sweptStore alices }

/-- An old profile without a name, under Bob's id. -/
def decoy : Profile := { profile with userId := bobId.str }

theorem bob_apart : keyProfile uid ≠ keyProfile bobId.str := by decide

theorem swept_handle (alices : Profile) :
    (sweptStore alices).get (keyHandle "alice") = some (handleProjection profile).data := by
  rw [sweptStore, ObjectMap.get_insert, if_neg (keyHandle_ne_profile _ _), ObjectMap.get_insert,
    if_neg (keyHandle_ne_profile _ _), ObjectMap.get_insert, if_pos rfl]

theorem swept_alice (alices : Profile) : (sweptStore alices).get (keyProfile uid) = some alices.data := by
  rw [sweptStore, ObjectMap.get_insert, if_neg bob_apart, ObjectMap.get_insert, if_pos rfl]

theorem swept_bob (alices : Profile) : profileOf bobId (sweptSys alices) = some namedBob := by
  have stored : (sweptStore alices).get (keyProfile bobId.str) = some namedBob.data := by
    rw [sweptStore, ObjectMap.get_insert, if_pos rfl]
  rw [profileOf, sweptSys, stored, Option.bind_some, Profile.parse_data]

/-- The sweep finds Alice's handle file, her profile and its empty inbox, and wipes Bob. -/
theorem wipe_observed : ((World.init (sweptSys decoy)).follow (fun i => serve (fun _ => true) i)
    (sweeps env sweepOpts 2).prog (List.replicate 8 ((), .ok))).map
      (fun w => (w.sys.objects.get (keyProfile bobId.str)).isNone) = some true := by
  decide

/-- An active account is wiped. -/
theorem active_account_swept : ∃ w, Reach (sweeps env sweepOpts 2) (sweptSys decoy) w ∧
    ¬ SweptByPolicy env sweepOpts (sweptSys decoy) w.sys := by
  obtain ⟨w, followed, gone⟩ := Option.map_eq_some_iff.mp wipe_observed
  refine ⟨w, steps_of_follow _ _ followed, fun swept => ?_⟩
  have gone : w.sys.objects.get (keyProfile bobId.str) = none := by simpa using gone
  rcases swept.missing gone with absent | named
  · have bob := swept_bob decoy
    rw [profileOf, absent] at bob
    cases bob
  · have within : startsWith (keyProfile bobId.str) (prefixUser bobId.str) = true := by
      rw [keyProfile_eq]
      exact startsWith_append _ _
    obtain ⟨p, stored, policy⟩ := named.account bobId (prefixUser bobId.str) (by simp [ownedPrefixes]) within
    rw [swept_bob] at stored
    cases stored
    rcases policy with ⟨unnamed, _⟩ | silent
    · exact absurd unnamed (by decide)
    · exact absurd silent (by decide)

theorem bobs_handle (alices : Profile) :
    (sweptStore alices).get (keyHandle "bob") = some (handleProjection namedBob).data := by
  rw [sweptStore, ObjectMap.get_insert, if_neg (keyHandle_ne_profile _ _), ObjectMap.get_insert,
    if_neg (keyHandle_ne_profile _ _), ObjectMap.get_insert, if_neg (by decide),
    ObjectMap.get_insert, if_pos rfl]

/-- The handle files are Alice's and Bob's. -/
theorem swept_projections {alices : Profile} {key : String} {h : PublicHandleData}
    (handle : startsWith key "handles/" = true) (projected : projectionAt (sweptSys alices) key = some h) :
    (key = keyHandle "alice" ∧ h = handleProjection profile) ∨
      (key = keyHandle "bob" ∧ h = handleProjection namedBob) := by
  have elsewhere (uid : String) : key ≠ keyProfile uid := by
    rintro rfl
    exact owned_not_handle (show prefixUser uid ∈ ownedPrefixes uid by simp [ownedPrefixes])
      (by rw [keyProfile_eq]; exact startsWith_append _ _) handle
  by_cases alice : key = keyHandle "alice"
  · subst alice
    rw [projectionAt, sweptSys, swept_handle, Option.bind_some, PublicHandleData.parse_data] at projected
    exact .inl ⟨rfl, (Option.some.inj projected).symm⟩
  · by_cases bob : key = keyHandle "bob"
    · subst bob
      rw [projectionAt, sweptSys, bobs_handle, Option.bind_some, PublicHandleData.parse_data] at projected
      exact .inr ⟨rfl, (Option.some.inj projected).symm⟩
    · rw [projectionAt, sweptSys, sweptStore, ObjectMap.get_insert, if_neg (elsewhere _),
        ObjectMap.get_insert, if_neg (elsewhere _), ObjectMap.get_insert, if_neg alice,
        ObjectMap.get_insert, if_neg bob] at projected
      cases projected

theorem swept_agreeing : Agreeing env sweepOpts (sweptSys profile) := by
  intro key h p handle projected named stored _
  rcases swept_projections handle projected with ⟨rfl, rfl⟩ | ⟨rfl, rfl⟩
  · have its : p = profile := by
      rw [sweptSys, show (handleProjection profile).userId = uid from rfl, swept_alice, Option.bind_some,
        Profile.parse_data] at stored
      exact (Option.some.inj stored).symm
    subst its
    exact ⟨user, rfl, rfl, .inr (.inl ⟨_, projected, rfl⟩)⟩
  · have its : profileOf bobId (sweptSys profile) = some p := stored
    rw [swept_bob] at its
    cases its
    exact ⟨bobId, rfl, rfl, .inr (.inl ⟨_, projected, rfl⟩)⟩

theorem honest_wipe : ((World.init (sweptSys profile)).follow (fun i => serve (fun _ => true) i)
    (sweeps env sweepOpts 2).prog (List.replicate 8 ((), .ok))).map
      (fun w => (w.sys.objects.get (keyProfile uid)).isNone) = some true := by
  decide

/-- With Alice's own profile in its place, the sweep takes Alice's matter only. -/
theorem honest_swept : ∃ w, Reach (sweeps env sweepOpts 2) (sweptSys profile) w ∧
    w.sys.objects.get (keyProfile uid) = none ∧
    SweptByPolicy env sweepOpts (sweptSys profile) w.sys := by
  obtain ⟨w, followed, gone⟩ := Option.map_eq_some_iff.mp honest_wipe
  have reached := steps_of_follow _ _ followed
  exact ⟨w, reached, by simpa using gone, swept_by_policy swept_agreeing reached⟩

end Decoy

end Atmin
