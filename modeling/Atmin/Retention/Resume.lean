import Atmin.Retention.Verdict

/-!
# Resuming an interrupted sweep

A sweep may fail at any request. What it leaves of an expired account is found again by the next
sweep through the handle file, and judged by the profile; but the wipe starts with the prefix
that holds the profile. An account whose profile is gone and whose handle file is left is taken
for a dangling handle and kept.
-/

namespace Atmin

open Interaction

section Resume

variable {ι : Type} {s t u : Sys ι} {env : Env} {opts : CleanupOpts}
  {exec : (o : Op) → Sys ι → Res o → Sys ι → Prop} {fails : Prop}

/-! ### What a sweep takes away -/

/-- Nothing but some of these keys is gone, and nothing is written. -/
def Shrunk (among : String → Prop) (s t : Sys ι) : Prop :=
  ∀ key, t.objects.get key = s.objects.get key ∨ (among key ∧ t.objects.get key = none)

namespace Shrunk

variable {among wider : String → Prop}

theorem refl (s : Sys ι) : Shrunk among s s := fun _ => .inl rfl

theorem trans (first : Shrunk among s t) (last : Shrunk among t u) : Shrunk among s u := by
  intro key
  rcases last key with same | gone
  · rw [same]
    exact first key
  · exact .inr gone

theorem mono (shrunk : Shrunk among s t) (wide : ∀ key, among key → wider key) : Shrunk wider s t :=
  fun key => (shrunk key).imp_right fun gone => ⟨wide key gone.1, gone.2⟩

theorem remove {keys : List String} (inside : ∀ key ∈ keys, among key) : Shrunk among s (s.remove keys) := by
  intro key
  rw [Sys.remove, ObjectMap.get_eraseAll]
  split
  next member => exact .inr ⟨inside key member, rfl⟩
  next => exact .inl rfl

/-- What is there was there. -/
theorem get (shrunk : Shrunk among s t) {key : String} {d : Data}
    (here : t.objects.get key = some d) : s.objects.get key = some d := by
  rcases shrunk key with same | ⟨_, gone⟩
  · rw [← same]
    exact here
  · rw [gone] at here
    cases here

theorem absent (shrunk : Shrunk among s t) {key : String} (gone : s.objects.get key = none) :
    t.objects.get key = none := by
  cases here : t.objects.get key with
  | none => rfl
  | some d => rw [shrunk.get here] at gone; cases gone

theorem wiped (shrunk : Shrunk among s t) {pre : String} (wiped : Wiped s pre) : Wiped t pre :=
  fun key within => shrunk.absent (wiped key within)

theorem kept (shrunk : Shrunk among s t) {key : String} (outside : ¬ among key) :
    t.objects.get key = s.objects.get key :=
  (shrunk key).resolve_right fun gone => outside gone.1

/-- A listing only gets shorter. -/
theorem relisted (shrunk : Shrunk among s t) {within : String → Bool} {cursor : Option String} {key : String}
    (listed : key ∈ t.objects.keysAfter within cursor) : key ∈ s.objects.keysAfter within cursor := by
  obtain ⟨⟨d, here⟩, rest⟩ := (ObjectMap.mem_keysAfter _ _ _ key).mp listed
  exact (ObjectMap.mem_keysAfter _ _ _ key).mpr ⟨⟨d, shrunk.get here⟩, rest⟩

theorem fewer (shrunk : Shrunk among s t) (within : String → Bool) (cursor : Option String) :
    (t.objects.keysAfter within cursor).length ≤ (s.objects.keysAfter within cursor).length :=
  (List.subperm_of_subset (t.objects.keysAfter_nodup _ _) fun _ listed => shrunk.relisted listed).length_le

end Shrunk

/-- Storage that deletes what it is told to, or part of it where it reports an error. -/
structure Deletes (exec : (o : Op) → Sys ι → Res o → Sys ι → Prop) : Prop where
  one : ∀ {key s r t}, exec (.deleteObject key) s r t →
    (t = s ∨ t = s.remove [key]) ∧ (r = .ok () → t = s.remove [key])
  many : ∀ {keys s r t}, exec (.deleteObjects keys) s r t →
    (∃ gone, (∀ key ∈ gone, key ∈ keys) ∧ t = s.remove gone) ∧ (r = .ok () → t = s.remove keys)

theorem alone_deletes (limit : Option Nat) (m : Moment) (i : ι) : Deletes (Alone limit m i) where
  one served := by
    rcases served_deleteObject (alone_healthy served nofun nofun nofun) with ⟨_, gone⟩ | ⟨fault, _⟩
    · exact ⟨.inr gone, fun _ => gone⟩
    · exact absurd fault not_faulted_healthy
  many {keys s r t} served := by
    rcases alone_deleteObjects served with ⟨_, _, gone⟩ | ⟨_, failed, same⟩
    · exact ⟨⟨keys, fun _ member => member, gone⟩, fun _ => gone⟩
    · refine ⟨⟨[], nofun, ?_⟩, fun ok => ?_⟩
      · rw [same, Sys.remove, eraseAll_nil]
      · rw [failed] at ok
        cases ok

theorem faulty_deletes (i : ι) : Deletes (Faulty i) where
  one served := by
    rcases served_deleteObject served with ⟨_, gone⟩ | ⟨⟨_, _, _, failed⟩, gone | same⟩
    · exact ⟨.inr gone, fun _ => gone⟩
    · exact ⟨.inr gone, fun _ => gone⟩
    · refine ⟨.inl same, fun ok => ?_⟩
      rw [failed] at ok
      cases ok
  many {keys s r t} served := by
    rcases served_deleteObjects served with ⟨_, gone⟩ | ⟨_, some_, _, failed, gone⟩
    · exact ⟨⟨keys, fun _ member => member, gone⟩, fun _ => gone⟩
    · refine ⟨⟨_, fun key member => (List.mem_filter.mp member).1, gone⟩, fun ok => ?_⟩
      rw [failed] at ok
      cases ok

theorem wipePrefix_shrinks (reads : Reads exec fails) (deletes : Deletes exec) (pre : String)
    (pages : Nat) :
    Interaction.Ends exec (wipePrefix pre pages).run t fun r u =>
      Shrunk (startsWith · pre) t u ∧ (r = .ok () → Wiped u pre) := by
  induction pages generalizing t with
  | zero => exact .ret ⟨.refl t, fun wrong => nomatch wrong⟩
  | succ pages ih =>
    refine Sweep.andThen (Answers.list reads pre WIPE_PAGE_SIZE none) ?_ ?_
    · rintro e _ ⟨rfl, _⟩
      exact ⟨.refl _, fun wrong => nomatch wrong⟩
    rintro page t ⟨rfl, found | ⟨_, _, wrong⟩⟩
    case inr => cases wrong
    cases found
    have listed : (t.listing pre WIPE_PAGE_SIZE none).keys = (keysUnder t pre).take 1000 :=
      ObjectMap.page_take _ _ _ _
    rw [listed]
    split
    next empty =>
      exact .ret ⟨.refl t, fun _ => wiped_iff.mpr (by simpa using empty)⟩
    next =>
      -- only what was listed is deleted, and it was listed under the prefix
      have inside {key : String} (member : key ∈ (keysUnder t pre).take 1000) : startsWith key pre = true :=
        ((ObjectMap.mem_keysAfter _ _ _ key).mp (List.mem_of_mem_take member)).2.1
      refine Sweep.andThen (P := fun r u => Shrunk (startsWith · pre) t u ∧
        (r = .ok () → u = t.remove ((keysUnder t pre).take 1000)))
        (.op fun r u served => .ret ?_) ?_ fun _ u ⟨shrunk, gone⟩ => ?_
      · obtain ⟨⟨gone, part, same⟩, all⟩ := deletes.many served
        refine ⟨?_, all⟩
        rw [same]
        exact .remove fun key member => inside (part key member)
      · exact fun e u ⟨shrunk, _⟩ => ⟨shrunk, fun wrong => nomatch wrong⟩
      split
      -- a short page is the last one
      next short =>
        refine .ret ⟨shrunk, fun _ => wiped_iff.mpr ?_⟩
        have left : keysUnder (t.remove (t.listing pre WIPE_PAGE_SIZE none).keys) pre =
            (keysUnder t pre).drop 1000 := ObjectMap.keysAfter_erasePage t.objects _ 1000
        rw [gone rfl, ← listed, left, List.drop_eq_nil_iff]
        rw [List.length_take, WIPE_PAGE_SIZE_eq] at short
        omega
      next => exact ih.weaken fun r v ⟨rest, all⟩ => ⟨shrunk.trans rest, all⟩

theorem wipeAll_shrinks (reads : Reads exec fails) (deletes : Deletes exec) (prefixes : List String)
    (pages : Nat) :
    Interaction.Ends exec (wipeAll pages prefixes).run t fun r u =>
      Shrunk (fun key => ∃ pre ∈ prefixes, startsWith key pre = true) t u ∧
        (r = .ok () → ∀ pre ∈ prefixes, Wiped u pre) := by
  induction prefixes generalizing t with
  | nil => exact .ret ⟨.refl t, nofun⟩
  | cons pre rest ih =>
    have first {u : Sys ι} (shrunk : Shrunk (startsWith · pre) t u) :
        Shrunk (fun key => ∃ q ∈ pre :: rest, startsWith key q = true) t u :=
      shrunk.mono fun key within => ⟨pre, by simp, within⟩
    refine Sweep.andThen (wipePrefix_shrinks reads deletes pre pages) ?_ fun _ u ⟨shrunk, wiped⟩ => ?_
    · exact fun e u ⟨shrunk, _⟩ => ⟨first shrunk, fun wrong => nomatch wrong⟩
    · refine ih.weaken fun r v ⟨later, all⟩ => ⟨?_, fun ok q member => ?_⟩
      · refine (first shrunk).trans (later.mono fun key ⟨q, member, within⟩ => ?_)
        exact ⟨q, by simp [member], within⟩
      · rcases List.mem_cons.mp member with rfl | member
        · exact later.wiped (wiped rfl)
        · exact all ok q member

/-- The handle file goes last. -/
theorem deleteUser_shrinks (reads : Reads exec fails) (deletes : Deletes exec) (q : Profile) (pages : Nat) :
    Interaction.Ends exec (deleteUser pages q).run t fun _ u => Shrunk (GoesWith q) t u ∧
      (u.objects.get (keyHandle q.handle) = t.objects.get (keyHandle q.handle) ∨
        ∀ pre ∈ ownedPrefixes q.userId, Wiped u pre) := by
  have owned {u : Sys ι} (shrunk : Shrunk (fun key => ∃ pre ∈ ownedPrefixes q.userId,
      startsWith key pre = true) t u) : Shrunk (GoesWith q) t u ∧
        u.objects.get (keyHandle q.handle) = t.objects.get (keyHandle q.handle) :=
    ⟨shrunk.mono fun key within => .inl within, shrunk.kept fun ⟨pre, member, within⟩ =>
      owned_not_handle member within (keyHandle_within q.handle)⟩
  refine Sweep.andThen (wipeAll_shrinks reads deletes (ownedPrefixes q.userId) pages) ?_
    fun _ u ⟨shrunk, wiped⟩ => ?_
  · exact fun e u ⟨shrunk, _⟩ => ⟨(owned shrunk).1, .inl (owned shrunk).2⟩
  · split
    next => exact .ret ⟨(owned shrunk).1, .inl (owned shrunk).2⟩
    next named =>
      refine .op fun r v served => .ret ?_
      have last : Shrunk (GoesWith q) u v := by
        rcases (deletes.one served).1 with rfl | rfl
        · exact .refl _
        · refine .remove fun key member => ?_
          exact .inr ⟨named, List.mem_singleton.mp member⟩
      exact ⟨(owned shrunk).1.trans last, .inr fun pre member => last.wiped (wiped rfl pre member)⟩

/-- What sweeping one handle file does to the store. -/
inductive Swept (key : String) (t u : Sys ι) : Prop
  | nothing (same : u = t)
  | tombstone (h : PublicHandleData) (projected : projectionAt t key = some h) (unowned : h.userId = "")
    (shrunk : Shrunk (· = key) t u)
  | account (h : PublicHandleData) (q : Profile) (projected : projectionAt t key = some h)
    (named : h.userId ≠ "")
    (stored : (t.objects.get (keyProfile h.userId)).bind Profile.parse = some q)
    (shrunk : Shrunk (GoesWith q) t u)
    (last : u.objects.get (keyHandle q.handle) = t.objects.get (keyHandle q.handle) ∨
      ∀ pre ∈ ownedPrefixes q.userId, Wiped u pre)

theorem Swept.shrunk {key : String} (swept : Swept key t u) : Shrunk (fun _ => True) t u := by
  rcases swept with rfl | ⟨_, _, _, shrunk⟩ | ⟨_, _, _, _, _, shrunk, _⟩
  · exact .refl u
  · exact shrunk.mono fun _ _ => trivial
  · exact shrunk.mono fun _ _ => trivial

theorem sweepHandle_swept (reads : Reads exec fails) (deletes : Deletes exec) (pages : Nat)
    (res : CleanupResult) (key : String) :
    Interaction.Ends exec (sweepHandle env opts pages res key).run t fun r u =>
      (∃ res', r = .ok res' ∧ res'.deleted ≤ res.deleted + 1) ∧ Swept key t u := by
  unfold sweepHandle
  have evaluated : Interaction.Ends exec (evaluateUser env opts key).run t fun r u =>
      u = t ∧ (r = verdict env opts t.objects key ∨ fails ∧ ∃ e, r = .error e) :=
    evaluateUser_reads reads env opts key
  refine Sweep.andThen (Sweep.attempted evaluated) (fun _ _ wrong => nomatch wrong) ?_
  rintro judged t ⟨_, ⟨⟩, rfl, answer⟩
  rcases judged with e | (_ | ⟨policy, pr⟩)
  · exact .ret ⟨⟨_, rfl, Nat.le_succ _⟩, .nothing rfl⟩
  · exact .ret ⟨⟨_, rfl, Nat.le_succ _⟩, .nothing rfl⟩
  -- a failed read judges nothing; else the verdict is the one on the store
  have decided : verdict env opts t.objects key = .ok (some (policy, pr)) :=
    (answer.resolve_right fun ⟨_, _, wrong⟩ => nomatch wrong).symm
  dsimp only
  split
  next => exact .ret ⟨⟨_, rfl, by rw [count_deleted]⟩, .nothing rfl⟩
  next =>
    have swept : Interaction.Ends exec (deleteMatch pages key (policy, pr)).run t fun _ u => Swept key t u := by
      -- a tombstone is one object, an account all that is its own
      rcases verdict_some decided with
        ⟨h, projected, unowned, rfl, rfl⟩ | ⟨h, q, projected, named, stored, rfl, other⟩
      · refine .op fun r u served => .ret (.tombstone h projected unowned ?_)
        rcases (deletes.one served).1 with rfl | rfl
        · exact .refl _
        · exact .remove fun k member => List.mem_singleton.mp member
      · have its : deleteMatch pages key (policy, some q) = deleteUser pages q := by
          cases policy with
          | tombstone => exact absurd rfl other
          | abandoned => rfl
          | inactive => rfl
        rw [its]
        exact (deleteUser_shrinks reads deletes q pages).weaken fun _ u ⟨shrunk, last⟩ =>
          .account h q projected named stored shrunk last
    refine Sweep.andThen (Sweep.attempted swept) (fun _ _ wrong => nomatch wrong) ?_
    rintro deleted u ⟨_, ⟨⟩, swept⟩
    cases deleted with
    | error e => exact .ret ⟨⟨_, rfl, by simp [count_deleted]⟩, swept⟩
    | ok _ => exact .ret ⟨⟨_, rfl, by simp [count_deleted]⟩, swept⟩

/-- What every handle file keeps that is swept, a whole sweep keeps. -/
theorem sweepPage_keeps {K : Sys ι → Prop} (reads : Reads exec fails) (deletes : Deletes exec)
    (step : ∀ {t u key}, startsWith key "handles/" = true → K t → Swept key t u → K u) (pages : Nat)
    {keys : List String} (handles : ∀ key ∈ keys, startsWith key "handles/" = true) (res : CleanupResult)
    (start : K t) :
    Interaction.Ends exec (sweepPage env opts pages keys res).run t fun _ u => K u := by
  induction keys generalizing t res with
  | nil => exact .ret start
  | cons key rest ih =>
    unfold sweepPage
    dsimp only
    split
    next => exact .ret start
    next =>
      refine Sweep.andThen (sweepHandle_swept reads deletes pages _ key) ?_ ?_
      · rintro _ u ⟨⟨_, wrong, _⟩, _⟩
        cases wrong
      · rintro res u ⟨_, swept⟩
        exact ih (fun k member => handles k (by simp [member])) res (step (handles key (by simp)) start swept)

theorem sweepHandles_keeps {K : Sys ι → Prop} (reads : Reads exec fails) (deletes : Deletes exec)
    (step : ∀ {t u key}, startsWith key "handles/" = true → K t → Swept key t u → K u)
    (pages rounds : Nat) (cursor : Option String) (res : CleanupResult) (start : K t) :
    Interaction.Ends exec (sweepHandles env opts pages rounds cursor res).run t fun _ u => K u := by
  induction rounds generalizing t cursor res with
  | zero => exact .ret start
  | succ rounds ih =>
    unfold sweepHandles
    split
    next => exact .ret start
    next =>
      refine Sweep.andThen (Answers.list reads "handles/" HANDLES_PAGE_SIZE cursor) ?_ ?_
      · rintro e _ ⟨rfl, _⟩
        exact start
      rintro page t ⟨rfl, found | ⟨_, _, wrong⟩⟩
      case inr => cases wrong
      cases found
      have page : Interaction.Ends exec (sweepPage env opts pages
          (t.listing "handles/" HANDLES_PAGE_SIZE cursor).keys res).run t fun _ u => K u :=
        sweepPage_keeps reads deletes step pages (fun key member => (ObjectMap.mem_page _ _ _ _ key member).2)
          res start
      refine Sweep.andThen page (fun _ _ kept => kept) fun res u kept => ?_
      split
      next c _ => exact ih (some c) res kept
      next => exact .ret kept

/-! ### One account -/

/-- The account and its handle file belong to each other, and to nobody else: no other handle file
leads to a profile with this id or this handle. -/
structure Paired (s : Sys ι) (x : UserId) (p : Profile) : Prop where
  stored : profileOf x s = some p
  mine : p.userId = x.str
  named : p.handle ≠ ""
  file : ∃ h, projectionAt s (keyHandle p.handle) = some h ∧ h.userId = x.str
  alone : ∀ key h q, startsWith key "handles/" = true → key ≠ keyHandle p.handle →
    projectionAt s key = some h → h.userId ≠ "" →
    (s.objects.get (keyProfile h.userId)).bind Profile.parse = some q →
      q.userId ≠ x.str ∧ q.handle ≠ p.handle

/-- A slash ends the only part of a path before it. -/
theorem eq_of_slash {a b c rest : List Char} (same : a ++ '/' :: rest = b ++ '/' :: c)
    (left : '/' ∉ b) (right : '/' ∉ c) : a = b := by
  rcases List.append_eq_append_iff.mp same with ⟨tail, rfl, later⟩ | ⟨tail, rfl, later⟩
  · cases tail with
    | nil => simp
    | cons d ds =>
      cases later
      simp at left
  · cases tail with
    | nil => simp
    | cons d ds =>
      cases later
      simp at right

/-- Only the account's own prefixes hold its profile. -/
theorem profile_owner {x : UserId} {uid pre : String} (owned : pre ∈ ownedPrefixes uid)
    (within : startsWith (keyProfile x.str) pre = true) : uid = x.str := by
  obtain ⟨root, member, rfl⟩ := owned_root owned
  simp only [startsWith, List.isPrefixOf_iff_prefix, String.toList_append] at within
  obtain ⟨rest, split⟩ := within
  have users : root = "users/" := by
    have heads := congrArg List.head? split
    simp only [List.mem_cons, List.not_mem_nil, or_false] at member
    rcases member with rfl | rfl | rfl | rfl
    · rfl
    all_goals simp [keyProfile] at heads
  subst users
  simp only [keyProfile, String.toList_append, List.append_assoc] at split
  have tails : uid.toList ++ '/' :: rest = x.str.toList ++ '/' :: "profile.json".toList := by
    simpa using List.append_cancel_left split
  exact String.toList_inj.mp (eq_of_slash tails (validateUlid_no_slash x.ulid) (by decide))

section Account

variable {x : UserId} {p : Profile}

theorem Shrunk.bind_get {among : String → Prop} {α : Type} {f : Data → Option α} {a : α} {key : String}
    (shrunk : Shrunk among s t) (found : (t.objects.get key).bind f = some a) :
    (s.objects.get key).bind f = some a := by
  obtain ⟨d, here, its⟩ := Option.bind_eq_some_iff.mp found
  exact Option.bind_eq_some_iff.mpr ⟨d, shrunk.get here, its⟩

theorem UserId.str_ne (x : UserId) : x.str ≠ "" := by
  intro empty
  have size := validateUlid_length x.ulid
  rw [empty] at size
  cases size

/-- The handle file goes only with the profile in place, and once all else is gone. -/
theorem Swept.handle_cases (paired : Paired s x p) (shrunk : Shrunk (fun _ => True) s t) {key : String}
    (within : startsWith key "handles/" = true) (swept : Swept key t u) :
    u.objects.get (keyHandle p.handle) = t.objects.get (keyHandle p.handle) ∨
      (profileOf x t = some p ∧ ∀ pre ∈ ownedPrefixes x.str, Wiped u pre) := by
  obtain ⟨file, its, owner⟩ := paired.file
  rcases swept with rfl | ⟨h, projected, unowned, gone⟩ | ⟨h, q, projected, named, stored, gone, last⟩
  · exact .inl rfl
  · refine .inl (gone.kept ?_)
    rintro rfl
    cases its.symm.trans (shrunk.bind_get projected)
    exact x.str_ne (owner.symm.trans unowned)
  · by_cases own : key = keyHandle p.handle
    · subst own
      cases its.symm.trans (shrunk.bind_get projected)
      rw [owner] at stored
      cases paired.stored.symm.trans (shrunk.bind_get stored)
      rw [paired.mine] at last
      exact last.imp_right fun wiped => ⟨stored, wiped⟩
    · obtain ⟨_, apart⟩ := paired.alone key h q within own (shrunk.bind_get projected) named
        (shrunk.bind_get stored)
      refine .inl (gone.kept ?_)
      rintro (⟨pre, owned, under⟩ | ⟨_, same⟩)
      · exact owned_not_handle owned under (keyHandle_within p.handle)
      · exact apart (keyHandle_inj same).symm

/-- Other handle files leave the profile where it is. -/
theorem Swept.profile_kept (paired : Paired s x p) (shrunk : Shrunk (fun _ => True) s t) {key : String}
    (within : startsWith key "handles/" = true) (other : key ≠ keyHandle p.handle) (swept : Swept key t u) :
    u.objects.get (keyProfile x.str) = t.objects.get (keyProfile x.str) := by
  rcases swept with rfl | ⟨h, projected, unowned, gone⟩ | ⟨h, q, projected, named, stored, gone, last⟩
  · rfl
  · refine gone.kept ?_
    rintro rfl
    exact owned_not_handle (show prefixUser x.str ∈ ownedPrefixes x.str by simp [ownedPrefixes])
      (by rw [keyProfile_eq]; exact startsWith_append _ _) within
  · obtain ⟨apart, _⟩ := paired.alone key h q within other (shrunk.bind_get projected) named
      (shrunk.bind_get stored)
    refine gone.kept ?_
    rintro (⟨pre, owned, under⟩ | ⟨_, same⟩)
    · exact apart (profile_owner owned under)
    · exact keyHandle_ne_profile _ _ same.symm

/-- Objects went, and the handle file was the last. -/
structure Resumable (s : Sys ι) (x : UserId) (p : Profile) (t : Sys ι) : Prop where
  shrunk : Shrunk (fun _ => True) s t
  last : t.objects.get (keyHandle p.handle) = none → ∀ pre ∈ ownedPrefixes x.str, Wiped t pre

theorem Paired.resumable (paired : Paired s x p) : Resumable s x p s where
  shrunk := .refl s
  last gone := by
    obtain ⟨h, its, _⟩ := paired.file
    rw [projectionAt, gone] at its
    cases its

theorem Resumable.step (paired : Paired s x p) {key : String} (within : startsWith key "handles/" = true)
    (resumable : Resumable s x p t) (swept : Swept key t u) : Resumable s x p u where
  shrunk := resumable.shrunk.trans swept.shrunk
  last gone := by
    rcases swept.handle_cases paired resumable.shrunk within with same | ⟨_, wiped⟩
    · exact fun pre owned => swept.shrunk.wiped (resumable.last (same.symm.trans gone) pre owned)
    · exact wiped

/-- Wherever the sweep stops, the handle file is not gone before all else is. -/
theorem interrupted_resumable (paired : Paired s x p) (reads : Reads exec fails) (deletes : Deletes exec)
    (pages : Nat) (resumable : Resumable s x p t) :
    Interaction.Ends exec (runCleanup env pages opts).run t fun _ u => Resumable s x p u :=
  sweepHandles_keeps reads deletes (fun within resumable swept => resumable.step paired within swept)
    pages pages none {} resumable

/-- Nothing of the account is left. -/
def Vanished (x : UserId) (p : Profile) (s : Sys ι) : Prop :=
  (∀ pre ∈ ownedPrefixes x.str, Wiped s pre) ∧ s.objects.get (keyHandle p.handle) = none

/-- A handle file that leads to no profile stays. -/
theorem dangling_kept (paired : Paired s x p) (reads : Reads exec fails) (deletes : Deletes exec)
    (pages : Nat) (resumable : Resumable s x p t) {d : Data}
    (left : t.objects.get (keyHandle p.handle) = some d) (lost : t.objects.get (keyProfile x.str) = none) :
    Interaction.Ends exec (runCleanup env pages opts).run t fun _ u =>
      u.objects.get (keyHandle p.handle) = some d := by
  have kept : Interaction.Ends exec (runCleanup env pages opts).run t fun _ u =>
      (Resumable s x p u ∧ u.objects.get (keyProfile x.str) = none) ∧
        u.objects.get (keyHandle p.handle) = some d := by
    refine sweepHandles_keeps reads deletes ?_ pages pages none {} ⟨⟨resumable, lost⟩, left⟩
    rintro t u key within ⟨⟨resumable, lost⟩, left⟩ swept
    refine ⟨⟨resumable.step paired within swept, swept.shrunk.absent lost⟩, ?_⟩
    rcases swept.handle_cases paired resumable.shrunk within with same | ⟨stored, _⟩
    · exact same.trans left
    · rw [profileOf, lost] at stored
      cases stored
  exact kept.weaken fun _ _ after => after.2

/-! ### The next sweep -/

variable {limit : Option Nat} {m : Moment} {i : ι} {later : CleanupOpts}

/-- The handle file and the profile are as they were. -/
structure Whole (s : Sys ι) (x : UserId) (p : Profile) (t : Sys ι) : Prop where
  file : t.objects.get (keyHandle p.handle) = s.objects.get (keyHandle p.handle)
  profile : t.objects.get (keyProfile x.str) = s.objects.get (keyProfile x.str)

theorem olderThan_later {now now' span : Int} {stamp : String} (after : now ≤ now')
    (old : olderThan env now span stamp = true) : olderThan env now' span stamp = true := by
  unfold olderThan at old ⊢
  rw [Option.any_eq_true] at old ⊢
  obtain ⟨instant, parsed, passed⟩ := old
  refine ⟨instant, parsed, ?_⟩
  rw [decide_eq_true_eq] at passed ⊢
  omega

theorem noneUnder_iff {objects : ObjectMap String Data} {prefixes : List String} :
    noneUnder objects prefixes = true ↔
      ∀ pre ∈ prefixes, ∀ key, startsWith key pre = true → objects.get key = none := by
  simp only [noneUnder, List.all_eq_true, List.isEmpty_iff, ObjectMap.keysAfter_nil_iff]

/-- An expired account stays expired. -/
theorem retention_later (expired : MeetsPolicy env opts s x) (stored : profileOf x s = some p)
    (shrunk : Shrunk (fun _ => True) s t) (after : opts.now ≤ later.now)
    (days_ : later.inactiveDays = opts.inactiveDays) :
    ∃ policy, policy ≠ .tombstone ∧ retention env later t.objects x.str p = some (policy, some p) := by
  obtain ⟨q, its, policy⟩ := expired
  cases stored.symm.trans its
  unfold retention
  split
  next => exact ⟨.abandoned, nofun, rfl⟩
  next young =>
    have silent : isInactive env later p = true := by
      rcases policy with ⟨unnamed, old, empty⟩ | silent
      · refine absurd ?_ young
        have none_ : noneUnder t.objects [prefixInboxLive x.str, prefixInboxArchive x.str] = true := by
          refine noneUnder_iff.mpr fun pre member key within => shrunk.absent (empty key ?_)
          simp only [List.mem_cons, List.not_mem_nil, or_false] at member
          rcases member with rfl | rfl
          · exact .inl within
          · exact .inr within
        rw [decide_eq_true unnamed, olderThan_later after old, none_]
        rfl
      · unfold isInactive at silent ⊢
        rw [Bool.and_eq_true] at silent ⊢
        rw [days_]
        exact ⟨silent.1, olderThan_later after silent.2⟩
    rw [if_pos silent]
    exact ⟨.inactive, nofun, rfl⟩

/-- A handle file that leads to an expired profile is matched, and goes. -/
theorem sweepHandle_clears (takes : TakesPage limit) (paired : Paired s x p)
    (expired : MeetsPolicy env opts s x) (after : opts.now ≤ later.now)
    (days_ : later.inactiveDays = opts.inactiveDays) (applies : later.dryRun = false)
    (resumable : Resumable s x p t) (whole : Whole s x p t) {pages : Nat}
    (enough : ∀ pre, (keysUnder t pre).length < 1000 * pages) (res : CleanupResult) :
    Interaction.Ends (Alone limit m i) (sweepHandle env later pages res (keyHandle p.handle)).run t
      fun _ u => u.objects.get (keyHandle p.handle) = none := by
  obtain ⟨h, its, owner⟩ := paired.file
  obtain ⟨d, file, parsed⟩ := Option.bind_eq_some_iff.mp its
  obtain ⟨bytes, stored, profile⟩ := Option.bind_eq_some_iff.mp paired.stored
  obtain ⟨policy, account, matched⟩ :=
    retention_later expired paired.stored resumable.shrunk after days_
  -- what is left of the account still meets the policy
  have decided : verdict env later t.objects (keyHandle p.handle) = .ok (some (policy, some p)) := by
    unfold verdict
    rw [whole.file, file]
    dsimp only
    rw [parsed]
    dsimp only
    rw [owner, if_neg x.str_ne, whole.profile, stored]
    dsimp only
    rw [profile]
    dsimp only
    rw [matched]
  unfold sweepHandle
  refine Sweep.andThen (Sweep.attempted (evaluateUser_alone env later _)) (fun _ _ wrong => nomatch wrong) ?_
  rintro _ t ⟨_, ⟨⟩, rfl, rfl⟩
  rw [decided]
  dsimp only
  rw [applies]
  -- both policies of an account delete the user
  have deletes : deleteMatch pages (keyHandle p.handle) (policy, some p) = deleteUser pages p := by
    cases policy with
    | tombstone => exact absurd rfl account
    | abandoned => rfl
    | inactive => rfl
  rw [deletes]
  refine Sweep.andThen (Sweep.attempted (deleteUser_alone takes pages p fun pre _ => enough pre))
    (fun _ _ wrong => nomatch wrong) ?_
  rintro _ u ⟨_, ⟨⟩, rfl, gone, _⟩
  exact .ret (gone _ (.inr ⟨paired.named, rfl⟩))

/-- Until its handle file is reached, the account is whole. -/
structure Awaiting (s : Sys ι) (x : UserId) (p : Profile) (t : Sys ι) : Prop where
  resumable : Resumable s x p t
  whole : t.objects.get (keyHandle p.handle) ≠ none → Whole s x p t

theorem Awaiting.step (paired : Paired s x p) {key : String} (within : startsWith key "handles/" = true)
    (other : key ≠ keyHandle p.handle) (awaiting : Awaiting s x p t) (swept : Swept key t u) :
    Awaiting s x p u where
  resumable := awaiting.resumable.step paired within swept
  whole left := by
    obtain ⟨d, here⟩ := Option.ne_none_iff_exists'.mp left
    have before := swept.shrunk.get here
    have whole := awaiting.whole (by rw [before]; exact nofun)
    refine ⟨here.trans (before.symm.trans whole.file), ?_⟩
    rw [swept.profile_kept paired awaiting.resumable.shrunk within other, whole.profile]

/-- A page of handle files with the account's among them. -/
theorem sweepPage_clears (takes : TakesPage limit) (paired : Paired s x p)
    (expired : MeetsPolicy env opts s x) (after : opts.now ≤ later.now)
    (days_ : later.inactiveDays = opts.inactiveDays) (applies : later.dryRun = false) {pages : Nat}
    (enough : ∀ pre, (keysUnder t pre).length < 1000 * pages) {keys : List String}
    (handles : ∀ key ∈ keys, startsWith key "handles/" = true) {res : CleanupResult}
    (room : res.deleted + keys.length ≤ later.batchSize) (awaiting : Awaiting s x p t) :
    Interaction.Ends (Alone limit m i) (sweepPage env later pages keys res).run t fun r u =>
      (∃ res', r = .ok res' ∧ res'.deleted ≤ res.deleted + keys.length) ∧ Shrunk (fun _ => True) t u ∧
        Awaiting s x p u ∧ (keyHandle p.handle ∈ keys → u.objects.get (keyHandle p.handle) = none) := by
  induction keys generalizing t res with
  | nil => exact .ret ⟨⟨res, rfl, Nat.le_refl _⟩, .refl t, awaiting, by simp⟩
  | cons key rest ih =>
    have within := handles key (by simp)
    rw [List.length_cons] at room
    unfold sweepPage
    dsimp only
    rw [if_neg (show ¬ later.batchSize ≤ res.deleted by omega)]
    have swept : Interaction.Ends (Alone limit m i) (sweepHandle env later pages
        { res with handlesScanned := res.handlesScanned + 1 } key).run t fun r u =>
        (∃ res', r = .ok res' ∧ res'.deleted ≤ res.deleted + 1) ∧ Swept key t u :=
      sweepHandle_swept (alone_reads limit m i) (alone_deletes limit m i) pages _ key
    -- After this file, either the account is still whole, or this was its file and it is gone.
    have own : Interaction.Ends (Alone limit m i) (sweepHandle env later pages
        { res with handlesScanned := res.handlesScanned + 1 } key).run t fun _ u =>
        key = keyHandle p.handle → u.objects.get (keyHandle p.handle) = none := by
      intro r u run same
      cases left : t.objects.get (keyHandle p.handle) with
      | none => exact (swept r u run).2.shrunk.absent left
      | some d =>
        subst same
        exact sweepHandle_clears takes paired expired after days_ applies awaiting.resumable
          (awaiting.whole (by rw [left]; simp)) enough _ r u run
    have both : Interaction.Ends (Alone limit m i) (sweepHandle env later pages
        { res with handlesScanned := res.handlesScanned + 1 } key).run t fun r u =>
        ((∃ res', r = .ok res' ∧ res'.deleted ≤ res.deleted + 1) ∧ Swept key t u) ∧
          (key = keyHandle p.handle → u.objects.get (keyHandle p.handle) = none) :=
      fun r u run => ⟨swept r u run, own r u run⟩
    refine Sweep.andThen both ?_ ?_
    · rintro _ u ⟨⟨⟨_, wrong, _⟩, _⟩, _⟩
      cases wrong
    rintro res' u ⟨⟨⟨_, ⟨⟩, count⟩, swept⟩, own⟩
    have next : Awaiting s x p u := by
      by_cases other : key = keyHandle p.handle
      · exact ⟨awaiting.resumable.step paired within swept, fun left => absurd (own other) left⟩
      · exact awaiting.step paired within other swept
    refine (ih (fun pre => lt_of_le_of_lt (swept.shrunk.fewer _ none) (enough pre))
      (fun k member => handles k (by simp [member])) (by omega) next).weaken ?_
    rintro r v ⟨⟨last, ok, total⟩, shrunk, awaiting', rest'⟩
    refine ⟨⟨last, ok, by rw [List.length_cons]; omega⟩, swept.shrunk.trans shrunk, awaiting', ?_⟩
    intro member
    rcases List.mem_cons.mp member with here | later_
    · exact shrunk.absent (own here.symm)
    · exact rest' later_

/-- The pages of handle files; the account's is on one of them. -/
theorem sweepHandles_clears (takes : TakesPage limit) (paired : Paired s x p)
    (expired : MeetsPolicy env opts s x) (after : opts.now ≤ later.now)
    (days_ : later.inactiveDays = opts.inactiveDays) (applies : later.dryRun = false) {pages : Nat}
    (enough : ∀ pre, (keysUnder t pre).length < 1000 * pages) (rounds : Nat) {cursor : Option String}
    {keys : List String} (listed : t.objects.keysAfter (startsWith · "handles/") cursor = keys)
    (rounds_ : keys.length < 1000 * rounds) {res : CleanupResult}
    (room : res.deleted + keys.length ≤ later.batchSize) (awaiting : Awaiting s x p t)
    (ahead : t.objects.get (keyHandle p.handle) ≠ none → keyHandle p.handle ∈ keys) :
    Interaction.Ends (Alone limit m i) (sweepHandles env later pages rounds cursor res).run t
      fun _ u => u.objects.get (keyHandle p.handle) = none := by
  induction rounds generalizing t cursor keys res with
  | zero => exact absurd rounds_ (Nat.not_lt_zero _)
  | succ rounds ih =>
    unfold sweepHandles
    split
    next full =>
      have nothing : keys = [] := List.eq_nil_of_length_eq_zero (by omega)
      refine .ret ?_
      by_contra left
      have there := ahead left
      rw [nothing] at there
      cases there
    next =>
      refine Sweep.andThen (Sweep.list_alone "handles/" HANDLES_PAGE_SIZE cursor)
        (fun _ _ wrong => by cases wrong.2) ?_
      rintro _ t ⟨rfl, ⟨⟩⟩
      have first : (t.listing "handles/" HANDLES_PAGE_SIZE cursor).keys = keys.take 1000 := by
        rw [Sys.listing, ObjectMap.page_take, listed]
        rfl
      rw [first]
      have handles : ∀ key ∈ keys.take 1000, startsWith key "handles/" = true := by
        intro key member
        have member := List.mem_of_mem_take member
        rw [← listed] at member
        exact ((ObjectMap.mem_keysAfter _ _ _ key).mp member).2.1
      have size : (keys.take 1000).length = min 1000 keys.length := List.length_take
      refine Sweep.andThen (sweepPage_clears takes paired expired after days_ applies enough handles
        (by omega) awaiting) ?_ ?_
      · rintro _ u ⟨⟨_, wrong, _⟩, _⟩
        cases wrong
      rintro res u ⟨⟨_, ⟨⟩, count⟩, shrunk, awaiting, reached⟩
      by_cases short : keys.length ≤ 1000
      · have last : (t.listing "handles/" HANDLES_PAGE_SIZE cursor).nextCursor = none :=
          ObjectMap.page_last (by rw [listed]; exact short)
        rw [last]
        refine .ret ?_
        by_contra left
        refine left (reached ?_)
        rw [List.take_of_length_le short]
        exact ahead fun gone => left (shrunk.absent gone)
      · obtain ⟨last, ends, rest⟩ := ObjectMap.page_next (m := t.objects) (p := (startsWith · "handles/"))
          (by decide : 0 < 1000) (by rw [listed]; exact short)
        have next : (t.listing "handles/" HANDLES_PAGE_SIZE cursor).nextCursor = some last := ends
        rw [listed] at rest
        rw [next]
        have fewer := shrunk.fewer (startsWith · "handles/") (some last)
        rw [rest, List.length_drop] at fewer
        refine ih (fun pre => lt_of_le_of_lt (shrunk.fewer _ none) (enough pre)) rfl (by omega) (by omega)
          awaiting fun left => ?_
        -- The account's file was not on this page, so it lies after the cursor.
        obtain ⟨d, here⟩ := Option.ne_none_iff_exists'.mp left
        have there : keyHandle p.handle ∈ keys := ahead (by rw [shrunk.get here]; simp)
        rw [← List.take_append_drop 1000 keys, List.mem_append, ← rest] at there
        rcases there with earlier | beyond
        · exact absurd (reached earlier) left
        · obtain ⟨_, within, passed⟩ := (ObjectMap.mem_keysAfter _ _ _ _).mp beyond
          exact (ObjectMap.mem_keysAfter _ _ _ _).mpr ⟨⟨d, here⟩, within, passed⟩

/-- A sweep that was interrupted is completed by the next one exactly where the profile is still in
its place, or nothing is left. -/
theorem resumed_iff {pages pages' : Nat} {j : ι} {r : Except StoreError CleanupResult}
    (paired : Paired s x p) (expired : MeetsPolicy env opts s x)
    (interrupted : Runs (Faulty j) (runCleanup env pages opts).run s r t) (takes : TakesPage limit)
    (applies : later.dryRun = false) (after : opts.now ≤ later.now)
    (days_ : later.inactiveDays = opts.inactiveDays)
    (batch : (keysUnder t "handles/").length ≤ later.batchSize)
    (enough : t.objects.entries.length < 1000 * pages') :
    Interaction.Ends (Alone limit m i) (runCleanup env pages' later).run t fun _ u =>
      Vanished x p u ↔
        t.objects.get (keyProfile x.str) ≠ none ∨ t.objects.get (keyHandle p.handle) = none := by
  have resumable : Resumable s x p t :=
    interrupted_resumable paired (faulty_reads j) (faulty_deletes j) pages paired.resumable r t interrupted
  have few (pre : String) : (keysUnder t pre).length < 1000 * pages' :=
    lt_of_le_of_lt (t.objects.keysAfter_length_le _ none) enough
  intro r' u run
  have resumable' : Resumable s x p u :=
    interrupted_resumable paired (alone_reads limit m i) (alone_deletes limit m i) pages' resumable r' u run
  cases left : t.objects.get (keyHandle p.handle) with
  -- no handle leads to the account, and only stragglers of it may be left
  | none =>
    have shrunk : Shrunk (fun _ => True) t u := sweepHandles_keeps (alone_reads limit m i)
      (alone_deletes limit m i) (fun _ shrunk swept => shrunk.trans swept.shrunk) pages' pages' none {}
      (.refl t) r' u run
    have gone := shrunk.absent left
    exact ⟨fun _ => .inr rfl, fun _ => ⟨resumable'.last gone, gone⟩⟩
  | some d =>
    cases profile : t.objects.get (keyProfile x.str) with
    -- the handle dangles, and nothing sweeps it
    | none =>
      have stays := dangling_kept paired (alone_reads limit m i) (alone_deletes limit m i) pages' resumable
        left profile r' u run
      constructor
      · rintro ⟨_, gone⟩
        rw [stays] at gone
        cases gone
      · rintro (lost | gone)
        · exact absurd rfl lost
        · cases gone
    -- the account is whole, so the resumed run sweeps it like any other
    | some bytes =>
      have whole : Whole s x p t :=
        ⟨left.trans (resumable.shrunk.get left).symm, profile.trans (resumable.shrunk.get profile).symm⟩
      have there : keyHandle p.handle ∈ keysUnder t "handles/" :=
        (ObjectMap.mem_keysAfter _ _ _ _).mpr ⟨⟨d, left⟩, keyHandle_within p.handle, by simp⟩
      have gone : u.objects.get (keyHandle p.handle) = none :=
        sweepHandles_clears takes paired expired after days_ applies few pages' rfl (few _)
          (by simpa [keysUnder] using batch) ⟨resumable, fun _ => whole⟩ (fun _ => there) r' u run
      exact ⟨fun _ => .inl (by simp), fun _ => ⟨resumable'.last gone, gone⟩⟩

end Account

end Resume

section Samples

open Sample

theorem alice_paired : Paired (sweptSys profile) user profile where
  stored := by
    rw [profileOf, sweptSys, show keyProfile user.str = keyProfile uid from rfl, swept_alice,
      Option.bind_some, Profile.parse_data]
  mine := rfl
  named := by decide
  file := by
    refine ⟨handleProjection profile, ?_, rfl⟩
    rw [projectionAt, show keyHandle profile.handle = keyHandle "alice" from rfl, sweptSys, swept_handle,
      Option.bind_some, PublicHandleData.parse_data]
  alone := by
    intro key h q within other projected _ stored
    rcases swept_projections within projected with ⟨rfl, rfl⟩ | ⟨rfl, rfl⟩
    · exact absurd rfl other
    · cases (swept_bob profile).symm.trans stored
      exact ⟨by decide, by decide⟩

theorem alice_expired : MeetsPolicy env sweepOpts (sweptSys profile) user := by
  refine ⟨profile, alice_paired.stored, .inl ⟨rfl, by decide, ?_⟩⟩
  intro key inbox
  have none_ : noneUnder (sweptSys profile).objects [prefixInboxLive uid, prefixInboxArchive uid] = true := by
    decide
  rcases inbox with live | archive
  · exact noneUnder_iff.mp none_ (prefixInboxLive uid) (by simp) key live
  · exact noneUnder_iff.mp none_ (prefixInboxArchive uid) (by simp) key archive

/-- A listing of this prefix fails. -/
def failsAt (pre : String) : Op → Choice
  | .listObjects q _ _ => if q = pre then .fail "SlowDown" false else .ok
  | _ => .ok

def cutAt (pre : String) : Option (Except StoreError CleanupResult × Sys Unit) :=
  (runCleanup env 2 sweepOpts).run.execute (fun o s => serve (fun _ => true) () o (failsAt pre o) s)
    (sweptSys profile)

theorem cutAt_runs {pre : String} {r : Except StoreError CleanupResult} {t : Sys Unit}
    (cut : cutAt pre = some (r, t)) :
    Runs (Faulty ()) (runCleanup env 2 sweepOpts).run (sweptSys profile) r t :=
  (runs_of_execute cut).mono fun _ _ _ _ served => ⟨_, served⟩

/-- Cut short after the users prefix, the sweep has taken the profile and left the handle file. -/
theorem profile_lost : (cutAt (prefixInbox uid)).map (fun cut => (cut.2.objects.get (keyProfile uid)).isNone &&
    (cut.2.objects.get (keyHandle "alice")).isSome) = some true := by
  decide

/-- No later sweep removes the handle file of the account. -/
theorem handle_orphaned : ∃ r t, Paired (sweptSys profile) user profile ∧
    MeetsPolicy env sweepOpts (sweptSys profile) user ∧
    Runs (Faulty ()) (runCleanup env 2 sweepOpts).run (sweptSys profile) r t ∧
    ∀ pages later, ∃ r' u, ¬ Vanished user profile u ∧
      Runs (Alone (some S3_DELETE_LIMIT) moment ()) (runCleanup env pages later).run t r' u := by
  obtain ⟨⟨r, t⟩, cut, lost⟩ := Option.map_eq_some_iff.mp profile_lost
  rw [Bool.and_eq_true, Option.isNone_iff_eq_none, Option.isSome_iff_exists] at lost
  obtain ⟨gone, d, left⟩ := lost
  have run := cutAt_runs cut
  have resumable : Resumable (sweptSys profile) user profile t :=
    interrupted_resumable alice_paired (faulty_reads ()) (faulty_deletes ()) 2 alice_paired.resumable r t run
  refine ⟨r, t, alice_paired, alice_expired, run, fun pages later => ?_⟩
  have keeps : Interaction.Ends (Alone (some S3_DELETE_LIMIT) moment ()) (runCleanup env pages later).run t
      _ := dangling_kept alice_paired (alone_reads _ _ _) (alone_deletes _ _ _) pages resumable left gone
  obtain ⟨r', u, next, stays⟩ := exists_alone keeps
  refine ⟨r', u, fun removed => ?_, next⟩
  rw [removed.2] at stays
  cases stays

/-- Cut short before the first deletion, it has left the profile. -/
theorem profile_left : (cutAt (prefixUser uid)).map (fun cut =>
    (cut.2.objects.get (keyProfile uid)).isSome && decide (cut.2.objects.entries.length ≤ 4)) = some true := by
  decide

/-- The next sweep removes the account. -/
theorem account_resumed : ∃ r t r' u,
    Runs (Faulty ()) (runCleanup env 2 sweepOpts).run (sweptSys profile) r t ∧
    Runs (Alone (some S3_DELETE_LIMIT) moment ()) (runCleanup env 2 sweepOpts).run t r' u ∧
      Vanished user profile u := by
  obtain ⟨⟨r, t⟩, cut, left⟩ := Option.map_eq_some_iff.mp profile_left
  rw [Bool.and_eq_true, Option.isSome_iff_exists, decide_eq_true_eq] at left
  obtain ⟨⟨d, there⟩, few⟩ := left
  have run := cutAt_runs cut
  have batch : (keysUnder t "handles/").length ≤ sweepOpts.batchSize :=
    ((t.objects.keysAfter_length_le _ none).trans few).trans (by decide)
  have resumed : Interaction.Ends (Alone (some S3_DELETE_LIMIT) moment ()) (runCleanup env 2 sweepOpts).run t
      _ := resumed_iff alice_paired alice_expired run takes_page rfl (le_refl _) rfl batch
        (lt_of_le_of_lt few (by decide))
  obtain ⟨r', u, next, complete⟩ := exists_alone resumed
  refine ⟨r, t, r', u, run, next, complete.mpr (.inl ?_)⟩
  show t.objects.get (keyProfile uid) ≠ none
  rw [there]
  exact nofun

end Samples

end Atmin
