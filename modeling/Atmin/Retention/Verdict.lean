import Atmin.Retention.Deletion

/-!
# One handle file, alone

What the cleanup decides about a handle file as a function of the stored objects, and what a
deletion it decides on leaves, when nobody else touches the store.
-/

namespace Atmin

open Interaction

section Steps

variable {ι : Type} {limit : Option Nat} {m : Moment} {i : ι} {s t : Sys ι} {α β : Type}

/-! ### Steps of the cleanup -/

namespace Sweep

variable {exec : (o : Op) → Sys ι → Res o → Sys ι → Prop} {Q : Except StoreError β → Sys ι → Prop}

/-- A step, by what is known of its result. -/
theorem andThen {h : Sweep α} {f : α → Sweep β} {P : Except StoreError α → Sys ι → Prop}
    (first : Interaction.Ends exec h.run s P) (failed : ∀ e t, P (.error e) t → Q (.error e) t)
    (rest : ∀ a t, P (.ok a) t → Interaction.Ends exec (f a).run t Q) :
    Interaction.Ends exec (h >>= f).run s Q := by
  show Interaction.Ends exec (Prog.bind h.run (ExceptT.bindCont f)) s Q
  refine Interaction.Ends.bind first fun r t after => ?_
  cases r with
  | ok a => exact rest a t after
  | error e => exact .ret (failed e t after)

theorem attempted {h : Sweep α} {P : Except StoreError α → Sys ι → Prop}
    (ends : Interaction.Ends exec h.run s P) :
    Interaction.Ends exec (attempt h).run s fun r t => ∃ r', r = .ok r' ∧ P r' t :=
  Interaction.Ends.bind ends fun r _ after => .ret ⟨r, rfl, after⟩

theorem list_alone (pre : String) (n : Nat) (cursor : Option String) :
    Interaction.Ends (Alone limit m i) (store (ask (.listObjects pre n cursor))).run s fun r t =>
      t = s ∧ r = .ok (s.listing pre n cursor) :=
  .op fun _ _ served => .ret (alone_listObjects served)

theorem delete_alone (key : String) :
    Interaction.Ends (Alone limit m i) (store (ask (.deleteObject key))).run s fun r t =>
      r = .ok () ∧ t = s.remove [key] := by
  refine .op fun r t served => .ret ?_
  rcases served_deleteObject (alone_healthy served nofun nofun nofun) with done | ⟨fault, _⟩
  · exact done
  · exact absurd fault not_faulted_healthy

theorem deleteAll_alone {keys : List String} (takes : ∀ n ∈ limit, keys.length ≤ n) :
    Interaction.Ends (Alone limit m i) (store (ask (.deleteObjects keys))).run s fun r t =>
      r = .ok () ∧ t = s.remove keys := by
  refine .op fun r t served => .ret ?_
  rcases alone_deleteObjects served with ⟨_, done⟩ | ⟨refused, _⟩
  · exact done
  · exact absurd takes refused

end Sweep

/-! ### The verdict -/

theorem count_deleted (res : CleanupResult) (policy : Policy) : (res.count policy).deleted = res.deleted := by
  cases policy <;> rfl

/-- Whether nothing is stored under the prefixes. -/
def noneUnder (objects : ObjectMap String Data) (prefixes : List String) : Bool :=
  prefixes.all fun pre => (objects.keysAfter (startsWith · pre) none).isEmpty

/-- What policy says about the profile a handle file leads to. -/
def retention (env : Env) (opts : CleanupOpts) (objects : ObjectMap String Data) (uid : String)
    (profile : Profile) : Option (Policy × Option Profile) :=
  if (decide (profile.displayName = "") && olderThan env opts.now ABANDONED_GRACE_DAYS profile.createdAt &&
      noneUnder objects [prefixInboxLive uid, prefixInboxArchive uid]) = true then
    some (.abandoned, some profile)
  else if isInactive env opts profile then some (.inactive, some profile)
  else none

/-- What `evaluateUser` returns on a store that stands still. -/
def verdict (env : Env) (opts : CleanupOpts) (objects : ObjectMap String Data) (key : String) :
    Except StoreError (Option (Policy × Option Profile)) :=
  match objects.get key with
  | none => .error .notFound
  | some data => match PublicHandleData.parse data with
    | none => .error (.backend "invalid handle projection")
    | some h =>
      if h.userId = "" then
        if h.releasedAt = "" then .ok none
        else match env.parseRfc3339 h.releasedAt with
          | none => .error (.backend "invalid released_at")
          | some released =>
            if days HANDLE_COOLDOWN_DAYS < opts.now - released then .ok (some (.tombstone, none))
            else .ok none
      else match objects.get (keyProfile h.userId) with
        | none => .ok none
        | some bytes => match Profile.parse bytes with
          | none => .error (.backend "invalid profile")
          | some profile => .ok (retention env opts objects h.userId profile)

/-- A verdict to delete is on an expired tombstone or on the profile the file leads to. -/
theorem verdict_some {env : Env} {opts : CleanupOpts} {objects : ObjectMap String Data}
    {key : String} {policy : Policy} {pr : Option Profile}
    (judged : verdict env opts objects key = .ok (some (policy, pr))) :
    (∃ h, (objects.get key).bind PublicHandleData.parse = some h ∧ h.userId = "" ∧
        policy = .tombstone ∧ pr = none) ∨
      ∃ h p, (objects.get key).bind PublicHandleData.parse = some h ∧ h.userId ≠ "" ∧
        (objects.get (keyProfile h.userId)).bind Profile.parse = some p ∧ pr = some p ∧
        policy ≠ .tombstone := by
  unfold verdict at judged
  cases data : objects.get key with
  | none => rw [data] at judged; cases judged
  | some d =>
    rw [data] at judged
    dsimp only at judged
    cases parsed : PublicHandleData.parse d with
    | none => rw [parsed] at judged; cases judged
    | some h =>
      rw [parsed] at judged
      dsimp only at judged
      split at judged
      -- a projection without an owner: at most a tombstone
      next unowned =>
        split at judged
        next => cases judged
        next =>
          split at judged
          next => cases judged
          next =>
            split at judged
            next => cases judged; exact .inl ⟨h, parsed, unowned, rfl, rfl⟩
            next => cases judged
      -- one with an owner: the policies on its profile, neither of which is the tombstone one
      next named =>
        split at judged
        next => cases judged
        next bytes stored =>
          split at judged
          next => cases judged
          next p its =>
            refine .inr ⟨h, p, parsed, named, by rw [stored]; exact its, ?_⟩
            unfold retention at judged
            split at judged
            next => cases judged; exact ⟨rfl, by simp⟩
            next =>
              split at judged
              next => cases judged; exact ⟨rfl, by simp⟩
              next => cases judged

theorem page_one {objects : ObjectMap String Data} {pre : String} :
    (objects.page (startsWith · pre) 1 none).1 = [] ↔
      (objects.keysAfter (startsWith · pre) none).isEmpty = true := by
  rw [ObjectMap.page_take, List.take_eq_nil_iff, List.isEmpty_iff]
  simp

/-- Storage that reads without changing anything; where it `fails`, the answer may be an error
instead of what is stored. -/
structure Reads (exec : (o : Op) → Sys ι → Res o → Sys ι → Prop) (fails : Prop) : Prop where
  get : ∀ {key s r t}, exec (.getObject key) s r t →
    t = s ∧ (r = s.lookup key ∨ fails ∧ ∃ err, r = .error (.backend err))
  list : ∀ {pre n cursor s r t}, exec (.listObjects pre n cursor) s r t →
    t = s ∧ (r = .ok (s.listing pre n cursor) ∨ fails ∧ ∃ err, r = .error (.backend err))

theorem alone_reads (limit : Option Nat) (m : Moment) (i : ι) : Reads (Alone limit m i) False where
  get served := ⟨(alone_getObject served).1, .inl (alone_getObject served).2⟩
  list served := ⟨(alone_listObjects served).1, .inl (alone_listObjects served).2⟩

theorem faulty_reads (i : ι) : Reads (Faulty i) True where
  get served := by
    obtain ⟨same, found | ⟨err, _, _, fault⟩⟩ := served_getObject served
    · exact ⟨same, .inl found⟩
    · exact ⟨same, .inr ⟨trivial, err, fault⟩⟩
  list served := by
    obtain ⟨same, found | ⟨err, _, _, fault⟩⟩ := served_listObjects served
    · exact ⟨same, .inl found⟩
    · exact ⟨same, .inr ⟨trivial, err, fault⟩⟩

/-- The step changes nothing, and returns what is wanted, or an error where storage fails. -/
def Answers (exec : (o : Op) → Sys ι → Res o → Sys ι → Prop) (fails : Prop) (s : Sys ι)
    (want : Except StoreError α) (h : Sweep α) : Prop :=
  Interaction.Ends exec h.run s fun r t => t = s ∧ (r = want ∨ fails ∧ ∃ e, r = .error e)

namespace Answers

variable {exec : (o : Op) → Sys ι → Res o → Sys ι → Prop} {fails : Prop} {want : Except StoreError β}

theorem ret {r : Except StoreError β} (same : r = want) :
    Answers exec fails s want (ExceptT.mk (.ret r)) :=
  Interaction.Ends.ret ⟨rfl, .inl same⟩

theorem bind {first : Except StoreError α} {h : Sweep α} {f : α → Sweep β}
    (answers : Answers exec fails s first h) (failed : ∀ e, first = .error e → want = .error e)
    (rest : ∀ a, first = .ok a → Answers exec fails s want (f a)) :
    Answers exec fails s want (h >>= f) := by
  refine Sweep.andThen answers ?_ ?_
  · rintro e _ ⟨rfl, wanted | broken⟩
    · exact ⟨rfl, .inl (failed e wanted.symm).symm⟩
    · exact ⟨rfl, .inr ⟨broken.1, e, rfl⟩⟩
  · rintro a _ ⟨rfl, wanted | ⟨_, _, ⟨⟩⟩⟩
    exact rest a wanted.symm

theorem orBackend {err : String} {o : Option α} {f : α → Sweep β}
    (failed : o = none → want = .error (.backend err))
    (rest : ∀ a, o = some a → Answers exec fails s want (f a)) :
    Answers exec fails s want (Sweep.orBackend err o >>= f) := by
  cases o with
  | none => exact ret (failed rfl).symm
  | some a => exact rest a rfl

theorem get (reads : Reads exec fails) (key : String) :
    Answers exec fails s (s.lookup key) (Sweep.store (ask (.getObject key))) := by
  refine Interaction.Ends.op fun r t served => .ret ?_
  obtain ⟨same, found | ⟨broken, err, fault⟩⟩ := reads.get served
  · exact ⟨same, .inl found⟩
  · exact ⟨same, .inr ⟨broken, _, fault⟩⟩

theorem list (reads : Reads exec fails) (pre : String) (n : Nat) (cursor : Option String) :
    Answers exec fails s (.ok (s.listing pre n cursor)) (Sweep.store (ask (.listObjects pre n cursor))) := by
  refine Interaction.Ends.op fun r t served => .ret ?_
  obtain ⟨same, found | ⟨broken, err, fault⟩⟩ := reads.list served
  · exact ⟨same, .inl found⟩
  · exact ⟨same, .inr ⟨broken, _, fault⟩⟩

end Answers

section Reading

variable {exec : (o : Op) → Sys ι → Res o → Sys ι → Prop} {fails : Prop}

theorem lookup_cases (s : Sys ι) (key : String) :
    (s.objects.get key = none ∧ s.lookup key = .error .notFound) ∨
      ∃ d, s.objects.get key = some d ∧ s.lookup key = .ok d := by
  cases here : s.objects.get key with
  | none => exact .inl ⟨rfl, by rw [Sys.lookup, here]⟩
  | some d => exact .inr ⟨d, rfl, lookup_eq_ok.mpr here⟩

theorem prefixesEmpty_reads (reads : Reads exec fails) (prefixes : List String) :
    Answers exec fails s (.ok (noneUnder s.objects prefixes)) (prefixesEmpty prefixes) := by
  induction prefixes with
  | nil => exact .ret rfl
  | cons pre rest ih =>
    refine .bind (.list reads pre 1 none) (fun _ wrong => nomatch wrong) ?_
    rintro _ ⟨⟩
    have first : (s.objects.page (startsWith · pre) 1 none).1 = [] ↔ _ := page_one
    split
    next some_ =>
      have nonempty := mt first.mpr some_
      refine .ret ?_
      rw [noneUnder, List.all_cons, Bool.eq_false_iff.mpr nonempty, Bool.false_and]
    next none_ =>
      rw [noneUnder, List.all_cons, first.mp (not_not.mp none_), Bool.true_and]
      exact ih

theorem classify_reads (reads : Reads exec fails) (env : Env) (opts : CleanupOpts) (uid : String)
    (profile : Profile) :
    Answers exec fails s (.ok (retention env opts s.objects uid profile)) (classify env opts uid profile) := by
  have inactive : Answers exec fails s
      (.ok (if isInactive env opts profile then some (.inactive, some profile) else none))
      (if isInactive env opts profile then pure (some (.inactive, some profile)) else pure none :
        Sweep (Option (Policy × Option Profile))) := by
    split
    next => exact .ret rfl
    next => exact .ret rfl
  unfold classify retention
  dsimp only
  by_cases old : profile.displayName = "" ∧
      olderThan env opts.now ABANDONED_GRACE_DAYS profile.createdAt = true
  · rw [if_pos old, decide_eq_true old.1, old.2, Bool.true_and, Bool.true_and]
    refine .bind (prefixesEmpty_reads reads _) (fun _ wrong => nomatch wrong) ?_
    rintro empty ⟨⟩
    split
    next => exact .ret rfl
    next => exact inactive
  · have kept : (decide (profile.displayName = "") &&
        olderThan env opts.now ABANDONED_GRACE_DAYS profile.createdAt &&
        noneUnder s.objects [prefixInboxLive uid, prefixInboxArchive uid]) = false := by
      refine Bool.eq_false_iff.mpr fun holds => old ?_
      simp only [Bool.and_eq_true, decide_eq_true_eq] at holds
      exact holds.1
    rw [if_neg old, kept]
    exact inactive

/-- A handle file is judged by what is stored, where storage answers. -/
theorem evaluateUser_reads (reads : Reads exec fails) (env : Env) (opts : CleanupOpts) (key : String) :
    Answers exec fails s (verdict env opts s.objects key) (evaluateUser env opts key) := by
  unfold evaluateUser verdict
  refine .bind (.get reads key) (fun e failed => ?_) fun data found => ?_
  · rcases lookup_cases s key with ⟨absent, here⟩ | ⟨d, _, here⟩
    · rw [absent]
      cases here.symm.trans failed
      rfl
    · cases here.symm.trans failed
  · rw [lookup_eq_ok.mp found]
    dsimp only
    refine .orBackend (fun bad => by rw [bad]) fun h parsed => ?_
    rw [parsed]
    dsimp only
    split
    next =>
      split
      next => exact .ret rfl
      next =>
        refine .orBackend (fun bad => by rw [bad]) fun released instant => ?_
        rw [instant]
        dsimp only
        split
        next => exact .ret rfl
        next => exact .ret rfl
    next =>
      -- The answer to this read is looked at: an absent profile is no failure.
      refine Interaction.Ends.bind (Sweep.attempted (.op fun r t served => .ret (reads.get served))) ?_
      rintro _ s ⟨found, rfl, rfl, rfl | ⟨broken, err, rfl⟩⟩
      · rcases lookup_cases s (keyProfile h.userId) with ⟨absent, here⟩ | ⟨bytes, stored, here⟩
        · rw [here, absent]
          exact Answers.ret rfl
        · rw [here, stored]
          dsimp only
          refine Answers.orBackend (fun bad => by rw [bad]) fun profile its => ?_
          rw [its]
          exact classify_reads reads env opts h.userId profile
      · exact .ret ⟨rfl, .inr ⟨broken, _, rfl⟩⟩

end Reading

/-- On a store that stands still, a handle file is judged by what is stored. -/
theorem evaluateUser_alone (env : Env) (opts : CleanupOpts) (key : String) :
    Interaction.Ends (Alone limit m i) (evaluateUser env opts key).run s fun r t =>
      t = s ∧ r = verdict env opts s.objects key :=
  (evaluateUser_reads (alone_reads limit m i) env opts key).weaken fun _ _ ⟨same, answer⟩ =>
    ⟨same, answer.resolve_right fun broken => broken.1⟩

/-! ### The deletion -/

/-- The objects, but for those under the prefixes. -/
structure Without (prefixes : List String) (s t : Sys ι) : Prop where
  gone : ∀ pre ∈ prefixes, ∀ key, startsWith key pre = true → t.objects.get key = none
  kept : ∀ key, (∀ pre ∈ prefixes, startsWith key pre = false) → t.objects.get key = s.objects.get key

theorem WIPE_PAGE_SIZE_eq : WIPE_PAGE_SIZE = 1000 := rfl

/-- The loop over the pages of a prefix ends once nothing is left there. -/
theorem wipePrefix_alone (takes : TakesPage limit) (pre : String) (pages : Nat)
    (enough : (keysUnder s pre).length < 1000 * pages) :
    Interaction.Ends (Alone limit m i) (wipePrefix pre pages).run s fun r t =>
      r = .ok () ∧ Without [pre] s t := by
  induction pages generalizing s with
  | zero => exact absurd enough (Nat.not_lt_zero _)
  | succ pages ih =>
    refine Sweep.andThen (Sweep.list_alone pre WIPE_PAGE_SIZE none) (fun _ _ wrong => by cases wrong.2) ?_
    rintro _ s ⟨rfl, ⟨⟩⟩
    have listed : (s.listing pre WIPE_PAGE_SIZE none).keys = (keysUnder s pre).take 1000 :=
      ObjectMap.page_take _ _ _ _
    rw [listed]
    split
    next empty =>
      have none_ : keysUnder s pre = [] := by simpa using empty
      refine .ret ⟨rfl, ⟨?_, fun _ _ => rfl⟩⟩
      intro q member
      rw [List.mem_singleton.mp member]
      exact wiped_iff.mpr none_
    next some_ =>
      refine Sweep.andThen (Sweep.deleteAll_alone fun n given => ?_) (fun _ _ wrong => by cases wrong.1) ?_
      · exact (List.length_take_le _ _).trans (takes n given)
      rintro _ _ ⟨_, rfl⟩
      -- What is left under the prefix follows the first page.
      have left : keysUnder (s.remove ((keysUnder s pre).take 1000)) pre = (keysUnder s pre).drop 1000 := by
        rw [← listed]
        exact ObjectMap.keysAfter_erasePage s.objects _ 1000
      have others (key : String) (other : startsWith key pre = false) :
          (s.remove ((keysUnder s pre).take 1000)).objects.get key = s.objects.get key := by
        rw [Sys.remove, ObjectMap.get_eraseAll, if_neg]
        intro member
        have within := ((ObjectMap.mem_keysAfter _ _ _ key).mp (List.mem_of_mem_take member)).2.1
        rw [other] at within
        cases within
      split
      next short =>
        refine .ret ⟨rfl, ⟨?_, fun key other => others key (other pre (by simp))⟩⟩
        intro q member
        rw [List.mem_singleton.mp member]
        refine wiped_iff.mpr (left.trans (List.drop_eq_nil_iff.mpr ?_))
        rw [List.length_take, WIPE_PAGE_SIZE_eq] at short
        omega
      next full =>
        rw [List.length_take, WIPE_PAGE_SIZE_eq] at full
        have fewer : (keysUnder (s.remove ((keysUnder s pre).take 1000)) pre).length < 1000 * pages := by
          rw [left, List.length_drop]
          omega
        refine (ih fewer).weaken fun r v after => ⟨after.1, after.2.gone, ?_⟩
        exact fun key other => (after.2.kept key other).trans (others key (other pre (by simp)))

theorem Without.trans {ps qs : List String} {u : Sys ι} (first : Without ps s t) (last : Without qs t u) :
    Without (ps ++ qs) s u where
  gone pre member key within := by
    by_cases later : ∀ q ∈ qs, startsWith key q = false
    · rw [last.kept key later]
      rcases List.mem_append.mp member with here | there
      · exact first.gone pre here key within
      · rw [later pre there] at within
        cases within
    · push Not at later
      obtain ⟨q, listed, its⟩ := later
      exact last.gone q listed key (by simpa using its)
  kept key other := by
    rw [last.kept key fun q member => other q (List.mem_append_right _ member)]
    exact first.kept key fun q member => other q (List.mem_append_left _ member)

/-- Fewer objects, fewer keys. -/
theorem Without.shrinks {ps : List String} (without : Without ps s t) (pre : String) :
    (keysUnder t pre).length ≤ (keysUnder s pre).length := by
  refine (List.subperm_of_subset (t.objects.keysAfter_nodup _ none) fun key listed => ?_).length_le
  obtain ⟨⟨d, here⟩, within, _⟩ := (ObjectMap.mem_keysAfter _ _ _ key).mp listed
  refine (ObjectMap.mem_keysAfter _ _ _ key).mpr ⟨⟨d, ?_⟩, within, nofun⟩
  by_cases other : ∀ q ∈ ps, startsWith key q = false
  · rw [← without.kept key other]
    exact here
  · push Not at other
    obtain ⟨q, member, its⟩ := other
    rw [without.gone q member key (by simpa using its)] at here
    cases here

theorem wipeAll_alone (takes : TakesPage limit) (pages : Nat) (prefixes : List String)
    (enough : ∀ pre ∈ prefixes, (keysUnder s pre).length < 1000 * pages) :
    Interaction.Ends (Alone limit m i) (wipeAll pages prefixes).run s fun r t =>
      r = .ok () ∧ Without prefixes s t := by
  induction prefixes generalizing s with
  | nil => exact .ret ⟨rfl, ⟨nofun, fun _ _ => rfl⟩⟩
  | cons pre rest ih =>
    refine Sweep.andThen (wipePrefix_alone takes pre pages (enough pre (by simp)))
      (fun _ _ wrong => nomatch wrong.1) fun _ t ⟨_, first⟩ => ?_
    refine (ih fun q member => lt_of_le_of_lt (first.shrinks q) (enough q (by simp [member]))).weaken ?_
    exact fun r v ⟨ok, rest⟩ => ⟨ok, first.trans rest⟩

/-- What goes with a profile: the four prefixes of its account, and its handle file. -/
def GoesWith (p : Profile) (key : String) : Prop :=
  (∃ pre ∈ ownedPrefixes p.userId, startsWith key pre = true) ∨ (p.handle ≠ "" ∧ key = keyHandle p.handle)

theorem deleteUser_alone (takes : TakesPage limit) (pages : Nat) (p : Profile)
    (enough : ∀ pre ∈ ownedPrefixes p.userId, (keysUnder s pre).length < 1000 * pages) :
    Interaction.Ends (Alone limit m i) (deleteUser pages p).run s fun r t => r = .ok () ∧
      (∀ key, GoesWith p key → t.objects.get key = none) ∧
      ∀ key, ¬ GoesWith p key → t.objects.get key = s.objects.get key := by
  refine Sweep.andThen (wipeAll_alone takes pages (ownedPrefixes p.userId) enough)
    (fun _ _ wrong => by cases wrong.1) fun _ t wiped => ?_
  have without := wiped.2
  have kept (key : String) (other : ¬ GoesWith p key) : t.objects.get key = s.objects.get key :=
    without.kept key fun pre owned =>
      Bool.eq_false_iff.mpr fun within => other (.inl ⟨pre, owned, within⟩)
  split
  next unnamed =>
    refine .ret ⟨rfl, fun key goes => ?_, kept⟩
    rcases goes with ⟨pre, owned, within⟩ | ⟨named, _⟩
    · exact without.gone pre owned key within
    · exact absurd unnamed named
  next named =>
    refine (Sweep.delete_alone _).weaken fun r v deleted => ⟨deleted.1, fun key goes => ?_, fun key other => ?_⟩
    · rw [deleted.2, Sys.remove, ObjectMap.get_eraseAll]
      split
      next => rfl
      next apart =>
        rcases goes with ⟨pre, owned, within⟩ | ⟨_, its⟩
        · exact without.gone pre owned key within
        · exact absurd (List.mem_singleton.mpr its) apart
    · rw [deleted.2, Sys.remove, ObjectMap.get_eraseAll, if_neg, kept key other]
      intro member
      exact other (.inr ⟨named, List.mem_singleton.mp member⟩)

end Steps

end Atmin
