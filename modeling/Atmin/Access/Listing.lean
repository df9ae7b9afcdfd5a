import Atmin.Interaction.Session
import Atmin.Access.Subtrees
import Atmin.Server.Contracts
import Atmin.Server.Inbox
import Atmin.Server.Sequential
import Atmin.Server.Sample

/-!
# What a listing shows

`store_list` checks a prefix, `store_object` a key. A profile key is admitted as a prefix too,
and a prefix has extensions: whatever its owner stored there is listed to everybody.
-/

namespace Atmin

open Interaction

/-- The listing stays within the caller's own keys, or finds nothing beyond the prefix itself. -/
def PageConfined {ι : Type} (uid pre : String) (cursor : Option String) (s : Sys ι) : Prop :=
  InSubtree uid pre ∨ ∀ key, (s.objects.get key).isSome → startsWith key pre = true →
    (∀ c ∈ cursor, c < key) → key = pre

/-- A page that shows what its reader may fetch, and of another account the profile at most. -/
def Discreet (u : UserId) (keys : List String) : Prop :=
  (∀ key ∈ keys, authorizeKey u.str key = true) ∧
    ∀ v : UserId, v ≠ u → ∀ key ∈ keys, startsWith key (prefixUser v.str) = true → key = keyProfile v.str

/-- A foreign public object is readable, its extensions are not. -/
theorem extension_denied {u : UserId} {pre key : String} (foreign : ¬ InSubtree u.str pre)
    (isPublic : isPublicUserObject pre = true) (under : startsWith key pre = true) :
    authorizeKey u.str key = true ↔ key = pre := by
  obtain ⟨v, nonempty, plain, rfl⟩ := publicObject_iff.mp isPublic
  obtain ⟨rest, same⟩ := startsWith_iff.mp under
  have split : key.toList =
      "users".toList ++ '/' :: (v.toList ++ '/' :: ("profile.json".toList ++ rest)) := by
    simp [same, keyProfile, String.toList_append]
  constructor
  · intro allowed
    rcases authorizeKey_iff.mp allowed with mine | shown | media
    · obtain ⟨name, tail, slashless, -, -, whole⟩ := mine.segments
      obtain ⟨-, tails⟩ := segment_inj slashless (by decide) (whole.symm.trans split)
      obtain ⟨rfl, -⟩ := segment_inj (validateUlid_no_slash u.ulid) plain tails
      exact absurd (keyProfile_within _) foreign
    · obtain ⟨w, -, plain', rfl⟩ := publicObject_iff.mp shown
      have whole : (keyProfile w).toList =
          "users".toList ++ '/' :: (w.toList ++ '/' :: "profile.json".toList) := by
        simp [keyProfile, String.toList_append]
      obtain ⟨-, tails⟩ := segment_inj (by decide) (by decide) (whole.symm.trans split)
      rw [(segment_inj plain' plain tails).1]
    · obtain ⟨tail, whole⟩ := startsWith_iff.mp media
      rw [split] at whole
      exact absurd (congrArg List.head? whole) (by simp)
  · rintro rfl
    exact authorizeKey_iff.mpr (Or.inr (Or.inl isPublic))

theorem mem_page_own {ι : Type} {u : UserId} {pre key : String} {limit : Nat} {cursor : Option String}
    {s : Sys ι} (mine : InSubtree u.str pre) (listed : key ∈ (s.listing pre limit cursor).keys) :
    InSubtree u.str key :=
  mine.mono (s.objects.mem_page _ _ _ _ listed).2

/-- A page of an admitted prefix is discreet exactly when the listing is confined. -/
theorem discreet_iff {ι : Type} {u : UserId} {pre : String} {cursor : Option String} {s : Sys ι}
    (admitted : authorizePrefix u.str pre = true) :
    Discreet u (s.listing pre STORE_LIST_LIMIT cursor).keys ↔ PageConfined u.str pre cursor s := by
  rcases Classical.em (InSubtree u.str pre) with mine | foreign
  · refine iff_of_true ⟨fun key listed => ?_, fun v other key listed theirs => ?_⟩ (Or.inl mine)
    · exact authorizeKey_iff.mpr (Or.inl (mem_page_own mine listed))
    · have within : InSubtree v.str key := ⟨USERS_ROOT, by decide, theirs⟩
      exact absurd (within.owner (mem_page_own mine listed)) other
  · have isPublic := (authorizePrefix_iff.mp admitted).resolve_left foreign
    -- Both sides say that the page holds no key but the prefix itself.
    have only : PageConfined u.str pre cursor s ↔
        ∀ key ∈ (s.listing pre STORE_LIST_LIMIT cursor).keys, key = pre := by
      have pages : (∃ key ∈ (s.listing pre STORE_LIST_LIMIT cursor).keys, key ≠ pre) ↔
          ∃ key ∈ s.objects.keysAfter (startsWith · pre) cursor, key ≠ pre :=
        s.objects.exists_page_ne _ (by decide) cursor pre
      have none_ := not_congr pages
      push Not at none_
      rw [none_]
      simp only [PageConfined, foreign, false_or, ObjectMap.mem_keysAfter, and_imp,
        Option.isSome_iff_exists]
    rw [only]
    constructor
    · intro discreet key listed
      exact (extension_denied foreign isPublic (s.objects.mem_page _ _ _ _ listed).2).mp
        (discreet.1 key listed)
    · intro same
      refine ⟨fun key listed => ?_, fun v _ key listed theirs => ?_⟩
      · rw [same key listed]
        exact authorizeKey_iff.mpr (Or.inr (Or.inl isPublic))
      · rw [same key listed] at theirs ⊢
        exact InSubtree.profile ⟨USERS_ROOT, by decide, theirs⟩ isPublic

/-- A request served after the others did whatever they did. -/
def Amid {ι : Type} (i : ι) (o : Op) (_ : Sys ι) (r : Res o) (t : Sys ι) : Prop :=
  ∃ s, Faulty i o s r t

/-- What `store_list` answers, whoever else is at work: a page of the store it read. -/
theorem storeList_answers {ι : Type} (env : Env) (token pre cursor : Option String) (i : ι) (s : Sys ι) :
    Interaction.Ends (Amid i) (storeList env token pre cursor).run s fun r t =>
      ∀ page, r = .ok page → ∃ user p, Token.identity env token = some user ∧
        nonEmpty pre = some p ∧ authorizePrefix user.userId.str p = true ∧
        page.keys = (t.listing p STORE_LIST_LIMIT (nonEmpty cursor)).keys := by
  unfold storeList
  refine Ends.andThen (.of_only (authenticate_guarding env token true))
    (fun _ _ _ _ wrong => nomatch wrong) fun user t known => ?_
  refine Ends.orFail (fun _ _ wrong => nomatch wrong) fun p named => ?_
  refine Ends.checked (fun _ _ wrong => nomatch wrong) fun admitted => ?_
  simp only [run_bind, run_tryStore, ask_bind, Prog.op_bind]
  refine .op fun r v ⟨w, served⟩ => ?_
  obtain ⟨rfl, rfl | ⟨err, _, _, rfl⟩⟩ := served_listObjects served
  · refine .ret fun page same => ?_
    cases same
    exact ⟨user, p, known user rfl, named, admitted, rfl⟩
  · exact .ret fun _ wrong => nomatch wrong

/-- A listing that succeeds shows what its reader may fetch exactly when it is confined. -/
theorem listing_discreet {ι : Type} {env : Env} {token pre cursor : Option String} {i : ι}
    {s t : Sys ι} {page : StoreListResponse}
    (listed : Runs (Amid i) (storeList env token pre cursor).run s (.ok page) t) :
    ∃ user p, Token.identity env token = some user ∧ nonEmpty pre = some p ∧
      (Discreet user.userId page.keys ↔ PageConfined user.userId.str p (nonEmpty cursor) t) := by
  obtain ⟨user, p, known, named, admitted, keys⟩ :=
    storeList_answers env token pre cursor i s _ _ listed page rfl
  refine ⟨user, p, known, named, ?_⟩
  rw [keys]
  exact discreet_iff admitted

section Shelf

open Sample

def carol : UserId := ⟨"01CCCCCCCCCCCCCCCCCCCCCCCC", by decide +kernel⟩

/-- What the owner keeps next to the profile. -/
def backup : String := keyProfile carol.str ++ ".bak"

def shelf : Sys Unit :=
  { sys Unit with
    objects := (store.insert (keyProfile carol.str)
      { profile with userId := carol.str, handle := "carol" : Profile }.data).insert backup profile.data }

/-- Run a listing on a store that answers every request. -/
abbrev listed (pre : String) : Option (Except ApiError StoreListResponse × Sys Unit) :=
  (storeList env token (some pre) none).run.evaluate (serve (fun _ => true) ()) (List.replicate 5 .ok) shelf

theorem listing_prog (pre : String) : (storeList env token (some pre) none).run =
    (do
      let user ← admitUser authed true
      let pre ← orFail .badRequest (nonEmpty (some pre))
      check .forbidden (authorizePrefix user.userId.str pre)
      let page ← tryStore (ask (.listObjects pre STORE_LIST_LIMIT (nonEmpty none)))
      pure { keys := page.keys, nextCursor := page.nextCursor.getD "" } : Handler StoreListResponse).run := by
  rw [storeList, authenticate_known identity_token]

/-- The keys a listing returned. -/
def keysOf : Except ApiError StoreListResponse × Sys Unit → List String
  | (.ok page, _) => page.keys
  | (.error _, _) => []

theorem shelf_observed : (listed (keyProfile carol.str)).any fun x =>
    decide (backup ∈ keysOf x) := by
  rw [listed, listing_prog]
  decide

theorem own_observed : (listed (prefixUser uid)).any fun x =>
    decide (keyProfile uid ∈ keysOf x) := by
  rw [listed, listing_prog]
  decide

theorem listed_run {pre key : String}
    (observed : (listed pre).any fun x => decide (key ∈ keysOf x)) :
    ∃ page t, Runs (Amid ()) (storeList env token (some pre) none).run shelf (.ok page) t ∧
      key ∈ page.keys := by
  obtain ⟨⟨r, t⟩, ran, member⟩ := (Option.any_eq_true _ _).mp observed
  have run := (runs_of_evaluate ran).mono fun o s r t served =>
    (⟨s, served⟩ : Amid () o s r t)
  cases r with
  | error e => exact absurd (of_decide_eq_true member) List.not_mem_nil
  | ok page => exact ⟨page, t, run, of_decide_eq_true member⟩

/-- A listing of one's own files is discreet. -/
theorem own_listing_discreet : ∃ page t,
    Runs (Amid ()) (storeList env token (some (prefixUser uid)) none).run shelf (.ok page) t ∧
      Discreet user page.keys := by
  obtain ⟨page, t, run, -⟩ := listed_run own_observed
  obtain ⟨caller, pre, known, named, discreet⟩ := listing_discreet run
  cases identity_token.symm.trans known
  cases named
  exact ⟨page, t, run, discreet.mpr (Or.inl ⟨USERS_ROOT, by decide, startsWith_append _ ""⟩)⟩

/-- A file next to somebody's profile is listed to everybody, and readable to nobody else. -/
theorem backup_listed : authorizeKeyWrite carol.str backup = true ∧ ∃ page t,
    Runs (Amid ()) (storeList env token (some (keyProfile carol.str)) none).run shelf (.ok page) t ∧
      backup ∈ page.keys ∧ authorizeKey user.str backup = false ∧ ¬ Discreet user page.keys := by
  obtain ⟨page, t, run, member⟩ := listed_run shelf_observed
  have denied : authorizeKey user.str backup = false := by decide
  refine ⟨by decide, page, t, run, member, denied, fun discreet => ?_⟩
  exact absurd (discreet.1 backup member) (by rw [denied]; decide)

end Shelf

end Atmin
