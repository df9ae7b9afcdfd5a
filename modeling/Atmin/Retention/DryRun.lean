import Atmin.Retention.Verdict

/-!
# A dry run and the real run

A dry run of the cleanup judges every handle file on the same objects. The real run deletes as
it goes; but an account is judged by its own objects, and no other match takes those away. So
both runs find the same matches, page by page, and count the same.
-/

namespace Atmin

open Interaction

/-- A handle file that policy matches, with the profile the deletion goes by. -/
structure Match where
  key : String
  policy : Policy
  profile : Option Profile

/-- What goes with a match: its handle file, and the four prefixes of the account. -/
def Match.Takes (found : Match) (key : String) : Prop :=
  key = found.key ∨
    ∃ p, found.profile = some p ∧ ∃ pre ∈ ownedPrefixes p.userId, startsWith key pre = true

def Condemned (ms : List Match) (key : String) : Prop := ∃ found ∈ ms, found.Takes key

section Tally

variable (env : Env) (opts : CleanupOpts) (objects : ObjectMap String Data)

def matchAt (key : String) : Option Match :=
  match verdict env opts objects key with
  | .ok (some (policy, profile)) => some ⟨key, policy, profile⟩
  | _ => none

/-- The matches among the stored handle files, in the order of their keys, up to the batch size. -/
def sweepMatches : List Match :=
  ((objects.keysAfter (startsWith · "handles/") none).filterMap (matchAt env opts objects)).take
    opts.batchSize

/-- What a verdict adds to the counts, where the deletion succeeds. -/
def CleanupResult.judge (res : CleanupResult) :
    Except StoreError (Option (Policy × Option Profile)) → CleanupResult
  | .error _ => { res with errors := res.errors + 1 }
  | .ok none => res
  | .ok (some found) => { res.count found.1 with deleted := (res.count found.1).deleted + 1 }

/-- The counts after one page of handle files. -/
def tally : List String → CleanupResult → CleanupResult
  | [], res => res
  | k :: rest, res =>
    let res := { res with handlesScanned := res.handlesScanned + 1 }
    if opts.batchSize ≤ res.deleted then res
    else tally rest (res.judge (verdict env opts objects k))

def tallyPages : Nat → List String → CleanupResult → CleanupResult
  | 0, _, res => res
  | rounds + 1, keys, res =>
    if opts.batchSize ≤ res.deleted then res
    else
      let res := tally env opts objects (keys.take 1000) res
      if keys.length ≤ 1000 then res else tallyPages rounds (keys.drop 1000) res

end Tally

section DryRun

variable {ι : Type} {limit : Option Nat} {m : Moment} {i : ι} {s t u : Sys ι} {env : Env}
  {opts : CleanupOpts}

/-! ### Counting -/

theorem matchAt_key {objects : ObjectMap String Data} {key : String} {found : Match}
    (here : matchAt env opts objects key = some found) : found.key = key := by
  unfold matchAt at here
  split at here
  next => cases here; rfl
  next => cases here

theorem judge_deleted (res : CleanupResult) (objects : ObjectMap String Data) (key : String) :
    (res.judge (verdict env opts objects key)).deleted =
      res.deleted + (matchAt env opts objects key).toList.length := by
  unfold matchAt
  rcases verdict env opts objects key with e | (_ | ⟨policy, profile⟩)
  · rfl
  · rfl
  · exact congrArg (· + 1) (count_deleted res policy)

/-- A page counts a deletion for each match, until the batch is full. -/
theorem tally_deleted (objects : ObjectMap String Data) (keys : List String) (res : CleanupResult) :
    (tally env opts objects keys res).deleted =
      res.deleted + min (opts.batchSize - res.deleted) (keys.filterMap (matchAt env opts objects)).length := by
  induction keys generalizing res with
  | nil => simp [tally]
  | cons k rest ih =>
    unfold tally
    dsimp only
    split
    next full =>
      show res.deleted = _
      have full : opts.batchSize ≤ res.deleted := full
      omega
    next room =>
      rw [ih, judge_deleted, List.filterMap_cons]
      cases matchAt env opts objects k with
      | none => simp
      | some found =>
        have room : ¬ opts.batchSize ≤ res.deleted := room
        simp only [Option.toList_some, List.length_cons, List.length_nil]
        omega

theorem filterMap_pages {f : String → Option Match} (keys : List String) :
    keys.filterMap f = (keys.take 1000).filterMap f ++ (keys.drop 1000).filterMap f := by
  rw [← List.filterMap_append, List.take_append_drop]

theorem tallyPages_deleted (objects : ObjectMap String Data) (rounds : Nat) (keys : List String)
    (res : CleanupResult) (enough : keys.length < 1000 * rounds) :
    (tallyPages env opts objects rounds keys res).deleted =
      res.deleted + min (opts.batchSize - res.deleted) (keys.filterMap (matchAt env opts objects)).length := by
  induction rounds generalizing keys res with
  | zero => exact absurd enough (Nat.not_lt_zero _)
  | succ rounds ih =>
    unfold tallyPages
    dsimp only
    split
    next full => omega
    next room =>
      have first : (tally env opts objects (keys.take 1000) res).deleted = _ := tally_deleted objects _ res
      split
      next short => rw [first, List.take_of_length_le short]
      next long =>
        have fewer : (keys.drop 1000).length < 1000 * rounds := by
          rw [List.length_drop]
          omega
        rw [ih _ _ fewer, first, filterMap_pages keys, List.length_append]
        omega

/-! ### One-to-one handles -/

/-- Every handle file that names an account is the one its profile names, under the account's
own id. -/
def OneToOne (s : Sys ι) : Prop :=
  ∀ key h, startsWith key "handles/" = true → projectionAt s key = some h → h.userId ≠ "" →
    ∃ (x : UserId) (p : Profile), h.userId = x.str ∧ profileOf x s = some p ∧ p.userId = x.str ∧
      p.handle ≠ "" ∧ key = keyHandle p.handle

/-- What a match of a handle file is. -/
theorem match_cases (paired : OneToOne s) {key : String} (within : startsWith key "handles/" = true)
    {found : Match} (here : matchAt env opts s.objects key = some found) :
    (found.policy = .tombstone ∧ found.profile = none) ∨
      ∃ (x : UserId) (p : Profile), found.profile = some p ∧ profileOf x s = some p ∧ p.userId = x.str ∧
        p.handle ≠ "" ∧ key = keyHandle p.handle ∧ found.policy ≠ .tombstone := by
  unfold matchAt at here
  split at here
  next policy pr judged =>
    cases here
    rcases verdict_some judged with ⟨_, _, _, tombstone⟩ | ⟨h, p, projected, named, stored, its, account⟩
    · exact .inl tombstone
    · obtain ⟨x, q, owner, profile, mine, handled, file⟩ := paired key h within projected named
      rw [owner] at stored
      cases profile.symm.trans stored
      exact .inr ⟨x, p, its, profile, mine, handled, file, account⟩
  next => cases here

theorem noneUnder_congr {objects objects' : ObjectMap String Data} {prefixes : List String}
    (same : ∀ pre ∈ prefixes, ∀ k, startsWith k pre = true → objects'.get k = objects.get k) :
    noneUnder objects' prefixes = noneUnder objects prefixes := by
  induction prefixes with
  | nil => rfl
  | cons pre rest ih =>
    have listed : objects'.keysAfter (startsWith · pre) none = objects.keysAfter (startsWith · pre) none :=
      ObjectMap.keysAfter_congr fun k within _ => by rw [same pre (by simp) k within]
    have later := ih fun q member => same q (by simp [member])
    unfold noneUnder at later ⊢
    rw [List.all_cons, List.all_cons, listed, later]

theorem inbox_within {uid pre key : String} (inbox : pre ∈ [prefixInboxLive uid, prefixInboxArchive uid])
    (within : startsWith key pre = true) : startsWith key (prefixInbox uid) = true := by
  refine startsWith_trans within ?_
  simp only [List.mem_cons, List.not_mem_nil, or_false] at inbox
  rcases inbox with rfl | rfl
  · have split : prefixInboxLive uid = prefixInbox uid ++ "live/" := by
      simp only [prefixInboxLive, prefixInbox, String.append_assoc]
      rfl
    rw [split]
    exact startsWith_append _ _
  · have split : prefixInboxArchive uid = prefixInbox uid ++ "archive/" := by
      simp only [prefixInboxArchive, prefixInbox, String.append_assoc]
      rfl
    rw [split]
    exact startsWith_append _ _

/-- A handle file is judged by itself and the objects of the account it names. -/
theorem verdict_congr {objects objects' : ObjectMap String Data} {key : String}
    (file : objects'.get key = objects.get key)
    (account : ∀ h, (objects.get key).bind PublicHandleData.parse = some h → h.userId ≠ "" →
      ∀ pre ∈ ownedPrefixes h.userId, ∀ k, startsWith k pre = true → objects'.get k = objects.get k) :
    verdict env opts objects' key = verdict env opts objects key := by
  unfold verdict
  rw [file]
  cases data : objects.get key with
  | none => rfl
  | some d =>
    dsimp only
    cases parsed : PublicHandleData.parse d with
    | none => rfl
    | some h =>
      dsimp only
      split
      next => rfl
      next named =>
        have same := account h (by rw [data]; exact parsed) named
        have profile : objects'.get (keyProfile h.userId) = objects.get (keyProfile h.userId) := by
          refine same (prefixUser h.userId) (by simp [ownedPrefixes]) _ ?_
          rw [keyProfile_eq]
          exact startsWith_append _ _
        have inbox : noneUnder objects' [prefixInboxLive h.userId, prefixInboxArchive h.userId] =
            noneUnder objects [prefixInboxLive h.userId, prefixInboxArchive h.userId] := by
          refine noneUnder_congr fun pre member k within => ?_
          exact same (prefixInbox h.userId) (by simp [ownedPrefixes]) k (inbox_within member within)
        have keeps (p : Profile) :
            retention env opts objects' h.userId p = retention env opts objects h.userId p := by
          rw [retention, retention, inbox]
        rw [profile]
        simp only [keeps]

/-! ### The sweep, handle file by handle file -/

/-- How far a sweep has got: a dry run has changed nothing, a real one has removed what goes with
the matches so far. -/
structure Carried (dryRun : Bool) (s t : Sys ι) (ms : List Match) : Prop where
  gone : dryRun = false → ∀ key, Condemned ms key → t.objects.get key = none
  kept : ∀ key, dryRun = true ∨ ¬ Condemned ms key → t.objects.get key = s.objects.get key

/-- The matches are of handle files. -/
def FoundIn (env : Env) (opts : CleanupOpts) (s : Sys ι) (ms : List Match) : Prop :=
  ∀ found ∈ ms, startsWith found.key "handles/" = true ∧
    matchAt env opts s.objects found.key = some found

namespace Carried

variable {dryRun : Bool} {ms : List Match}

theorem start (dryRun : Bool) (s : Sys ι) : Carried dryRun s s [] :=
  ⟨(fun _ _ ⟨_, member, _⟩ => nomatch member), fun _ _ => rfl⟩

/-- What is there was there. -/
theorem earlier (carried : Carried dryRun s t ms) {key : String} {d : Data}
    (here : t.objects.get key = some d) : s.objects.get key = some d := by
  by_cases same : dryRun = true ∨ ¬ Condemned ms key
  · rw [← carried.kept key same]
    exact here
  · simp only [not_or, Bool.not_eq_true, not_not] at same
    rw [carried.gone same.1 key same.2] at here
    cases here

theorem fewer (carried : Carried dryRun s t ms) (pre : String) :
    (keysUnder t pre).length ≤ s.objects.entries.length := by
  refine le_trans (List.subperm_of_subset (t.objects.keysAfter_nodup _ none) fun key listed => ?_).length_le
    (s.objects.keysAfter_length_le (startsWith · pre) none)
  obtain ⟨⟨d, here⟩, within, _⟩ := (ObjectMap.mem_keysAfter _ _ _ key).mp listed
  exact (ObjectMap.mem_keysAfter _ _ _ key).mpr ⟨⟨d, carried.earlier here⟩, within, nofun⟩

/-- A dry run passes over a match. -/
theorem passed (carried : Carried true s t ms) (found : Match) : Carried true s t (ms ++ [found]) :=
  ⟨(fun wrong => nomatch wrong), fun key _ => carried.kept key (.inl rfl)⟩

/-- A real run removes what goes with it. -/
theorem removed (carried : Carried false s t ms) {found : Match}
    (gone : ∀ key, found.Takes key → u.objects.get key = none)
    (kept : ∀ key, ¬ found.Takes key → u.objects.get key = t.objects.get key) :
    Carried false s u (ms ++ [found]) := by
  refine ⟨fun _ key condemned => ?_, fun key apart => ?_⟩
  · by_cases its : found.Takes key
    · exact gone key its
    · rw [kept key its]
      obtain ⟨other, member, takes⟩ := condemned
      rcases List.mem_append.mp member with earlier | this
      · exact carried.gone rfl key ⟨other, earlier, takes⟩
      · rw [List.mem_singleton.mp this] at takes
        exact absurd takes its
  · have apart := apart.resolve_left nofun
    rw [kept key fun its => apart ⟨found, by simp, its⟩]
    exact carried.kept key (.inr fun ⟨other, member, takes⟩ => apart ⟨other, by simp [member], takes⟩)

end Carried

/-- No match of other handle files takes a handle file away. -/
theorem handle_spared {ms : List Match} {key : String} (within : startsWith key "handles/" = true)
    (fresh : ∀ found ∈ ms, found.key ≠ key) :
    ¬ Condemned ms key := by
  rintro ⟨found, member, rfl | ⟨p, its, pre, owned, under⟩⟩
  · exact fresh found member rfl
  · exact owned_not_handle owned under within

/-- No match of other handle files takes anything of the account a file names. -/
theorem FoundIn.owned_spared {ms : List Match} (foundIn : FoundIn env opts s ms) (paired : OneToOne s)
    {key : String} (within : startsWith key "handles/" = true) (fresh : ∀ found ∈ ms, found.key ≠ key)
    {h : PublicHandleData} (projected : projectionAt s key = some h) (named : h.userId ≠ "")
    {pre k : String} (owned : pre ∈ ownedPrefixes h.userId) (under : startsWith k pre = true) :
    ¬ Condemned ms k := by
  obtain ⟨x, p, owner, profile, _, _, file⟩ := paired key h within projected named
  rw [owner] at owned
  rintro ⟨found, member, rfl | ⟨q, its, pre', owned', under'⟩⟩
  · exact owned_not_handle owned under (foundIn found member).1
  · obtain ⟨isHandle, here⟩ := foundIn found member
    rcases match_cases paired isHandle here with ⟨_, none_⟩ | ⟨y, q', its', profile', mine, _, file', _⟩
    · rw [none_] at its
      cases its
    · cases its.symm.trans its'
      rw [mine] at owned'
      cases owned_once owned owned' under under'
      cases profile.symm.trans profile'
      exact fresh found member (file'.trans file.symm)

/-- A sweep judges a handle file as it would have been judged at the start. -/
theorem Carried.verdict_eq {dryRun : Bool} {ms : List Match} (carried : Carried dryRun s t ms)
    (foundIn : FoundIn env opts s ms) (paired : OneToOne s) {key : String}
    (within : startsWith key "handles/" = true) (fresh : ∀ found ∈ ms, found.key ≠ key) :
    verdict env opts t.objects key = verdict env opts s.objects key := by
  refine verdict_congr (carried.kept key (.inr (handle_spared within fresh))) ?_
  intro h projected named pre owned k under
  exact carried.kept k (.inr (foundIn.owned_spared paired within fresh projected named owned under))

/-- A deletion removes exactly what goes with the match. -/
theorem deleteMatch_alone (takes : TakesPage limit) (paired : OneToOne s) {key : String}
    (within : startsWith key "handles/" = true) {found : Match}
    (here : matchAt env opts s.objects key = some found) (pages : Nat)
    (enough : ∀ pre, (keysUnder t pre).length < 1000 * pages) :
    Interaction.Ends (Alone limit m i) (deleteMatch pages key (found.policy, found.profile)).run t
      fun r u => r = .ok () ∧ (∀ k, found.Takes k → u.objects.get k = none) ∧
        ∀ k, ¬ found.Takes k → u.objects.get k = t.objects.get k := by
  have mine := matchAt_key here
  rcases match_cases paired within here with
    ⟨tombstone, none_⟩ | ⟨x, p, its, _, _, handled, file, account⟩
  · -- a tombstone goes alone
    rw [tombstone, none_]
    refine (Sweep.delete_alone key).weaken fun r u deleted => ⟨deleted.1, fun k gone => ?_, fun k other => ?_⟩
    · rcases gone with rfl | ⟨p, its, _⟩
      · rw [deleted.2, Sys.remove, ObjectMap.get_eraseAll, if_pos (by simp [mine])]
      · rw [none_] at its
        cases its
    · rw [deleted.2, Sys.remove, ObjectMap.get_eraseAll, if_neg]
      intro listed
      exact other (.inl ((List.mem_singleton.mp listed).trans mine.symm))
  · -- an account goes with its handle, which is the key
    have goes (k : String) : found.Takes k ↔ GoesWith p k := by
      rw [Match.Takes, GoesWith, its, mine, file]
      constructor
      · rintro (same | ⟨q, ⟨⟩, owned⟩)
        · exact .inr ⟨handled, same⟩
        · exact .inl owned
      · rintro (owned | ⟨_, same⟩)
        · exact .inr ⟨p, rfl, owned⟩
        · exact .inl same
    have wiped := deleteUser_alone (i := i) (m := m) takes pages p fun pre _ => enough pre
    have deletes : deleteMatch pages key (found.policy, found.profile) = deleteUser pages p := by
      rw [its]
      cases kind : found.policy with
      | tombstone => exact absurd kind account
      | abandoned => rfl
      | inactive => rfl
    rw [deletes]
    refine wiped.weaken fun r u after => ⟨after.1, fun k its => ?_, fun k other => ?_⟩
    · exact after.2.1 k ((goes k).mp its)
    · exact after.2.2 k fun its => other ((goes k).mpr its)

/-- One handle file. -/
theorem sweepHandle_alone (takes : TakesPage limit) (paired : OneToOne s) {pages : Nat}
    (enough : s.objects.entries.length < 1000 * pages) {ms : List Match}
    (carried : Carried opts.dryRun s t ms) (foundIn : FoundIn env opts s ms) {key : String}
    (within : startsWith key "handles/" = true) (fresh : ∀ found ∈ ms, found.key ≠ key)
    (res : CleanupResult) :
    Interaction.Ends (Alone limit m i) (sweepHandle env opts pages res key).run t fun r u =>
      r = .ok (res.judge (verdict env opts s.objects key)) ∧
        Carried opts.dryRun s u (ms ++ (matchAt env opts s.objects key).toList) := by
  have same := carried.verdict_eq foundIn paired within fresh
  unfold sweepHandle
  refine Sweep.andThen (Sweep.attempted (evaluateUser_alone env opts key))
    (fun _ _ wrong => nomatch wrong) ?_
  rintro _ t ⟨_, ⟨⟩, rfl, rfl⟩
  rw [same]
  rcases judged : verdict env opts s.objects key with e | (_ | ⟨policy, profile⟩)
  · refine .ret ⟨rfl, ?_⟩
    rw [matchAt, judged, Option.toList_none, List.append_nil]
    exact carried
  · refine .ret ⟨rfl, ?_⟩
    rw [matchAt, judged, Option.toList_none, List.append_nil]
    exact carried
  · have here : matchAt env opts s.objects key = some ⟨key, policy, profile⟩ := by rw [matchAt, judged]
    rw [here, Option.toList_some]
    dsimp only
    cases mode : opts.dryRun with
    | true =>
      rw [mode] at carried
      exact .ret ⟨rfl, carried.passed _⟩
    | false =>
      rw [mode] at carried
      refine Sweep.andThen (Sweep.attempted (deleteMatch_alone takes paired within here pages fun pre =>
        lt_of_le_of_lt (carried.fewer pre) enough)) (fun _ _ wrong => nomatch wrong) ?_
      rintro _ u ⟨_, ⟨⟩, rfl, gone, kept⟩
      exact .ret ⟨rfl, carried.removed gone kept⟩

/-- A match is of the key that was judged. -/
theorem matchAt_self {objects : ObjectMap String Data} {key : String} {found : Match}
    (here : matchAt env opts objects key = some found) : matchAt env opts objects found.key = some found := by
  rw [matchAt_key here]
  exact here

theorem mem_filterMap_matchAt {objects : ObjectMap String Data} {keys : List String} {n : Nat} {found : Match}
    (member : found ∈ (keys.filterMap (matchAt env opts objects)).take n) :
    found.key ∈ keys ∧ matchAt env opts objects found.key = some found := by
  obtain ⟨key, listed, here⟩ := List.mem_filterMap.mp (List.mem_of_mem_take member)
  exact ⟨(matchAt_key here).symm ▸ listed, matchAt_self here⟩

/-- The matches of a listing, taken one file at a time. -/
theorem take_matches (objects : ObjectMap String Data) (key : String) (rest : List String) (done : Nat)
    (room : done < opts.batchSize) :
    ((key :: rest).filterMap (matchAt env opts objects)).take (opts.batchSize - done) =
      (matchAt env opts objects key).toList ++ (rest.filterMap (matchAt env opts objects)).take
        (opts.batchSize - (done + (matchAt env opts objects key).toList.length)) := by
  rw [List.filterMap_cons]
  cases matchAt env opts objects key with
  | none => simp
  | some found =>
    obtain ⟨n, left⟩ : ∃ n, opts.batchSize - done = n + 1 := ⟨opts.batchSize - done - 1, by omega⟩
    have less : opts.batchSize - (done + 1) = n := by omega
    simp [left, less]

/-- The matches of a listing, taken one page at a time. -/
theorem take_matches_page (objects : ObjectMap String Data) (keys : List String) (res : CleanupResult) :
    (keys.filterMap (matchAt env opts objects)).take (opts.batchSize - res.deleted) =
      ((keys.take 1000).filterMap (matchAt env opts objects)).take (opts.batchSize - res.deleted) ++
        ((keys.drop 1000).filterMap (matchAt env opts objects)).take
          (opts.batchSize - (tally env opts objects (keys.take 1000) res).deleted) := by
  rw [filterMap_pages, List.take_append, tally_deleted]
  congr 2
  omega

/-- One page of handle files. -/
theorem sweepPage_alone (takes : TakesPage limit) (paired : OneToOne s) {pages : Nat}
    (enough : s.objects.entries.length < 1000 * pages) {keys : List String}
    (handles : ∀ key ∈ keys, startsWith key "handles/" = true) (once : keys.Nodup) {ms : List Match}
    (carried : Carried opts.dryRun s t ms) (foundIn : FoundIn env opts s ms)
    (fresh : ∀ key ∈ keys, ∀ found ∈ ms, found.key ≠ key) (res : CleanupResult) :
    Interaction.Ends (Alone limit m i) (sweepPage env opts pages keys res).run t fun r u =>
      r = .ok (tally env opts s.objects keys res) ∧ Carried opts.dryRun s u
        (ms ++ (keys.filterMap (matchAt env opts s.objects)).take (opts.batchSize - res.deleted)) := by
  induction keys generalizing t ms res with
  | nil => exact .ret ⟨rfl, by simpa using carried⟩
  | cons key rest ih =>
    obtain ⟨apart, once'⟩ := List.nodup_cons.mp once
    have within := handles key (by simp)
    unfold sweepPage tally
    dsimp only
    split
    -- the batch is full: the rest of the page is not looked at
    next full =>
      have full : opts.batchSize ≤ res.deleted := full
      refine .ret ⟨rfl, ?_⟩
      rw [Nat.sub_eq_zero_of_le full, List.take_zero, List.append_nil]
      exact carried
    next room =>
      have room : ¬ opts.batchSize ≤ res.deleted := room
      refine Sweep.andThen (sweepHandle_alone takes paired enough carried foundIn within
        (fresh key (by simp)) _) (fun _ _ wrong => by cases wrong.1) ?_
      rintro _ u ⟨⟨⟩, carried'⟩
      rw [take_matches s.objects key rest res.deleted (Nat.lt_of_not_le room), ← List.append_assoc]
      have mine {found : Match} (member : found ∈ (matchAt env opts s.objects key).toList) :
          found.key = key ∧ matchAt env opts s.objects found.key = some found := by
        have here := Option.mem_toList.mp member
        exact ⟨matchAt_key here, matchAt_self here⟩
      have foundIn' : FoundIn env opts s (ms ++ (matchAt env opts s.objects key).toList) := by
        intro found member
        rcases List.mem_append.mp member with earlier | new
        · exact foundIn found earlier
        · exact ⟨(mine new).1 ▸ within, (mine new).2⟩
      -- no handle is listed twice, so the match is of none before it
      have fresh' : ∀ k ∈ rest, ∀ found ∈ ms ++ (matchAt env opts s.objects key).toList,
          found.key ≠ k := by
        intro k later found member
        rcases List.mem_append.mp member with earlier | new
        · exact fresh k (by simp [later]) found earlier
        · rw [(mine new).1]
          exact fun same => apart (same ▸ later)
      have goes := ih (fun k later => handles k (by simp [later])) once' carried' foundIn' fresh'
        (CleanupResult.judge { res with handlesScanned := res.handlesScanned + 1 }
          (verdict env opts s.objects key))
      rw [judge_deleted] at goes
      exact goes

/-- The pages of handle files. -/
theorem sweepHandles_alone (takes : TakesPage limit) (paired : OneToOne s) {pages : Nat}
    (enough : s.objects.entries.length < 1000 * pages) (rounds : Nat) {cursor : Option String}
    {keys : List String} (listed : s.objects.keysAfter (startsWith · "handles/") cursor = keys)
    (rounds_ : keys.length < 1000 * rounds) {ms : List Match} (carried : Carried opts.dryRun s t ms)
    (foundIn : FoundIn env opts s ms) (fresh : ∀ key ∈ keys, ∀ found ∈ ms, found.key ≠ key)
    (res : CleanupResult) :
    Interaction.Ends (Alone limit m i) (sweepHandles env opts pages rounds cursor res).run t fun r u =>
      r = .ok (tallyPages env opts s.objects rounds keys res) ∧ Carried opts.dryRun s u
        (ms ++ (keys.filterMap (matchAt env opts s.objects)).take (opts.batchSize - res.deleted)) := by
  induction rounds generalizing t cursor keys ms res with
  | zero => exact absurd rounds_ (Nat.not_lt_zero _)
  | succ rounds ih =>
    unfold sweepHandles tallyPages
    dsimp only
    split
    next full =>
      refine .ret ⟨rfl, ?_⟩
      rw [Nat.sub_eq_zero_of_le full, List.take_zero, List.append_nil]
      exact carried
    next room =>
      have handles {key : String} (member : key ∈ keys) : startsWith key "handles/" = true := by
        rw [← listed] at member
        exact ((ObjectMap.mem_keysAfter _ _ _ key).mp member).2.1
      have once : keys.Nodup := listed ▸ s.objects.keysAfter_nodup _ cursor
      -- The files that were not reached yet are listed as they were at the start.
      have relisted : t.objects.keysAfter (startsWith · "handles/") cursor = keys := by
        rw [← listed]
        refine ObjectMap.keysAfter_congr fun key within after => ?_
        constructor
        · rintro ⟨d, here⟩
          exact ⟨d, carried.earlier here⟩
        · rintro ⟨d, here⟩
          have later : key ∈ keys :=
            listed ▸ (ObjectMap.mem_keysAfter _ _ _ key).mpr ⟨⟨d, here⟩, within, after⟩
          rw [carried.kept key (.inr (handle_spared within (fresh key later)))]
          exact ⟨d, here⟩
      have paged : t.objects.page (startsWith · "handles/") HANDLES_PAGE_SIZE cursor =
          s.objects.page (startsWith · "handles/") 1000 cursor := by
        rw [ObjectMap.page, ObjectMap.page, relisted, listed]
        rfl
      refine Sweep.andThen (Sweep.list_alone "handles/" HANDLES_PAGE_SIZE cursor)
        (fun _ _ wrong => by cases wrong.2) ?_
      rintro _ t ⟨rfl, ⟨⟩⟩
      have first : (t.listing "handles/" HANDLES_PAGE_SIZE cursor).keys = keys.take 1000 := by
        rw [Sys.listing, paged, ObjectMap.page_take, listed]
      rw [first]
      refine Sweep.andThen (sweepPage_alone takes paired enough (fun key member => handles
        (List.mem_of_mem_take member)) (once.sublist (List.take_sublist _ _)) carried foundIn
        (fun key member => fresh key (List.mem_of_mem_take member)) res)
        (fun _ _ wrong => by cases wrong.1) ?_
      rintro _ u ⟨⟨⟩, carried'⟩
      have next : (t.listing "handles/" HANDLES_PAGE_SIZE cursor).nextCursor =
          (s.objects.page (startsWith · "handles/") 1000 cursor).2 := by rw [Sys.listing, paged]
      rw [next]
      by_cases short : keys.length ≤ 1000
      · rw [ObjectMap.page_last (by rw [listed]; exact short), if_pos short]
        rw [List.take_of_length_le short] at carried' ⊢
        exact .ret ⟨rfl, carried'⟩
      · obtain ⟨last, ends, rest⟩ := ObjectMap.page_next (m := s.objects) (p := (startsWith · "handles/"))
          (by decide : 0 < 1000) (by rw [listed]; exact short)
        rw [listed] at rest
        rw [ends, if_neg short]
        have fewer : (keys.drop 1000).length < 1000 * rounds := by
          rw [List.length_drop]
          omega
        have apart := List.disjoint_take_drop once (le_refl 1000)
        have goes := ih rest fewer carried'
          (fun found member => (List.mem_append.mp member).elim (foundIn found) fun new =>
            have mine := mem_filterMap_matchAt new
            ⟨handles (List.mem_of_mem_take mine.1), mine.2⟩)
          (fun key later found member => (List.mem_append.mp member).elim
            (fresh key (List.mem_of_mem_drop later) found) fun new same =>
              apart (same ▸ (mem_filterMap_matchAt new).1) later)
          (tally env opts s.objects (keys.take 1000) res)
        rw [take_matches_page, ← List.append_assoc]
        exact goes

theorem tally_mode (dryRun : Bool) (objects : ObjectMap String Data) (keys : List String)
    (res : CleanupResult) :
    tally env { opts with dryRun } objects keys res = tally env opts objects keys res := by
  induction keys generalizing res with
  | nil => rfl
  | cons k rest ih =>
    unfold tally
    dsimp only
    rw [ih]
    rfl

/-- The counts are those of the policy and the batch size, in either mode. -/
theorem tallyPages_mode (dryRun : Bool) (objects : ObjectMap String Data) (rounds : Nat)
    (keys : List String) (res : CleanupResult) :
    tallyPages env { opts with dryRun } objects rounds keys res =
      tallyPages env opts objects rounds keys res := by
  induction rounds generalizing keys res with
  | zero => rfl
  | succ rounds ih =>
    unfold tallyPages
    dsimp only
    rw [ih, tally_mode]

/-- The cleanup, in either mode. -/
theorem runCleanup_alone (takes : TakesPage limit) (paired : OneToOne s) {pages : Nat}
    (enough : s.objects.entries.length < 1000 * pages) :
    Interaction.Ends (Alone limit m i) (runCleanup env pages opts).run s fun r t =>
      r = .ok (tallyPages env opts s.objects pages (keysUnder s "handles/") {}) ∧
        Carried opts.dryRun s t (sweepMatches env opts s.objects) :=
  sweepHandles_alone takes paired enough pages rfl
    (lt_of_le_of_lt (s.objects.keysAfter_length_le _ none) enough) (.start opts.dryRun s) nofun nofun {}

/-- A dry run changes nothing and counts what the real run counts, which removes exactly what goes
with the matches. -/
theorem dry_run_predicts (takes : TakesPage limit) (paired : OneToOne s) {pages : Nat}
    (enough : s.objects.entries.length < 1000 * pages) :
    ∃ res : CleanupResult, res.deleted = (sweepMatches env opts s.objects).length ∧
      (Interaction.Ends (Alone limit m i) (runCleanup env pages { opts with dryRun := true }).run s
        fun r t => r = .ok res ∧ ∀ key, t.objects.get key = s.objects.get key) ∧
      Interaction.Ends (Alone limit m i) (runCleanup env pages { opts with dryRun := false }).run s
        fun r t => r = .ok res ∧
          (∀ key, Condemned (sweepMatches env opts s.objects) key → t.objects.get key = none) ∧
          ∀ key, ¬ Condemned (sweepMatches env opts s.objects) key →
            t.objects.get key = s.objects.get key := by
  refine ⟨tallyPages env opts s.objects pages (keysUnder s "handles/") {}, ?_, ?_, ?_⟩
  · have few : (keysUnder s "handles/").length < 1000 * pages :=
      lt_of_le_of_lt (s.objects.keysAfter_length_le _ none) enough
    rw [tallyPages_deleted s.objects pages _ {} few, sweepMatches, List.length_take]
    simp [keysUnder]
  · refine (runCleanup_alone takes paired enough).weaken fun r t cleaned => ⟨?_, fun key => ?_⟩
    · rw [cleaned.1, tallyPages_mode]
    · exact cleaned.2.kept key (.inl rfl)
  · refine (runCleanup_alone takes paired enough).weaken fun r t cleaned =>
      ⟨?_, ?_, fun key apart => ?_⟩
    · rw [cleaned.1, tallyPages_mode]
    · exact cleaned.2.gone rfl
    · exact cleaned.2.kept key (.inr apart)

end DryRun

section Samples

open Sample

theorem swept_paired : OneToOne (sweptSys profile) := by
  intro key h handle projected named
  rcases swept_projections handle projected with ⟨rfl, rfl⟩ | ⟨rfl, rfl⟩
  · refine ⟨user, profile, rfl, ?_, rfl, by decide, rfl⟩
    rw [profileOf, sweptSys, show keyProfile user.str = keyProfile uid from rfl, swept_alice,
      Option.bind_some, Profile.parse_data]
  · exact ⟨bobId, namedBob, rfl, swept_bob profile, rfl, by decide, rfl⟩

theorem swept_matches :
    (sweepMatches env sweepOpts (sweptStore profile)).map Match.key = [keyHandle "alice"] := by
  decide

/-- Alice is matched: the dry run leaves her handle, the real run removes it and leaves Bob's. -/
theorem alice_predicted : ∃ (res : CleanupResult) (t u : Sys Unit),
    Runs (Alone (some S3_DELETE_LIMIT) moment ()) (runCleanup env 2 { sweepOpts with dryRun := true }).run
      (sweptSys profile) (.ok res) t ∧
    Runs (Alone (some S3_DELETE_LIMIT) moment ()) (runCleanup env 2 { sweepOpts with dryRun := false }).run
      (sweptSys profile) (.ok res) u ∧ res.deleted = 1 ∧
    t.objects.get (keyHandle "alice") = some (handleProjection profile).data ∧
    u.objects.get (keyHandle "alice") = none ∧
    u.objects.get (keyHandle "bob") = some (handleProjection namedBob).data := by
  have few : (sweptSys profile).objects.entries.length < 1000 * 2 := by decide
  obtain ⟨res, one, dry, real⟩ : ∃ res : CleanupResult,
      res.deleted = (sweepMatches env sweepOpts (sweptSys profile).objects).length ∧
        Interaction.Ends (Alone (some S3_DELETE_LIMIT) moment ()) _ _ _ ∧ Interaction.Ends _ _ _ _ :=
    dry_run_predicts takes_page swept_paired few
  obtain ⟨_, t, dryRun, rfl, same⟩ := exists_alone dry
  obtain ⟨_, u, realRun, rfl, gone, kept⟩ := exists_alone real
  have keys := swept_matches
  have size := congrArg List.length keys
  rw [List.length_map] at size
  refine ⟨res, t, u, dryRun, realRun, one.trans size, ?_, gone _ ?_, ?_⟩
  · rw [same]
    exact swept_handle profile
  · obtain ⟨found, member, its⟩ := List.mem_map.mp (keys ▸ List.mem_singleton_self (keyHandle "alice"))
    exact ⟨found, member, .inl its.symm⟩
  · rw [kept]
    · exact bobs_handle profile
    · refine handle_spared (keyHandle_within "bob") fun found member same => ?_
      have listed := List.mem_map_of_mem (f := Match.key) member
      rw [show (sweptSys profile).objects = sweptStore profile from rfl, keys, List.mem_singleton,
        same] at listed
      exact absurd (keyHandle_inj listed) (by decide)

end Samples

end Atmin
