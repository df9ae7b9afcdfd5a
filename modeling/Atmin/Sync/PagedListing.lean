import Atmin.Interaction.Pages
import Atmin.Access.Listing
import Atmin.Inbox.Progress
import Atmin.Web.Messaging

/-!
# Every key, once

The browser lists a prefix page by page through `store_list`, the server through the store. What
they collect is a list of every key that stayed there meanwhile, and of no key that never was.
-/

namespace Atmin

open Interaction

/-- Everything the store went through, the latest state first. -/
abbrev Trail (ι : Type) := List (Sys ι)

namespace Trail

variable {ι : Type}

/-- A key under the prefix, in some state. -/
def Ever (h : Trail ι) (pre key : String) : Prop := ∃ s ∈ h, s.objects.Has (startsWith · pre) key

/-- A key under the prefix, in every state. -/
def Always (h : Trail ι) (pre key : String) : Prop := ∀ s ∈ h, s.objects.Has (startsWith · pre) key

end Trail

/-- A request, before which others insert and delete what they like. -/
def Amidst {ι : Type} (i : ι) (o : Op) (h : Trail ι) (r : Res o) (h' : Trail ι) : Prop :=
  ∃ others s t, Faulty i o s r t ∧ h' = t :: s :: (others ++ h)

section Concurrent

variable {ι : Type} {i : ι} {h h' : Trail ι} {pre key : String}

theorem Trail.Ever.later (ever : h.Ever pre key) (grown : h <:+ h') : h'.Ever pre key := by
  obtain ⟨s, member, there⟩ := ever
  exact ⟨s, grown.mem member, there⟩

theorem amidst_suffix {o : Op} {r : Res o} (served : Amidst i o h r h') : h <:+ h' := by
  obtain ⟨others, s, t, _, rfl⟩ := served
  exact ⟨t :: s :: others, by simp⟩

theorem amidst_grows {α : Type} (p : Eff α) : Interaction.Ends (Amidst i) p h fun _ h' => h <:+ h' :=
  fun _ _ run => run.preserves (fun _ _ _ _ served grown => grown.trans (amidst_suffix served))
    (List.suffix_refl h)

/-- A page of a state the history holds. -/
def PageSeen (h : Trail ι) (pre : String) (cursor : Option String) (keys : List String)
    (next : Option String) : Prop :=
  ∃ s ∈ h, IsPage (s.objects.Has (startsWith · pre)) cursor keys next

theorem amidst_page {limit : Nat} {cursor : Option String} {page : ListPage} (some_ : 0 < limit)
    (served : Amidst i (.listObjects pre limit cursor) h (.ok page) h') :
    PageSeen h' pre cursor page.keys page.nextCursor := by
  obtain ⟨others, s, t, listed, rfl⟩ := served
  obtain ⟨_, same | ⟨_, _, _, wrong⟩⟩ := served_listObjects listed
  · cases same
    exact ⟨s, by simp, s.objects.isPage_page _ some_ cursor⟩
  · cases wrong

/-- What a listing loop returns is a list of the keys that were there. -/
def Assembles {ε : Type} (h : Trail ι) (pre : String) (b : String → Prop) (cursor : Option String)
    (r : Except ε (List String)) (h' : Trail ι) : Prop :=
  h <:+ h' ∧ ∀ keys, r = .ok keys → Enumerates (fun k => h'.Ever pre k ∧ b k)
    (fun k => h'.Always pre k ∧ b k) cursor keys

section Assembles

variable {ε : Type} {b : String → Prop} {cursor : Option String} {keys : List String}

theorem Assembles.error {e : ε} (grown : h <:+ h') : Assembles h pre b cursor (.error e) h' :=
  ⟨grown, fun _ wrong => nomatch wrong⟩

/-- The last page. -/
theorem Assembles.last {s : Sys ι} (grown : h <:+ h') (member : s ∈ h')
    (page : IsPage (fun k => s.objects.Has (startsWith · pre) k ∧ b k) cursor keys none) :
    Assembles h pre b cursor (.ok keys : Except ε (List String)) h' := by
  refine ⟨grown, fun _ same => ?_⟩
  cases same
  refine .last page (fun k there => ⟨⟨s, member, there.1⟩, there.2⟩) ?_
  exact fun k there => ⟨there.1 s member, there.2⟩

/-- A page, and what the later rounds gathered. -/
theorem Assembles.next {s : Sys ι} {c : String} {h'' : Trail ι} {more : List String}
    (grown : h <:+ h') (member : s ∈ h')
    (page : IsPage (fun k => s.objects.Has (startsWith · pre) k ∧ b k) cursor keys (some c))
    (rest : Assembles h' pre b (some c) (.ok more : Except ε (List String)) h'') :
    Assembles h pre b cursor (.ok (keys ++ more) : Except ε (List String)) h'' := by
  refine ⟨grown.trans rest.1, fun _ same => ?_⟩
  cases same
  refine .append page (fun k there => ⟨?_, there.2⟩) (fun k there => ⟨?_, there.2⟩) (rest.2 more rfl)
  · exact Trail.Ever.later ⟨s, member, there.1⟩ rest.1
  · exact there.1 s (rest.1.mem member)

end Assembles

/-- No bound at all. -/
abbrev anyKey : String → Prop := fun _ => True

theorem Interaction.IsPage.unbounded {here : String → Prop} {cursor next : Option String}
    {keys : List String} (page : IsPage here cursor keys next) :
    IsPage (fun k => here k ∧ anyKey k) cursor keys next := by simpa using page

/-! ### The loops of the server -/

theorem collectAll_assembles (pages : Nat) (cursor : Option String) :
    Interaction.Ends (Amidst i) (collectAll pre pages cursor).run h
      (Assembles h pre anyKey cursor) := by
  induction pages generalizing h cursor with
  | zero => exact .ret (.error (List.suffix_refl h))
  | succ pages ih =>
    simp only [collectAll, run_bind, run_tryStore, ask_bind, Prog.op_bind]
    refine .op fun r h₁ served => ?_
    have grown := amidst_suffix served
    cases r with
    | error e => exact .ret (.error grown)
    | ok page =>
      obtain ⟨s, member, isPage⟩ := amidst_page (by decide) served
      cases next : page.nextCursor with
      | none =>
        rw [next] at isPage
        simp only [Prog.ret_bind, next]
        exact .ret (.last grown member isPage.unbounded)
      | some c =>
        rw [next] at isPage
        simp only [Prog.ret_bind, next]
        refine Ends.andThen (ih (some c)) (fun e h₂ rest => .error (grown.trans rest.1)) ?_
        intro more h₂ rest
        exact .ret (.next grown member isPage.unbounded rest)

/-- The scan up to a boundary stops at a page that ends past it. -/
theorem collectLive_assembles (boundary : String) (pages : Nat) (cursor : Option String) :
    Interaction.Ends (Amidst i) (collectLive pre boundary pages cursor).run h
      (Assembles h pre (· ≤ boundary) cursor) := by
  induction pages generalizing h cursor with
  | zero => exact .ret (.error (List.suffix_refl h))
  | succ pages ih =>
    simp only [collectLive, run_bind, run_tryStore, ask_bind, Prog.op_bind]
    refine .op fun r h₁ served => ?_
    have grown := amidst_suffix served
    cases r with
    | error e => exact .ret (.error grown)
    | ok page =>
      obtain ⟨s, member, isPage⟩ := amidst_page (by decide) served
      cases next : page.nextCursor with
      | none =>
        rw [next] at isPage
        simp only [Prog.ret_bind, next]
        exact .ret (.last grown member (isPage.upTo (by simp)))
      | some c =>
        rw [next] at isPage
        simp only [Prog.ret_bind, next]
        have ends : page.keys.getLast? = some c := isPage.last c rfl
        rw [ends, Option.any_some]
        split
        next past =>
          refine .ret (.last grown member (isPage.upTo fun d given => ?_))
          cases given
          exact of_decide_eq_true past
        next before =>
          have before : c ≤ boundary := not_lt.mp fun past => before (decide_eq_true past)
          obtain ⟨whole, page_⟩ := isPage.within before
          rw [whole]
          refine Ends.andThen (ih (some c)) (fun e h₂ rest => .error (grown.trans rest.1)) ?_
          intro more h₂ rest
          exact .ret (.next grown member page_ rest)

end Concurrent

/-! ### The loop of the browser -/

namespace Web

/-- The requests of `storeListAll`, answered by `store_list`. -/
def OverHttp {σ : Type} (env : Env) (token : Option String)
    (exec : (o : Op) → σ → Res o → σ → Prop) : (act : Act) → σ → Reply act → σ → Prop
  | .storeList pre cursor, s, r, t =>
    ∃ a, Runs exec (Atmin.storeList env token (some pre) cursor).run s a t ∧
      ∀ listed, r = .ok listed ↔ a = .ok listed
  | _, _, _, _ => False

section Browser

variable {ι : Type} {i : ι} {h : Trail ι} {env : Env} {token : Option String} {pre : String}

theorem nonEmpty_some {x p : String} (named : nonEmpty (some x) = some p) : p = x ∧ x ≠ "" := by
  obtain ⟨same, filled⟩ := Option.filter_eq_some_iff.mp named
  cases same
  exact ⟨rfl, of_decide_eq_true filled⟩

/-- A key under a prefix is not empty, so as a cursor it is told from none. -/
theorem nonEmpty_cursor {here : String → Prop} {cursor next : Option String} {keys : List String}
    (page : IsPage here cursor keys next) (filled : ∀ k, here k → k ≠ "") :
    nonEmpty (some (next.getD "")) = next := by
  cases next with
  | none => rfl
  | some c =>
    have there := (page.sound c (List.mem_of_getLast? (page.last c rfl))).1
    simp [nonEmpty, filled c there]

theorem under_nonempty {s : Sys ι} (filled : pre ≠ "") {k : String}
    (there : s.objects.Has (startsWith · pre) k) : k ≠ "" := by
  rintro rfl
  obtain ⟨rest, same⟩ := startsWith_iff.mp there.1
  have none_ : pre.toList = [] := (List.append_eq_nil_iff.mp same.symm).1
  exact filled (String.toList_inj.mp none_)

theorem storeList_page (cursor : Option String) :
    Interaction.Ends (Amidst i) (Atmin.storeList env token (some pre) cursor).run h fun r h' =>
      h <:+ h' ∧ ∀ listed, r = .ok listed →
        PageSeen h' pre (nonEmpty cursor) listed.keys (nonEmpty (some listed.nextCursor)) := by
  unfold Atmin.storeList
  refine Ends.andThen (amidst_grows _) (fun e _ grown => ⟨grown, fun _ wrong => nomatch wrong⟩)
    fun user h₁ grown => ?_
  refine Ends.orFail (fun _ => ⟨grown, fun _ wrong => nomatch wrong⟩) fun p named => ?_
  obtain ⟨rfl, filled⟩ := nonEmpty_some named
  refine Ends.checked (fun _ => ⟨grown, fun _ wrong => nomatch wrong⟩) fun _ => ?_
  simp only [run_bind, run_tryStore, ask_bind, Prog.op_bind]
  refine .op fun r h₂ served => ?_
  have grown₂ := grown.trans (amidst_suffix served)
  cases r with
  | error e => exact .ret ⟨grown₂, fun _ wrong => nomatch wrong⟩
  | ok page =>
    obtain ⟨s, member, isPage⟩ := amidst_page (by decide) served
    refine .ret ⟨grown₂, fun listed same => ?_⟩
    cases same
    refine ⟨s, member, ?_⟩
    rw [nonEmpty_cursor isPage fun k there => under_nonempty filled there]
    exact isPage

theorem storeListAll_assembles (pages : Nat) (cursor : Option String) :
    Interaction.Ends (OverHttp env token (Amidst i)) (storeListAll pre pages cursor).run h
      (Assembles h pre anyKey (nonEmpty cursor)) := by
  induction pages generalizing h cursor with
  | zero => exact .ret (.error (List.suffix_refl h))
  | succ pages ih =>
    simp only [storeListAll, Async.run_bind, run_await, step_bind]
    refine .op fun r h₁ ⟨a, ran, answered⟩ => ?_
    obtain ⟨grown, seen⟩ := storeList_page cursor a h₁ ran
    cases r with
    | error e => exact .ret (.error grown)
    | ok listed =>
      obtain ⟨s, member, isPage⟩ := seen listed ((answered listed).mp rfl)
      by_cases done : listed.nextCursor = ""
      · have last : nonEmpty (some listed.nextCursor) = none := by rw [done]; rfl
        rw [last] at isPage
        simp only [if_pos done]
        exact .ret (.last grown member isPage.unbounded)
      · have next : nonEmpty (some listed.nextCursor) = some listed.nextCursor := by
          simp [nonEmpty, done]
        simp only [if_neg done, Async.run_bind]
        have rest := ih (h := h₁) (some listed.nextCursor)
        rw [next] at isPage rest
        refine .bind rest fun r h₂ more => ?_
        cases r with
        | error e => exact .ret (.error (grown.trans more.1))
        | ok keys => exact .ret (.next grown member isPage.unbounded more)

end Browser

/-! ### Nobody else -/

section Quiet

variable {ι : Type} {limit : Option Nat} {m : Moment} {i : ι} {s : Sys ι} {env : Env}
  {token : Option String} {user : AuthedUser} {pre : String}

theorem currentKeyVersion_cached {u : UserId} {p : Profile} {kv : UInt32}
    (stored : profileOf u s = some p) (current : p.currentKv = kv)
    (cached : ∀ kv', (u.str, kv') ∈ s.profileCache → kv' = kv) :
    Interaction.Ends (Alone limit m i) (currentKeyVersion u.str).run s fun _ t =>
      ∀ kv', (u.str, kv') ∈ t.profileCache → kv' = kv := by
  unfold currentKeyVersion
  refine Ends.call fun hit t served => ?_
  obtain ⟨rfl, _⟩ := served_profileCacheGet (alone_healthy served nofun nofun nofun)
  cases hit with
  | some kv' => exact .ret cached
  | none =>
    refine Ends.call fun found t served => ?_
    obtain ⟨rfl, rfl⟩ := alone_getObject served
    obtain ⟨d, here, parsed⟩ := Option.bind_eq_some_iff.mp stored
    rw [lookup_eq_ok.mpr here]
    refine Ends.orFail (fun failed => absurd (failed.symm.trans parsed) nofun) fun p' parsed' => ?_
    cases parsed.symm.trans parsed'
    refine Ends.call fun _ t served => .ret fun kv' member => ?_
    obtain ⟨entered | known, _⟩ := served_profileCache (alone_healthy served nofun nofun nofun) member
    · cases entered
      exact current
    · exact cached kv' known

theorem authenticate_cached (admits : Admits env token user s) :
    Interaction.Ends (Alone limit m i) (authenticate env token true).run s fun _ t =>
      ∀ kv, (user.userId.str, kv) ∈ t.profileCache → kv = user.keyVersion.get := by
  rw [authenticate_known admits.identity, admitUser]
  refine Ends.andThen (checkDevice_alone admits.device) (fun _ _ wrong => by cases wrong.1)
    fun _ t checked => ?_
  obtain ⟨_, objects, cache⟩ := checked
  obtain ⟨p, stored, current⟩ := admits.profile
  rw [if_pos rfl]
  have known : ∀ kv, (user.userId.str, kv) ∈ t.profileCache → kv = user.keyVersion.get := by
    rw [cache]
    exact admits.cached
  have stored' : profileOf user.userId t = some p := by
    rw [profileOf, objects]
    exact stored
  refine Ends.andThen (currentKeyVersion_cached stored' current known) (fun _ _ kept => kept) ?_
  exact fun kv v kept => Ends.checked (fun _ => kept) fun _ => .ret kept

/-- The guard lets the same token in again. -/
theorem authenticate_again (admits : Admits env token user s) :
    Interaction.Ends (Alone limit m i) (authenticate env token true).run s fun r t =>
      r = .ok user ∧ t.objects = s.objects ∧ Admits env token user t := by
  intro r t run
  obtain ⟨ok, same⟩ := authenticate_alone admits r t run
  refine ⟨ok, same, admits.kept (fun _ => ?_) (authenticate_cached admits r t run)⟩
  rw [same]

theorem authorized_nonempty {uid : String} (allowed : authorizePrefix uid pre = true) : pre ≠ "" := by
  rintro rfl
  rcases authorizePrefix_iff.mp allowed with mine | shown
  · obtain ⟨name, rest, _, _, _, same⟩ := mine.segments
    exact absurd (congrArg List.length same) (by simp)
  · exact absurd shown (by decide)

theorem storeList_alone (admits : Admits env token user s)
    (allowed : authorizePrefix user.userId.str pre = true) (cursor : Option String) :
    Interaction.Ends (Alone limit m i) (Atmin.storeList env token (some pre) cursor).run s fun r t =>
      r = .ok ⟨(s.listing pre STORE_LIST_LIMIT (nonEmpty cursor)).keys,
          (s.listing pre STORE_LIST_LIMIT (nonEmpty cursor)).nextCursor.getD ""⟩ ∧
        t.objects = s.objects ∧ Admits env token user t := by
  unfold Atmin.storeList
  refine Ends.andThen (authenticate_again admits) (fun _ _ wrong => nomatch wrong.1) ?_
  rintro _ t ⟨⟨⟩, same, again⟩
  have named : nonEmpty (some pre) = some pre := by simp [nonEmpty, authorized_nonempty allowed]
  rw [named]
  refine Ends.orFail nofun fun p given => ?_
  cases given
  refine Ends.checked (fun wrong => absurd wrong (by simp [allowed])) fun _ => ?_
  simp only [run_bind, run_tryStore, ask_bind, Prog.op_bind]
  refine .op fun r v served => ?_
  obtain ⟨rfl, rfl⟩ := alone_listObjects served
  refine .ret ⟨?_, same, again⟩
  simp only [Sys.listing, same]

/-- Alone, the browser gets the keys, if it asks for enough pages. -/
theorem storeListAll_alone (admits : Admits env token user s)
    (allowed : authorizePrefix user.userId.str pre = true) (pages : Nat) (cursor : Option String)
    (enough : (s.objects.keysAfter (startsWith · pre) (nonEmpty cursor)).length < 50 * pages) :
    Interaction.Ends (OverHttp env token (Alone limit m i)) (storeListAll pre pages cursor).run s
      fun r _ => r = .ok (s.objects.keysAfter (startsWith · pre) (nonEmpty cursor)) := by
  induction pages generalizing s cursor with
  | zero => exact absurd enough (Nat.not_lt_zero _)
  | succ pages ih =>
    simp only [storeListAll, Async.run_bind, run_await, step_bind]
    refine .op fun r t ⟨a, ran, answered⟩ => ?_
    obtain ⟨rfl, same, again⟩ := storeList_alone admits allowed cursor a t ran
    obtain rfl := (answered _).mpr rfl
    have first : (s.listing pre STORE_LIST_LIMIT (nonEmpty cursor)).keys =
        (s.objects.keysAfter (startsWith · pre) (nonEmpty cursor)).take 50 :=
      ObjectMap.page_take _ _ _ _
    by_cases short : (s.objects.keysAfter (startsWith · pre) (nonEmpty cursor)).length ≤ 50
    · -- the last page: the listing says so
      have last : (s.listing pre STORE_LIST_LIMIT (nonEmpty cursor)).nextCursor = none :=
        ObjectMap.page_last short
      simp only [last, Option.getD_none, if_pos]
      refine .ret ?_
      rw [first, List.take_of_length_le short]
    · -- else it goes on behind the last key, with fifty keys fewer
      obtain ⟨c, next, rest⟩ := ObjectMap.page_next (m := s.objects) (p := (startsWith · pre))
        (by decide : 0 < 50) short
      have next : (s.listing pre STORE_LIST_LIMIT (nonEmpty cursor)).nextCursor = some c := next
      have isPage := s.objects.isPage_page (startsWith · pre) (by decide : 0 < 50) (nonEmpty cursor)
      have filled : c ≠ "" :=
        under_nonempty (authorized_nonempty allowed)
          (isPage.sound c (List.mem_of_getLast? (isPage.last c next))).1
      have given : nonEmpty (some c) = some c := by simp [nonEmpty, filled]
      simp only [next, Option.getD_some, if_neg filled, Async.run_bind]
      rw [← same] at rest
      have enough' :
          (t.objects.keysAfter (startsWith · pre) (nonEmpty (some c))).length < 50 * pages := by
        rw [given, rest, List.length_drop]
        rw [same]
        omega
      refine .bind (ih again (some c) enough') fun r v more => ?_
      rw [more, given, rest, first, ← same]
      exact .ret (by rw [List.take_append_drop])

/-- The browser is answered. -/
theorem exists_listed (pages : Nat) (cursor : Option String) :
    ∃ r t, Runs (OverHttp env token (Alone limit m i)) (storeListAll pre pages cursor).run s r t := by
  induction pages generalizing s cursor with
  | zero => exact ⟨_, _, .ret _ _⟩
  | succ pages ih =>
    simp only [storeListAll, Async.run_bind, run_await, step_bind]
    obtain ⟨a, t, ran⟩ := exists_runs (alone_total limit m i)
      (Atmin.storeList env token (some pre) cursor).run s
    cases a with
    | error e =>
      have answer : OverHttp env token (Alone limit m i) (.storeList pre cursor) s (.error .failed) t :=
        ⟨_, ran, fun _ => ⟨nofun, nofun⟩⟩
      exact ⟨_, _, .op answer (.ret _ _)⟩
    | ok listed =>
      have answer : OverHttp env token (Alone limit m i) (.storeList pre cursor) s (.ok listed) t :=
        ⟨_, ran, fun _ => by simp⟩
      by_cases done : listed.nextCursor = ""
      · refine ⟨.ok listed.keys, t, .op answer ?_⟩
        simp only [if_pos done]
        exact .ret _ _
      · obtain ⟨r, u, rest⟩ := ih (s := t) (some listed.nextCursor)
        cases r with
        | error e =>
          refine ⟨.error e, u, .op answer ?_⟩
          simp only [if_neg done, Async.run_bind]
          exact runs_bind.mpr ⟨_, u, rest, .ret _ _⟩
        | ok more =>
          refine ⟨.ok (listed.keys ++ more), u, .op answer ?_⟩
          simp only [if_neg done, Async.run_bind]
          exact runs_bind.mpr ⟨_, u, rest, .ret _ _⟩

end Quiet

end Web

/-! ### Every key, once -/

section Once

variable {O : Type} {R : O → Type} {ε ι : Type}

/-- With pages enough the loop ends, and returns the keys there are, each once and in order. -/
def ReturnsAll (exec : (o : O) → Sys ι → R o → Sys ι → Prop)
    (loop : Nat → Prog O R (Except ε (List String))) (s : Sys ι) (there : String → Prop) : Prop :=
  ∃ rounds, ∀ pages ≥ rounds, (∃ r t, Runs exec (loop pages) s r t) ∧
    ∀ r t, Runs exec (loop pages) s r t → ∃ keys, r = .ok keys ∧ Enumerates there there none keys

/-- Whatever comes and goes, the loop returns all that stays, and nothing that never was. -/
def ReturnsSeen (exec : (o : O) → Trail ι → R o → Trail ι → Prop)
    (loop : Nat → Prog O R (Except ε (List String))) (pre : String) (b : String → Prop) : Prop :=
  ∀ pages keys h, Runs exec (loop pages) [] (.ok keys) h →
    Enumerates (fun k => h.Ever pre k ∧ b k) (fun k => h.Always pre k ∧ b k) none keys

theorem returnsSeen {exec : (o : O) → Trail ι → R o → Trail ι → Prop}
    {loop : Nat → Prog O R (Except ε (List String))} {pre : String} {b : String → Prop}
    (assembles : ∀ pages, Interaction.Ends exec (loop pages) [] (Assembles [] pre b none)) :
    ReturnsSeen exec loop pre b :=
  fun pages keys h run => (assembles pages _ h run).2 keys rfl

/-- The listing loops of the browser and of the server return every key once. -/
theorem paging_returns_all (i : ι) (env : Env) (token : Option String) (pre boundary : String) :
    (∀ limit m user s, Admits env token user s → authorizePrefix user.userId.str pre = true →
      ReturnsAll (Web.OverHttp env token (Alone limit m i))
        (fun pages => (Web.storeListAll pre pages none).run) s (s.objects.Has (startsWith · pre))) ∧
    (∀ limit m s, ReturnsAll (Alone limit m i) (fun pages => (collectAll pre pages none).run) s
      (s.objects.Has (startsWith · pre))) ∧
    (∀ limit m s, ReturnsAll (Alone limit m i)
      (fun pages => (collectLive pre boundary pages none).run) s
      fun k => s.objects.Has (startsWith · pre) k ∧ k ≤ boundary) ∧
    ReturnsSeen (Web.OverHttp env token (Amidst i))
      (fun pages => (Web.storeListAll pre pages none).run) pre anyKey ∧
    ReturnsSeen (Amidst i) (fun pages => (collectAll pre pages none).run) pre anyKey ∧
    ReturnsSeen (Amidst i) (fun pages => (collectLive pre boundary pages none).run) pre
      (· ≤ boundary) := by
  have few (s : Sys ι) {n pages : Nat} (some_ : 0 < n) (enough : pages ≥ s.objects.entries.length + 1) :
      (s.objects.keysAfter (startsWith · pre) none).length < n * pages :=
    calc (s.objects.keysAfter (startsWith · pre) none).length
      _ ≤ s.objects.entries.length := s.objects.keysAfter_length_le _ none
      _ < pages := enough
      _ ≤ n * pages := Nat.le_mul_of_pos_left pages some_
  refine ⟨fun limit m user s admits allowed => ?_, fun limit m s => ?_, fun limit m s => ?_, ?_, ?_, ?_⟩
  · refine ⟨s.objects.entries.length + 1, fun pages enough => ⟨Web.exists_listed pages none, ?_⟩⟩
    intro r t run
    exact ⟨_, Web.storeListAll_alone admits allowed pages none (few s (by decide) enough) r t run,
      s.objects.enumerates_keysAfter _ none⟩
  · refine ⟨s.objects.entries.length + 1, fun pages enough =>
      ⟨exists_runs (alone_total limit m i) _ s, fun r t run => ?_⟩⟩
    exact ⟨_, (collectAll_alone pages none (few s (by decide) enough) r t run).2,
      s.objects.enumerates_keysAfter _ none⟩
  · refine ⟨s.objects.entries.length + 1, fun pages enough =>
      ⟨exists_runs (alone_total limit m i) _ s, fun r t run => ?_⟩⟩
    exact ⟨_, (collectLive_alone pages none (few s (by decide) enough) r t run).2,
      (s.objects.enumerates_keysAfter _ none).upTo boundary⟩
  · exact returnsSeen fun pages => Web.storeListAll_assembles pages none
  · exact returnsSeen fun pages => collectAll_assembles pages none
  · exact returnsSeen fun pages => collectLive_assembles boundary pages none

end Once

section Samples

open Sample

/-- A live inbox of more than two pages is returned as a whole to its owner. -/
theorem crowd_returned :
    2 * STORE_LIST_LIMIT < ((withMail (crowd 120)).objects.keysAfter
      (startsWith · (prefixInboxLive uid)) none).length ∧
    ReturnsAll (Web.OverHttp env token (Alone (some S3_DELETE_LIMIT) moment ()))
      (fun pages => (Web.storeListAll (prefixInboxLive uid) pages none).run) (withMail (crowd 120))
      ((withMail (crowd 120)).objects.Has (startsWith · (prefixInboxLive uid))) := by
  constructor
  · have listed := (crowd_listed 120).trans (List.length_filter_le _ _)
    exact Nat.lt_of_lt_of_le (by decide) listed
  · have own : authorizePrefix authed.userId.str (prefixInboxLive uid) = true := by decide +kernel
    exact (paging_returns_all () env token (prefixInboxLive uid) "").1 (some S3_DELETE_LIMIT) moment
      authed (withMail (crowd 120)) (withMail_admits _) own

end Samples

end Atmin
