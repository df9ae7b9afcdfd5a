import Atmin.Access.ProfileInvariant
import Atmin.Access.Requests
import Atmin.Retention.Deletion
import Atmin.Rotation.Ledger
import Atmin.Server.Sample

/-!
# Requests that outlive a deletion

A request that was admitted before the deletion of its account still writes what it has read
before. Whether the account stays deleted depends on which of these writes come after the
deletion has listed, wiped and buried what they write.
-/

namespace Atmin

open Interaction

/-- A request or task of the account that was admitted before the deletion. -/
inductive Straggler where
  | writer (writer : ProfileWriter)
  | addDevice (body : Option Json)

def Straggler.run (env : Env) (u : UserId) : Straggler → Handler Unit
  | writer w => do
    let _ ← w.run env u
    pure ()
  | addDevice body => do
    let _ ← Atmin.addDevice env body
    pure ()

/-- Writers of the profile are of this account. -/
def Straggler.OnAccount (env : Env) (u : UserId) (r : Straggler) : Prop :=
  ∀ w, r = .writer w → w.OnAccount env u

section Race

variable {ι : Type}

/-- The keys of a page of this prefix that a logged request has listed. -/
def Interaction.Event.listed (pre : String) : Event ι Op Res → Option (List String)
  | ⟨_, .listObjects p _ _, .ok page⟩ => if p = pre then some page.keys else none
  | _ => none

/-- The deletion, slot `none`, among requests of the same account. -/
abbrev deletionRace (env : Env) (u : UserId) (token : Option String) (req : ι → Straggler)
    (C : Option ι → Op → Log (Option ι) → Prop) :
    System (Option ι) Op Res (Except ApiError Unit) (Log (Option ι)) where
  prog
    | none => (deleteProfile env token).run
    | some j => ((req j).run env u).run
  exec := Logged C

/-- The deletion finds no more than a page under a prefix. -/
def pageFits (i : Option ι) (o : Op) (s : Log (Option ι)) : Bool :=
  match i, o with
  | none, .listObjects pre _ _ => decide ((keysUnder s.state pre).length ≤ 1000)
  | _, _ => true

abbrev PageFits (i : Option ι) (o : Op) (s : Log (Option ι)) : Prop := pageFits i o s = true

/-- The deletion is still to remove the key: its listing, once made, names it. -/
def Awaits (u : UserId) (key : String) (trace : List (Event (Option ι) Op Res)) : Prop :=
  ∀ e ∈ trace, e.by_ = none →
    (∀ keys, e.listed (prefixUser u.str) = some keys → key ∈ keys) ∧ e.op.removes key = false

/-- The deletion has written the file of the handle. -/
def Buried (h : Handle) (trace : List (Event (Option ι) Op Res)) : Prop :=
  ∃ e ∈ trace, e.by_ = none ∧ (e.op.puts (keyHandle h.str)).isSome = true

/-- The others write under the account's prefix only what the deletion is still to remove, and
the handle only before its tombstone. -/
def InTime (u : UserId) (h : Handle) (i : Option ι) (o : Op) (s : Log (Option ι)) : Prop :=
  PageFits i o s ∧ ∀ j, i = some j →
    (∀ key, (o.puts key).isSome = true → startsWith key (prefixUser u.str) = true →
      Awaits u key s.trace) ∧
    ((o.puts (keyHandle h.str)).isSome = true → ¬ Buried h s.trace)

/-- Nothing under the account's prefix, and a tombstone for its handle. -/
def Vacated (env : Env) (u : UserId) (h : Handle) (s : Sys ι) : Prop :=
  Wiped s (prefixUser u.str) ∧
    ∃ now, s.objects.get (keyHandle h.str) = some (tombstone env now).data

/-- Once the deletion has succeeded and the others have come to their ends, the account is gone. -/
def DeletionFinal [DecidableEq ι] (env : Env) (u : UserId) (h : Handle) (token : Option String)
    (req : ι → Straggler) (s0 : Sys (Option ι)) (C : Option ι → Op → Log (Option ι) → Prop) : Prop :=
  ∀ w, Reach (deletionRace env u token req C) (.init s0) w → w.procs none = .done (.ok ()) →
    (∀ j, ∃ r, w.procs (some j) = .done r) → Vacated env u h w.sys.state

variable {env : Env} {u : UserId} {h : Handle} {token : Option String}

/-- A request in time of a slot other than the deletion, none of which deletes anything. -/
def Straggles (u : UserId) (h : Handle) (s t : Log (Option ι)) : Prop :=
  ∃ j o r, (∀ key, o.removes key = false) ∧ Logged (InTime u h) (some j) o s r t

/-- The stored profile names the handle, and only the deletion deletes. -/
def raceRules (u : UserId) (h : Handle) : Rules (Option ι) (Log (Option ι)) where
  inv s := ∀ p, profileOf u s.state = some p → p.handle = h.str
  guar i s t := i ≠ none → Straggles u h s t
  rely i s t := i = none → Straggles u h s t
  compat _ _ differ _ _ _ _ moved := fun first => moved fun same => differ (same.trans first.symm)

/-! ### The other requests -/

section Others

variable {j : ι} {o : Op} {s t : Log (Option ι)} {r : Res o}

/-- What becomes of the profile when a request neither writes nor deletes it. -/
theorem profileOf_other {C : Option ι → Op → Log (Option ι) → Prop} {i : Option ι}
    (served : Logged C i o s r t) (plain : o.puts (keyProfile u.str) = none) {p : Profile}
    (stored : profileOf u t.state = some p) : profileOf u s.state = some p := by
  rcases served_get served.2.1 (keyProfile u.str) with same | ⟨d, put, _⟩ | ⟨_, gone⟩
  · rwa [profileOf, same] at stored
  · rw [plain] at put
    cases put
  · rw [profileOf, gone] at stored
    cases stored

theorem straggler_unnoticed (stays : o.Stays (· ≠ keyProfile u.str) fun _ => False) :
    Unnoticed (raceRules u h) (Logged (InTime u h)) (some j) o := by
  have keeps (key : String) : o.removes key = false :=
    Bool.eq_false_iff.mpr fun removed => stays.2 key removed
  have plain : o.puts (keyProfile u.str) = none := by
    rw [Option.eq_none_iff_forall_ne_some]
    exact fun d put => stays.1 _ (by rw [put]; rfl) rfl
  refine .of fun s r t inv served => ⟨fun p stored => inv p (profileOf_other served plain stored), ?_, nofun⟩
  exact fun _ => ⟨j, o, r, keeps, served⟩

/-- The profile of the others carries the handle, and so does what they write. -/
theorem straggler_keeps : ProfileInvariant (raceRules u h) (Logged (InTime u h)) (some j) u
    (fun p => p.handle = h.str) where
  essential p q same _ named := same.trans named
  passive o passive := straggler_unnoticed (Op.stays_passive passive)
  locks l := ⟨straggler_unnoticed (Op.stays_acquire l), straggler_unnoticed (Op.stays_release l)⟩
  records rid d := straggler_unnoticed (Op.stays_put (keyRecord_ne_profile _ _))
  reads := by
    refine (straggler_unnoticed (Op.stays_passive rfl)).serves (.pure True)
      fun s r t inv _ served d p ok parsed => inv p ?_
    rw [(healthy_read served.2.1).2] at ok
    rw [profileOf, lookup_eq_ok.mp ok, Option.bind_some, parsed]
  writes p named s r t inv _ served := by
    refine ⟨fun q stored => ?_, fun _ => ⟨j, _, r, fun _ => rfl, served⟩, trivial⟩
    rw [profileOf, healthy_get served.2.1, Op.after, if_pos rfl, Option.bind_some,
      Profile.parse_data] at stored
    cases stored
    exact named
  projects p d _ := straggler_unnoticed (Op.stays_put (keyHandle_ne_profile _ _))

theorem straggler_confined : Confined (raceRules u h) (Logged (InTime u h)) (some j)
    (· ≠ keyProfile u.str) (fun _ => False) where
  quiet o stays _ := straggler_unnoticed stays
  guard env token enforceKv s := by
    refine (Safe.only (.pure True) (fun o passive => ?_)
      (authenticate_passive env token enforceKv) trivial).weaken fun _ _ h => h.1
    exact straggler_unnoticed (Op.stays_passive passive) _
  lists pre limit cursor := by
    refine ((straggler_unnoticed (Op.stays_passive rfl)).serves (.pure True)) ?_
    intro s r t _ _ served page ok key listed
    obtain ⟨_, same | fault⟩ := served_listObjects served.2.1
    · rw [ok] at same
      cases same
      exact (ObjectMap.mem_page _ _ _ _ _ listed).2
    · exact absurd fault not_faulted_healthy

theorem straggler_safe {env : Env} {q : Straggler} (account : q.OnAccount env u) :
    Keeps (raceRules u h) (Logged (InTime u h)) (some j) (q.run env u) s := by
  have k : ProfileInvariant (raceRules u h) (Logged (InTime u h)) (some j) u _ := straggler_keeps
  have c : Confined (raceRules u h) (Logged (InTime u h)) (some j) _ _ := straggler_confined
  cases q with
  | writer w =>
    have mine := account w rfl
    refine Keeps.bind ?_ fun _ _ => Keeps.ret _
    cases w with
    | rotate token body =>
      -- The credential changes, the handle does not.
      exact Keeps.bind (k.rotateKeys mine fun _ _ _ named => named) fun _ _ => Keeps.ret _
    | update token body => exact Keeps.bind (k.updateProfile mine) fun _ _ => Keeps.ret _
    | lastActive => exact Keeps.bind k.updateLastActive fun _ _ => Keeps.ret _
  | addDevice body =>
    refine Keeps.bind (c.addDevice fun uid did => ?_) fun _ _ => Keeps.ret _
    exact device_ne_profile u uid did.str

end Others

/-! ### The deletion -/

section Deleting

variable {o : Op} {s t : Log (Option ι)} {r : Res o}

/-- The deletion has listed the account's prefix, and only listed keys are stored there. -/
structure Seen (u : UserId) (keys : List String) (s : Log (Option ι)) : Prop where
  listed : ∃ e ∈ s.trace, e.by_ = none ∧ e.listed (prefixUser u.str) = some keys
  only : ∀ key, startsWith key (prefixUser u.str) = true → s.state.objects.get key ≠ none → key ∈ keys

/-- The deletion has removed every key it has listed, and nothing is stored there. -/
structure Cleared (u : UserId) (s : Log (Option ι)) : Prop where
  removed : ∃ keys, (∃ e ∈ s.trace, e.by_ = none ∧ e.listed (prefixUser u.str) = some keys) ∧
    ∀ key ∈ keys, ∃ e ∈ s.trace, e.by_ = none ∧ e.op.removes key = true
  wiped : Wiped s.state (prefixUser u.str)

/-- The tombstone is in place. -/
structure Marked (env : Env) (h : Handle) (now : Int) (s : Log (Option ι)) : Prop where
  buried : Buried h s.trace
  stone : s.state.objects.get (keyHandle h.str) = some (tombstone env now).data

theorem logged_trace {C : Option ι → Op → Log (Option ι) → Prop} {i : Option ι}
    (served : Logged C i o s r t) {e : Event (Option ι) Op Res} (member : e ∈ s.trace) :
    e ∈ t.trace := by
  rw [served.2.2]
  exact List.mem_cons_of_mem _ member

/-- What a straggler writes under the prefix was listed, and is not yet removed. -/
theorem Straggles.cases (moved : Straggles u h s t) :
    (∀ e ∈ s.trace, e ∈ t.trace) ∧
    (∀ key, startsWith key (prefixUser u.str) = true →
      t.state.objects.get key = s.state.objects.get key ∨ Awaits u key s.trace) ∧
    (t.state.objects.get (keyHandle h.str) = s.state.objects.get (keyHandle h.str) ∨
      ¬ Buried h s.trace) := by
  obtain ⟨j, o, r, keeps, served⟩ := moved
  obtain ⟨writes, buries⟩ := served.1.2 j rfl
  refine ⟨fun e => logged_trace served, fun key within => ?_, ?_⟩
  · rcases served_get served.2.1 key with same | ⟨d, put, _⟩ | ⟨removed, _⟩
    · exact .inl same
    · exact .inr (writes key (by rw [put]; rfl) within)
    · rw [keeps] at removed
      cases removed
  · rcases served_get served.2.1 (keyHandle h.str) with same | ⟨d, put, _⟩ | ⟨removed, _⟩
    · exact .inl same
    · exact .inr (buries (by rw [put]; rfl))
    · rw [keeps] at removed
      cases removed

theorem stable_seen (keys : List String) : (raceRules u h).Stable (none : Option ι) (Seen u keys) := by
  intro s t _ _ rely seen
  obtain ⟨grows, under, _⟩ := (rely rfl).cases
  obtain ⟨e, member, mine, listed⟩ := seen.listed
  refine ⟨⟨e, grows e member, mine, listed⟩, fun key within present => ?_⟩
  rcases under key within with same | awaits
  · exact seen.only key within (same ▸ present)
  · exact (awaits e member mine).1 keys listed

theorem stable_cleared : (raceRules u h).Stable (none : Option ι) (Cleared u) := by
  intro s t _ _ rely cleared
  obtain ⟨grows, under, _⟩ := (rely rfl).cases
  obtain ⟨keys, ⟨e, member, mine, listed⟩, removed⟩ := cleared.removed
  refine ⟨⟨keys, ⟨e, grows e member, mine, listed⟩, fun key named => ?_⟩, fun key within => ?_⟩
  · obtain ⟨e', member', mine', gone⟩ := removed key named
    exact ⟨e', grows e' member', mine', gone⟩
  · rcases under key within with same | awaits
    · rw [same]
      exact cleared.wiped key within
    · -- A key it still awaits was listed, and what was listed is removed.
      obtain ⟨e', member', mine', gone⟩ := removed key ((awaits e member mine).1 keys listed)
      rw [(awaits e' member' mine').2] at gone
      cases gone

theorem stable_marked (now : Int) : (raceRules u h).Stable (none : Option ι) (Marked env h now) := by
  intro s t _ _ rely marked
  obtain ⟨grows, _, same | unburied⟩ := (rely rfl).cases
  · obtain ⟨e, member, wrote⟩ := marked.buried
    exact ⟨⟨e, grows e member, wrote⟩, same.trans marked.stone⟩
  · exact absurd marked.buried unburied

/-- What a request of the deletion establishes, if it does not write the profile. -/
theorem deletion_serves {P : Log (Option ι) → Prop} {R : Res o → Log (Option ι) → Prop}
    (plain : o.puts (keyProfile u.str) = none)
    (after : ∀ s r t, (∀ p, profileOf u s.state = some p → p.handle = h.str) → P s →
      Logged (InTime u h) none o s r t → R r t) :
    Serves (raceRules u h) (Logged (InTime u h)) (none : Option ι) o P R :=
  fun s r t inv holds served => ⟨fun p stored => inv p (profileOf_other served plain stored), nofun,
    after s r t inv holds served⟩

theorem Seen.passive {keys : List String} (seen : Seen u keys s)
    (served : Logged (InTime u h) none o s r t) (passive : o.passive = true) : Seen u keys t := by
  obtain ⟨e, member, listed⟩ := seen.listed
  refine ⟨⟨e, logged_trace served member, listed⟩, fun key within present => seen.only key within ?_⟩
  rwa [healthy_get served.2.1, Op.after_passive passive] at present

/-- Whatever does not write under the prefix leaves it empty. -/
theorem Cleared.kept (cleared : Cleared u s) (served : Logged (InTime u h) none o s r t)
    (plain : ∀ key, startsWith key (prefixUser u.str) = true → o.puts key = none) : Cleared u t := by
  obtain ⟨keys, ⟨e, member, listed⟩, removed⟩ := cleared.removed
  refine ⟨⟨keys, ⟨e, logged_trace served member, listed⟩, fun key named => ?_⟩, fun key within => ?_⟩
  · obtain ⟨e', member', gone⟩ := removed key named
    exact ⟨e', logged_trace served member', gone⟩
  · rcases served_get served.2.1 key with same | ⟨d, put, _⟩ | ⟨_, gone⟩
    · rw [same]
      exact cleared.wiped key within
    · rw [plain key within] at put
      cases put
    · exact gone

abbrev seen (u : UserId) (h : Handle) (keys : List String) :
    (raceRules u h).Assertion (none : Option ι) := ⟨Seen u keys, stable_seen keys⟩

abbrev cleared (u : UserId) (h : Handle) : (raceRules u h).Assertion (none : Option ι) :=
  ⟨Cleared u, stable_cleared⟩

/-- A listing that fits a page names every key. -/
theorem lists_seen : Serves (raceRules u h) (Logged (InTime u h)) (none : Option ι)
    (.listObjects (prefixUser u.str) 1000 none) (fun _ => True) fun r t =>
      ∀ page, r = .ok page → Seen u page.keys t := by
  refine deletion_serves rfl fun s r t _ _ served page ok => ?_
  have fits : (keysUnder s.state (prefixUser u.str)).length ≤ 1000 := of_decide_eq_true served.1.1
  obtain ⟨same, found | fault⟩ := served_listObjects served.2.1
  · rw [ok] at found
    cases found
    subst ok
    refine ⟨⟨_, by rw [served.2.2]; exact List.mem_cons_self, rfl, ?_⟩, fun key within present => ?_⟩
    · simp [Event.listed]
    · rw [same] at present
      exact ObjectMap.page_complete _ _ _ fits key (Option.ne_none_iff_exists'.mp present) within
  · exact absurd fault not_faulted_healthy

/-- Removing what was listed leaves nothing. -/
theorem removes_cleared (keys : List String) : Serves (raceRules u h) (Logged (InTime u h)) (none : Option ι)
    (.deleteObjects keys) (seen u h keys) fun _ => Cleared u := by
  refine deletion_serves rfl fun s r t _ here served => ?_
  obtain ⟨e, member, listed⟩ := here.listed
  refine ⟨⟨keys, ⟨e, logged_trace served member, listed⟩, fun key named => ?_⟩, fun key within => ?_⟩
  · refine ⟨⟨none, .deleteObjects keys, r⟩, ?_, rfl, decide_eq_true named⟩
    rw [served.2.2]
    exact List.mem_cons_self
  · rw [healthy_get served.2.1, Op.after]
    split
    · rfl
    next absent =>
      by_contra present
      exact absent (here.only key within present)

theorem Seen.clears (seen : Seen u [] s) : Cleared u s :=
  ⟨⟨[], seen.listed, fun _ named => nomatch named⟩, fun key within => by
    by_contra present
    exact nomatch seen.only key within present⟩

/-- Requests that write no object. -/
def Op.Writeless (o : Op) : Prop := ∀ key, o.puts key = none

theorem Op.writeless_passive {o : Op} (passive : o.passive = true) : o.Writeless :=
  fun key => Op.puts_passive passive key

theorem evictDevices_passive (devices : String) (keys : List String) :
    Passive (fun _ => True) (evictDevices devices keys).run := by
  induction keys with
  | nil => exact .ret trivial
  | cons key rest ih =>
    unfold evictDevices
    split
    · simp only [run_bind, run_call, ask_bind, Prog.op_bind, Prog.ret_bind]
      exact .op rfl fun _ => ih
    · exact ih

/-- Wiping writes nothing. -/
theorem wipePrefixes_writeless (devices : String) (prefixes : List String) :
    Prog.Only Op.Writeless (fun _ => True) (wipePrefixes devices prefixes).run := by
  induction prefixes with
  | nil => exact .ret trivial
  | cons pre rest ih =>
    have evicts (keys : List String) : Prog.Only Op.Writeless (fun _ => True) (evictDevices devices keys).run :=
      (evictDevices_passive devices keys).mono fun _ => Op.writeless_passive
    unfold wipePrefixes
    simp only [run_bind, run_tryStoreAs, ask_bind, Prog.op_bind]
    refine .op (fun _ => rfl) fun found => ?_
    rcases found with err | page
    · exact .ret trivial
    · refine (evicts page.keys).bind fun evicted _ => ?_
      rcases evicted with err | _
      · exact .ret trivial
      · dsimp only
        split
        · exact ih
        · simp only [run_bind, run_tryStoreAs, ask_bind, Prog.op_bind]
          refine .op (fun _ => rfl) fun removed => ?_
          rcases removed with err | _
          · exact .ret trivial
          · exact ih

/-- The account's own prefix comes first, and stays empty while the others are wiped. -/
theorem wipePrefixes_clears (devices : String) (rest : List String) :
    Safe (raceRules u h) (Logged (InTime u h)) (none : Option ι) (fun r t => r = .ok () → Cleared u t)
      (wipePrefixes devices (prefixUser u.str :: rest)).run s := by
  have failed {e : ApiError} {t : Log (Option ι)} : Safe (raceRules u h) (Logged (InTime u h)) none
      (fun r t => r = .ok () → Cleared u t) (.ret (.error e) : Eff (Except ApiError Unit)) t :=
    fun _ _ wrong => by cases wrong
  have others {t : Log (Option ι)} (here : Cleared u t) :
      Safe (raceRules u h) (Logged (InTime u h)) none (fun r t => r = .ok () → Cleared u t)
        (wipePrefixes devices rest).run t := by
    refine (Safe.only (cleared u h) (fun o writeless => ?_) (wipePrefixes_writeless devices rest) here).weaken
      fun _ _ after _ => after.2
    exact deletion_serves (writeless _) fun _ _ _ _ here served => here.kept served fun key _ => writeless key
  unfold wipePrefixes
  simp only [run_bind, run_tryStoreAs, ask_bind, Prog.op_bind]
  refine Safe.request (.pure True) trivial lists_seen fun found t listed => ?_
  rcases found with err | page
  · exact failed
  · have evicts : Safe (raceRules u h) (Logged (InTime u h)) none
        (fun _ t => True ∧ seen u h page.keys t) (evictDevices devices page.keys).run t :=
      Safe.only (seen u h page.keys)
        (fun o passive => deletion_serves (Op.puts_passive passive _)
          fun _ _ _ _ here served => Seen.passive here served passive)
        (evictDevices_passive devices page.keys) (listed page rfl)
    simp only [Prog.ret_bind]
    refine Safe.bind evicts fun evicted v after => ?_
    have here := after.2
    rcases evicted with err | _
    · exact failed
    · dsimp only
      split
      next empty => exact others (Seen.clears (empty ▸ here))
      next =>
        simp only [run_bind, run_tryStoreAs, ask_bind, Prog.op_bind]
        refine Safe.request (seen u h page.keys) here (removes_cleared page.keys) fun removed w gone => ?_
        rcases removed with err | _
        · exact failed
        · exact others gone

/-- What the deletion leaves when it succeeds. -/
def vacates (env : Env) (u : UserId) (h : Handle) (r : Except ApiError Unit) :
    (raceRules u h).Assertion (none : Option ι) :=
  ⟨fun s => r = .ok () → Cleared u s ∧ ∃ now, Marked env h now s, by
    intro s t inv inv' rely done ok
    obtain ⟨cleared, now, marked⟩ := done ok
    exact ⟨stable_cleared s t inv inv' rely cleared, now, stable_marked now s t inv inv' rely marked⟩⟩

theorem handle_not_under (key : String) (within : startsWith key (prefixUser u.str) = true) (d : Data) :
    (Op.putObject (keyHandle h.str) d).puts key = none := by
  rw [Op.puts, if_neg]
  rintro rfl
  simp [startsWith, prefixUser, keyHandle] at within

theorem marks (now : Int) : Serves (raceRules u h) (Logged (InTime u h)) (none : Option ι)
    (.putObject (keyHandle h.str) (tombstone env now).data) (cleared u h) fun _ t =>
      Cleared u t ∧ Marked env h now t := by
  refine deletion_serves ?_ fun s r t _ here served => ⟨here.kept served fun key within => ?_, ?_, ?_⟩
  · rw [Op.puts, if_neg (keyHandle_ne_profile _ _).symm]
  · exact handle_not_under key within _
  · refine ⟨⟨none, .putObject (keyHandle h.str) (tombstone env now).data, r⟩, ?_, rfl, ?_⟩
    · rw [served.2.2]
      exact List.mem_cons_self
    · rw [Op.puts, if_pos rfl]
      rfl
  · rw [healthy_get served.2.1, Op.after, if_pos rfl]

theorem releaseHandle_marks (here : Cleared u s) :
    Meets (raceRules u h) (Logged (InTime u h)) (vacates env u h) (releaseHandle env h.str) s := by
  rw [releaseHandle_eq env h.ne_empty]
  have quiet {o : Op} (writeless : o.Writeless) : Serves (raceRules u h) (Logged (InTime u h))
      (none : Option ι) o (cleared u h) fun _ => Cleared u :=
    deletion_serves (writeless _) fun _ _ _ _ here served => here.kept served fun key _ => writeless key
  refine Meets.locked (cleared u h) here (quiet fun _ => rfl) (fun _ _ => nofun) (vacates env u h)
    (fun t here => ?_) fun r => ?_
  · refine Meets.call (cleared u h) here (quiet fun _ => rfl) fun now v here => ?_
    refine Safe.request (cleared u h) here (marks now) fun wrote w after => ?_
    rcases wrote with err | _
    · exact Safe.ret (Q := vacates env u h) nofun
    · exact Safe.ret (Q := vacates env u h) fun _ => ⟨after.1, now, after.2⟩
  · refine deletion_serves rfl fun s _ t _ done served ok => ?_
    obtain ⟨cleared, now, ⟨e, member, wrote⟩, stone⟩ := done ok
    refine ⟨cleared.kept served fun _ _ => rfl, now, ⟨e, logged_trace served member, wrote⟩, ?_⟩
    rw [healthy_get served.2.1]
    exact stone

theorem deleteProfile_vacates
    (account : ∀ user, Token.identity env token = some user → user.userId = u) :
    Meets (raceRules u h) (Logged (InTime u h)) (vacates env u h) (deleteProfile env token) s := by
  unfold deleteProfile
  refine Meets.authenticated (.pure True) (fun o passive => ?_) trivial
    (fun _ _ _ wrong => by cases wrong) fun user t known _ => ?_
  · exact deletion_serves (Op.puts_passive passive _) fun _ _ _ _ _ _ => trivial
  rw [account user known]
  have reads : Serves (raceRules u h) (Logged (InTime u h)) (none : Option ι)
      (.getObject (keyProfile u.str)) (fun _ => True) fun r _ =>
        ∀ d p, r = .ok d → Profile.parse d = some p → p.handle = h.str := by
    refine deletion_serves rfl fun s r t inv _ served d p ok parsed => inv p ?_
    rw [(healthy_read served.2.1).2] at ok
    rw [profileOf, lookup_eq_ok.mp ok, Option.bind_some, parsed]
  refine Meets.read (.pure True) trivial reads (fun _ _ _ wrong => by cases wrong) fun d t read => ?_
  refine Meets.orFail (fun _ wrong => by cases wrong) fun p parsed => ?_
  rw [read d p rfl parsed]
  exact Meets.bind (wipePrefixes_clears _ _) (fun _ _ _ wrong => by cases wrong)
    fun _ v cleared => releaseHandle_marks (cleared rfl)

end Deleting

/-! ### The race -/

section Outcome

variable {req : ι → Straggler} {s0 : Sys (Option ι)}

theorem deletion_final [DecidableEq ι] (named : ∀ p, profileOf u s0 = some p → p.handle = h.str)
    (account : ∀ user, Token.identity env token = some user → user.userId = u)
    (accounts : ∀ j, (req j).OnAccount env u) :
    DeletionFinal env u h token req s0 (InTime u h) := by
  intro w reached deleted _
  let post : Option ι → Except ApiError Unit → Log (Option ι) → Prop
    | none => fun r => vacates env u h r
    | some _ => fun _ _ => True
  have contracts : Contracts (raceRules u h) (deletionRace env u token req (InTime u h))
      (fun _ _ => True) post := by
    refine ⟨fun _ => .const True, fun i s _ _ => ?_⟩
    cases i with
    | none => exact deleteProfile_vacates account
    | some j => exact straggler_safe (accounts j)
  have start : Secured (raceRules u h) (deletionRace env u token req (InTime u h))
      (fun _ _ => True) post (.init (.init s0)) := .init named fun _ => trivial
  have slot := (start.run contracts reached).2 none
  rw [deleted] at slot
  obtain ⟨cleared, now, marked⟩ := slot.post rfl
  exact ⟨cleared.wiped, now, marked.stone⟩

end Outcome

/-! ### What later requests see -/

section Later

variable {i : ι} {s : Sys ι}

/-- Nobody can add a device to an account that is gone. -/
theorem addDevice_vacated (gone : Vacated env u h s) {body : Option Json} {q : AddDeviceRequest}
    (parsed : body.bind AddDeviceRequest.fromJson = some q) (same : UserId.new q.userId = some u) :
    Interaction.Ends (Healthy i) (addDevice env body).run s fun r t => r = .error .notFound ∧ t = s := by
  unfold addDevice
  rw [parseBody, parsed]
  refine Ends.orFail nofun fun _ ok => ?_
  cases ok
  refine Ends.orFail (fun absent => ?_) fun v found => ?_
  · rw [same] at absent
    cases absent
  rw [same] at found
  cases found
  have absent : s.objects.get (keyProfile u.str) = none := gone.1 _ (by
    rw [keyProfile_eq]
    exact startsWith_append _ _)
  rw [run_bind, run_tryStore, ask_bind]
  refine .op fun r t served => ?_
  obtain ⟨rfl, rfl⟩ := healthy_read served
  rw [Sys.lookup, absent]
  exact .ret ⟨rfl, rfl⟩

/-- Resolving the handle of an account that is gone fails, with a 410 while the name cools down. -/
theorem resolve_vacated (gone : Vacated env u h s)
    (stamps : ∀ now, env.formatSecs now ≠ "" ∧ (env.parseRfc3339 (env.formatSecs now)).isSome = true) :
    ∃ stamp released, env.parseRfc3339 stamp = some released ∧
      Interaction.Ends (Healthy i) (resolve env h.str).run s fun r t =>
        r = .error (if t.clock < released + days HANDLE_COOLDOWN_DAYS then
          .handleReleased stamp (env.formatSecs (released + days HANDLE_COOLDOWN_DAYS))
        else .notFound) := by
  obtain ⟨now, stone⟩ := gone.2
  obtain ⟨stamped, readable⟩ := stamps now
  obtain ⟨released, parsed⟩ := Option.isSome_iff_exists.mp readable
  have shown : (tombstone env now).releasedAt = env.formatSecs now := rfl
  refine ⟨env.formatSecs now, released, parsed, ?_⟩
  unfold resolve
  rw [run_bind, run_tryStore, ask_bind]
  refine .op fun r t served => ?_
  obtain ⟨rfl, rfl⟩ := healthy_read served
  rw [Sys.lookup, stone]
  simp only [Prog.ret_bind, PublicHandleData.parse_data, run_bind, run_orFail_some, shown, if_neg stamped,
    parsed]
  refine Ends.call fun later v served => ?_
  have clock : v.clock = later := by rw [(served_utcNow served).2]
  split
  next cooling => exact .ret (by rw [clock, if_pos cooling])
  next late => exact .ret (by rw [clock, if_neg late])

end Later

end Race

/-! ### A rename that brings the account back -/

section LateRename

open Sample

/-- One change of the display name. -/
def lateRename (_ : Unit) : Straggler := .writer (.update token (some rename))

def alice : Handle := ⟨"alice", by decide +kernel⟩

/-- The rename reads the profile, the deletion runs to its end, the rename writes. -/
def renameAfterDeletion : List (Option Unit × Choice) :=
  List.replicate 6 (some (), .ok) ++ (List.replicate 11 (none, .ok) ++ [(none, .read 0)] ++
    List.replicate 3 (none, .ok)) ++ List.replicate 3 (some (), .ok)

/-- Requests as long as a page fits. -/
def pagedRun {ι : Type} (i : Option ι) (o : Op) (c : Choice) (s : Log (Option ι)) :
    Option (Res o × Log (Option ι)) :=
  if pageFits i o s then logRun i o c s else none

theorem logged_of_pagedRun {ι : Type} {i : Option ι} {o : Op} {s t : Log (Option ι)} {r : Res o}
    (served : execOf pagedRun i o s r t) : Logged PageFits i o s r t := by
  obtain ⟨c, ran⟩ := served
  unfold pagedRun at ran
  split at ran
  next fits => exact ⟨fits, (logged_of_logRun ⟨c, ran⟩).2⟩
  next => cases ran

theorem lateRename_prog (C : Option Unit → Op → Log (Option Unit) → Prop) :
    (deletionRace env user token lateRename C).prog = fun i => i.elim (deleteProfile env token).run
      fun _ => ((Straggler.writer (.update token (some rename))).run env user).run := by
  funext i
  cases i <;> rfl

theorem rename_observed : (World.follow pagedRun (deletionRace env user token lateRename PageFits).prog
    renameAfterDeletion (.init (.init (Sample.sys (Option Unit))))).map (fun w =>
      (succeeded none w, succeeded (some ()) w, (profileOf user w.sys.state).isSome)) =
      some (true, true, true) := by
  rw [lateRename_prog]
  simp only [Straggler.run, ProfileWriter.run, deleteProfile, updateProfile,
    authenticate_known identity_token]
  decide

/-- The account is deleted, and its profile is back. -/
theorem deletion_undone :
    ¬ DeletionFinal env user alice token lateRename (Sample.sys (Option Unit)) PageFits := by
  intro final
  obtain ⟨w, followed, seen⟩ := Option.map_eq_some_iff.mp rename_observed
  obtain ⟨deleted, rest⟩ := Prod.mk.inj seen
  obtain ⟨renamed, present⟩ := Prod.mk.inj rest
  have reached : Reach (deletionRace env user token lateRename PageFits) (.init (Sample.sys _)) w :=
    steps_mono (fun _ _ _ _ _ => logged_of_pagedRun) (steps_of_follow pagedRun _ followed)
  have gone := final w reached (done_of_succeeded deleted) fun _ => ⟨_, done_of_succeeded renamed⟩
  have absent := gone.1 (keyProfile uid) (by rw [keyProfile_eq]; exact startsWith_append _ _)
  have none_ : profileOf user w.sys.state = none := by
    rw [profileOf, show w.sys.state.objects.get (keyProfile user.str) = none from absent]
    rfl
  rw [none_] at present
  cases present

/-- The same requests, where no write comes late. -/
theorem rename_in_time :
    DeletionFinal env user alice token lateRename (Sample.sys (Option Unit)) (InTime user alice) := by
  refine deletion_final (fun p stored => ?_) (fun _ known => token_user known) fun _ w same => ?_
  · rw [stored_profile] at stored
    cases stored
    rfl
  · cases same
    exact fun _ known => token_user known

end LateRename

end Atmin
