import Atmin.Access.CutoffRules

/-!
# A rotation under the cutoff rules

What a slot knows of its own removals and, under the rotation lock, of versions; and that a
rotation follows the rules.
-/

namespace Atmin

open Interaction

section Cutoff

variable {ι : Type} [DecidableEq ι] (env : Env) (u : UserId) (v0 : Nat) (req : ι → CutoffRequest)

/-- The requests of an account on one instance, interleaved where `C` allows; storage may fail. -/
def cutoffRequests (C : ι → Op → Log ι → Prop) :
    System ι Op Res (Except ApiError (Option RotateOutcome)) (Log ι) where
  prog i := ((req i).run env).run
  exec := guarded C Recorded

/-- Requests served with timely cache fills. -/
abbrev Timed : ι → (o : Op) → Log ι → Res o → Log ι → Prop := guarded (Timely u v0) Recorded

variable {env u v0 req} {i j : ι} {o : Op} {s t : Log ι} {r : Res o}

/-! ### What a slot knows -/

variable (u i) in
/-- Every device file that slot `i` has removed it has also evicted, but for those of which
`pending` holds, and what it has evicted has stayed out of the cache. -/
structure Tidy (pending : String → Prop) (s : Log ι) : Prop where
  unspared : ∀ key, ¬ Spared i key s
  unseen : ∀ key, Evicted i key s → key ∉ s.state.deviceCache
  evicted : ∀ did, Removed i (keyDevice u.str did) s → Evicted i (keyDevice u.str did) s ∨
    pending (keyDevice u.str did)

theorem removes_of_spared {key : String} (spared : o.spared key r = true) :
    o.removes key = true := by
  cases o <;> first | (cases spared) | skip
  case deleteObjects ks =>
    simp only [Op.spared, Bool.and_eq_true, decide_eq_true_eq] at spared
    simp [Op.removes, spared.1]

/-- A step that removes nothing of the slot's own keeps it tidy. -/
theorem tidy_step {pending : String → Prop} (tidy : Tidy u i pending s)
    (served : Recorded j o s r t) (timely : Timely u v0 j o s)
    (keeps : j = i → ∀ key, o.removes key = false) : Tidy u i pending t := by
  have spared (key : String) (did : Spared i key t) : False := by
    rcases (did_step served i _).mp did with ⟨mine, now⟩ | before
    · have removes := removes_of_spared now
      rw [keeps mine key] at removes
      cases removes
    · exact tidy.unspared key before
  refine ⟨spared, fun key evicted member => ?_, fun did removed => ?_⟩
  · by_cases fill : ∃ k, o = .deviceCacheSet k
    · obtain ⟨k, fill⟩ := fill
      subst fill
      rcases (did_step served i _).mp evicted with ⟨_, now⟩ | before
      · cases now
      · rw [served_deviceCacheSet served.1] at member
        rcases List.mem_cons.mp member with rfl | kept
        · exact tidy.unspared key (timely.device key rfl i before).1
        · exact tidy.unseen key before kept
    · have kept := served_deviceCache served.1 fun k same => fill ⟨k, same⟩
      rcases (did_step served i _).mp evicted with ⟨_, now⟩ | before
      · cases o <;> try cases now
        rw [served_deviceCacheInvalidate served.1] at member
        exact of_decide_eq_true (List.mem_filter.mp member).2 (of_decide_eq_true now).symm
      · exact tidy.unseen key before (kept member)
  · rcases (did_step served i _).mp removed with ⟨mine, now⟩ | before
    · have removes := removes_of_removed now
      rw [keeps mine] at removes
      cases removes
    · exact (tidy.evicted did before).imp_left (did_kept served)

/-- What the rotation lock protects, and the version its holder has last written. -/
structure View where
  settled : Nat
  own : Nat
  recorded : Nat → Prop
  stored : Profile → Prop

/-- Nothing has been added. -/
structure View.Within (a b : View) : Prop where
  settled : a.settled = b.settled
  own : a.own = b.own
  recorded : ∀ v, a.recorded v → b.recorded v
  stored : ∀ p, a.stored p → b.stored p

variable (u v0) in
def view (i : ι) (s : Log ι) : View :=
  ⟨settled u v0 s.trace, lastPut u i s.trace, RecordedSuccess u s.state,
    fun p => profileOf u s.state = some p⟩

/-- Under the lock the others add nothing. -/
theorem view_other (holds : s.state.holder (.rotation u.str) = some i) (differ : j ≠ i)
    (served : Recorded j o s r t) (permitted : Permitted u v0 j o s) :
    t.state.holder (.rotation u.str) = some i ∧ (view u v0 i t).Within (view u v0 i s) := by
  have stranger (theirs : s.state.holder (.rotation u.str) = some j) : False := by
    rw [holds] at theirs
    exact differ (Option.some.inj theirs).symm
  refine ⟨holder_step served holds fun release => stranger (permitted.release release).1,
    settled_plain served fun drop => stranger (permitted.drop drop).1, lastPut_other served differ,
    fun v recorded => ?_, fun p stored => ?_⟩
  · rcases records_step served recorded with old | ⟨rid, d, rec, token, kv, put, read, success, _⟩
    · exact old
    · exact (stranger (permitted.record rid d rec token kv put read success).1).elim
  · rcases profile_step served permitted stored with old | ⟨theirs, _⟩
    · exact old
    · exact (stranger theirs).elim

/-! ### Assertions -/

/-- Before and outside the lock. -/
def tidy (pending : String → Prop) : (cutoffRules u v0).Assertion i where
  holds := Tidy u i pending
  stable := by
    rintro s t _ _ ⟨j, differ, o, r, served, permitted⟩ here
    exact tidy_step here served permitted.toTimely fun same => absurd same differ

variable (u v0 i) in
/-- Tidy, and holding the rotation lock with this in view. -/
def Under (K : View → Prop) (s : Log ι) : Prop :=
  Tidy u i (fun _ => False) s ∧ s.state.holder (.rotation u.str) = some i ∧ K (view u v0 i s)

/-- Under the lock. -/
abbrev underView (K : View → Prop) (closed : ∀ a b : View, a.Within b → K b → K a) :
    (cutoffRules u v0).Assertion i where
  holds := Under u v0 i K
  stable := by
    rintro s t _ _ ⟨j, differ, o, r, served, permitted⟩ ⟨clean, holds, known⟩
    obtain ⟨still, within⟩ := view_other holds differ served permitted
    refine ⟨tidy_step clean served permitted.toTimely fun same => absurd same differ, still, ?_⟩
    exact closed _ _ within known

/-- Every recorded success is settled. -/
def View.Clean (a : View) : Prop := ∀ v, a.recorded v → v ≤ a.settled

/-- The version that the holder has written stands. -/
def View.Written (v : Nat) (a : View) : Prop :=
  a.own = v ∧ a.settled < v ∧ ∀ p, a.stored p → v ≤ p.currentKv.toNat

theorem View.Clean.within {a b : View} (within : a.Within b) (clean : b.Clean) : a.Clean := by
  intro v recorded
  rw [within.settled]
  exact clean v (within.recorded v recorded)

theorem View.Written.within {v : Nat} {a b : View} (within : a.Within b) (written : b.Written v) :
    a.Written v := by
  obtain ⟨own, above, stands⟩ := written
  rw [View.Written, within.own, within.settled]
  exact ⟨own, above, fun p stored => stands p (within.stored p stored)⟩

/-- A success that is returned is settled. -/
def Returned (settled : Nat) (r : Except ApiError RotateOutcome) : Prop :=
  ∀ token kv, r = .ok (.success token kv) → kv.toNat ≤ settled

variable (u v0) in
/-- No step of any slot takes this back. -/
def Lasts (A : Log ι → Prop) : Prop := ∀ j s t, CutoffStep u v0 j s t → A s → A t

def lasting (A : Log ι → Prop) (lasts : Lasts u v0 A) : (cutoffRules u v0).Assertion i :=
  ⟨A, fun s t _ _ ⟨j, _, moved⟩ here => lasts j s t moved here⟩

/-- A version that has been settled stays so. -/
theorem settled_lasts (v : Nat) : Lasts u v0 fun s : Log ι => v ≤ settled u v0 s.trace := by
  rintro j s t ⟨o, r, served, permitted⟩ here
  exact le_trans here (settled_le served permitted)

/-- Some request has removed the device and evicted it. -/
def CutOff (key : String) (s : Log ι) : Prop := ∃ j, Removed j key s ∧ Evicted j key s

theorem cutOff_lasts (key : String) : Lasts u v0 (CutOff key : Log ι → Prop) := by
  rintro _ s t ⟨_, _, served, _⟩ ⟨j, removed, evicted⟩
  exact ⟨j, did_kept served removed, did_kept served evicted⟩

/-- Requests that change no object, give back no lock and drop no cached version. -/
def Op.harmless : Op → Bool
  | .putObject .. | .deleteObject _ | .deleteObjects _ | .release _
  | .profileCacheInvalidate _ => false
  | _ => true

theorem Op.harmless_of_guarding {o : Op} (guarding : o.guarding = true) : o.harmless = true := by
  cases o <;> first | rfl | cases guarding

theorem Op.removes_harmless {o : Op} (harmless : o.harmless = true) (key : String) :
    o.removes key = false := by
  cases o <;> first | rfl | cases harmless

theorem permitted_harmless (harmless : o.harmless = true) (timely : Timely u v0 i o s) :
    Permitted u v0 i o s := by
  cases o <;> try cases harmless
  all_goals exact { timely with
    profile := fun _ put => nomatch put
    record := fun _ _ _ _ _ put => nomatch put
    files := fun _ => rfl
    drop := fun drop => nomatch drop
    removes := fun _ removes => nomatch removes
    release := fun release => nomatch release }

/-- A request follows the rules from `P` on. -/
theorem cutoff_serves {P : Log ι → Prop} {R : Res o → Log ι → Prop}
    (permits : ∀ s, Cutoff u v0 s → P s → Timely u v0 i o s → Permitted u v0 i o s)
    (after : ∀ s r t, Cutoff u v0 s → P s → Recorded i o s r t → Permitted u v0 i o s → R r t) :
    Serves (cutoffRules u v0) (Timed u v0) i o P R := by
  intro s r t inv here served
  have permitted := permits s inv here served.1
  exact ⟨cutoff_step inv served.2 permitted, ⟨o, r, served.2, permitted⟩,
    after s r t inv here served.2 permitted⟩

theorem harmless_serves {P : Log ι → Prop} {R : Res o → Log ι → Prop} (harmless : o.harmless = true)
    (after : ∀ s r t, Cutoff u v0 s → P s → Recorded i o s r t → Permitted u v0 i o s → R r t) :
    Serves (cutoffRules u v0) (Timed u v0) i o P R :=
  cutoff_serves (fun _ _ _ timely => permitted_harmless harmless timely) after

/-- A harmless request keeps the slot tidy. -/
theorem harmless_tidy {pending : String → Prop} (harmless : o.harmless = true) :
    Serves (cutoffRules u v0) (Timed u v0) i o (Tidy u i pending) fun _ => Tidy u i pending :=
  harmless_serves harmless fun _ _ _ _ here served permitted =>
    tidy_step here served permitted.toTimely fun _ => Op.removes_harmless harmless

/-! ### Rotation -/

/-- A request of the holder that writes neither the profile nor a record. -/
theorem view_own (holds : s.state.holder (.rotation u.str) = some i) (served : Recorded i o s r t)
    (permitted : Permitted u v0 i o s) (profile : o.puts (keyProfile u.str) = none)
    (records : ∀ rid, o.puts (keyRotationRecord u.str rid) = none)
    (keeps : o ≠ .profileCacheInvalidate u.str) (holding : o ≠ .release (.rotation u.str)) :
    t.state.holder (.rotation u.str) = some i ∧ (view u v0 i t).Within (view u v0 i s) := by
  have installs : o.installs u = none := by rw [Op.installs, profile]; rfl
  refine ⟨holder_step served holds holding, settled_plain served keeps,
    lastPut_plain served installs, fun v recorded => ?_, fun p stored => ?_⟩
  · rcases records_step served recorded with old | ⟨rid, d, _, _, _, put, _⟩
    · exact old
    · rw [records rid] at put
      cases put
  · rcases profile_step served permitted stored with old | ⟨_, _, writes⟩
    · exact old
    · rw [installs] at writes
      cases writes

theorem permitted_put {key : String} {d : Data} (timely : Timely u v0 i (.putObject key d) s)
    (profile : key ≠ keyProfile u.str) (files : ∀ did, key ≠ keyDevice u.str did)
    (record : ∀ rid rec token kv, key = keyRotationRecord u.str rid →
      RotationRecord.parse d = some rec → RotateOutcome.fromRecord rec = .success token kv →
        s.state.holder (.rotation u.str) = some i ∧ kv.toNat ≤ lastPut u i s.trace) :
    Permitted u v0 i (.putObject key d) s :=
  { timely with
    profile := fun _ put => by
      rw [Op.puts, if_neg (Ne.symm profile)] at put
      cases put
    record := fun rid _ rec token kv put => by
      by_cases same : keyRotationRecord u.str rid = key
      · rw [Op.puts, if_pos same] at put
        cases put
        exact record rid rec token kv same.symm
      · rw [Op.puts, if_neg same] at put
        cases put
    files := fun did => if_neg (Ne.symm (files did))
    drop := fun drop => nomatch drop
    removes := fun _ removes => nomatch removes
    release := fun release => nomatch release }

/-- A rotation's answer. -/
def rotated (r : Except ApiError RotateOutcome) : (cutoffRules u v0).Assertion i :=
  (tidy fun _ => False).and
    { holds := fun s => Returned (settled u v0 s.trace) r
      stable := fun s t _ _ ⟨j, _, moved⟩ here token kv same =>
        settled_lasts kv.toNat j s t moved (here token kv same) }

/-- Under the lock, before anything is written. -/
abbrev held : (cutoffRules u v0).Assertion i :=
  underView View.Clean fun _ _ => View.Clean.within

/-- A profile of this version was read. -/
abbrev heldAt (v : Nat) : (cutoffRules u v0).Assertion i :=
  underView (fun a => a.Clean ∧ a.settled ≤ v) fun _ _ within known =>
    ⟨known.1.within within, within.settled ▸ known.2⟩

/-- The profile is written at this version. -/
abbrev wrote (v : Nat) : (cutoffRules u v0).Assertion i :=
  underView (fun a => a.Clean ∧ a.Written v) fun _ _ within known =>
    ⟨known.1.within within, known.2.within within⟩

/-- The success is recorded, too. -/
abbrev noted (v : Nat) : (cutoffRules u v0).Assertion i :=
  underView (View.Written v) fun _ _ => View.Written.within

/-- The lock may be given back. -/
abbrev returning (r : Except ApiError RotateOutcome) : (cutoffRules u v0).Assertion i :=
  underView (fun a => a.Clean ∧ Returned a.settled r) fun _ _ within known =>
    ⟨known.1.within within, within.settled ▸ known.2⟩

/-- A harmless request leaves what holds under the lock as it is. -/
theorem harmless_locked {K : View → Prop} (closed : ∀ a b : View, a.Within b → K b → K a)
    {R : Res o → Log ι → Prop} (harmless : o.harmless = true)
    (after : ∀ s r t, Cutoff u v0 s → Under u v0 i K s → Recorded i o s r t →
      Under u v0 i K t → R r t) :
    Serves (cutoffRules u v0) (Timed u v0) i o (Under u v0 i K) R := by
  refine harmless_serves harmless fun s r t inv here served permitted => ?_
  obtain ⟨clean, holds, known⟩ := here
  obtain ⟨still, within⟩ : t.state.holder (.rotation u.str) = some i ∧
      (view u v0 i t).Within (view u v0 i s) := by
    refine view_own holds served permitted ?_ (fun rid => ?_) (fun same => ?_) fun same => ?_
    · cases o <;> first | rfl | cases harmless
    · cases o <;> first | rfl | cases harmless
    · rw [same] at harmless; cases harmless
    · rw [same] at harmless; cases harmless
  exact after s r t inv ⟨clean, holds, known⟩ served ⟨tidy_step clean served permitted.toTimely
    fun _ => Op.removes_harmless harmless, still, closed _ _ within known⟩

/-- A put of the holder, under the lock. -/
theorem put_locked {K K' : View → Prop} {key : String} {d : Data}
    (profile : key ≠ keyProfile u.str) (files : ∀ did, key ≠ keyDevice u.str did)
    (record : ∀ rid rec token kv, key = keyRotationRecord u.str rid →
      RotationRecord.parse d = some rec → RotateOutcome.fromRecord rec = .success token kv →
        ∀ s, Under u v0 i K s → kv.toNat ≤ lastPut u i s.trace)
    (after : ∀ a b : View, K b → a.settled = b.settled → a.own = b.own →
      (∀ p, a.stored p → b.stored p) →
      (∀ v, a.recorded v → b.recorded v ∨ ∃ rid rec token kv, key = keyRotationRecord u.str rid ∧
        RotationRecord.parse d = some rec ∧ RotateOutcome.fromRecord rec = .success token kv ∧
          kv.toNat = v) → K' a) :
    Serves (cutoffRules u v0) (Timed u v0) i (.putObject key d) (Under u v0 i K) fun _ =>
      Under u v0 i K' := by
  refine cutoff_serves (fun s inv here timely => ?_) fun s r t inv here served permitted => ?_
  · refine permitted_put timely profile files fun rid rec token kv same read success => ?_
    exact ⟨here.2.1, record rid rec token kv same read success s here⟩
  · obtain ⟨clean, holds, known⟩ := here
    have spares : (Op.putObject key d).puts (keyProfile u.str) = none := if_neg (Ne.symm profile)
    have installs : (Op.putObject key d).installs u = none := by rw [Op.installs, spares]; rfl
    refine ⟨tidy_step clean served permitted.toTimely fun _ _ => rfl,
      holder_step served holds (fun h => (by cases h)), after _ _ known
        (settled_plain served fun h => (by cases h)) (lastPut_plain served installs)
        (fun p stored => ?_) fun v recorded => ?_⟩
    · rcases profile_step served permitted stored with old | ⟨_, _, writes⟩
      · exact old
      · rw [installs] at writes
        cases writes
    · rcases records_step served recorded with old | ⟨rid, e, rec, token, kv, put, read, success, same⟩
      · exact .inl old
      · by_cases named : keyRotationRecord u.str rid = key
        · rw [Op.puts, if_pos named] at put
          cases put
          exact .inr ⟨rid, rec, token, kv, named.symm, read, success, same⟩
        · rw [Op.puts, if_neg named] at put
          cases put

section Rotates

variable {token : Option String} {body : Option Json} (x : Rotation env token body)

theorem returned_unsuccessful {n : Nat} {outcome : RotateOutcome}
    (unsuccessful : ∀ token kv, outcome ≠ .success token kv) : Returned n (.ok outcome) :=
  fun token kv same => absurd (Except.ok.inj same) (unsuccessful token kv)

/-- What is on record when the lock is taken was settled before. -/
theorem rotation_acquires (mine : x.uid = u.str) :
    Serves (cutoffRules u v0) (Timed u v0) i (.acquire (.rotation x.uid)) (Tidy u i fun _ => False)
      fun r t => (r = .ok () → Under u v0 i View.Clean t) ∧
        (r = .error .mk → Tidy u i (fun _ => False) t ∧
          Returned (settled u v0 t.trace) (.ok (.keyVersionStale (-1)))) := by
  rw [mine]
  refine harmless_serves rfl fun s r t inv here served permitted => ?_
  have clean := tidy_step here served permitted.toTimely fun _ _ => rfl
  rcases served_acquire served.1 with ⟨ok, free, same⟩ | ⟨failed, _⟩
  · refine ⟨fun _ => ⟨clean, by simp [same], fun v recorded => ?_⟩, fun wrong => ?_⟩
    · show v ≤ settled u v0 t.trace
      rw [settled_plain served fun h => by cases h]
      rcases records_step served recorded with old | ⟨_, _, _, _, _, put, _⟩
      · rcases inv.recorded v old with early | ⟨j, holds, _⟩
        · exact early
        · rw [free] at holds
          cases holds
      · cases put
    · rw [ok] at wrong
      cases wrong
  · refine ⟨fun ok => ?_, fun _ => ⟨clean, returned_unsuccessful fun _ _ h => by cases h⟩⟩
    rw [failed] at ok
    cases ok

/-- A success found on record is settled. -/
theorem rotation_looks (mine : x.recordKey = keyRotationRecord u.str x.req.requestId) :
    Serves (cutoffRules u v0) (Timed u v0) i (.getObject x.recordKey) (Under u v0 i View.Clean)
      fun r t => (∀ d rec, r = .ok d → RotationRecord.parse d = some rec →
          Under u v0 i (fun a => a.Clean ∧ Returned a.settled (.ok (.fromRecord rec))) t) ∧
        ((∀ d rec, r = .ok d → RotationRecord.parse d ≠ some rec) → Under u v0 i View.Clean t) := by
  rw [mine]
  refine harmless_locked (fun _ _ => View.Clean.within) rfl fun s r t inv _ served after => ?_
  refine ⟨fun d rec found read => ⟨after.1, after.2.1, after.2.2, fun tok kv success => ?_⟩,
    fun _ => after⟩
  -- The lookup changes nothing, so the record is there still.
  obtain ⟨same, result | ⟨_, _, _, fault⟩⟩ := served_getObject served.1
  · have stored := lookup_eq_ok.mp (result.symm.trans found)
    rw [← same] at stored
    exact after.2.2 kv.toNat ⟨_, rec, tok, kv, by rw [stored]; exact read,
      Except.ok.inj success, rfl⟩
  · rw [found] at fault
    cases fault

/-- The profile that is read is at the settled version or above. -/
theorem rotation_reads (mine : x.uid = u.str) :
    Serves (cutoffRules u v0) (Timed u v0) i (.getObject (keyProfile x.uid)) (Under u v0 i View.Clean)
      fun r t => (∀ msg,
          Under u v0 i (fun a => a.Clean ∧ Returned a.settled (.error (.internal msg))) t) ∧
        ∀ d p, r = .ok d → Profile.parse d = some p →
          Under u v0 i (fun a => a.Clean ∧ a.settled ≤ p.currentKv.toNat) t := by
  rw [mine]
  refine harmless_locked (fun _ _ => View.Clean.within) rfl fun s r t inv _ served after => ?_
  refine ⟨fun _ => ⟨after.1, after.2.1, after.2.2, fun _ _ h => by cases h⟩, fun d p found read =>
    ⟨after.1, after.2.1, after.2.2, ?_⟩⟩
  obtain ⟨_, result | ⟨_, _, _, fault⟩⟩ := served_getObject served.1
  · have stored := lookup_eq_ok.mp (result.symm.trans found)
    show settled u v0 t.trace ≤ _
    rw [settled_plain served fun h => by cases h]
    exact inv.stored p (by rw [profileOf, stored]; exact read)
  · rw [found] at fault
    cases fault

/-- A recorded refusal is no success. -/
theorem rotation_refuses (mine : x.recordKey = keyRotationRecord u.str x.req.requestId)
    {p : Profile} {outcome : RotateOutcome} (refused : x.Refused p.credential outcome) :
    Serves (cutoffRules u v0) (Timed u v0) i (.putObject x.recordKey outcome.toRecord.data)
      (Under u v0 i fun a => a.Clean ∧ a.settled ≤ p.currentKv.toNat)
      fun _ => Under u v0 i fun a => a.Clean ∧ Returned a.settled (.ok outcome) := by
  rw [mine]
  have failure {rec : RotationRecord} {tok : String} {kv : UInt32}
      (read : RotationRecord.parse outcome.toRecord.data = some rec)
      (success : RotateOutcome.fromRecord rec = .success tok kv) : False := by
    rw [refused.parse_record] at read
    cases read
    rw [RotateOutcome.fromRecord_toRecord] at success
    rw [success] at refused
    exact refused
  refine put_locked (keyRecord_ne_profile _ _) (fun did => (keyDevice_ne_record _ _ _).symm)
    (fun _ _ _ _ _ read success => (failure read success).elim) ?_
  intro a b known settled _ _ recorded
  refine ⟨fun v written => ?_, returned_unsuccessful fun tok kv same => ?_⟩
  · rw [settled]
    rcases recorded v written with old | ⟨_, _, _, _, _, read, success, _⟩
    · exact known.1 v old
    · exact (failure read success).elim
  · rw [same] at refused
    exact refused

theorem commit_installs (p : Profile) :
    (Op.putObject (keyProfile u.str) (x.req.install p).data).installs u = some x.req.keyVersion.toNat := by
  have version : (x.req.install p).keyVersion = x.req.keyVersion := rfl
  rw [Op.installs, Op.puts, if_pos rfl, Option.bind_some, Profile.parse_data, Option.map_some, version]

variable {x} in
/-- The version written is the next one: it does not wrap around. -/
theorem commit_above {p : Profile} (accepted : x.Accepted p.credential)
    (low : settled u v0 s.trace ≤ p.currentKv.toNat)
    (timely : Timely u v0 i (.putObject (keyProfile u.str) (x.req.install p).data) s) :
    settled u v0 s.trace < x.req.keyVersion.toNat := by
  have nonzero := timely.below _ (commit_installs x p)
  have next : x.req.keyVersion.toNat = (p.currentKv.toNat + 1) % 2 ^ 32 := by
    rw [accepted.1]
    exact UInt32.toNat_add _ _
  have bound := p.currentKv.toNat_lt
  omega

/-- The commit writes a version above the settled one, which the profile then has. -/
theorem rotation_commits (mine : x.uid = u.str) {p : Profile} (accepted : x.Accepted p.credential) :
    Serves (cutoffRules u v0) (Timed u v0) i (.putObject (keyProfile x.uid) (x.req.install p).data)
      (Under u v0 i fun a => a.Clean ∧ a.settled ≤ p.currentKv.toNat)
      fun r t => (r = .ok () → Under u v0 i (fun a => a.Clean ∧ a.Written x.req.keyVersion.toNat) t) ∧
        ∀ e, r = .error e → ∀ msg,
          Under u v0 i (fun a => a.Clean ∧ Returned a.settled (.error (.internal msg))) t := by
  rw [mine]
  have version : (x.req.install p).keyVersion = x.req.keyVersion := rfl
  have installs := commit_installs (u := u) x p
  refine cutoff_serves (fun s inv here timely => ?_) fun s r t inv here served permitted => ?_
  · -- the profile may be written: the lock is held and the version is above
    exact { timely with
      profile := fun d put => by
        rw [Op.puts, if_pos rfl] at put
        cases put
        exact ⟨here.2.1, here.2.2.1, _, rfl, commit_above accepted here.2.2.2 timely⟩
      record := fun rid d _ _ _ put => by
        rw [Op.puts, if_neg (keyRecord_ne_profile _ _)] at put
        cases put
      files := fun did => if_neg (keyDevice_ne_profile _ _)
      drop := fun h => by cases h
      removes := fun _ h => by cases h
      release := fun h => by cases h }
  · obtain ⟨clean, holds, known, low⟩ := here
    have higher := commit_above accepted low permitted.toTimely
    -- the write settles nothing yet: only the dropped cache entry does
    have still : settled u v0 t.trace = settled u v0 s.trace :=
      settled_plain served fun h => by cases h
    have tidy := tidy_step clean served permitted.toTimely fun _ _ => rfl
    have holds := holder_step served holds fun h => by cases h
    have records : (view u v0 i t).Clean := by
      intro v recorded
      show v ≤ settled u v0 t.trace
      rw [still]
      rcases records_step served recorded with old | ⟨rid, _, _, _, _, put, _⟩
      · exact known v old
      · rw [Op.puts, if_neg (keyRecord_ne_profile _ _)] at put
        cases put
    refine ⟨fun ok => ⟨tidy, holds, records, lastPut_installs served installs, ?_, fun q stored => ?_⟩,
      fun e failed msg => ⟨tidy, holds, records, fun _ _ h => by cases h⟩⟩
    · show settled u v0 t.trace < _
      rw [still]
      exact higher
    · -- what is stored from now on is this profile
      have now : t.state = s.state.put (keyProfile u.str) (x.req.install p).data := by
        rcases served_putObject served.1 with ⟨_, now⟩ | ⟨⟨_, _, _, fault⟩, _⟩
        · exact now
        · rw [ok] at fault
          cases fault
      have written : profileOf u t.state = some (x.req.install p) := by
        rw [profileOf, now, Sys.put, ObjectMap.get_insert, if_pos rfl]
        exact Profile.parse_data _
      have same : q = x.req.install p := Option.some.inj (stored.symm.trans written)
      subst same
      rw [currentKv_of_pos (by rw [version]; omega), version]

/-- The write of the handle's projection changes none of it. -/
theorem rotation_projects (p : Profile) (v : Nat) :
    Serves (cutoffRules u v0) (Timed u v0) i
      (.putObject (keyHandle p.handle) (handleProjection (x.req.install p)).data)
      (Under u v0 i fun a => a.Clean ∧ a.Written v)
      fun _ => Under u v0 i fun a => a.Clean ∧ a.Written v := by
  refine put_locked (keyHandle_ne_profile _ _) (fun did => keyHandle_ne_device _ _ _)
    (fun _ _ _ _ same => absurd same (keyHandle_ne_record _ _ _)) ?_
  intro a b known settled own stored recorded
  refine ⟨fun v written => ?_, own.trans known.2.1, settled ▸ known.2.2.1, fun q here =>
    known.2.2.2 q (stored q here)⟩
  rw [settled]
  rcases recorded v written with old | ⟨_, _, _, _, same, _⟩
  · exact known.1 v old
  · exact absurd same (keyHandle_ne_record _ _ _)

/-- The success that is recorded is of the version written, which the holder may record. -/
theorem rotation_records (mine : x.recordKey = keyRotationRecord u.str x.req.requestId) :
    Serves (cutoffRules u v0) (Timed u v0) i (.putObject x.recordKey x.success.toRecord.data)
      (Under u v0 i fun a => a.Clean ∧ a.Written x.req.keyVersion.toNat)
      fun _ => Under u v0 i (View.Written x.req.keyVersion.toNat) := by
  rw [mine]
  refine put_locked (keyRecord_ne_profile _ _) (fun did => (keyDevice_ne_record _ _ _).symm)
    (fun _ rec tok kv _ read success s here => ?_) ?_
  · rw [Rotation.parse_success] at read
    cases read
    rw [RotateOutcome.fromRecord_toRecord] at success
    cases success
    exact here.2.2.2.1.ge
  · exact fun a b known settled own stored _ => ⟨own.trans known.2.1, settled ▸ known.2.2.1,
      fun q here => known.2.2.2 q (stored q here)⟩

/-- Dropping the cached profile settles the version written. -/
theorem rotation_invalidates (mine : x.uid = u.str) :
    Serves (cutoffRules u v0) (Timed u v0) i (.profileCacheInvalidate x.uid)
      (Under u v0 i (View.Written x.req.keyVersion.toNat))
      fun _ => Under u v0 i fun a => a.Clean ∧ Returned a.settled (.ok x.success) := by
  rw [mine]
  refine cutoff_serves (fun s inv here timely => ?_) fun s r t inv here served permitted => ?_
  · obtain ⟨_, holds, own, above, stands⟩ := here
    have own : lastPut u i s.trace = x.req.keyVersion.toNat := own
    exact { timely with
      profile := fun _ put => by cases put
      record := fun _ _ _ _ _ put => by cases put
      files := fun _ => rfl
      drop := fun _ => ⟨holds, own ▸ above.le, fun p stored => own ▸ stands p stored⟩
      removes := fun _ h => by cases h
      release := fun h => by cases h }
  · obtain ⟨clean, holds, own, above, stands⟩ := here
    have now : settled u v0 t.trace = x.req.keyVersion.toNat :=
      (settled_drop served rfl).trans own
    refine ⟨tidy_step clean served permitted.toTimely fun _ _ => rfl,
      holder_step served holds fun h => (by cases h), fun v recorded => ?_, fun tok kv same => ?_⟩
    · show v ≤ settled u v0 t.trace
      rw [now]
      rcases records_step served recorded with old | ⟨_, _, _, _, _, put, _⟩
      · rcases inv.recorded v old with early | ⟨j, theirs, low⟩
        · exact early.trans above.le
        · rw [holds] at theirs
          cases theirs
          exact low.trans own.le
      · cases put
    · cases same
      exact now.ge

theorem rotation_releases (mine : x.uid = u.str) (r : Except ApiError RotateOutcome) :
    Serves (cutoffRules u v0) (Timed u v0) i (.release (.rotation x.uid))
      (Under u v0 i fun a => a.Clean ∧ Returned a.settled r)
      fun _ t => Tidy u i (fun _ => False) t ∧ Returned (settled u v0 t.trace) r := by
  rw [mine]
  refine cutoff_serves (fun s inv here timely => ?_) fun s _ t inv here served permitted => ?_
  · exact { timely with
      profile := fun _ put => by cases put
      record := fun _ _ _ _ _ put => by cases put
      files := fun _ => rfl
      drop := fun h => by cases h
      removes := fun _ h => by cases h
      release := fun _ => ⟨here.2.1, here.2.2.1⟩ }
  · refine ⟨tidy_step here.1 served permitted.toTimely fun _ _ => rfl, fun tok kv same => ?_⟩
    rw [settled_plain served fun h => by cases h]
    exact here.2.2.2 tok kv same

theorem rotateKeys_rotated
    (account : ∀ user, Token.identity env token = some user → user.userId = u)
    (start : Tidy u i (fun _ => False) s) :
    Meets (cutoffRules u v0) (Timed u v0) (rotated : _ → (cutoffRules u v0).Assertion i)
      (rotateKeys env token body) s := by
  have uid (x : Rotation env token body) : x.uid = u.str := by rw [Rotation.uid, account x.user x.known]
  have recordKey (x : Rotation env token body) :
      x.recordKey = keyRotationRecord u.str x.req.requestId := by rw [Rotation.recordKey, uid x]
  refine Meets.rotateKeys (fun _ => Tidy u i fun _ => False) (tidy fun _ => False)
    (fun _ => held) (fun _ => held) (fun _ p => heldAt p.currentKv.toNat)
    (fun x _ => wrote x.req.keyVersion.toNat) (fun x _ => noted x.req.keyVersion.toNat)
    (fun _ r => returning r) ?_ (fun e t here => ⟨here, fun _ _ h => by cases h⟩)
    (fun _ t here _ => ⟨here, fun _ _ h => by cases h⟩) (fun _ _ here => here)
    (fun x => rotation_acquires x (uid x)) (fun x => rotation_looks x (recordKey x))
    (fun x => rotation_reads x (uid x))
    (fun _ p t here _ => ⟨here.1, here.2.1, here.2.2.1, fun _ _ h => by cases h⟩)
    (fun x p outcome => rotation_refuses x (recordKey x)) (fun x p => rotation_commits x (uid x))
    (fun x p _ => rotation_projects x p _) (fun x p => rotation_records x (recordKey x))
    (fun x p => rotation_invalidates x (uid x)) fun x => rotation_releases x (uid x)
  exact Safe.only (tidy fun _ => False) (fun o guarding =>
    harmless_tidy (Op.harmless_of_guarding guarding)) (authenticate_guarding env token false) start

end Rotates

end Cutoff

end Atmin
