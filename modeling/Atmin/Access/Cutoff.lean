import Atmin.Access.CutoffRotation
import Atmin.Server.Sample

/-!
# When a cutoff takes effect

Once a rotation or a removal of devices has returned, a request that starts later is refused
if its token is of a superseded version or names a removed device, as long as the cache fills
of the guards are timely.
-/

namespace Atmin

open Interaction

section Cutoff

variable {ι : Type} [DecidableEq ι] {env : Env} {u : UserId} {v0 : Nat} {req : ι → CutoffRequest}
  {i j : ι} {o : Op} {s t : Log ι} {r : Res o}

/-! ### Removal of devices -/

/-- What is left when a handler has succeeded. -/
def finished {α : Type} (r : Except ApiError α) : (cutoffRules u v0).Assertion i where
  holds s := r.isOk = true → Tidy u i (fun _ => False) s
  stable := fun s t inv kept moved here ok =>
    (tidy fun _ => False).stable s t inv kept moved (here ok)

variable (u v0 i) in
abbrev Finishes {α : Type} (h : Handler α) (s : Log ι) : Prop :=
  Meets (cutoffRules u v0) (Timed u v0) (finished : _ → (cutoffRules u v0).Assertion i) h s

theorem guard_tidy {token : Option String} {enforceKv : Bool} {s : Log ι}
    (start : Tidy u i (fun _ => False) s) :
    Safe (cutoffRules u v0) (Timed u v0) i
      (fun r t => Identified env token r ∧ Tidy u i (fun _ => False) t)
      (authenticate env token enforceKv).run s :=
  Safe.only (tidy fun _ => False) (fun _ guarding => harmless_tidy (Op.harmless_of_guarding guarding))
    (authenticate_guarding env token enforceKv) start

theorem authenticated {α : Type} {token : Option String} {enforceKv : Bool} {s : Log ι}
    {f : AuthedUser → Handler α} (start : Tidy u i (fun _ => False) s)
    (rest : ∀ user t, Token.identity env token = some user → Tidy u i (fun _ => False) t →
      Finishes u v0 i (f user) t) :
    Finishes u v0 i (authenticate env token enforceKv >>= f) s :=
  Meets.bind (guard_tidy start) (fun _ _ _ h => nomatch h)
    fun user t after => rest user t (after.1 user rfl) after.2

/-- A step that is harmless to the slot's own bookkeeping. -/
theorem finish_call {α : Type} {f : Res o → Handler α} {s : Log ι} (harmless : o.harmless = true)
    (start : Tidy u i (fun _ => False) s)
    (rest : ∀ r t, Tidy u i (fun _ => False) t → Finishes u v0 i (f r) t) :
    Finishes u v0 i (call (ask o) >>= f) s :=
  Meets.call (tidy fun _ => False) start (harmless_tidy harmless) rest

theorem finish_orFail {α β : Type} {e : ApiError} {a : Option β} {f : β → Handler α} {s : Log ι}
    (rest : ∀ b, a = some b → Finishes u v0 i (f b) s) :
    Finishes u v0 i (orFail e a >>= f) s :=
  Meets.orFail (fun _ h => nomatch h) rest

theorem finish_read {α : Type} {key : String} {f : Data → Handler α} {s : Log ι}
    (start : Tidy u i (fun _ => False) s)
    (rest : ∀ d t, Tidy u i (fun _ => False) t → Finishes u v0 i (f d) t) :
    Finishes u v0 i (tryStore (ask (.getObject key)) >>= f) s :=
  Meets.read (tidy fun _ => False) start (harmless_tidy rfl) (fun _ _ _ h => nomatch h) rest

theorem verify_tidy {profile : Profile} {proof : AuthProof} {s : Log ι}
    (start : Tidy u i (fun _ => False) s) :
    Finishes u v0 i (verifyAccountProof env profile proof) s := by
  refine finish_orFail fun pubkey _ => ?_
  refine finish_call rfl start fun now t here => ?_
  refine finish_orFail fun payload _ => ?_
  exact Meets.checked (fun _ h => nomatch h) fun _ => Meets.pure fun _ => here

/-- First the file, then the cache entry. -/
theorem removeDevice_finishes {key : String} {s : Log ι} (start : Tidy u i (fun _ => False) s) :
    Finishes u v0 i (removeDevice key) s := by
  -- after the delete the file alone is pending: removed, and not yet evicted
  have deletes : Serves (cutoffRules u v0) (Timed u v0) i (.deleteObject key)
      (Tidy u i fun _ => False) fun r => Tidy u i (· = key) := by
    refine cutoff_serves (fun s inv here timely => ?_) fun s r t inv here served permitted => ?_
    · exact { timely with
        profile := fun _ put => by cases put
        record := fun _ _ _ _ _ put => by cases put
        files := fun _ => rfl
        drop := fun h => by cases h
        removes := fun k _ evicted => here.unseen k evicted
        release := fun h => by cases h }
    · -- no step of a removal fills the cache
      have kept := served_deviceCache served.1 fun _ h => by cases h
      refine ⟨fun k spared => ?_, fun k evicted member => ?_, fun did removed => ?_⟩
      · rcases (did_step served i _).mp spared with ⟨_, now⟩ | before
        · cases now
        · exact here.unspared k before
      · rcases (did_step served i _).mp evicted with ⟨_, now⟩ | before
        · cases now
        · exact here.unseen k before (kept member)
      · rcases (did_step served i _).mp removed with ⟨_, now⟩ | before
        · simp only [Op.removed, Bool.and_eq_true, decide_eq_true_eq] at now
          exact .inr now.1.symm
        · exact .inl (did_kept served ((here.evicted did before).resolve_right id))
  -- the eviction clears it
  have evicts : Serves (cutoffRules u v0) (Timed u v0) i (.deviceCacheInvalidate key)
      (Tidy u i (· = key)) fun _ => Tidy u i fun _ => False := by
    refine harmless_serves rfl fun s r t inv here served permitted => ?_
    have kept := tidy_step here served permitted.toTimely fun _ _ => rfl
    refine ⟨kept.unspared, kept.unseen, fun did removed => .inl ?_⟩
    rcases kept.evicted did removed with before | same
    · exact before
    · exact (did_step served i _).mpr (.inl ⟨rfl, by simp [Op.evicts, same]⟩)
  unfold removeDevice Finishes Meets
  simp only [run_bind, run_tryStoreAs, run_call, ask_bind, Prog.op_bind]
  refine Safe.request (tidy fun _ => False) start deletes fun r t here => ?_
  cases r with
  -- a failed delete evicts nothing; the removal answers an error
  | error e => exact Safe.ret fun h => by cases h
  | ok =>
    simp only [Prog.ret_bind]
    exact Safe.request (tidy (· = key)) here evicts fun _ v done => Safe.ret fun _ => done

theorem deleteDevice_finishes {token : Option String} {s : Log ι}
    (start : Tidy u i (fun _ => False) s) : Finishes u v0 i (deleteDevice env token) s :=
  authenticated start fun _ _ _ here => removeDevice_finishes here

theorem revokeDevice_finishes {token : Option String} {body : Option Json} {s : Log ι}
    (start : Tidy u i (fun _ => False) s) : Finishes u v0 i (revokeDevice env token body) s := by
  refine authenticated start fun user t _ here => ?_
  refine finish_orFail fun req _ => ?_
  refine finish_read here fun bytes t here => ?_
  refine finish_orFail fun profile _ => ?_
  refine Meets.bind (verify_tidy here) (fun _ _ _ h => nomatch h) fun payload t here => ?_
  exact removeDevice_finishes (here rfl)

/-- These entries have been evicted. -/
def evictedAll (done : String → Prop) : (cutoffRules u v0).Assertion i where
  holds s := Tidy u i (fun _ => False) s ∧ ∀ key, done key → Evicted i key s
  stable := by
    rintro s t inv kept moved ⟨clean, evicted⟩
    have still := (tidy fun _ => False).stable s t inv kept moved clean
    obtain ⟨_, _, _, _, served, _⟩ := moved
    exact ⟨still, fun key member => did_kept served (evicted key member)⟩

theorem evictDevices_tidy {pre : String} (keys : List String) {done : String → Prop} {s : Log ι}
    (start : (evictedAll done : (cutoffRules u v0).Assertion i) s) :
    Safe (cutoffRules u v0) (Timed u v0) i (fun _ => (evictedAll (fun key => done key ∨
      key ∈ keys ∧ startsWith key pre = true) : (cutoffRules u v0).Assertion i))
      (evictDevices pre keys).run s := by
  have fewer {done done' : String → Prop} {t : Log ι} (within : ∀ key, done' key → done key)
      (here : (evictedAll done : (cutoffRules u v0).Assertion i) t) :
      (evictedAll done' : (cutoffRules u v0).Assertion i) t :=
    ⟨here.1, fun key member => here.2 key (within key member)⟩
  induction keys generalizing done s with
  | nil =>
    have same : (evictedAll (fun key => done key ∨ key ∈ [] ∧ startsWith key pre = true) :
        (cutoffRules u v0).Assertion i) s :=
      fewer (fun key member => member.resolve_right fun h => nomatch h.1) start
    exact fun _ moved => (evictedAll _).stable.others moved same
  | cons key rest ih =>
    unfold evictDevices
    split
    -- a device key of the prefix: one more is evicted
    next device =>
      have evicts : Serves (cutoffRules u v0) (Timed u v0) i (.deviceCacheInvalidate key)
          (evictedAll done : (cutoffRules u v0).Assertion i)
          fun _ => (evictedAll (fun k => done k ∨ k = key) : (cutoffRules u v0).Assertion i) := by
        refine harmless_serves rfl fun s r t inv here served permitted => ?_
        refine ⟨tidy_step here.1 served permitted.toTimely fun _ _ => rfl, fun k member => ?_⟩
        rcases member with old | rfl
        · exact did_kept served (here.2 k old)
        · exact (did_step served i _).mpr (.inl ⟨rfl, by simp [Op.evicts]⟩)
      simp only [run_bind, run_call, ask_bind, Prog.op_bind, Prog.ret_bind]
      refine Safe.request (evictedAll done) start evicts fun _ t here => ?_
      refine (ih here).weaken fun _ v after => fewer (fun k member => ?_) after
      rcases member with old | ⟨listed, within⟩
      · exact .inl (.inl old)
      · rcases List.mem_cons.mp listed with same | later
        · exact .inl (.inr same)
        · exact .inr ⟨later, within⟩
    -- other keys are passed over
    next other =>
      refine (ih start).weaken fun _ v after => fewer (fun k member => ?_) after
      rcases member with old | ⟨listed, within⟩
      · exact .inl old
      · rcases List.mem_cons.mp listed with rfl | later
        · exact absurd within other
        · exact .inr ⟨later, within⟩

/-- First the cache entries of a page, then its objects. -/
theorem wipePrefixes_finishes (prefixes : List String) {s : Log ι}
    (start : Tidy u i (fun _ => False) s) :
    Finishes u v0 i (wipePrefixes (prefixUserDevices u.str) prefixes) s := by
  -- a bulk delete is allowed once the devices among its keys are out of the cache
  have deletes (keys : List String) : Serves (cutoffRules u v0) (Timed u v0) i (.deleteObjects keys)
      (evictedAll (fun key => key ∈ keys ∧ startsWith key (prefixUserDevices u.str) = true) :
        (cutoffRules u v0).Assertion i)
      fun r t => r = .ok () → Tidy u i (fun _ => False) t := by
    refine cutoff_serves (fun s inv here timely => ?_) fun s r t inv here served permitted ok => ?_
    · exact { timely with
        profile := fun _ put => by cases put
        record := fun _ _ _ _ _ put => by cases put
        files := fun _ => rfl
        drop := fun h => by cases h
        removes := fun k _ evicted => here.1.unseen k evicted
        release := fun h => by cases h }
    · have kept := served_deviceCache served.1 fun _ h => by cases h
      refine ⟨fun k spared => ?_, fun k evicted member => ?_, fun did removed => .inl ?_⟩
      · rcases (did_step served i _).mp spared with ⟨_, now⟩ | before
        · rw [ok] at now
          simp [Op.spared, Except.isOk, Except.toBool] at now
        · exact here.1.unspared k before
      · rcases (did_step served i _).mp evicted with ⟨_, now⟩ | before
        · cases now
        · exact here.1.unseen k before (kept member)
      · rcases (did_step served i _).mp removed with ⟨_, now⟩ | before
        · simp only [Op.removed, Bool.and_eq_true, decide_eq_true_eq] at now
          refine did_kept served (here.2 _ ⟨now.1, ?_⟩)
          exact device_within u.str did
        · exact did_kept served ((here.1.evicted did before).resolve_right id)
  -- prefix by prefix, a page each
  induction prefixes generalizing s with
  | nil => exact Safe.ret fun _ => start
  | cons pre rest ih =>
    unfold wipePrefixes Finishes Meets
    simp only [run_bind, run_tryStoreAs, ask_bind, Prog.op_bind]
    refine Safe.request (tidy fun _ => False) start (harmless_tidy rfl) fun r t here => ?_
    cases r with
    | error e => exact Safe.ret fun h => by cases h
    | ok page =>
      simp only [Prog.ret_bind]
      have none_yet : (evictedAll (fun _ => False) : (cutoffRules u v0).Assertion i) t :=
        ⟨here, fun _ h => h.elim⟩
      refine Safe.bind (evictDevices_tidy page.keys none_yet) fun evicted v after => ?_
      cases evicted with
      | error e => exact Safe.ret fun h => by cases h
      | ok =>
        dsimp only
        split
        · exact ih after.1
        · simp only [run_bind, run_tryStoreAs, ask_bind, Prog.op_bind]
          have all : (evictedAll (fun key => key ∈ page.keys ∧
              startsWith key (prefixUserDevices u.str) = true) :
                (cutoffRules u v0).Assertion i) v :=
            ⟨after.1, fun key member => after.2 key (.inr member)⟩
          refine Safe.request _ all (deletes page.keys) fun r w wiped => ?_
          cases r with
          | error e => exact Safe.ret fun h => by cases h
          | ok => exact ih (wiped rfl)

theorem releaseHandle_finishes {handle : String} {s : Log ι} (start : Tidy u i (fun _ => False) s) :
    Finishes u v0 i (releaseHandle env handle) s := by
  have writes (d : Data) : Serves (cutoffRules u v0) (Timed u v0) i (.putObject (keyHandle handle) d)
      (Tidy u i fun _ => False) fun _ => Tidy u i fun _ => False := by
    refine cutoff_serves (fun s inv here timely => ?_) fun s r t inv here served permitted => ?_
    · exact permitted_put timely (keyHandle_ne_profile _ _) (fun did => keyHandle_ne_device _ _ _)
        fun _ _ _ _ same => absurd same (keyHandle_ne_record _ _ _)
    · exact tidy_step here served permitted.toTimely fun _ _ => rfl
  have releases (r : Except ApiError Unit) : Serves (cutoffRules u v0) (Timed u v0) i
      (.release (.handleClaim handle)) (finished r : (cutoffRules u v0).Assertion i)
      fun _ => (finished r : (cutoffRules u v0).Assertion i) := by
    refine cutoff_serves (fun s inv here timely => ?_) fun s _ t inv here served permitted ok => ?_
    · exact { timely with
        profile := fun _ put => nomatch put
        record := fun _ _ _ _ _ put => nomatch put
        files := fun _ => rfl
        drop := fun h => nomatch h
        removes := fun _ h => nomatch h
        release := fun h => nomatch h }
    · exact tidy_step (here ok) served permitted.toTimely fun _ _ => rfl
  unfold releaseHandle
  split
  next => exact Meets.pure fun _ => start
  next =>
    refine Meets.locked (tidy fun _ => False) start (harmless_tidy rfl) (fun _ _ h => nomatch h)
      finished (fun t here => ?_) releases
    refine finish_call rfl here fun now t here => ?_
    unfold Finishes Meets
    rw [run_tryStoreAs]
    refine Safe.request (tidy fun _ => False) here (writes _) fun r v here => ?_
    cases r with
    | error e => exact Safe.ret fun h => nomatch h
    | ok => exact Safe.ret fun _ => here

theorem deleteProfile_finishes {token : Option String} {s : Log ι}
    (account : ∀ user, Token.identity env token = some user → user.userId = u)
    (start : Tidy u i (fun _ => False) s) : Finishes u v0 i (deleteProfile env token) s := by
  refine authenticated start fun user t known here => ?_
  rw [account user known]
  refine finish_read here fun bytes t here => ?_
  refine finish_orFail fun profile _ => ?_
  refine Meets.bind (wipePrefixes_finishes _ here) (fun _ _ _ h => nomatch h) fun _ t here => ?_
  exact releaseHandle_finishes (here rfl)

/-! ### Every request follows the rules -/

variable (i) in
/-- The slot has not asked for anything yet. -/
def Silent (s : Log ι) : Prop := ∀ e ∈ s.trace, e.by_ ≠ i

omit [DecidableEq ι] in
theorem tidy_of_silent (silent : Silent i s) : Tidy u i (fun _ => False) s where
  unspared _ did := by
    obtain ⟨e, member, mine, _⟩ := did
    exact silent e member mine
  unseen _ did := by
    obtain ⟨e, member, mine, _⟩ := did
    exact absurd mine (silent e member)
  evicted _ did := by
    obtain ⟨e, member, mine, _⟩ := did
    exact absurd mine (silent e member)

/-- An answer, with what it says about versions and devices. -/
def returned (r : Except ApiError (Option RotateOutcome)) : (cutoffRules u v0).Assertion i :=
  (finished r).and
    { holds := fun s => ∀ token kv, r = .ok (some (.success token kv)) →
        kv.toNat ≤ settled u v0 s.trace
      stable := fun s t _ _ ⟨j, _, moved⟩ here token kv same =>
        settled_lasts kv.toNat j s t moved (here token kv same) }

theorem answers_none {h : Handler Unit} {s : Log ι} (finishes : Finishes u v0 i h s) :
    Meets (cutoffRules u v0) (Timed u v0) (returned : _ → (cutoffRules u v0).Assertion i)
      (h >>= fun _ => pure none) s :=
  Meets.bind finishes (fun _ _ _ => ⟨fun h => (nomatch h), fun _ _ h => (nomatch h)⟩)
    fun _ _ here => Safe.ret ⟨fun _ => here rfl, fun _ _ h => nomatch h⟩

theorem request_answers (account : (req i).OnAccount env u) {s : Log ι} (silent : Silent i s) :
    Meets (cutoffRules u v0) (Timed u v0) (returned : _ → (cutoffRules u v0).Assertion i)
      ((req i).run env) s := by
  have start : Tidy u i (fun _ => False) s := tidy_of_silent silent
  cases kind : req i with
  | guarded token enforceKv =>
    refine Meets.bind (guard_tidy start) (fun _ _ _ => ⟨fun h => (nomatch h), fun _ _ h => (nomatch h)⟩)
      fun _ _ here => Safe.ret ⟨fun _ => here.2, fun _ _ h => nomatch h⟩
  | rotateKeys token body =>
    rw [kind] at account
    refine Meets.bind (rotateKeys_rotated account start)
      (fun _ _ _ => ⟨fun h => (nomatch h), fun _ _ h => (nomatch h)⟩) fun outcome t here => ?_
    refine Safe.ret ⟨fun _ => here.1, fun tok kv same => here.2 tok kv ?_⟩
    cases same
    rfl
  | revokeDevice token body => exact answers_none (revokeDevice_finishes start)
  | deleteDevice token => exact answers_none (deleteDevice_finishes start)
  | deleteProfile token =>
    rw [kind] at account
    exact answers_none (deleteProfile_finishes account start)

theorem cutoff_contracts (v0 : Nat) (account : ∀ i, (req i).OnAccount env u) :
    Contracts (cutoffRules u v0) (cutoffRequests env req (Timely u v0)) Silent
      fun k a => (returned a : (cutoffRules u v0).Assertion k) where
  stable i s t _ _ moved silent := by
    obtain ⟨j, differ, o, r, served, _⟩ := moved
    intro e member
    rw [served.2] at member
    rcases List.mem_cons.mp member with rfl | old
    · exact differ
    · exact silent e old
  arrives i s _ silent := request_answers (account i) silent

/-! ### Late requests -/

/-- A request that changes nothing keeps what lasts. -/
theorem harmless_lasts {A : Log ι → Prop} (lasts : Lasts u v0 A) (harmless : o.harmless = true)
    {R : Res o → Prop} (after : ∀ s r t, Cutoff u v0 s → A s → Recorded i o s r t → R r) :
    Serves (cutoffRules u v0) (Timed u v0) i o A fun r t => A t ∧ R r :=
  harmless_serves harmless fun s r t inv here served permitted =>
    ⟨lasts i s t ⟨o, r, served, permitted⟩ here, after s r t inv here served⟩

variable (u v0 i) in
/-- The handler fails. -/
abbrev Refuses {α : Type} (h : Handler α) (s : Log ι) : Prop :=
  Safe (cutoffRules u v0) (Timed u v0) i (fun r _ => ∃ e, r = .error e) h.run s

theorem refuses_first {α β : Type} {h : Handler α} {f : α → Handler β} {s : Log ι}
    (first : Refuses u v0 i h s) : Refuses u v0 i (h >>= f) s := by
  rw [Refuses, run_bind]
  refine Safe.bind first fun r t failed => ?_
  obtain ⟨e, rfl⟩ := failed
  exact fun _ _ => ⟨e, rfl⟩

/-- A removed device is not let in. -/
theorem checkDevice_refuses {did : String} {s : Log ι} (start : CutOff (keyDevice u.str did) s) :
    Refuses u v0 i (checkDevice (keyDevice u.str did)) s := by
  have lasts : Lasts u v0 (CutOff (keyDevice u.str did) : Log ι → Prop) := cutOff_lasts _
  simp only [Refuses, checkDevice, run_bind, run_call, ask_bind, Prog.op_bind, Prog.ret_bind]
  have misses : Serves (cutoffRules u v0) (Timed u v0) i (.deviceCacheValid (keyDevice u.str did))
      (CutOff (keyDevice u.str did)) fun seen t => CutOff (keyDevice u.str did) t ∧ seen = false := by
    refine harmless_lasts lasts rfl fun s seen t inv here served => ?_
    obtain ⟨j, removed, evicted⟩ := here
    cases hit : seen with
    | false => rfl
    | true =>
      exact absurd ((served_deviceCacheValid served.1).2 hit) (inv.forgotten j _ removed evicted)
  have absent : Serves (cutoffRules u v0) (Timed u v0) i (.headObject (keyDevice u.str did))
      (CutOff (keyDevice u.str did)) fun found t => CutOff (keyDevice u.str did) t ∧
        found ≠ .ok () := by
    refine harmless_lasts lasts rfl fun s found t inv here served ok => ?_
    obtain ⟨j, removed, _⟩ := here
    rcases served_headObject served.1 with ⟨_, ⟨_, present⟩ | ⟨missing, _⟩ | ⟨_, _, _, fault⟩⟩
    · rw [inv.gone j did removed] at present
      cases present
    · rw [ok] at missing
      cases missing
    · rw [ok] at fault
      cases fault
  refine Safe.request (lasting _ lasts) start misses fun seen t here => ?_
  obtain ⟨here, rfl⟩ := here
  simp only [Bool.false_eq_true, if_false, run_bind, run_call, ask_bind, Prog.op_bind, Prog.ret_bind]
  refine Safe.request (lasting _ lasts) here absent fun found t after => ?_
  rcases found with (_ | err) | _
  · exact fun _ _ => ⟨_, rfl⟩
  · exact fun _ _ => ⟨_, rfl⟩
  · exact absurd rfl after.2

/-- A superseded version is not let in. -/
theorem currentKv_above {v : Nat} {s : Log ι} (start : v ≤ settled u v0 s.trace) :
    Safe (cutoffRules u v0) (Timed u v0) i (fun r _ => ∀ kv, r = .ok kv → v ≤ kv.toNat)
      (currentKeyVersion u.str).run s := by
  have lasts : Lasts u v0 fun s : Log ι => v ≤ settled u v0 s.trace := settled_lasts v
  simp only [currentKeyVersion, run_bind, run_call, ask_bind, Prog.op_bind, Prog.ret_bind]
  -- a cached version has been settled, or is newer
  have cached : Serves (cutoffRules u v0) (Timed u v0) i (.profileCacheGet u.str)
      (fun s => v ≤ settled u v0 s.trace) fun hit t => v ≤ settled u v0 t.trace ∧
        ∀ kv, hit = some kv → v ≤ kv.toNat := by
    refine harmless_lasts lasts rfl fun s hit t inv here served kv same => ?_
    exact here.trans (inv.cached kv ((served_profileCacheGet served.1).2 kv same))
  -- so has the version of the stored profile
  have stored : Serves (cutoffRules u v0) (Timed u v0) i (.getObject (keyProfile u.str))
      (fun s => v ≤ settled u v0 s.trace) fun found t => v ≤ settled u v0 t.trace ∧
        ∀ d p, found = .ok d → Profile.parse d = some p → v ≤ p.currentKv.toNat := by
    refine harmless_lasts lasts rfl fun s found t inv here served d p ok parsed => ?_
    obtain ⟨_, result | ⟨_, _, _, fault⟩⟩ := served_getObject served.1
    · refine here.trans (inv.stored p ?_)
      rw [profileOf, lookup_eq_ok.mp (result.symm.trans ok)]
      exact parsed
    · rw [ok] at fault
      cases fault
  refine Safe.request (lasting _ lasts) start cached fun hit t after => ?_
  obtain ⟨here, low⟩ := after
  cases hit with
  | some kv => exact fun _ _ other same => by cases same; exact low kv rfl
  | none =>
    simp only [run_bind, run_call, ask_bind, Prog.op_bind, Prog.ret_bind]
    refine Safe.request (lasting _ lasts) here stored fun found t after => ?_
    rcases found with (_ | err) | d
    · exact fun _ _ _ same => by cases same
    · exact fun _ _ _ same => by cases same
    · -- a miss is answered from the profile, which then fills the cache
      cases parsed : Profile.parse d with
      | none =>
        simp only [run_bind, parsed, run_orFail_none, Prog.ret_bind]
        exact fun _ _ _ same => by cases same
      | some p =>
        simp only [run_bind, parsed]
        refine Safe.request (lasting _ lasts) after.1 (harmless_lasts lasts rfl
          (fun _ _ _ _ _ _ => trivial) : Serves _ _ _ _ _ fun _ t => v ≤ settled u v0 t.trace ∧ True)
          fun _ t _ => fun _ _ kv same => ?_
        cases same
        exact after.2 d p rfl parsed

theorem guard_refuses_device {token : Option String} {user : AuthedUser} {enforceKv : Bool} {s : Log ι}
    (known : Token.identity env token = some user) (mine : user.userId = u)
    (start : CutOff (keyDevice u.str user.deviceId.str) s) :
    Refuses u v0 i (authenticate env token enforceKv) s := by
  rw [authenticate_known known, admitUser, mine]
  exact refuses_first (checkDevice_refuses start)

theorem guard_refuses_version {token : Option String} {user : AuthedUser} {v : Nat} {s : Log ι}
    (known : Token.identity env token = some user) (mine : user.userId = u)
    (superseded : user.keyVersion.get.toNat < v) (start : v ≤ settled u v0 s.trace) :
    Refuses u v0 i (authenticate env token true) s := by
  have lasts : Lasts u v0 fun s : Log ι => v ≤ settled u v0 s.trace := settled_lasts v
  have checks : Safe (cutoffRules u v0) (Timed u v0) i
      (fun _ t => True ∧ v ≤ settled u v0 t.trace)
      (checkDevice (keyDevice user.userId.str user.deviceId.str)).run s := by
    refine Safe.only (lasting _ lasts) (fun o guarding => ?_) (checkDevice_guarding _) start
    exact harmless_serves (Op.harmless_of_guarding guarding) fun s r t _ here served permitted =>
      lasts i s t ⟨o, r, served, permitted⟩ here
  rw [authenticate_known known]
  simp only [Refuses, admitUser, run_bind, if_true]
  refine Safe.bind checks fun checked t after => ?_
  cases checked with
  | error e => exact fun _ _ => ⟨e, rfl⟩
  | ok =>
    dsimp only
    rw [mine]
    refine Safe.bind (currentKv_above after.2) fun current t above => ?_
    cases current with
    | error e => exact fun _ _ => ⟨e, rfl⟩
    | ok kv =>
      have differ : user.keyVersion.get ≠ kv := by
        intro same
        have high := above kv rfl
        rw [← same] at high
        omega
      simp only [run_check, Prog.ret_bind, decide_eq_true_eq, if_neg differ]
      exact fun _ _ => ⟨_, rfl⟩

/-- A request whose guard fails, fails. -/
theorem request_refuses {k : CutoffRequest} {s : Log ι}
    (guard : Refuses u v0 i (authenticate env k.token? k.enforcesKv) s) :
    Refuses u v0 i (k.run env) s := by
  cases k with
  | guarded token enforceKv => exact refuses_first guard
  | rotateKeys token body => exact refuses_first (refuses_first guard)
  | revokeDevice token body => exact refuses_first (refuses_first guard)
  | deleteDevice token => exact refuses_first (refuses_first guard)
  | deleteProfile token => exact refuses_first (refuses_first guard)

/-! ### The cutoff -/

variable (env u req) in
/-- Whatever starts after a rotation to `v` has returned is refused at a version below `v`, and
whatever starts after a removal has returned is refused to the devices it removed. -/
def CutoffImmediate (s0 : Sys ι) (C : ι → Op → Log ι → Prop) : Prop :=
  ∀ w w', Reach (cutoffRequests env req C) (.init s0) w →
    Relation.ReflTransGen (Step (cutoffRequests env req C)) w w' →
    ∀ i j user a, w.procs i = .idle → w'.procs i = .done a →
      Token.identity env (req i).token? = some user →
      (∀ token v, w.procs j = .done (.ok (some (.success token v))) → (req i).enforcesKv = true →
        user.keyVersion.get < v → ∃ e, a = .error e) ∧
      (∀ b, w.procs j = .done (.ok b) → Removed j (keyDevice u.str user.deviceId.str) w.sys →
        ∃ e, a = .error e)

variable (u) in
/-- A state whose caches and records do not contradict the stored profile. -/
structure Coherent (v0 : Nat) (s : Sys ι) : Prop where
  stored : ∀ p, profileOf u s = some p → v0 ≤ p.currentKv.toNat
  cached : ∀ kv, (u.str, kv) ∈ s.profileCache → v0 ≤ kv.toNat
  recorded : ∀ v, RecordedSuccess u s v → v ≤ v0

theorem cutoff_immediate (account : ∀ i, (req i).OnAccount env u) {s0 : Sys ι}
    (coherent : Coherent u v0 s0) : CutoffImmediate env u req s0 (Timely u v0) := by
  intro w w' reached run i j user a idle done known
  have contracts := cutoff_contracts v0 account
  have start : Secured (cutoffRules u v0) (cutoffRequests env req (Timely u v0)) Silent
      (fun k a => (returned a : (cutoffRules u v0).Assertion k)) (.init (.init s0)) := by
    refine .init ⟨coherent.stored, coherent.cached, fun v recorded => .inl (coherent.recorded v recorded),
      fun _ _ removed => ?_, fun _ _ removed => ?_⟩ fun k e member => nomatch member
    · obtain ⟨_, member, _⟩ := removed
      cases member
    · obtain ⟨_, member, _⟩ := removed
      cases member
  have here := start.run contracts reached
  have mine := account i user known
  refine ⟨fun token v success enforces superseded => ?_, fun b success removed => ?_⟩
  · have slot := here.2 j
    rw [success] at slot
    have low : v.toNat ≤ settled u v0 w.sys.trace := slot.post.2 token v rfl
    have refuses (s : Log ι) (_ : Cutoff u v0 s) (_ : Silent i s)
        (now : v.toNat ≤ settled u v0 s.trace) : Refuses u v0 i ((req i).run env) s := by
      refine request_refuses ?_
      rw [enforces]
      exact guard_refuses_version known mine superseded now
    exact here.late contracts (lasting _ (settled_lasts v.toNat)) low idle refuses run done
  · have slot := here.2 j
    rw [success] at slot
    have clean : Tidy u j (fun _ => False) w.sys := slot.post.1 rfl
    have cut : CutOff (keyDevice u.str user.deviceId.str) w.sys :=
      ⟨j, removed, (clean.evicted _ removed).resolve_right id⟩
    have refuses (s : Log ι) (_ : Cutoff u v0 s) (_ : Silent i s)
        (now : CutOff (keyDevice u.str user.deviceId.str) s) :
        Refuses u v0 i ((req i).run env) s :=
      request_refuses (guard_refuses_device known mine now)
    exact here.late contracts (lasting _ (cutOff_lasts _)) cut idle refuses run done

end Cutoff

/-! ### A fill that comes too late -/

section LateFill

open Sample

/-- A request whose guard has seen the device file, its removal, and one more request. -/
def removalRace (i : Fin 3) : CutoffRequest :=
  if i = 1 then .deleteDevice token else .guarded token true

/-- The account before anything is cached. -/
def uncached (ι : Type) : Sys ι := { Sample.sys ι with deviceCache := [] }

theorem removalRace_prog (C : Fin 3 → Op → Log (Fin 3) → Prop) :
    (cutoffRequests env removalRace C).prog = fun i =>
      if i = 1 then (CutoffRequest.run env (.deleteDevice token)).run
      else (CutoffRequest.run env (.guarded token true)).run := by
  funext i
  exact apply_ite (fun r => (CutoffRequest.run env r).run) (i = 1) _ _

/-- Slot 0 looks at the device file, slot 1 removes it, slot 0 fills the cache. -/
def lateFill : List (Fin 3 × Choice) :=
  List.replicate 3 (0, .ok) ++ List.replicate 10 (1, .ok) ++ [(0, .ok)]

/-- The slot has not arrived, or has succeeded. -/
def status (i : Fin 3) (w : World (Fin 3) Op Res (Except ApiError (Option RotateOutcome)) (Log (Fin 3))) :
    Option Bool :=
  match w.procs i with
  | .idle => some false
  | .done (.ok none) => some true
  | _ => none

theorem idle_of_status {i : Fin 3}
    {w : World (Fin 3) Op Res (Except ApiError (Option RotateOutcome)) (Log (Fin 3))}
    (here : status i w = some false) : w.procs i = .idle := by
  unfold status at here
  split at here <;> first | assumption | cases here

theorem done_of_status {i : Fin 3}
    {w : World (Fin 3) Op Res (Except ApiError (Option RotateOutcome)) (Log (Fin 3))}
    (here : status i w = some true) : w.procs i = .done (.ok none) := by
  unfold status at here
  split at here <;> first | assumption | cases here

theorem lateFill_observed : (World.follow logRun (cutoffRequests env removalRace Anything).prog lateFill
    (.init (.init (uncached (Fin 3))))).any fun w =>
      decide (status 2 w = some false ∧ status 1 w = some true) &&
      (w.sys.trace.any fun e => decide (e.by_ = 1) && e.op.removed (keyDevice uid did) e.res) &&
      (World.follow logRun (cutoffRequests env removalRace Anything).prog
        (List.replicate 4 (2, .ok)) w).any fun w' => decide (status 2 w' = some true) := by
  rw [removalRace_prog]
  simp only [CutoffRequest.run, deleteDevice, authenticate_known identity_token]
  decide

/-- The last request is let in with the token of the removed device. -/
theorem removed_device_let_in :
    ¬ CutoffImmediate env user removalRace (uncached (Fin 3)) Anything := by
  intro immediate
  obtain ⟨w, before, observed⟩ := (Option.any_eq_true _ _).mp lateFill_observed
  obtain ⟨observed, later⟩ := (Bool.and_eq_true _ _).mp observed
  obtain ⟨status, logged⟩ := (Bool.and_eq_true _ _).mp observed
  obtain ⟨idle, finished⟩ := of_decide_eq_true status
  obtain ⟨w', after, done⟩ := (Option.any_eq_true _ _).mp later
  have recorded {v v' : World (Fin 3) Op Res (Except ApiError (Option RotateOutcome)) (Log (Fin 3))}
      (run : Relation.ReflTransGen (Step ⟨(cutoffRequests env removalRace Anything).prog,
        Logged Anything⟩) v v') :
      Relation.ReflTransGen (Step (cutoffRequests env removalRace Anything)) v v' :=
    steps_mono (fun _ _ _ _ _ served => ⟨trivial, recorded_of_logged served⟩) run
  have removed : Removed 1 (keyDevice user.str authed.deviceId.str) w.sys := by
    obtain ⟨e, member, mine⟩ := List.any_eq_true.mp logged
    obtain ⟨mine, removed⟩ := (Bool.and_eq_true _ _).mp mine
    exact ⟨e, member, of_decide_eq_true mine, removed⟩
  obtain ⟨_, refused⟩ := immediate w w' (recorded (steps_of_logRun before))
    (recorded (steps_of_logRun after)) 2 1 authed _ (idle_of_status idle)
    (done_of_status (of_decide_eq_true done)) identity_token
  obtain ⟨_, wrong⟩ := refused none (done_of_status finished) removed
  cases wrong

/-- The same requests, with timely fills. -/
theorem removalRace_immediate :
    CutoffImmediate env user removalRace (uncached (Fin 3)) (Timely user 1) := by
  refine cutoff_immediate (fun i other known => ?_) ⟨fun p stored => ?_,
    fun _ member => (nomatch member), fun v recorded => ?_⟩
  · have same : (removalRace i).token? = token := by
      unfold removalRace
      split <;> rfl
    rw [same] at known
    exact token_user known
  · have known : profileOf user (Sample.sys (Fin 3)) = some p := stored
    rw [stored_profile] at known
    cases known
    decide
  · obtain ⟨rid, _, _, _, found, _⟩ := recorded
    have none_ : (uncached (Fin 3)).objects.get (keyRotationRecord user.str rid) = none :=
      store_record rid
    rw [none_] at found
    cases found

end LateFill

end Atmin
