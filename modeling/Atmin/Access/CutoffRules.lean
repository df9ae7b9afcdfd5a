import Atmin.Access.Footprint

/-!
# Caches and cutoff

The guard keeps two caches. A rotation drops the cached version after it has written the
profile; a removal of devices drops their entries. What the caches hold is judged here against
the versions and devices that have been settled so, over the log of a run.
-/

namespace Atmin

open Interaction

/-- A guarded request of the account; the last four cut something off. -/
inductive CutoffRequest where
  | guarded (token : Option String) (enforceKv : Bool)
  | rotateKeys (token : Option String) (body : Option Json)
  | revokeDevice (token : Option String) (body : Option Json)
  | deleteDevice (token : Option String)
  | deleteProfile (token : Option String)

namespace CutoffRequest

def run (env : Env) : CutoffRequest → Handler (Option RotateOutcome)
  | guarded token enforceKv => do
    let _ ← authenticate env token enforceKv
    pure none
  | rotateKeys token body => do
    let outcome ← Atmin.rotateKeys env token body
    pure (some outcome)
  | revokeDevice token body => do
    Atmin.revokeDevice env token body
    pure none
  | deleteDevice token => do
    Atmin.deleteDevice env token
    pure none
  | deleteProfile token => do
    Atmin.deleteProfile env token
    pure none

def token? : CutoffRequest → Option String
  | guarded token _ | rotateKeys token _ | revokeDevice token _ | deleteDevice token
  | deleteProfile token => token

/-- Every handler enforces the version but `rotate_keys`. -/
def enforcesKv : CutoffRequest → Bool
  | guarded _ enforceKv => enforceKv
  | rotateKeys .. => false
  | _ => true

def OnAccount (env : Env) (u : UserId) (r : CutoffRequest) : Prop :=
  ∀ user, Token.identity env r.token? = some user → user.userId = u

end CutoffRequest

/-- The request took the object away and said so. -/
def Op.removed (key : String) : (o : Op) → Res o → Bool
  | .deleteObject k, r => decide (k = key) && r.isOk
  | .deleteObjects ks, r => decide (key ∈ ks) && r.isOk
  | _, _ => false

/-- A bulk delete that was to take the object away failed. -/
def Op.spared (key : String) : (o : Op) → Res o → Bool
  | .deleteObjects ks, r => decide (key ∈ ks) && !r.isOk
  | _, _ => false

/-- The request drops the device's entry from the cache. -/
def Op.evicts (key : String) : Op → Bool
  | .deviceCacheInvalidate k => decide (k = key)
  | _ => false

section History

variable {ι : Type} (u : UserId) (v0 : Nat)

/-- Slot `i` made a request with such a reply. -/
def Did (i : ι) (P : (o : Op) → Res o → Bool) (s : Log ι) : Prop :=
  ∃ e ∈ s.trace, e.by_ = i ∧ P e.op e.res = true

abbrev Removed (i : ι) (key : String) : Log ι → Prop := Did i (Op.removed key)

abbrev Spared (i : ι) (key : String) : Log ι → Prop := Did i (Op.spared key)

abbrev Evicted (i : ι) (key : String) : Log ι → Prop := Did i fun o _ => o.evicts key

/-- The version a request writes to the account's profile. -/
def Op.installs (o : Op) : Option Nat :=
  ((o.puts (keyProfile u.str)).bind Profile.parse).map fun p => p.keyVersion.toNat

variable [DecidableEq ι]

/-- The version that slot `i` last wrote to the profile. -/
def lastPut (i : ι) : List (Event ι Op Res) → Nat
  | [] => 0
  | e :: before =>
    if e.by_ = i then (e.op.installs u).getD (lastPut i before) else lastPut i before

/-- The version whose rotation has dropped the cached one; `v0` before any has. -/
def settled : List (Event ι Op Res) → Nat
  | [] => v0
  | e :: before => match e.op with
    | .profileCacheInvalidate uid => if uid = u.str then lastPut u e.by_ before else settled before
    | _ => settled before

/-- A recorded success for this version. -/
def RecordedSuccess (s : Sys ι) (v : Nat) : Prop :=
  ∃ rid rec token kv, (s.objects.get (keyRotationRecord u.str rid)).bind RotationRecord.parse =
    some rec ∧ RotateOutcome.fromRecord rec = .success token kv ∧ kv.toNat = v

/-- Where a cache fill comes too late: an entry of a device after it was evicted for a removal
that has not failed, or a version after a rotation above it has dropped the cached one. Besides,
no rotation is applied at the largest version. -/
structure Timely (i : ι) (o : Op) (s : Log ι) : Prop where
  device : ∀ key, o = .deviceCacheSet key → ∀ j, Evicted j key s →
    Spared j key s ∧ ¬ Removed j key s
  version : ∀ kv, o = .profileCacheSet u.str kv → settled u v0 s.trace ≤ kv.toNat
  below : ∀ v, o.installs u = some v → v ≠ 0

/-- What the requests of this system do. -/
structure Permitted (i : ι) (o : Op) (s : Log ι) : Prop extends Timely u v0 i o s where
  profile : ∀ d, o.puts (keyProfile u.str) = some d →
    s.state.holder (.rotation u.str) = some i ∧
      (∀ v, RecordedSuccess u s.state v → v ≤ settled u v0 s.trace) ∧
      ∃ p : Profile, d = p.data ∧ settled u v0 s.trace < p.keyVersion.toNat
  record : ∀ rid d rec token kv, o.puts (keyRotationRecord u.str rid) = some d →
    RotationRecord.parse d = some rec → RotateOutcome.fromRecord rec = .success token kv →
      s.state.holder (.rotation u.str) = some i ∧ kv.toNat ≤ lastPut u i s.trace
  files : ∀ did, o.puts (keyDevice u.str did) = none
  drop : o = .profileCacheInvalidate u.str → s.state.holder (.rotation u.str) = some i ∧
    settled u v0 s.trace ≤ lastPut u i s.trace ∧
    ∀ p, profileOf u s.state = some p → lastPut u i s.trace ≤ p.currentKv.toNat
  removes : ∀ key, o.removes key = true → Evicted i key s → key ∉ s.state.deviceCache
  release : o = .release (.rotation u.str) → s.state.holder (.rotation u.str) = some i ∧
    ∀ v, RecordedSuccess u s.state v → v ≤ settled u v0 s.trace

/-- The invariant. -/
structure Cutoff (s : Log ι) : Prop where
  stored : ∀ p, profileOf u s.state = some p → settled u v0 s.trace ≤ p.currentKv.toNat
  cached : ∀ kv, (u.str, kv) ∈ s.state.profileCache → settled u v0 s.trace ≤ kv.toNat
  recorded : ∀ v, RecordedSuccess u s.state v → v ≤ settled u v0 s.trace ∨
    ∃ i, s.state.holder (.rotation u.str) = some i ∧ v ≤ lastPut u i s.trace
  gone : ∀ i did, Removed i (keyDevice u.str did) s →
    s.state.objects.get (keyDevice u.str did) = none
  forgotten : ∀ i key, Removed i key s → Evicted i key s → key ∉ s.state.deviceCache

/-- A step of slot `i`. -/
def CutoffStep (i : ι) (s t : Log ι) : Prop := ∃ o r, Recorded i o s r t ∧ Permitted u v0 i o s

def cutoffRules : Rules ι (Log ι) where
  inv := Cutoff u v0
  guar := CutoffStep u v0
  rely i s t := ∃ j, j ≠ i ∧ CutoffStep u v0 j s t
  compat i _ differ _ _ _ _ moved := ⟨i, differ, moved⟩

end History

/-! ### One step of the log -/

section Step

variable {ι : Type} {u : UserId} {v0 : Nat} {i : ι} {o : Op} {s t : Log ι} {r : Res o}

theorem did_step (served : Recorded i o s r t) (j : ι) (P : (o : Op) → Res o → Bool) :
    Did j P t ↔ (i = j ∧ P o r = true) ∨ Did j P s := by
  simp only [Did, served.2, List.mem_cons, exists_eq_or_imp]

theorem did_kept (served : Recorded i o s r t) {j : ι} {P : (o : Op) → Res o → Bool}
    (did : Did j P s) : Did j P t :=
  (did_step served j P).mpr (.inr did)

theorem removes_of_removed {key : String} (removed : o.removed key r = true) :
    o.removes key = true := by
  cases o <;> first | (cases removed) | skip
  case deleteObject k =>
    simp only [Op.removed, Bool.and_eq_true, decide_eq_true_eq] at removed
    simp [Op.removes, removed.1]
  case deleteObjects ks =>
    simp only [Op.removed, Bool.and_eq_true, decide_eq_true_eq] at removed
    simp [Op.removes, removed.1]

theorem puts_of_installs {v : Nat} (installs : o.installs u = some v) :
    ∃ d, o.puts (keyProfile u.str) = some d := by
  obtain ⟨p, found, _⟩ := Option.map_eq_some_iff.mp installs
  obtain ⟨d, put, _⟩ := Option.bind_eq_some_iff.mp found
  exact ⟨d, put⟩

/-- A request writes one object only. -/
theorem puts_key {a b : String} {d e : Data} (first : o.puts a = some d)
    (second : o.puts b = some e) : a = b := by
  cases o <;> simp only [Op.puts, Option.ite_none_right_eq_some, reduceCtorEq] at first second
  rw [first.1, second.1]

theorem get_of_removed (served : Faulty i o s.state r t.state) {key : String}
    (removed : o.removed key r = true) : t.state.objects.get key = none := by
  cases o <;> first | (cases removed) | skip
  case deleteObject k =>
    simp only [Op.removed, Bool.and_eq_true, decide_eq_true_eq] at removed
    obtain ⟨rfl, ok⟩ := removed
    rcases served_deleteObject served with ⟨_, same⟩ | ⟨⟨_, _, _, fault⟩, _⟩
    · simp [same, Sys.remove]
    · rw [fault] at ok
      cases ok
  case deleteObjects ks =>
    simp only [Op.removed, Bool.and_eq_true, decide_eq_true_eq] at removed
    obtain ⟨member, ok⟩ := removed
    rcases served_deleteObjects served with ⟨_, same⟩ | ⟨_, _, _, fault, _⟩
    · simp [same, Sys.remove, member]
    · rw [fault] at ok
      cases ok

variable [DecidableEq ι]

theorem lastPut_cons (e : Event ι Op Res) (before : List (Event ι Op Res)) :
    lastPut u i (e :: before) =
      if e.by_ = i then (e.op.installs u).getD (lastPut u i before) else lastPut u i before := rfl

theorem settled_plain (served : Recorded i o s r t) (other : o ≠ .profileCacheInvalidate u.str) :
    settled u v0 t.trace = settled u v0 s.trace := by
  rw [served.2]
  cases o <;> try rfl
  case profileCacheInvalidate uid =>
    have differ : uid ≠ u.str := fun same => other (by rw [same])
    simp only [settled, if_neg differ]

theorem settled_drop (served : Recorded i o s r t) (drop : o = .profileCacheInvalidate u.str) :
    settled u v0 t.trace = lastPut u i s.trace := by
  rw [served.2]
  subst drop
  simp only [settled, if_pos]

/-- The settled version does not decrease. -/
theorem settled_le (served : Recorded i o s r t) (permitted : Permitted u v0 i o s) :
    settled u v0 s.trace ≤ settled u v0 t.trace := by
  by_cases drop : o = .profileCacheInvalidate u.str
  · rw [settled_drop served drop]
    exact (permitted.drop drop).2.1
  · rw [settled_plain served drop]

/-- The profile after a step: the old one, one just written, or none. -/
theorem profile_step (served : Recorded i o s r t) (permitted : Permitted u v0 i o s) {p : Profile}
    (stored : profileOf u t.state = some p) : profileOf u s.state = some p ∨
      (s.state.holder (.rotation u.str) = some i ∧ settled u v0 s.trace < p.keyVersion.toNat ∧
        o.installs u = some p.keyVersion.toNat) := by
  rcases served_get served.1 (keyProfile u.str) with same | ⟨d, put, now⟩ | ⟨_, gone⟩
  · rw [profileOf, same] at stored
    exact .inl stored
  · obtain ⟨holds, _, q, rfl, above⟩ := permitted.profile d put
    rw [profileOf, now, Option.bind_some, Profile.parse_data] at stored
    cases stored
    refine .inr ⟨holds, above, ?_⟩
    rw [Op.installs, put, Option.bind_some, Profile.parse_data, Option.map_some]
  · rw [profileOf, gone] at stored
    cases stored

/-- A version that is not zero is what the account is at. -/
theorem currentKv_of_pos {p : Profile} (positive : 0 < p.keyVersion.toNat) :
    p.currentKv = p.keyVersion := by
  have nonzero : p.keyVersion ≠ 0 := by
    intro zero
    rw [zero] at positive
    exact absurd positive (by decide)
  exact if_neg nonzero

omit [DecidableEq ι] in
theorem records_step (served : Recorded i o s r t) {v : Nat} (recorded : RecordedSuccess u t.state v) :
    RecordedSuccess u s.state v ∨ ∃ rid d rec token kv, o.puts (keyRotationRecord u.str rid) = some d ∧
      RotationRecord.parse d = some rec ∧ RotateOutcome.fromRecord rec = .success token kv ∧
        kv.toNat = v := by
  obtain ⟨rid, rec, token, kv, found, success, same⟩ := recorded
  rcases served_get served.1 (keyRotationRecord u.str rid) with kept | ⟨d, put, now⟩ | ⟨_, gone⟩
  · exact .inl ⟨rid, rec, token, kv, kept ▸ found, success, same⟩
  · rw [now] at found
    exact .inr ⟨rid, d, rec, token, kv, put, found, success, same⟩
  · rw [gone] at found
    cases found

omit [DecidableEq ι] in
/-- A slot that holds the rotation lock keeps it unless it gives it back itself. -/
theorem holder_step (served : Recorded i o s r t) {j : ι}
    (holds : s.state.holder (.rotation u.str) = some j) (kept : o ≠ .release (.rotation u.str)) :
    t.state.holder (.rotation u.str) = some j := by
  by_cases about : o.lock? = some (.rotation u.str)
  · cases o <;> simp only [Op.lock?, Option.some.injEq, reduceCtorEq] at about
    case acquire l =>
      subst about
      rcases served_acquire served.1 with ⟨_, free, _⟩ | ⟨_, same⟩
      · rw [holds] at free
        cases free
      · rw [same]
        exact holds
    case release l => exact absurd (by rw [about]) kept
  · rw [served_holder served.1 about]
    exact holds

theorem lastPut_other (served : Recorded i o s r t) {j : ι} (differ : i ≠ j) :
    lastPut u j t.trace = lastPut u j s.trace := by
  rw [served.2]
  exact if_neg differ

theorem lastPut_plain (served : Recorded i o s r t) (plain : o.installs u = none) :
    lastPut u i t.trace = lastPut u i s.trace := by
  rw [served.2, lastPut_cons]
  simp [plain]

theorem lastPut_installs (served : Recorded i o s r t) {v : Nat} (installs : o.installs u = some v) :
    lastPut u i t.trace = v := by
  rw [served.2, lastPut_cons]
  simp [installs]

/-- The invariant is kept. -/
theorem cutoff_step (cutoff : Cutoff u v0 s) (served : Recorded i o s r t)
    (permitted : Permitted u v0 i o s) : Cutoff u v0 t := by
  have grown := settled_le served permitted
  refine ⟨fun p stored => ?stored, fun kv member => ?cached, fun v recorded => ?recorded,
    fun j did removed => ?gone, fun j key removed evicted => ?forgotten⟩
  case stored =>
    by_cases drop : o = .profileCacheInvalidate u.str
    · rw [settled_drop served drop]
      refine (permitted.drop drop).2.2 p ?_
      rcases profile_step served permitted stored with old | ⟨_, _, writes⟩
      · exact old
      · rw [drop] at writes
        cases writes
    · rw [settled_plain served drop]
      rcases profile_step served permitted stored with old | ⟨_, above, _⟩
      · exact cutoff.stored p old
      · rw [currentKv_of_pos (by omega)]
        omega
  case cached =>
    obtain ⟨filled, kept⟩ := served_profileCache served.1 member
    rw [settled_plain served kept]
    rcases filled with fill | old
    · exact permitted.version kv fill
    · exact cutoff.cached kv old
  case recorded =>
    -- A record is either settled already or belongs to the rotation that holds the lock.
    have before : v ≤ settled u v0 s.trace ∨
        ∃ j, s.state.holder (.rotation u.str) = some j ∧ v ≤ lastPut u j s.trace := by
      rcases records_step served recorded with old | ⟨rid, d, rec, token, kv, put, read, success, rfl⟩
      · exact cutoff.recorded v old
      · exact .inr ⟨i, permitted.record rid d rec token kv put read success⟩
    rcases before with early | ⟨j, holds, own⟩
    · exact .inl (early.trans grown)
    · by_cases release : o = .release (.rotation u.str)
      · refine .inl (le_trans ((permitted.release release).2 v ?_) grown)
        rcases records_step served recorded with old | ⟨_, _, _, _, _, put, _⟩
        · exact old
        · rw [release] at put
          cases put
      · by_cases mine : i = j
        · subst mine
          cases installs : o.installs u with
          | none =>
            refine .inr ⟨i, holder_step served holds release, ?_⟩
            rw [lastPut_plain served installs]
            exact own
          | some w =>
            obtain ⟨d, put⟩ := puts_of_installs installs
            refine .inl (le_trans ((permitted.profile d put).2.1 v ?_) grown)
            rcases records_step served recorded with old | ⟨rid, e, _, _, _, other, _⟩
            · exact old
            · exact absurd (puts_key put other) (keyRecord_ne_profile _ _).symm
        · refine .inr ⟨j, holder_step served holds release, ?_⟩
          rw [lastPut_other served mine]
          exact own
  case gone =>
    rcases (did_step served j _).mp removed with ⟨_, now⟩ | before
    · exact get_of_removed served.1 now
    · have absent := cutoff.gone j did before
      rcases served_get served.1 (keyDevice u.str did) with same | ⟨d, put, _⟩ | ⟨_, gone⟩
      · rw [same]
        exact absent
      · rw [permitted.files did] at put
        cases put
      · exact gone
  case forgotten =>
    rcases (did_step served j _).mp removed with ⟨rfl, now⟩ | before
    · have kept := served_deviceCache served.1 fun k same => by subst same; cases now
      have earlier : Evicted i key s := by
        rcases (did_step served i _).mp evicted with ⟨_, both⟩ | old
        · cases o <;> first | cases now | cases both
        · exact old
      exact fun member => permitted.removes key (removes_of_removed now) earlier (kept member)
    · rcases (did_step served j _).mp evicted with ⟨rfl, now⟩ | old
      · cases o <;> try cases now
        rw [served_deviceCacheInvalidate served.1]
        have same := of_decide_eq_true now
        exact fun member => of_decide_eq_true (List.mem_filter.mp member).2 same.symm
      · intro member
        by_cases fill : ∃ k, o = .deviceCacheSet k
        · obtain ⟨k, fill⟩ := fill
          subst fill
          rw [served_deviceCacheSet served.1] at member
          rcases List.mem_cons.mp member with rfl | kept
          · exact (permitted.device key rfl j old).2 before
          · exact cutoff.forgotten j key before old kept
        · exact cutoff.forgotten j key before old
            (served_deviceCache served.1 (fun k same => fill ⟨k, same⟩) member)

end Step

end Atmin
