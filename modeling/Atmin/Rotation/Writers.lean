import Atmin.Rotation.Ledger

/-!
# Every profile writer keeps the ledger

Under the condition that a rotation never wraps the version and that the other writers
write back only snapshots no rotation has outdated, each writer keeps the ledger, and its
answer is the one on record.
-/

namespace Atmin

open Interaction

section Assertions

variable {ι : Type} (env : Env) (u : UserId) (req : ι → ProfileWriter) (c0 : Credential)
  (early : String → UInt32 → Prop) (i : ι)

/-- The outcome when the lock was not obtained in time; it is not recorded. -/
def lostRace : RotateOutcome := .keyVersionStale (-1)

/-- The log since the slot's own last read of the profile. -/
def sinceRead (trace : List (Event ι Op Res)) [DecidableEq ι] : List (Event ι Op Res) :=
  trace.takeWhile fun e => !(decide (e.by_ = i) && e.op.gets (keyProfile u.str))

def NoCommit (s : Log ι) : Prop := ∀ c, (i, c) ∉ commits u req s.trace

/-- The outcome is on record under the slot's request id, and tells what it installed. -/
def OnRecord (outcome : RotateOutcome) (s : Log ι) : Prop :=
  ∃ rid rec, (req i).requestId = some rid ∧ recordOf u rid s.state = some rec ∧
    .fromRecord rec = outcome ∧
    ∀ c, (i, c) ∈ commits u req s.trace → ∃ token, outcome = .success token c.keyVersion

/-- A well-formed rotation request. -/
def Valid : Prop := ∃ token body, req i = .rotate token body ∧ Nonempty (Rotation env token body)

/-- The device of the slot's token is there. -/
def DevicePresent (s : Log ι) : Prop :=
  ∀ token body user, req i = .rotate token body → Token.identity env token = some user →
    (s.state.objects.get (keyDevice u.str user.deviceId.str)).isSome = true

/-- What an answer is worth, when `seen` was on record at the arrival of a request whose
device was then present or not. -/
def Answered (seen : Option RotationRecord) (present : Prop) :
    Except ApiError (Option RotateOutcome) → Log ι → Prop
  | .ok (some outcome), s => (outcome = lostRace ∧ NoCommit u req i s ∨
      OnRecord u req i outcome s) ∧ ∀ rec, seen = some rec →
        outcome = lostRace ∨ outcome = .fromRecord rec
  | .ok none, s => NoCommit u req i s ∧ (req i).isRotate = false
  | .error _, s => NoCommit u req i s ∧ (present → Valid env req i → seen = none)

/-- What holds of a slot from its arrival until it takes the lock. -/
def Started (seen : Option RotationRecord) (present : Prop) (s : Log ι) : Prop :=
  NoCommit u req i s ∧ (present → DevicePresent env u req i s) ∧
    ∀ rec, seen = some rec → ∀ rid, (req i).requestId = some rid →
      recordOf u rid s.state = some rec

variable {env u req c0 early i}

abbrev LedgerStable (env : Env) (u : UserId) (req : ι → ProfileWriter) (c0 : Credential)
    (early : String → UInt32 → Prop) (i : ι) (A : Log ι → Prop) : Prop :=
  (ledgerRules env u req c0 early).Stable i A

theorem stable_noCommit : LedgerStable env u req c0 early i (NoCommit u req i) := by
  rintro s t _ _ ⟨j, differ, moved⟩ none_ c member
  obtain ⟨e, by_j, log⟩ := moved.logged
  rw [log] at member
  rcases mem_commits_cons member with mine | old
  · exact differ (by_j ▸ mine).symm
  · exact none_ c old

theorem stable_record (rid : String) (rec : RotationRecord) :
    LedgerStable env u req c0 early i fun s => recordOf u rid s.state = some rec := by
  rintro s t _ _ ⟨j, _, moved⟩ found
  exact moved.kept rid rec found

theorem stable_onRecord (outcome : RotateOutcome) :
    LedgerStable env u req c0 early i (OnRecord u req i outcome) := by
  rintro s t _ _ ⟨j, differ, moved⟩ ⟨rid, rec, named, found, same, installed⟩
  refine ⟨rid, rec, named, moved.kept rid rec found, same, fun c member => installed c ?_⟩
  obtain ⟨e, by_j, log⟩ := moved.logged
  rw [log] at member
  rcases mem_commits_cons member with mine | old
  · exact absurd (by_j ▸ mine).symm differ
  · exact old

theorem stable_device : LedgerStable env u req c0 early i (DevicePresent env u req i) := by
  rintro s t _ _ ⟨j, _, moved⟩ present token body user rotates known
  rw [moved.devices]
  exact present token body user rotates known

theorem stable_started (seen : Option RotationRecord) (present : Prop) :
    LedgerStable env u req c0 early i (Started env u req i seen present) := by
  rintro s t inv inv' rely ⟨none_, device, known⟩
  refine ⟨stable_noCommit s t inv inv' rely none_,
    fun h => stable_device s t inv inv' rely (device h), fun rec same rid named => ?_⟩
  exact stable_record rid rec s t inv inv' rely (known rec same rid named)

theorem stable_answered (seen : Option RotationRecord) (present : Prop)
    (r : Except ApiError (Option RotateOutcome)) :
    LedgerStable env u req c0 early i (Answered env u req i seen present r) := by
  intro s t inv inv' rely answered
  cases r with
  | error e => exact ⟨stable_noCommit s t inv inv' rely answered.1, answered.2⟩
  | ok reply =>
    cases reply with
    | none => exact ⟨stable_noCommit s t inv inv' rely answered.1, answered.2⟩
    | some outcome =>
      refine ⟨answered.1.imp (fun h => ⟨h.1, stable_noCommit s t inv inv' rely h.2⟩)
        (stable_onRecord outcome s t inv inv' rely), answered.2⟩

/-- The slot holds the lock, and `A` holds of the ledger and of the record under `rid`. -/
def UnderLock (u : UserId) (req : ι → ProfileWriter) (i : ι) (rid : String)
    (A : List (ι × Credential) → Option RotationRecord → Prop) (s : Log ι) : Prop :=
  s.state.holder (.rotation u.str) = some i ∧ A (commits u req s.trace) (recordOf u rid s.state)

/-- Under the lock, the ledger and the records stay as they are. -/
theorem stable_underLock (rid : String) (A : List (ι × Credential) → Option RotationRecord → Prop) :
    LedgerStable env u req c0 early i (UnderLock u req i rid A) := by
  rintro s t _ _ ⟨j, differ, moved⟩ ⟨held, holds⟩
  refine ⟨moved.holder.other differ held, ?_⟩
  rw [moved.commits_held differ held, moved.records_held differ held]
  exact holds

/-- A snapshot that no rotation has outdated since it was read carries the newest credential. -/
def Snapshot [DecidableEq ι] (u : UserId) (req : ι → ProfileWriter) (c0 : Credential) (i : ι)
    (p : Profile) (s : Log ι) : Prop :=
  commits u req (sinceRead u i s.trace) = [] → p.credential = newest c0 (commits u req s.trace)

theorem sinceRead_cons [DecidableEq ι] {e : Event ι Op Res} {trace : List (Event ι Op Res)}
    (other : e.by_ ≠ i ∨ e.op.gets (keyProfile u.str) = false) :
    sinceRead u i (e :: trace) = e :: sinceRead u i trace := by
  rw [sinceRead, List.takeWhile_cons_of_pos]
  · rfl
  · rcases other with differ | plain
    · simp [differ]
    · simp [plain]

/-- A request that is not the slot's own read keeps its snapshot honest. -/
theorem Snapshot.cons [DecidableEq ι] {p : Profile} {e : Event ι Op Res} {s t : Log ι}
    (snapshot : Snapshot u req c0 i p s) (log : t.trace = e :: s.trace)
    (other : e.by_ ≠ i ∨ e.op.gets (keyProfile u.str) = false) : Snapshot u req c0 i p t := by
  intro quiet
  rw [log, sinceRead_cons other, commits_cons, List.append_eq_nil_iff] at quiet
  rw [log, commits_cons, quiet.1, List.nil_append]
  exact snapshot quiet.2

theorem stable_snapshot [DecidableEq ι] (p : Profile) :
    LedgerStable env u req c0 early i (Snapshot u req c0 i p) := by
  rintro s t _ _ ⟨j, differ, moved⟩ snapshot
  obtain ⟨e, by_j, log⟩ := moved.logged
  exact snapshot.cons log (.inl (by rw [by_j]; exact differ))

end Assertions

/-! ### Rotations -/

section Rotate

variable {ι : Type} {env : Env} {u : UserId} {req : ι → ProfileWriter} {c0 : Credential}
  {early : String → UInt32 → Prop} {C : ι → Op → Log ι → Prop} {i : ι}
  {seen : Option RotationRecord} {present : Prop} {token : Option String} {body : Option Json}

abbrev LedgerServes (env : Env) (u : UserId) (req : ι → ProfileWriter) (c0 : Credential)
    (early : String → UInt32 → Prop) (C : ι → Op → Log ι → Prop) (i : ι) (o : Op)
    (P : Log ι → Prop) (R : Res o → Log ι → Prop) : Prop :=
  Serves (ledgerRules env u req c0 early) (Logged C) i o P R

theorem started_passive {o : Op} (passive : o.passive = true) :
    LedgerServes env u req c0 early C i o (Started env u req i seen present)
      fun _ => Started env u req i seen present := by
  intro s r t ledger start served
  have step := passive_step ledger served passive
  obtain ⟨_, records, log⟩ := same_of_untouched req served (untouched_passive passive)
  refine ⟨step.1, step.2, fun c => by rw [log]; exact start.1 c, fun h => ?_, ?_⟩
  · intro token body user rotates known
    rw [step.2.devices]
    exact start.2.1 h token body user rotates known
  · simp only [records]
    exact start.2.2

def started (seen : Option RotationRecord) (present : Prop) :
    (ledgerRules env u req c0 early).Assertion i :=
  ⟨Started env u req i seen present, stable_started seen present⟩

abbrev underLock (rid : String) (A : List (ι × Credential) → Option RotationRecord → Prop) :
    (ledgerRules env u req c0 early).Assertion i :=
  ⟨UnderLock u req i rid A, stable_underLock rid A⟩

def answered (i : ι) (seen : Option RotationRecord) (present : Prop)
    (r : Except ApiError (Option RotateOutcome)) : (ledgerRules env u req c0 early).Assertion i :=
  ⟨Answered env u req i seen present r, stable_answered seen present r⟩

/-- The ledger and the record of the slot's request id when the lock is given back. -/
def Settled (i : ι) (seen : Option RotationRecord) (r : Except ApiError RotateOutcome)
    (cs : List (ι × Credential)) (record : Option RotationRecord) : Prop :=
  match r with
  | .ok outcome => (∃ rec, record = some rec ∧ .fromRecord rec = outcome) ∧
      (∀ c, (i, c) ∈ cs → ∃ token, outcome = .success token c.keyVersion) ∧
      ∀ rec, seen = some rec → outcome = .fromRecord rec
  | .error _ => (∀ c, (i, c) ∉ cs) ∧ seen = none

/-- A passive request under the lock changes nothing that is asserted there. -/
theorem underLock_passive {o : Op} (passive : o.passive = true) (rid : String)
    (A : List (ι × Credential) → Option RotationRecord → Prop) :
    LedgerServes env u req c0 early C i o (UnderLock u req i rid A)
      fun _ => UnderLock u req i rid A := by
  intro s r t ledger holds served
  have step := passive_step ledger served passive
  obtain ⟨_, records, log⟩ := same_of_untouched req served (untouched_passive passive)
  have holder : t.state.holder (.rotation u.str) = s.state.holder (.rotation u.str) :=
    served_holder served.2.1 (by rw [Op.lock?_passive passive]; exact fun h => nomatch h)
  refine ⟨step.1, step.2, by rw [holder]; exact holds.1, ?_⟩
  rw [log, records]
  exact holds.2

/-- A lookup under the lock tells the record. -/
theorem underLock_lookup (rid : String) (A : List (ι × Credential) → Option RotationRecord → Prop) :
    LedgerServes env u req c0 early C i (.getObject (keyRotationRecord u.str rid))
      (UnderLock u req i rid A) fun r t => UnderLock u req i rid A t ∧
        ((∀ d rec, r = .ok d → RotationRecord.parse d = some rec →
          recordOf u rid t.state = some rec) ∧
        ((∀ d rec, r = .ok d → RotationRecord.parse d ≠ some rec) →
          recordOf u rid t.state = none)) := by
  intro s r t ledger holds served
  obtain ⟨kept, moved, after⟩ := underLock_passive rfl rid A s r t ledger holds served
  obtain ⟨same, reply⟩ := healthy_read served.2.1
  refine ⟨kept, moved, after, fun d rec ok parsed => ?_, fun miss => ?_⟩
  · rw [reply] at ok
    rw [recordOf, same, lookup_eq_ok.mp ok]
    exact parsed
  · rw [recordOf, same]
    cases found : s.state.objects.get (keyRotationRecord u.str rid) with
    | none => rfl
    | some d =>
      have ok : r = .ok d := by rw [reply]; exact lookup_eq_ok.mpr found
      cases parsed : RotationRecord.parse d with
      | none => exact parsed
      | some rec => exact absurd parsed (miss d rec ok)

/-- A read of the profile tells the newest credential. -/
theorem read_newest {s : Log ι} {r : Res (.getObject (keyProfile u.str))}
    {t : Log ι} (ledger : Ledger env u req c0 early s)
    (served : Logged C i (.getObject (keyProfile u.str)) s r t) {d : Data} {p : Profile}
    (ok : r = .ok d) (parsed : Profile.parse d = some p) :
    p.credential = newest c0 (commits u req t.trace) := by
  obtain ⟨same, reply⟩ := healthy_read served.2.1
  obtain ⟨q, stored, current⟩ := ledger.stored
  rw [reply] at ok
  rw [profileOf, lookup_eq_ok.mp ok] at stored
  have itself : p = q := Option.some.inj (parsed.symm.trans stored)
  rw [(same_of_untouched req served (untouched_passive rfl)).2.2, itself]
  exact current

/-- The guard in front of a rotation: an error is the fault of the token or the device. -/
theorem rotate_guard (rotates : req i = .rotate token body) (account : (req i).OnAccount env u)
    {s : Log ι} (start : Started env u req i seen present s) :
    Safe (ledgerRules env u req c0 early) (Logged C) i (fun r t => Identified env token r ∧
      match r with
      | .ok _ => Started env u req i seen present t
      | .error _ => NoCommit u req i t ∧ (present → Valid env req i → False))
      (authenticate env token false).run s := by
  let A : (ledgerRules env u req c0 early).Assertion i := started seen present
  by_cases fit : present ∧ Valid env req i
  · obtain ⟨token', body', same, ⟨x⟩⟩ := fit.2
    have tokens : token' = token := by rw [rotates] at same; cases same; rfl
    have known : Token.identity env token = some x.user := by rw [← tokens]; exact x.known
    have mine : x.user.userId = u := by
      rw [rotates] at account
      exact account x.user known
    refine (Meets.authenticate_present A known (fun o => started_passive) ?_ start).weaken ?_
    · intro v r t ledger here served
      refine ⟨(passive_step ledger served rfl).1, (passive_step ledger served rfl).2, ?_⟩
      have device := here.2.1 fit.1 token body x.user rotates known
      rw [← mine] at device
      rcases served_headObject served.2.1 with ⟨_, ⟨ok, _⟩ | ⟨_, absent⟩ | fault⟩
      · exact ok
      · rw [absent] at device
        cases device
      · exact absurd fault not_faulted_healthy
    · rintro r t ⟨rfl, after⟩
      exact ⟨fun user same => by cases same; exact known, after⟩
  · refine (Safe.only A (fun o => started_passive) (authenticate_passive env token false)
      start).weaken ?_
    rintro (e | user) t ⟨identified, after⟩
    · exact ⟨identified, after.1, fun h valid => fit ⟨h, valid⟩⟩
    · exact ⟨identified, after⟩

/-- Before the lookup: nothing is installed, and what was seen is on record. -/
def Unlooked (i : ι) (seen : Option RotationRecord) (cs : List (ι × Credential))
    (record : Option RotationRecord) : Prop :=
  (∀ c, (i, c) ∉ cs) ∧ ∀ rec, seen = some rec → record = some rec

/-- Between the lookup and the commit: nothing is installed, on record or seen. -/
def Unrecorded (i : ι) (seen : Option RotationRecord) (cs : List (ι × Credential))
    (record : Option RotationRecord) : Prop :=
  (∀ c, (i, c) ∉ cs) ∧ record = none ∧ seen = none

/-- After the commit: this credential alone is installed, and nothing is on record. -/
def Installed (i : ι) (seen : Option RotationRecord) (installed : Credential)
    (cs : List (ι × Credential)) (record : Option RotationRecord) : Prop :=
  (i, installed) ∈ cs ∧ (∀ c, (i, c) ∈ cs → c = installed) ∧ record = none ∧ seen = none

section Requests

variable (x : Rotation env token body)

/-- Who waits for the lock in vain has lost the race and has installed nothing. -/
theorem slot_acquires (mine : x.uid = u.str) (named : (req i).requestId = some x.req.requestId) :
    LedgerServes env u req c0 early C i (.acquire (.rotation x.uid)) (Started env u req i seen present)
      fun r t => (r = .ok () → UnderLock u req i x.req.requestId (Unlooked i seen) t) ∧
        (r = .error .mk → Answered env u req i seen present (.ok (some lostRace)) t) := by
  intro v r t ledger here served
  rw [mine] at served
  obtain ⟨⟨kept, moved⟩, taken⟩ := acquire_step ledger served
  obtain ⟨_, records, log⟩ :=
    same_of_untouched req served (untouched_lock (.rotation u.str)).1
  -- taking the lock changes neither the ledger nor a record
  refine ⟨kept, moved, fun ok => ⟨taken ok, ?_, fun known same => ?_⟩, fun _ => ⟨.inl ⟨rfl, ?_⟩, ?_⟩⟩
  · rw [log]; exact here.1
  · rw [records]; exact here.2.2 known same _ named
  · rw [NoCommit, log]; exact here.1
  · exact fun _ _ => .inl rfl

/-- The lookup finds what was seen; where it finds nothing, nothing was seen. -/
theorem slot_looks (mine : x.recordKey = keyRotationRecord u.str x.req.requestId) :
    LedgerServes env u req c0 early C i (.getObject x.recordKey)
      (UnderLock u req i x.req.requestId (Unlooked i seen))
      fun r t => (∀ d rec, r = .ok d → RotationRecord.parse d = some rec →
          UnderLock u req i x.req.requestId (Settled i seen (.ok (.fromRecord rec))) t) ∧
        ((∀ d rec, r = .ok d → RotationRecord.parse d ≠ some rec) →
          UnderLock u req i x.req.requestId (Unrecorded i seen) t) := by
  rw [mine]
  intro v r t ledger here served
  obtain ⟨kept, moved, after, hit, miss⟩ := underLock_lookup _ (Unlooked i seen) v r t ledger here served
  refine ⟨kept, moved, fun d rec ok parsed => ⟨after.1, ⟨rec, hit d rec ok parsed, rfl⟩,
    fun c member => absurd member (after.2.1 c), fun known same => ?_⟩,
    fun missed => ⟨after.1, after.2.1, miss missed, ?_⟩⟩
  · have both := after.2.2 known same
    rw [hit d rec ok parsed] at both
    rw [Option.some.inj both]
  · -- what was seen is on record, so a miss means that nothing was seen
    cases known : seen with
    | none => rfl
    | some rec =>
      have both := after.2.2 rec known
      rw [miss missed] at both
      cases both

/-- Under the lock the profile read has the newest credential. -/
theorem slot_reads (mine : x.uid = u.str) :
    LedgerServes env u req c0 early C i (.getObject (keyProfile x.uid))
      (UnderLock u req i x.req.requestId (Unrecorded i seen))
      fun r t => (∀ msg, UnderLock u req i x.req.requestId (Settled i seen (.error (.internal msg))) t) ∧
        ∀ d p, r = .ok d → Profile.parse d = some p → UnderLock u req i x.req.requestId
          (fun cs record => Unrecorded i seen cs record ∧ p.credential = newest c0 cs) t := by
  rw [mine]
  intro v r t ledger here served
  obtain ⟨kept, moved, after⟩ := underLock_passive rfl x.req.requestId _ v r t ledger here served
  exact ⟨kept, moved, fun msg => ⟨after.1, after.2.1, after.2.2.2⟩, fun d p ok parsed =>
    ⟨after.1, after.2, read_newest ledger served ok parsed⟩⟩

/-- A refusal is recorded as it is answered. -/
theorem slot_refuses (mine : x.recordKey = keyRotationRecord u.str x.req.requestId)
    (named : (req i).requestId = some x.req.requestId) {p : Profile} {outcome : RotateOutcome}
    (refused : x.Refused p.credential outcome) :
    LedgerServes env u req c0 early C i (.putObject x.recordKey outcome.toRecord.data)
      (UnderLock u req i x.req.requestId fun cs record =>
        Unrecorded i seen cs record ∧ p.credential = newest c0 cs)
      fun _ => UnderLock u req i x.req.requestId (Settled i seen (.ok outcome)) := by
  rw [mine]
  intro v r t ledger here served
  -- a refusal is no success, so the ledger need not have it
  have failure (tok : String) (kv : UInt32)
      (success : RotateOutcome.fromRecord outcome.toRecord = .success tok kv) : False := by
    rw [RotateOutcome.fromRecord_toRecord] at success
    rw [success] at refused
    exact refused
  obtain ⟨⟨kept, moved⟩, written, log, holder⟩ := record_step ledger served here.1 named here.2.1.2.1
    refused.parse_record fun tok kv success => (failure tok kv success).elim
  refine ⟨kept, moved, holder, ⟨_, written, RotateOutcome.fromRecord_toRecord _⟩, ?_, ?_⟩
  · rw [log]
    exact fun c member => absurd member (here.2.1.1 c)
  · intro known same
    rw [here.2.1.2.2] at same
    cases same

/-- The commit installs the credential of the request, and it alone. -/
theorem slot_commits (rotates : req i = .rotate token body)
    (below : ∀ d s, C i (.putObject (keyProfile u.str) d) s →
      ∀ p, profileOf u s.state = some p → p.currentKv + 1 ≠ 0)
    (mine : x.uid = u.str) {p : Profile} (accepted : x.Accepted p.credential) :
    LedgerServes env u req c0 early C i (.putObject (keyProfile x.uid) (x.req.install p).data)
      (UnderLock u req i x.req.requestId fun cs record =>
        Unrecorded i seen cs record ∧ p.credential = newest c0 cs)
      fun r t =>
        (r = .ok () → UnderLock u req i x.req.requestId (Installed i seen x.req.credential) t) ∧
        ∀ e, r = .error e → ∀ msg,
          UnderLock u req i x.req.requestId (Settled i seen (.error (.internal msg))) t := by
  rw [mine]
  intro v r t ledger here served
  -- the version that is installed is the next one, and it does not wrap to zero
  have advances : x.req.keyVersion ≠ 0 := by
    obtain ⟨q, stored, current⟩ := ledger.stored
    have same : q.currentKv = p.currentKv := by
      rw [Profile.currentKv, Profile.currentKv, current, here.2.2]
    rw [accepted.1]
    have step := below _ v served.1 q stored
    rwa [same] at step
  obtain ⟨⟨kept, moved⟩, log, holder, missed⟩ := commit_step x ledger served rotates here.1
    here.2.1.1 here.2.1.2.1 here.2.2 accepted advances
  refine ⟨kept, moved, fun _ => ⟨holder, ?_, fun c member => ?_, missed, here.2.1.2.2⟩,
    fun e bad => ?_⟩
  · rw [log]
    exact List.mem_cons_self
  · rw [log] at member
    rcases List.mem_cons.mp member with new | old
    · exact (Prod.mk.inj new).2
    · exact absurd old (here.2.1.1 c)
  · rw [healthy_put served.2.1] at bad
    cases bad

/-- The write of the handle's projection changes nothing of it. -/
theorem slot_projects (named : (req i).requestId = some x.req.requestId) (p : Profile) :
    LedgerServes env u req c0 early C i
      (.putObject (keyHandle p.handle) (handleProjection (x.req.install p)).data)
      (UnderLock u req i x.req.requestId (Installed i seen x.req.credential))
      fun _ => UnderLock u req i x.req.requestId (Installed i seen x.req.credential) := by
  intro v r t ledger here served
  obtain ⟨kept, moved⟩ := quiet_step ledger served (untouched_handle _ _)
    (fun h => by cases h) fun _ rid same => by
      rw [named] at same
      cases same
      exact here.2.2.2.1
  obtain ⟨_, records, log⟩ := same_of_untouched req served (untouched_handle _ _)
  refine ⟨kept, moved, ?_, ?_⟩
  · rw [served_holder served.2.1 (fun h => by cases h)]
    exact here.1
  · rw [log, records]
    exact here.2

/-- The success that is recorded is the one of the credential installed. -/
theorem slot_records (mine : x.recordKey = keyRotationRecord u.str x.req.requestId)
    (named : (req i).requestId = some x.req.requestId) :
    LedgerServes env u req c0 early C i (.putObject x.recordKey x.success.toRecord.data)
      (UnderLock u req i x.req.requestId (Installed i seen x.req.credential))
      fun _ => UnderLock u req i x.req.requestId (Settled i seen (.ok x.success)) := by
  rw [mine]
  intro v r t ledger here served
  obtain ⟨⟨kept, moved⟩, written, log, holder⟩ := record_step ledger served here.1 named here.2.2.2.1
    Rotation.parse_success fun tok kv success => by
      rw [RotateOutcome.fromRecord_toRecord] at success
      cases success
      exact ⟨_, here.2.1, named, rfl⟩
  refine ⟨kept, moved, holder, ⟨_, written, RotateOutcome.fromRecord_toRecord _⟩, ?_, ?_⟩
  · rw [log]
    intro c member
    rw [here.2.2.1 c member]
    exact ⟨_, rfl⟩
  · intro known same
    rw [here.2.2.2.2] at same
    cases same

/-- The lock is given back with every installed credential on record. -/
theorem slot_releases (mine : x.uid = u.str) (named : (req i).requestId = some x.req.requestId)
    (r : Except ApiError RotateOutcome) :
    LedgerServes env u req c0 early C i (.release (.rotation x.uid))
      (UnderLock u req i x.req.requestId (Settled i seen r))
      fun _ => Answered env u req i seen present (r.map some) := by
  rw [mine]
  intro v reply t ledger here served
  obtain ⟨_, records, log⟩ :=
    same_of_untouched req served (untouched_lock (.rotation u.str)).2
  cases r with
  -- an error has installed nothing
  | error e =>
    have step := release_step ledger served here.1 fun c member => absurd member (here.2.1 c)
    refine ⟨step.1, step.2, ?_, fun _ _ => here.2.2⟩
    rw [NoCommit, log]
    exact here.2.1
  -- an outcome is on record, and so is each version installed
  | ok outcome =>
    obtain ⟨⟨rec, found, same⟩, installed, known⟩ := here.2
    have step := release_step ledger served here.1 fun c member => by
      obtain ⟨token', success⟩ := installed c member
      exact ⟨_, rec, token', named, found, by rw [same, success]⟩
    refine ⟨step.1, step.2, .inr ⟨_, rec, named, ?_, same, ?_⟩, fun rec same => .inr (known rec same)⟩
    · rw [records]; exact found
    · rw [log]; exact installed

end Requests

theorem rotate_meets (rotates : req i = .rotate token body) (account : (req i).OnAccount env u)
    (below : ∀ d s, C i (.putObject (keyProfile u.str) d) s →
      ∀ p, profileOf u s.state = some p → p.currentKv + 1 ≠ 0)
    {s : Log ι} (start : Started env u req i seen present s) :
    Meets (ledgerRules env u req c0 early) (Logged C)
      (fun r => answered i seen present (r.map some)) (rotateKeys env token body) s := by
  have uid (x : Rotation env token body) : x.uid = u.str := by
    rw [rotates] at account
    rw [Rotation.uid, account x.user x.known]
  have record (x : Rotation env token body) :
      x.recordKey = keyRotationRecord u.str x.req.requestId := by rw [Rotation.recordKey, uid x]
  have named (x : Rotation env token body) : (req i).requestId = some x.req.requestId := by
    rw [rotates, ProfileWriter.requestId, x.parsed]
    rfl
  refine Meets.rotateKeys _ (started seen present)
    (fun x => underLock x.req.requestId (Unlooked i seen))
    (fun x => underLock x.req.requestId (Unrecorded i seen))
    (fun x p => underLock x.req.requestId fun cs record =>
      Unrecorded i seen cs record ∧ p.credential = newest c0 cs)
    (fun x _ => underLock x.req.requestId (Installed i seen x.req.credential))
    (fun x _ => underLock x.req.requestId (Settled i seen (.ok x.success)))
    (fun x r => underLock x.req.requestId (Settled i seen r))
    (rotate_guard rotates account start) ?_ ?_ (fun user t here => here)
    (fun x => slot_acquires x (uid x) (named x)) (fun x => slot_looks x (record x))
    (fun x => slot_reads x (uid x)) (fun x p t here msg => ⟨here.1, here.2.1.1, here.2.1.2.2⟩)
    (fun x p outcome => slot_refuses x (record x) (named x))
    (fun x p => slot_commits x rotates below (uid x))
    (fun x p _ => slot_projects x (named x) p) (fun x p => slot_records x (record x) (named x))
    (fun x p => underLock_passive rfl _ _) fun x => slot_releases x (uid x) (named x)
  · exact fun e t bad => ⟨bad.1, fun h valid => absurd (bad.2 h valid) id⟩
  · -- a request that does not parse is not a valid one
    refine fun user t here invalid => ⟨here.1, fun _ valid => ?_⟩
    obtain ⟨token', body', same, ⟨x⟩⟩ := valid
    rw [rotates] at same
    cases same
    exact (invalid x).elim

end Rotate

/-! ### Snapshot writers -/

section Snapshots

variable {ι : Type} [DecidableEq ι] {env : Env} {u : UserId} {req : ι → ProfileWriter}
  {c0 : Credential} {early : String → UInt32 → Prop} {C : ι → Op → Log ι → Prop} {i : ι}

def noCommit (i : ι) : (ledgerRules env u req c0 early).Assertion i :=
  ⟨NoCommit u req i, stable_noCommit⟩

/-- A profile read by the slot, honest until a rotation outdates it. -/
def snapshotOf (p : Profile) : (ledgerRules env u req c0 early).Assertion i :=
  ⟨fun s => NoCommit u req i s ∧ Snapshot u req c0 i p s,
    stable_noCommit.and (stable_snapshot p)⟩

omit [DecidableEq ι] in
theorem noCommit_passive {o : Op} (passive : o.passive = true) :
    LedgerServes env u req c0 early C i o (NoCommit u req i) fun _ => NoCommit u req i := by
  intro s r t ledger start served
  have step := passive_step ledger served passive
  obtain ⟨_, _, log⟩ := same_of_untouched req served (untouched_passive passive)
  exact ⟨step.1, step.2, fun c => by rw [log]; exact start c⟩

/-- Reading the profile takes a snapshot. -/
theorem snapshot_read : LedgerServes env u req c0 early C i (.getObject (keyProfile u.str))
    (NoCommit u req i) fun r t => NoCommit u req i t ∧
      ∀ d p, r = .ok d → Profile.parse d = some p →
        NoCommit u req i t ∧ Snapshot u req c0 i p t := by
  intro s r t ledger start served
  obtain ⟨kept, moved, after⟩ := noCommit_passive rfl s r t ledger start served
  exact ⟨kept, moved, after, fun d p ok parsed =>
    ⟨after, fun _ => read_newest ledger served ok parsed⟩⟩

/-- The clock does not age a snapshot. -/
theorem snapshot_clock (p : Profile) : LedgerServes env u req c0 early C i .utcNow
    (fun s => NoCommit u req i s ∧ Snapshot u req c0 i p s)
      fun _ t => NoCommit u req i t ∧ Snapshot u req c0 i p t := by
  intro s r t ledger here served
  obtain ⟨kept, moved, after⟩ := noCommit_passive rfl s r t ledger here.1 served
  exact ⟨kept, moved, after, here.2.cons served.2.2 (.inr rfl)⟩

/-- An honest snapshot may be written back with the same credential. -/
theorem snapshot_write {p q : Profile} (other : (req i).isRotate = false)
    (same : q.credential = p.credential)
    (current : ∀ d s, C i (.putObject (keyProfile u.str) d) s →
      commits u req (sinceRead u i s.trace) = []) :
    LedgerServes env u req c0 early C i (.putObject (keyProfile u.str) q.data)
      (fun s => NoCommit u req i s ∧ Snapshot u req c0 i p s) fun _ => NoCommit u req i := by
  intro s r t ledger here served
  have newest_ : q.credential = newest c0 (commits u req s.trace) := by
    rw [same]
    exact here.2 (current _ s served.1)
  obtain ⟨kept, moved⟩ := snapshot_step ledger served other newest_
  refine ⟨kept, moved, fun c member => ?_⟩
  rw [served.2.2, commits_cons] at member
  have plain : commitOf u req ⟨i, .putObject (keyProfile u.str) q.data, r⟩ = none := by
    simp [commitOf, other]
  rw [plain] at member
  exact here.1 c member

omit [DecidableEq ι] in
theorem noCommit_handle (other : (req i).requestId = none) (handle : String) (d : Data) :
    LedgerServes env u req c0 early C i (.putObject (keyHandle handle) d) (NoCommit u req i)
      fun _ => NoCommit u req i := by
  intro s r t ledger start served
  obtain ⟨kept, moved⟩ := quiet_step ledger served (untouched_handle handle d)
    (fun h => nomatch h) fun _ rid same => by rw [other] at same; cases same
  obtain ⟨_, _, log⟩ := same_of_untouched req served (untouched_handle handle d)
  exact ⟨kept, moved, fun c => by rw [log]; exact start c⟩

theorem update_meets {token : Option String} {body : Option Json}
    (updates : req i = .update token body) (account : (req i).OnAccount env u)
    (current : ∀ d s, C i (.putObject (keyProfile u.str) d) s →
      commits u req (sinceRead u i s.trace) = [])
    {s : Log ι} (start : NoCommit u req i s) :
    Meets (ledgerRules env u req c0 early) (Logged C) (fun _ => noCommit i)
      (updateProfile env token body) s := by
  have other : (req i).isRotate = false := by rw [updates]; rfl
  have unnamed : (req i).requestId = none := by rw [updates]; rfl
  have mine (user : AuthedUser) (known : Token.identity env token = some user) :
      keyProfile user.userId.str = keyProfile u.str := by
    rw [updates] at account
    rw [account user known]
  refine Meets.updateProfile (noCommit i) (fun _ p => snapshotOf p) (fun _ _ => noCommit i) start
    (fun _ _ here => here) (fun o => noCommit_passive) (fun user known => ?_)
    (fun user r p known _ => ?_) (fun _ p _ _ => noCommit_handle unnamed _ _)
    (fun _ _ _ _ here => here)
  · rw [mine user known]
    intro v reply t ledger here served
    obtain ⟨kept, moved, after⟩ := snapshot_read v reply t ledger here served
    exact ⟨kept, moved, after.2⟩
  · rw [mine user known]
    intro v reply t ledger here served
    obtain ⟨kept, moved, after⟩ :=
      snapshot_write other (r.credential_apply p) current v reply t ledger here served
    exact ⟨kept, moved, fun _ _ => after, fun _ => after⟩

theorem lastActive_meets (refreshes : req i = .lastActive)
    (current : ∀ d s, C i (.putObject (keyProfile u.str) d) s →
      commits u req (sinceRead u i s.trace) = [])
    {s : Log ι} (start : NoCommit u req i s) :
    Meets (ledgerRules env u req c0 early) (Logged C) (fun _ => noCommit i)
      (updateLastActive env u.str) s := by
  have other : (req i).isRotate = false := by rw [refreshes]; rfl
  exact Meets.updateLastActive (noCommit i) snapshotOf start (fun _ here => here)
    (fun _ _ here => here.1) snapshot_read snapshot_clock
    fun p stamp => snapshot_write other rfl current

end Snapshots

/-! ### All writers -/

section Writers

variable {ι : Type} [DecidableEq ι] (env : Env) (u : UserId) (req : ι → ProfileWriter)

/-- The profile writers of one account, served where `C` allows. -/
def profileWriters (C : ι → Op → Log ι → Prop) :
    System ι Op Res (Except ApiError (Option RotateOutcome)) (Log ι) where
  prog i := ((req i).run env u).run
  exec := Logged C

/-- The conditions under which no write outdates a rotation. -/
structure Orderly (C : ι → Op → Log ι → Prop) : Prop where
  /-- A rotation never wraps the version. -/
  below : ∀ i d s, (req i).isRotate = true → C i (.putObject (keyProfile u.str) d) s →
    ∀ p, profileOf u s.state = some p → p.currentKv + 1 ≠ 0
  /-- Another writer writes only what no rotation has outdated since it was read. -/
  current : ∀ i d s, (req i).isRotate = false → C i (.putObject (keyProfile u.str) d) s →
    commits u req (sinceRead u i s.trace) = []

variable {env u req}
variable {c0 : Credential} {early : String → UInt32 → Prop} {C : ι → Op → Log ι → Prop}

theorem writer_meets (orderly : Orderly u req C) {i : ι} (account : (req i).OnAccount env u)
    {seen : Option RotationRecord} {present : Prop} {s : Log ι}
    (start : Started env u req i seen present s) :
    Meets (ledgerRules env u req c0 early) (Logged C) (answered i seen present)
      ((req i).run env u) s := by
  have plain (other : (req i).isRotate = false) (r : Except ApiError Unit) (t : Log ι)
      (none_ : NoCommit u req i t) : Answered env u req i seen present (r.map fun _ => none) t := by
    cases r with
    | ok => exact ⟨none_, other⟩
    | error e =>
      refine ⟨none_, fun _ valid => ?_⟩
      obtain ⟨token, body, same, _⟩ := valid
      rw [same] at other
      cases other
  cases kind : req i with
  | rotate token body =>
    have meets : Meets (ledgerRules env u req c0 early) (Logged C)
        (fun r => answered i seen present (r.map some)) (rotateKeys env token body) s :=
      rotate_meets kind account (fun d s => orderly.below i d s (by rw [kind]; rfl)) start
    exact Meets.bind meets (fun e t after => after) fun outcome t after => Meets.pure after
  | update token body =>
    have other : (req i).isRotate = false := by rw [kind]; rfl
    have meets : Meets (ledgerRules env u req c0 early) (Logged C)
        (fun _ => noCommit i) (updateProfile env token body) s :=
      update_meets kind account (fun d s => orderly.current i d s other) start.1
    exact Meets.bind meets (fun e t after => plain other (.error e) t after)
      fun done t after => Meets.pure (plain other (.ok done) t after)
  | lastActive =>
    have other : (req i).isRotate = false := by rw [kind]; rfl
    have meets : Meets (ledgerRules env u req c0 early) (Logged C)
        (fun _ => noCommit i) (updateLastActive env u.str) s :=
      lastActive_meets kind (fun d s => orderly.current i d s other) start.1
    exact Meets.bind meets (fun e t after => plain other (.error e) t after)
      fun done t after => Meets.pure (plain other (.ok done) t after)

theorem writerContracts (orderly : Orderly u req C) (account : ∀ i, (req i).OnAccount env u)
    (seen : ι → Option RotationRecord) (present : ι → Prop) :
    Contracts (ledgerRules env u req c0 early) (profileWriters env u req C)
      (fun i => Started env u req i (seen i) (present i))
      (fun i => Answered env u req i (seen i) (present i)) where
  stable i := stable_started (seen i) (present i)
  arrives i _ _ start := writer_meets orderly (account i) start

omit [DecidableEq ι] in
/-- Before the first request: a stored profile, a free lock, and early successes on record. -/
theorem ledger_init {s0 : Sys ι} {p0 : Profile} (stored : profileOf u s0 = some p0)
    (early_ : ∀ rid rec token v, recordOf u rid s0 = some rec →
      .fromRecord rec = RotateOutcome.success token v → early rid v) :
    Ledger env u req p0.credential early (Traced.init s0) where
  stored := ⟨p0, stored, rfl⟩
  chain := trivial
  distinct := List.nodup_nil
  recorded := fun _ member => nomatch member
  truthful := fun rid rec token v found success => .inl (early_ rid rec token v found success)

omit [DecidableEq ι] in
theorem started_init {s0 : Sys ι} (i : ι) :
    Started env u req i none False (Traced.init s0) :=
  ⟨fun _ member => (nomatch member), False.elim, fun _ same => (nomatch same)⟩

end Writers

section Chain

variable {ι : Type} {env : Env} {req : ι → ProfileWriter} {c0 : Credential}

/-- Versions grow by exactly one with each rotation. -/
theorem Chain.version {cs : List (ι × Credential)} (chain : Chain env req c0 cs) :
    (newest c0 cs).currentKv.toNat = c0.currentKv.toNat + cs.length := by
  induction cs with
  | nil => rfl
  | cons e rest ih =>
    obtain ⟨i, c⟩ := e
    obtain ⟨⟨token, body, x, _, rfl, accepted, nonzero⟩, before⟩ := chain
    have advances : x.req.credential.keyVersion = (newest c0 rest).currentKv + 1 := accepted.1
    have shown : x.req.credential.currentKv = x.req.credential.keyVersion := if_neg nonzero
    have bound := (newest c0 rest).currentKv.toNat_lt
    have wraps : x.req.credential.keyVersion.toNat ≠ 0 := fun h => nonzero (UInt32.toNat_inj.mp h)
    rw [advances, UInt32.toNat_add] at wraps
    have grown := ih before
    have one : UInt32.toNat 1 = 1 := rfl
    rw [newest, shown, advances, UInt32.toNat_add, List.length_cons]
    omega

/-- Every rotation in the chain was accepted against its predecessor. -/
theorem Chain.accepted {newer older : List (ι × Credential)} {i : ι} {c : Credential}
    (chain : Chain env req c0 (newer ++ (i, c) :: older)) :
    (∃ token body, ∃ x : Rotation env token body, req i = .rotate token body ∧
      c = x.req.credential ∧ x.Accepted (newest c0 older) ∧ c.keyVersion ≠ 0) ∧
      Chain env req c0 older := by
  induction newer with
  | nil => exact chain
  | cons e newer ih => exact ih chain.2

/-- In a chain the version tells the rotation apart. -/
theorem Chain.version_of_mem {newer older : List (ι × Credential)} {i : ι} {c : Credential}
    (chain : Chain env req c0 (newer ++ (i, c) :: older)) :
    c.keyVersion.toNat = c0.currentKv.toNat + older.length + 1 := by
  have upTo : Chain env req c0 ((i, c) :: older) := by
    induction newer with
    | nil => exact chain
    | cons e newer ih => exact ih chain.2
  obtain ⟨token, body, x, _, _, _, nonzero⟩ := upTo.1
  have version := upTo.version
  have shown : (newest c0 ((i, c) :: older)).currentKv = c.keyVersion := if_neg nonzero
  rw [shown, List.length_cons] at version
  omega

/-- No two rotations install the same version. -/
theorem Chain.versions_nodup {cs : List (ι × Credential)} (chain : Chain env req c0 cs) :
    (cs.map fun e => e.2.keyVersion).Nodup := by
  induction cs with
  | nil => exact List.nodup_nil
  | cons e rest ih =>
    obtain ⟨i, c⟩ := e
    rw [List.map_cons, List.nodup_cons]
    refine ⟨fun member => ?_, ih chain.2⟩
    obtain ⟨⟨j, d⟩, old, same⟩ := List.mem_map.mp member
    obtain ⟨newer, older, split⟩ := List.append_of_mem old
    have first := Chain.version_of_mem (show Chain env req c0 ([] ++ (i, c) :: rest) from chain)
    have later := Chain.version_of_mem (split ▸ chain.2)
    have lengths := congrArg List.length split
    simp only [List.length_append, List.length_cons] at lengths same
    rw [same] at later
    omega

end Chain

end Atmin
