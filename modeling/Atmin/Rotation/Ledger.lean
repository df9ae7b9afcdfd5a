import Atmin.Server.Log

/-!
# The ledger of an account's rotations

`rotate-keys`, `PUT /v1/profile` and the detached `last_active` refresh of one account,
interleaved on a healthy store. The log determines which credentials were installed, in
order; the ledger invariant relates them to the stored profile, to the rotation lock and
to the recorded outcomes.
-/

namespace Atmin

open Interaction

/-- A request or task that writes the profile of one account. -/
inductive ProfileWriter where
  | rotate (token : Option String) (body : Option Json)
  | update (token : Option String) (body : Option Json)
  | lastActive

namespace ProfileWriter

def run (env : Env) (u : UserId) : ProfileWriter → Handler (Option RotateOutcome)
  | rotate token body => do
    let outcome ← rotateKeys env token body
    pure (some outcome)
  | update token body => do
    updateProfile env token body
    pure none
  | lastActive => do
    updateLastActive env u.str
    pure none

/-- The token, if it authenticates, is one of this account. -/
def OnAccount (env : Env) (u : UserId) : ProfileWriter → Prop
  | rotate token _ | update token _ =>
    ∀ user, Token.identity env token = some user → user.userId = u
  | lastActive => True

def isRotate : ProfileWriter → Bool
  | rotate .. => true
  | _ => false

def requestId : ProfileWriter → Option String
  | rotate _ body => (body.bind RotateKeysRequest.fromJson).map RotateKeysRequest.requestId
  | _ => none

end ProfileWriter

def RotateKeysRequest.credential (req : RotateKeysRequest) : Credential :=
  ⟨req.authPublicKey, req.sharingPublicKey, req.salt, req.kdf, req.keyVersion⟩

theorem RotateKeysRequest.credential_install (req : RotateKeysRequest) (p : Profile) :
    (req.install p).credential = req.credential := rfl

section Ledger

variable {ι : Type} (env : Env) (u : UserId) (req : ι → ProfileWriter)

/-- The recorded outcome of a request id. -/
def recordOf (rid : String) (s : Sys ι) : Option RotationRecord :=
  (s.objects.get (keyRotationRecord u.str rid)).bind RotationRecord.parse

/-- The credential a served request installs: a rotation's write of the profile. -/
def commitOf (e : Event ι Op Res) : Option (ι × Credential) :=
  if (req e.by_).isRotate then
    ((e.op.puts (keyProfile u.str)).bind Profile.parse).map fun p => (e.by_, p.credential)
  else none

/-- The rotations applied so far, latest first. -/
def commits (trace : List (Event ι Op Res)) : List (ι × Credential) :=
  trace.filterMap (commitOf u req)

/-- The credential in force after these rotations. -/
def newest (c0 : Credential) : List (ι × Credential) → Credential
  | [] => c0
  | (_, c) :: _ => c

/-- Each rotation was accepted against the credential installed just before it. -/
def Chain (c0 : Credential) : List (ι × Credential) → Prop
  | [] => True
  | (i, c) :: rest =>
    (∃ token body, ∃ x : Rotation env token body, req i = .rotate token body ∧
      c = x.req.credential ∧ x.Accepted (newest c0 rest) ∧ c.keyVersion ≠ 0) ∧ Chain c0 rest

/-- The invariant. `early` says which successes were on record before the run. -/
structure Ledger (c0 : Credential) (early : String → UInt32 → Prop) (s : Log ι) : Prop where
  stored : ∃ p, profileOf u s.state = some p ∧ p.credential = newest c0 (commits u req s.trace)
  chain : Chain env req c0 (commits u req s.trace)
  distinct : ((commits u req s.trace).map fun e => (req e.1).requestId).Nodup
  recorded : ∀ e ∈ commits u req s.trace, s.state.holder (.rotation u.str) = some e.1 ∨
    ∃ rid rec token, (req e.1).requestId = some rid ∧ recordOf u rid s.state = some rec ∧
      .fromRecord rec = RotateOutcome.success token e.2.keyVersion
  truthful : ∀ rid rec token v, recordOf u rid s.state = some rec →
    .fromRecord rec = RotateOutcome.success token v → early rid v ∨
      ∃ e ∈ commits u req s.trace, (req e.1).requestId = some rid ∧ e.2.keyVersion = v

/-- A lock is taken from nobody and given back by its holder. -/
def HolderMoves (l : Lock) (i : ι) (s t : Sys ι) : Prop :=
  t.holder l = s.holder l ∨ (s.holder l = none ∧ t.holder l = some i) ∨
    (s.holder l = some i ∧ t.holder l = none)

/-- What a request of slot `i` may do. -/
structure Moves (i : ι) (s t : Log ι) : Prop where
  logged : ∃ e, e.by_ = i ∧ t.trace = e :: s.trace
  commits : commits u req t.trace = commits u req s.trace ∨
    s.state.holder (.rotation u.str) = some i
  holder : HolderMoves (.rotation u.str) i s.state t.state
  records : (∀ rid, recordOf u rid t.state = recordOf u rid s.state) ∨
    s.state.holder (.rotation u.str) = some i
  kept : ∀ rid rec, recordOf u rid s.state = some rec → recordOf u rid t.state = some rec
  devices : ∀ did, t.state.objects.get (keyDevice u.str did) =
    s.state.objects.get (keyDevice u.str did)
  replays : ∀ e, t.trace = e :: s.trace → e.op.Writes → ∀ rid,
    (req i).requestId = some rid → recordOf u rid s.state = none

def ledgerRules (c0 : Credential) (early : String → UInt32 → Prop) : Rules ι (Log ι) where
  inv := Ledger env u req c0 early
  guar := Moves u req
  rely j s t := ∃ i, i ≠ j ∧ Moves u req i s t
  compat i _ differ _ _ _ _ moved := ⟨i, differ, moved⟩

variable {env u req}

theorem HolderMoves.other {l : Lock} {i j : ι} {s t : Sys ι} (moved : HolderMoves l i s t)
    (differ : i ≠ j) (held : s.holder l = some j) : t.holder l = some j := by
  rcases moved with same | ⟨free, _⟩ | ⟨mine, _⟩
  · rw [same, held]
  · rw [held] at free
    cases free
  · rw [held] at mine
    exact absurd (Option.some.inj mine).symm differ

/-- While slot `j` holds the lock the others install no credential. -/
theorem Moves.commits_held {i j : ι} {s t : Log ι} (moved : Moves u req i s t) (differ : i ≠ j)
    (held : s.state.holder (.rotation u.str) = some j) :
    Atmin.commits u req t.trace = Atmin.commits u req s.trace := by
  rcases moved.commits with same | mine
  · exact same
  · rw [held] at mine
    exact absurd (Option.some.inj mine).symm differ

/-- While slot `j` holds the lock the others record no outcome. -/
theorem Moves.records_held {i j : ι} {s t : Log ι} (moved : Moves u req i s t) (differ : i ≠ j)
    (held : s.state.holder (.rotation u.str) = some j) (rid : String) :
    recordOf u rid t.state = recordOf u rid s.state := by
  rcases moved.records with same | mine
  · exact same rid
  · rw [held] at mine
    exact absurd (Option.some.inj mine).symm differ

theorem commits_cons (e : Event ι Op Res) (trace : List (Event ι Op Res)) :
    commits u req (e :: trace) = (commitOf u req e).toList ++ commits u req trace := by
  unfold commits
  rw [List.filterMap_cons]
  cases commitOf u req e <;> rfl

/-- A request that writes no profile installs nothing. -/
theorem commitOf_none {e : Event ι Op Res} (plain : e.op.puts (keyProfile u.str) = none) :
    commitOf u req e = none := by
  unfold commitOf
  split
  · rw [plain]; rfl
  · rfl

/-- Installed credentials are attributed to the slot that wrote them. -/
theorem mem_commits_cons {e : Event ι Op Res} {trace : List (Event ι Op Res)} {x : ι × Credential}
    (member : x ∈ commits u req (e :: trace)) : x.1 = e.by_ ∨ x ∈ commits u req trace := by
  rw [commits_cons, List.mem_append] at member
  rcases member with new | old
  · left
    unfold commitOf at new
    split at new
    · obtain ⟨p, _, rfl⟩ := Option.map_eq_some_iff.mp (Option.mem_toList.mp new)
      rfl
    · cases new
  · exact .inr old

end Ledger

/-! ### One request -/

section Steps

variable {ι : Type} {env : Env} {u : UserId} {req : ι → ProfileWriter} {c0 : Credential}
  {early : String → UInt32 → Prop} {C : ι → Op → Log ι → Prop} {i : ι} {o : Op} {s t : Log ι}
  {r : Res o}

theorem profileOf_served (served : Logged C i o s r t) : profileOf u t.state =
    (o.after (keyProfile u.str) (s.state.objects.get (keyProfile u.str))).bind Profile.parse := by
  rw [profileOf, healthy_get served.2.1]

theorem recordOf_served (served : Logged C i o s r t) (rid : String) : recordOf u rid t.state =
    (o.after (keyRotationRecord u.str rid)
      (s.state.objects.get (keyRotationRecord u.str rid))).bind RotationRecord.parse := by
  rw [recordOf, healthy_get served.2.1]

/-- Which objects of the account a request leaves alone. -/
structure Untouched (u : UserId) (o : Op) : Prop where
  puts : o.puts (keyProfile u.str) = none
  profile : ∀ before, o.after (keyProfile u.str) before = before
  record : ∀ rid before, o.after (keyRotationRecord u.str rid) before = before
  device : ∀ did before, o.after (keyDevice u.str did) before = before

theorem untouched_passive (passive : o.passive = true) : Untouched u o :=
  ⟨Op.puts_passive passive _, Op.after_passive passive _, fun _ => Op.after_passive passive _,
    fun _ => Op.after_passive passive _⟩

theorem untouched_handle (handle : String) (d : Data) :
    Untouched u (.putObject (keyHandle handle) d) := by
  have profile : keyProfile u.str ≠ keyHandle handle := (keyHandle_ne_profile _ _).symm
  have record (rid : String) : keyRotationRecord u.str rid ≠ keyHandle handle :=
    (keyHandle_ne_record _ _ _).symm
  have device (did : String) : keyDevice u.str did ≠ keyHandle handle :=
    (keyHandle_ne_device _ _ _).symm
  exact ⟨by simp [Op.puts, profile], fun before => by simp [Op.after, profile],
    fun rid before => by simp [Op.after, record rid],
    fun did before => by simp [Op.after, device did]⟩

/-- Profile, records and ledger after a request that leaves the account's objects alone. -/
theorem same_of_untouched (req : ι → ProfileWriter) (served : Logged C i o s r t) (plain : Untouched u o) :
    profileOf u t.state = profileOf u s.state ∧
      (∀ rid, recordOf u rid t.state = recordOf u rid s.state) ∧
      commits u req t.trace = commits u req s.trace := by
  refine ⟨?_, fun rid => ?_, ?_⟩
  · rw [profileOf_served served, plain.profile, profileOf]
  · rw [recordOf_served served, plain.record, recordOf]
  · rw [served.2.2, commits_cons, commitOf_none plain.puts]
    rfl

/-- The ledger only looks at the profile, the records, the log and the lock. -/
theorem Ledger.same (ledger : Ledger env u req c0 early s)
    (profile : profileOf u t.state = profileOf u s.state)
    (records : ∀ rid, recordOf u rid t.state = recordOf u rid s.state)
    (log : commits u req t.trace = commits u req s.trace)
    (kept : ∀ e ∈ commits u req s.trace,
      s.state.holder (.rotation u.str) = some e.1 → t.state.holder (.rotation u.str) = some e.1 ∨
      ∃ rid rec token, (req e.1).requestId = some rid ∧ recordOf u rid s.state = some rec ∧
        .fromRecord rec = RotateOutcome.success token e.2.keyVersion) :
    Ledger env u req c0 early t where
  stored := by rw [profile, log]; exact ledger.stored
  chain := by rw [log]; exact ledger.chain
  distinct := by rw [log]; exact ledger.distinct
  recorded := by
    rw [log]
    intro e member
    simp only [records]
    rcases ledger.recorded e member with held | recorded
    · exact kept e member held
    · exact .inr recorded
  truthful := by
    rw [log]
    simp only [records]
    exact ledger.truthful

/-- A request that neither touches the account's objects nor its lock. -/
theorem quiet_step (ledger : Ledger env u req c0 early s) (served : Logged C i o s r t)
    (plain : Untouched u o) (unlocked : o.lock? ≠ some (.rotation u.str))
    (replays : o.Writes → ∀ rid, (req i).requestId = some rid → recordOf u rid s.state = none) :
    Ledger env u req c0 early t ∧ Moves u req i s t := by
  obtain ⟨profile, records, log⟩ := same_of_untouched req served plain
  have holder := served_holder served.2.1 unlocked
  refine ⟨ledger.same profile records log fun e _ held => .inl (by rw [holder, held]), ?_⟩
  exact {
    logged := ⟨_, rfl, served.2.2⟩
    commits := .inl log
    holder := .inl holder
    records := .inl records
    kept := fun rid rec found => by rw [records, found]
    devices := fun did => by rw [healthy_get served.2.1, plain.device]
    replays := fun e same writes rid => by
      have event : e = ⟨i, o, r⟩ := (List.cons.inj (same.symm.trans served.2.2)).1
      subst event
      exact replays writes rid }

theorem passive_step (ledger : Ledger env u req c0 early s) (served : Logged C i o s r t)
    (passive : o.passive = true) : Ledger env u req c0 early t ∧ Moves u req i s t := by
  refine quiet_step ledger served (untouched_passive passive)
    (by rw [Op.lock?_passive passive]; exact fun h => nomatch h) ?_
  rintro ⟨key, before, changed⟩
  exact absurd (Op.after_passive passive key before) changed

theorem untouched_lock (l : Lock) : Untouched u (.acquire l) ∧ Untouched u (.release l) :=
  ⟨⟨rfl, fun _ => rfl, fun _ _ => rfl, fun _ _ => rfl⟩,
    ⟨rfl, fun _ => rfl, fun _ _ => rfl, fun _ _ => rfl⟩⟩

theorem acquire_step {r : Res (.acquire (.rotation u.str))} (ledger : Ledger env u req c0 early s)
    (served : Logged C i (.acquire (.rotation u.str)) s r t) :
    (Ledger env u req c0 early t ∧ Moves u req i s t) ∧
      (r = .ok () → t.state.holder (.rotation u.str) = some i) := by
  obtain ⟨profile, records, log⟩ :=
    same_of_untouched req served (untouched_lock (.rotation u.str)).1
  have moves : HolderMoves (.rotation u.str) i s.state t.state ∧
      (r = .ok () → t.state.holder (.rotation u.str) = some i) := by
    rcases served_acquire served.2.1 with ⟨_, free, after⟩ | ⟨timeout, after⟩
    · have taken : t.state.holder (.rotation u.str) = some i := by
        rw [after]; exact Function.update_self _ _ _
      exact ⟨.inr (.inl ⟨free, taken⟩), fun _ => taken⟩
    · exact ⟨.inl (by rw [after]), fun ok => by rw [ok] at timeout; cases timeout⟩
  refine ⟨⟨ledger.same profile records log fun e member held => .inl ?_, ?_⟩, moves.2⟩
  · rcases moves.1 with same | ⟨free, _⟩ | ⟨_, freed⟩
    · rw [same, held]
    · rw [held] at free
      cases free
    · rcases served_acquire served.2.1 with ⟨_, free, _⟩ | ⟨_, after⟩
      · rw [held] at free
        cases free
      · rw [after, held]
  · exact {
      logged := ⟨_, rfl, served.2.2⟩
      commits := .inl log
      holder := moves.1
      records := .inl records
      kept := fun rid rec found => by rw [records, found]
      devices := fun did => by rw [healthy_get served.2.1]; rfl
      replays := fun e same => by
        have event : e = ⟨i, _, r⟩ := (List.cons.inj (same.symm.trans served.2.2)).1
        subst event
        rintro ⟨key, before, changed⟩
        exact absurd rfl changed }

/-- The lock is given back once what its holder installed is on record. -/
theorem release_step {r : Res (.release (.rotation u.str))}
    (ledger : Ledger env u req c0 early s)
    (served : Logged C i (.release (.rotation u.str)) s r t)
    (held : s.state.holder (.rotation u.str) = some i)
    (settled : ∀ c, (i, c) ∈ commits u req s.trace → ∃ rid rec token,
      (req i).requestId = some rid ∧ recordOf u rid s.state = some rec ∧
        .fromRecord rec = RotateOutcome.success token c.keyVersion) :
    Ledger env u req c0 early t ∧ Moves u req i s t := by
  obtain ⟨profile, records, log⟩ :=
    same_of_untouched req served (untouched_lock (.rotation u.str)).2
  have freed : t.state.holder (.rotation u.str) = none := by
    rw [served_release served.2.1]; exact Function.update_self _ _ _
  refine ⟨ledger.same profile records log fun e member mine => .inr ?_, ?_⟩
  · obtain ⟨j, c⟩ := e
    have same : j = i := Option.some.inj (mine.symm.trans held)
    subst same
    exact settled c member
  · exact {
      logged := ⟨_, rfl, served.2.2⟩
      commits := .inl log
      holder := .inr (.inr ⟨held, freed⟩)
      records := .inl records
      kept := fun rid rec found => by rw [records, found]
      devices := fun did => by rw [healthy_get served.2.1]; rfl
      replays := fun e same => by
        have event : e = ⟨i, _, r⟩ := (List.cons.inj (same.symm.trans served.2.2)).1
        subst event
        rintro ⟨key, before, changed⟩
        exact absurd rfl changed }

/-- The lock's holder records the outcome of its request id, which has none yet. -/
theorem record_step {rid : String} {d : Data} {rec : RotationRecord}
    {r : Res (.putObject (keyRotationRecord u.str rid) d)} (ledger : Ledger env u req c0 early s)
    (served : Logged C i (.putObject (keyRotationRecord u.str rid) d) s r t)
    (held : s.state.holder (.rotation u.str) = some i) (named : (req i).requestId = some rid)
    (missed : recordOf u rid s.state = none)
    (parsed : RotationRecord.parse d = some rec)
    (faithful : ∀ token v, .fromRecord rec = RotateOutcome.success token v →
      ∃ e ∈ commits u req s.trace, (req e.1).requestId = some rid ∧ e.2.keyVersion = v) :
    (Ledger env u req c0 early t ∧ Moves u req i s t) ∧ recordOf u rid t.state = some rec ∧
      commits u req t.trace = commits u req s.trace ∧
      t.state.holder (.rotation u.str) = some i := by
  have profile : profileOf u t.state = profileOf u s.state := by
    rw [profileOf_served served, profileOf]
    simp only [Op.after, if_neg (keyRecord_ne_profile u.str rid).symm]
  have written : recordOf u rid t.state = some rec := by
    rw [recordOf_served served]
    simpa [Op.after] using parsed
  have others (rid' : String) (differ : rid' ≠ rid) :
      recordOf u rid' t.state = recordOf u rid' s.state := by
    have keys : keyRotationRecord u.str rid' ≠ keyRotationRecord u.str rid :=
      fun same => differ (keyRotationRecord_inj same)
    rw [recordOf_served served, recordOf]
    simp only [Op.after, if_neg keys]
  -- the record is new under its id, so no record is replaced
  have kept (rid' : String) (rec' : RotationRecord) (found : recordOf u rid' s.state = some rec') :
      recordOf u rid' t.state = some rec' := by
    by_cases same : rid' = rid
    · rw [same, missed] at found
      cases found
    · rw [others rid' same, found]
  -- it is no commit
  have plain : commitOf u req ⟨i, .putObject (keyRotationRecord u.str rid) d, r⟩ = none :=
    commitOf_none (by simp [Op.puts, (keyRecord_ne_profile u.str rid).symm])
  have log : commits u req t.trace = commits u req s.trace := by
    rw [served.2.2, commits_cons, plain]
    rfl
  have holder : t.state.holder (.rotation u.str) = some i := by
    rw [served_holder served.2.1 (fun h => by cases h), held]
  refine ⟨⟨?_, ?_⟩, written, log, holder⟩
  · exact {
      stored := by rw [profile, log]; exact ledger.stored
      chain := by rw [log]; exact ledger.chain
      distinct := by rw [log]; exact ledger.distinct
      recorded := by
        rw [log]
        intro e member
        rcases ledger.recorded e member with mine | ⟨rid', rec', token, known, found, success⟩
        · exact .inl (by rw [holder, ← held, mine])
        · exact .inr ⟨rid', rec', token, known, kept rid' rec' found, success⟩
      -- a success on record is one in the ledger: the new one by assumption
      truthful := by
        rw [log]
        intro rid' rec' token v found success
        by_cases same : rid' = rid
        · subst same
          have itself : rec' = rec := Option.some.inj (found.symm.trans written)
          subst itself
          exact .inr (faithful token v success)
        · exact ledger.truthful rid' rec' token v (by rw [← others rid' same, found]) success }
  · exact {
      logged := ⟨_, rfl, served.2.2⟩
      commits := .inl log
      holder := .inl (by rw [holder, held])
      records := .inr held
      kept := kept
      devices := fun did => by
        rw [healthy_get served.2.1]
        simp only [Op.after, if_neg (keyDevice_ne_record u.str did rid)]
      replays := fun e same => by
        have event : e = ⟨i, _, r⟩ := (List.cons.inj (same.symm.trans served.2.2)).1
        subst event
        intro _ rid' same
        rw [named] at same
        cases same
        exact missed }

/-- What a write of the profile leaves of the account. -/
theorem profile_put {p : Profile} {r : Res (.putObject (keyProfile u.str) p.data)}
    (served : Logged C i (.putObject (keyProfile u.str) p.data) s r t) :
    profileOf u t.state = some p ∧ (∀ rid, recordOf u rid t.state = recordOf u rid s.state) ∧
      t.state.holder (.rotation u.str) = s.state.holder (.rotation u.str) ∧
      ∀ did, t.state.objects.get (keyDevice u.str did) =
        s.state.objects.get (keyDevice u.str did) := by
  refine ⟨?_, fun rid => ?_, served_holder served.2.1 (fun h => nomatch h), fun did => ?_⟩
  · rw [profileOf_served served]
    simp [Op.after]
  · rw [recordOf_served served, recordOf]
    simp only [Op.after, if_neg (keyRecord_ne_profile u.str rid)]
  · rw [healthy_get served.2.1]
    simp only [Op.after, if_neg (keyDevice_ne_profile u.str did)]

/-- A rotation is applied: its credential becomes the newest. -/
theorem commit_step {token : Option String} {body : Option Json} (x : Rotation env token body)
    {p : Profile} {r : Res (.putObject (keyProfile u.str) (x.req.install p).data)}
    (ledger : Ledger env u req c0 early s)
    (served : Logged C i (.putObject (keyProfile u.str) (x.req.install p).data) s r t)
    (rotates : req i = .rotate token body)
    (held : s.state.holder (.rotation u.str) = some i)
    (first : ∀ c, (i, c) ∉ commits u req s.trace)
    (missed : recordOf u x.req.requestId s.state = none)
    (current : p.credential = newest c0 (commits u req s.trace))
    (accepted : x.Accepted p.credential) (below : x.req.keyVersion ≠ 0) :
    (Ledger env u req c0 early t ∧ Moves u req i s t) ∧
      commits u req t.trace = (i, x.req.credential) :: commits u req s.trace ∧
      t.state.holder (.rotation u.str) = some i ∧
      recordOf u x.req.requestId t.state = none := by
  obtain ⟨profile, records, holder, devices⟩ := profile_put served
  have log : commits u req t.trace = (i, x.req.credential) :: commits u req s.trace := by
    have new : commitOf u req ⟨i, .putObject (keyProfile u.str) (x.req.install p).data, r⟩ =
        some (i, x.req.credential) := by
      simp [commitOf, rotates, ProfileWriter.isRotate, Op.puts, x.req.credential_install]
    rw [served.2.2, commits_cons, new]
    rfl
  have named : (req i).requestId = some x.req.requestId := by
    rw [rotates, ProfileWriter.requestId, x.parsed]
    rfl
  refine ⟨⟨?_, ?_⟩, log, by rw [holder, held], by rw [records, missed]⟩
  · exact {
      stored := ⟨_, profile, by rw [log]; rfl⟩
      chain := by
        rw [log]
        refine ⟨⟨token, body, x, rotates, rfl, ?_, below⟩, ledger.chain⟩
        rw [← current]
        exact accepted
      distinct := by
        rw [log, List.map_cons, List.nodup_cons]
        refine ⟨?_, ledger.distinct⟩
        rw [List.mem_map]
        rintro ⟨⟨j, c⟩, member, same⟩
        -- An earlier rotation under this id would be on record, or still hold the lock.
        rcases ledger.recorded (j, c) member with mine | ⟨rid, rec, token', known, found, _⟩
        · have itself : j = i := Option.some.inj (mine.symm.trans held)
          rw [itself] at member
          exact first c member
        · have rids : rid = x.req.requestId := by
            rw [known, named] at same
            exact Option.some.inj same
          rw [rids, missed] at found
          cases found
      recorded := by
        rw [log]
        intro e member
        rcases List.mem_cons.mp member with rfl | old
        · exact .inl (by rw [holder, held])
        · rw [holder]
          simp only [records]
          exact ledger.recorded e old
      truthful := by
        rw [log]
        simp only [records]
        intro rid rec token' v found success
        rcases ledger.truthful rid rec token' v found success with before | ⟨e, member, rest⟩
        · exact .inl before
        · exact .inr ⟨e, List.mem_cons_of_mem _ member, rest⟩ }
  · exact {
      logged := ⟨_, rfl, served.2.2⟩
      commits := .inr held
      holder := .inl holder
      records := .inl records
      kept := fun rid rec found => by rw [records, found]
      devices := devices
      replays := fun e _ _ rid itself => by
        rw [named] at itself
        cases itself
        exact missed }

/-- A write of a profile whose credential is the newest changes no credential. -/
theorem snapshot_step {p : Profile} {r : Res (.putObject (keyProfile u.str) p.data)}
    (ledger : Ledger env u req c0 early s)
    (served : Logged C i (.putObject (keyProfile u.str) p.data) s r t)
    (other : (req i).isRotate = false)
    (current : p.credential = newest c0 (commits u req s.trace)) :
    Ledger env u req c0 early t ∧ Moves u req i s t := by
  obtain ⟨profile, records, holder, devices⟩ := profile_put served
  have log : commits u req t.trace = commits u req s.trace := by
    have plain : commitOf u req ⟨i, .putObject (keyProfile u.str) p.data, r⟩ = none := by
      simp [commitOf, other]
    rw [served.2.2, commits_cons, plain]
    rfl
  have unnamed : (req i).requestId = none := by
    cases writer : req i with
    | rotate token body => rw [writer] at other; cases other
    | update token body => rfl
    | lastActive => rfl
  refine ⟨?_, ?_⟩
  · exact {
      stored := ⟨p, profile, by rw [log]; exact current⟩
      chain := by rw [log]; exact ledger.chain
      distinct := by rw [log]; exact ledger.distinct
      recorded := by rw [log, holder]; simp only [records]; exact ledger.recorded
      truthful := by rw [log]; simp only [records]; exact ledger.truthful }
  · exact {
      logged := ⟨_, rfl, served.2.2⟩
      commits := .inl log
      holder := .inl holder
      records := .inl records
      kept := fun rid rec found => by rw [records, found]
      devices := devices
      replays := fun e _ _ rid itself => by rw [unnamed] at itself; cases itself }

end Steps

end Atmin
