import Atmin.Rotation.Writers
import Atmin.Server.Sample
import Mathlib.Data.Set.Card

/-!
# Rotation is exactly-once
-/

namespace Atmin

open Interaction

section Rotations

variable {ι : Type} [DecidableEq ι] {env : Env} {u : UserId} {req : ι → ProfileWriter}

/-- No rotation is applied at the largest version. -/
def BelowMax (u : UserId) (_ : ι) (o : Op) (s : Log ι) : Prop :=
  (o.puts (keyProfile u.str)).isSome = true →
    ∀ p, profileOf u s.state = some p → p.currentKv + 1 ≠ 0

/-- Some request with this id was answered with success at this version. -/
def Succeeded (req : ι → ProfileWriter)
    (w : World ι Op Res (Except ApiError (Option RotateOutcome)) (Log ι)) (rid : String)
    (v : UInt32) : Prop :=
  ∃ i token, (req i).requestId = some rid ∧ w.procs i = .done (.ok (some (.success token v)))

omit [DecidableEq ι] in
theorem orderly_belowMax [DecidableEq ι] (rotations : ∀ i, (req i).isRotate = true) :
    Orderly u req (BelowMax u) where
  below i d s _ below p stored := below (by simp [Op.puts]) p stored
  current i d s other _ := by rw [rotations i] at other; cases other

section Run

variable {p0 : Profile} {s0 : Sys ι}
  {w w' : World ι Op Res (Except ApiError (Option RotateOutcome)) (Log ι)}

/-- The successes on record before the run. -/
def EarlySuccess (u : UserId) (s0 : Sys ι) (rid : String) (v : UInt32) : Prop :=
  ∃ rec token, recordOf u rid s0 = some rec ∧ .fromRecord rec = RotateOutcome.success token v

abbrev RotationsSecured (env : Env) (u : UserId) (req : ι → ProfileWriter) (p0 : Profile)
    (s0 : Sys ι) (C : ι → Op → Log ι → Prop) (seen : ι → Option RotationRecord)
    (present : ι → Prop) (w : World ι Op Res (Except ApiError (Option RotateOutcome)) (Log ι)) :
    Prop :=
  Secured (ledgerRules env u req p0.credential (EarlySuccess u s0)) (profileWriters env u req C)
    (fun i => Started env u req i (seen i) (present i))
    (fun i => Answered env u req i (seen i) (present i)) w

/-- Every reachable world is secured, whatever the writers. -/
theorem writers_secured {C : ι → Op → Log ι → Prop} (orderly : Orderly u req C)
    (account : ∀ i, (req i).OnAccount env u) (stored : profileOf u s0 = some p0)
    (reached : Reach (profileWriters env u req C) (Traced.init s0) w) :
    RotationsSecured env u req p0 s0 C (fun _ => none) (fun _ => False) w :=
  (Secured.init (ledger_init stored fun _ rec token _ found success =>
    ⟨rec, token, found, success⟩) started_init).run (writerContracts orderly account _ _) reached

variable {C : ι → Op → Log ι → Prop}

omit [DecidableEq ι] in
/-- A success answer stands for a rotation under the same id, at the version it reports. -/
theorem commit_of_success
    (secured : RotationsSecured env u req p0 s0 C (fun _ => none) (fun _ => False) w)
    (fresh : ∀ i rid, (req i).requestId = some rid → recordOf u rid s0 = none)
    {rid : String} {v : UInt32} (success : Succeeded req w rid v) :
    ∃ e ∈ commits u req w.sys.trace, (req e.1).requestId = some rid ∧ e.2.keyVersion = v := by
  obtain ⟨i, token, named, done⟩ := success
  have slot := secured.2 i
  rw [done] at slot
  rcases slot.post.1 with ⟨lost, _⟩ | ⟨rid', rec, known, found, same, _⟩
  · cases lost
  · rw [named] at known
    cases known
    rcases secured.1.truthful rid rec token v found same with ⟨rec0, _, early, _⟩ | commit
    · rw [fresh i rid named] at early
      cases early
    · exact commit

omit [DecidableEq ι] in
/-- Once nothing is in flight, every rotation was answered with success. -/
theorem success_of_commit
    (secured : RotationsSecured env u req p0 s0 C (fun _ => none) (fun _ => False) w)
    (quiet : w.Quiet) {i : ι} {c : Credential} (member : (i, c) ∈ commits u req w.sys.trace) :
    ∃ token, w.procs i = .done (.ok (some (.success token c.keyVersion))) := by
  have slot := secured.2 i
  rcases quiet i with idle | ⟨r, done⟩
  · rw [idle] at slot
    exact absurd member (slot.1 c)
  · rw [done] at slot
    have answer := slot.post
    rcases r with e | _ | outcome
    · exact absurd member (answer.1 c)
    · exact absurd member (answer.1 c)
    · rcases answer.1 with ⟨_, none_⟩ | ⟨rid, rec, _, _, _, installed⟩
      · exact absurd member (none_ c)
      · obtain ⟨token, success⟩ := installed c member
        exact ⟨token, by rw [done, success]⟩

omit [DecidableEq ι] in
/-- As many request ids as rotations: every rotation has its own. -/
theorem card_requestIds {c0 : Credential} {cs : List (ι × Credential)}
    (chain : Chain env req c0 cs) (distinct : (cs.map fun e => (req e.1).requestId).Nodup) :
    {rid | ∃ e ∈ cs, (req e.1).requestId = some rid}.ncard = cs.length := by
  have named : ∀ e ∈ cs, ∃ rid, (req e.1).requestId = some rid := by
    intro e member
    obtain ⟨newer, older, split⟩ := List.append_of_mem member
    obtain ⟨⟨token, body, x, rotates, _⟩, _⟩ := Chain.accepted (split ▸ chain)
    exact ⟨x.req.requestId, by rw [rotates, ProfileWriter.requestId, x.parsed]; rfl⟩
  have all : (cs.map fun e => (req e.1).requestId) =
      (cs.filterMap fun e => (req e.1).requestId).map some := by
    clear distinct chain
    induction cs with
    | nil => rfl
    | cons e rest ih =>
      obtain ⟨rid, itself⟩ := named e List.mem_cons_self
      have tail := ih fun e member => named e (List.mem_cons_of_mem _ member)
      rw [List.map_cons, List.filterMap_cons, itself, List.map_cons, tail]
  have ids : {rid | ∃ e ∈ cs, (req e.1).requestId = some rid} =
      ((cs.filterMap fun e => (req e.1).requestId).toFinset : Set String) := by
    ext rid
    simp [List.mem_filterMap]
  rw [ids, Set.ncard_coe_finset, List.toFinset_card_of_nodup]
  · have lengths := congrArg List.length all
    simpa using lengths.symm
  · rw [all] at distinct
    exact List.Nodup.of_map some distinct

end Run

/-- What a quiet or a busy world shows of the rotations so far. -/
structure ExactlyOnce (env : Env) (u : UserId) (req : ι → ProfileWriter) (p0 : Profile)
    (w : World ι Op Res (Except ApiError (Option RotateOutcome)) (Log ι)) : Prop where
  /-- With nothing in flight, the version has grown by the number of successful ids. -/
  counted : w.Quiet → ∃ p, profileOf u w.sys.state = some p ∧
    p.currentKv.toNat = p0.currentKv.toNat + {rid | ∃ v, Succeeded req w rid v}.ncard
  /-- A version is the success of one request id. -/
  injective : ∀ rid rid' v, Succeeded req w rid v → Succeeded req w rid' v → rid = rid'
  /-- Each success was signed by the key of the version just before it. -/
  linked : ∀ rid v, Succeeded req w rid v → ∃ newer i c older,
    commits u req w.sys.trace = newer ++ (i, c) :: older ∧ (req i).requestId = some rid ∧
    c.keyVersion = v ∧ ∃ token body, ∃ x : Rotation env token body, req i = .rotate token body ∧
      c = x.req.credential ∧ x.Accepted (newest p0.credential older)

/-- A re-send that arrives when its id has an outcome on record. -/
structure Replayed (env : Env) (u : UserId) (req : ι → ProfileWriter) (i : ι)
    (rec : RotationRecord) (w w' : World ι Op Res (Except ApiError (Option RotateOutcome)) (Log ι)) :
    Prop where
  /-- It times out on the lock or returns the recorded outcome. -/
  outcome : ∀ outcome, w'.procs i = .done (.ok (some outcome)) →
    outcome = lostRace ∨ outcome = .fromRecord rec
  /-- A well-formed request of a device that is there is not turned away. -/
  admitted : Valid env req i → DevicePresent env u req i w.sys → ∀ r, w'.procs i = .done r →
    ∃ outcome, r = .ok (some outcome)
  /-- It writes nothing. -/
  unchanged : ∃ later, w'.sys.trace = later ++ w.sys.trace ∧
    ∀ e ∈ later, e.by_ = i → ¬ e.op.Writes

section Replay

variable {C : ι → Op → Log ι → Prop}
  {w w' : World ι Op Res (Except ApiError (Option RotateOutcome)) (Log ι)}

/-- From a world with an idle slot whose id has an outcome on record, to any later one. -/
theorem replayed (orderly : Orderly u req C) (account : ∀ i, (req i).OnAccount env u)
    {s0 : Sys ι} {p0 : Profile}
    (secured : RotationsSecured env u req p0 s0 C (fun _ => none) (fun _ => False) w)
    (run : Relation.ReflTransGen (Step (profileWriters env u req C)) w w') {i : ι} {rid : String}
    {rec : RotationRecord} (rotation : (req i).isRotate = true) (idle : w.procs i = .idle)
    (named : (req i).requestId = some rid) (found : recordOf u rid w.sys.state = some rec) :
    Replayed env u req i rec w w' := by
  -- The same worlds, secured with what is now known of the idle slot.
  let seen (j : ι) : Option RotationRecord := if j = i then some rec else none
  let present (j : ι) : Prop := j = i ∧ DevicePresent env u req i w.sys
  have here : RotationsSecured env u req p0 s0 C seen present w := by
    refine ⟨secured.1, fun j => ?_⟩
    by_cases same : j = i
    · subst same
      have slot := secured.2 j
      rw [idle] at slot ⊢
      refine ⟨slot.1, fun h => h.2, fun rec' known rid' named' => ?_⟩
      have itself : rec = rec' := Option.some.inj ((if_pos rfl).symm.trans known)
      rw [named] at named'
      cases named'
      rw [← itself]
      exact found
    · have unseen : seen j = none := if_neg same
      have absent : present j = False := eq_false fun h => same h.1
      show SlotSafe _ _ (Started env u req j (seen j) (present j))
        (Answered env u req j (seen j) (present j)) _ j _
      rw [unseen, absent]
      exact secured.2 j
  have there := here.run (writerContracts orderly account seen present) run
  have known : seen i = some rec := if_pos rfl
  refine ⟨fun outcome done => ?_, fun valid device r done => ?_, ?_⟩
  · have slot := there.2 i
    rw [done] at slot
    exact slot.post.2 rec known
  · have slot := there.2 i
    rw [done] at slot
    have answer := slot.post
    rcases r with e | _ | outcome
    · have unseen := answer.2 ⟨rfl, device⟩ valid
      rw [known] at unseen
      cases unseen
    · have other := answer.2
      rw [rotation] at other
      cases other
    · exact ⟨outcome, rfl⟩
  · have related := here.relates (writerContracts orderly account seen present)
      (fun s t => ∃ later, t.trace = later ++ s.trace ∧
        (recordOf u rid s.state = some rec → recordOf u rid t.state = some rec ∧
          ∀ e ∈ later, e.by_ = i → ¬ e.op.Writes))
      (fun s => ⟨[], rfl, fun on => ⟨on, fun _ member => nomatch member⟩⟩) ?_ ?_ run
    · obtain ⟨later, log, kept⟩ := related
      exact ⟨later, log, (kept found).2⟩
    · rintro s t v ⟨first, log, keeps⟩ ⟨second, log', keeps'⟩
      refine ⟨second ++ first, by rw [log', log, List.append_assoc], fun on => ?_⟩
      obtain ⟨on', none_⟩ := keeps on
      obtain ⟨on'', none_'⟩ := keeps' on'
      refine ⟨on'', fun e member => ?_⟩
      rcases List.mem_append.mp member with late | early
      · exact none_' e late
      · exact none_ e early
    · intro k s t _ _ moved
      obtain ⟨e, by_k, log⟩ := moved.logged
      refine ⟨[e], log, fun on => ⟨moved.kept rid rec on, ?_⟩⟩
      intro e' member mine writes
      rw [List.mem_singleton.mp member] at mine writes
      have itself : k = i := by rw [← by_k, mine]
      subst itself
      have clean := moved.replays e log writes rid named
      rw [on] at clean
      cases clean

end Replay

theorem rotation_exactly_once (rotations : ∀ i, (req i).isRotate = true)
    (account : ∀ i, (req i).OnAccount env u) {s0 : Sys ι} {p0 : Profile}
    (stored : profileOf u s0 = some p0)
    (fresh : ∀ i rid, (req i).requestId = some rid → recordOf u rid s0 = none) :
    (∀ w, Reach (profileWriters env u req (BelowMax u)) (Traced.init s0) w →
      ExactlyOnce env u req p0 w) ∧
    ∀ w w', Reach (profileWriters env u req (BelowMax u)) (Traced.init s0) w →
      Relation.ReflTransGen (Step (profileWriters env u req (BelowMax u))) w w' →
      ∀ i rid rec, w.procs i = .idle → (req i).requestId = some rid →
        recordOf u rid w.sys.state = some rec → Replayed env u req i rec w w' := by
  have orderly : Orderly u req (BelowMax u) := orderly_belowMax rotations
  refine ⟨fun w reached => ?_, fun w w' reached run i rid rec idle named found => ?_⟩
  · have secured := writers_secured orderly account stored reached
    refine ⟨fun quiet => ?_, fun rid rid' v first second => ?_, fun rid v success => ?_⟩
    · obtain ⟨p, now, current⟩ := secured.1.stored
      refine ⟨p, now, ?_⟩
      -- the requests that were told of success are those that committed
      have same : {rid | ∃ v, Succeeded req w rid v} =
          {rid | ∃ e ∈ commits u req w.sys.trace, (req e.1).requestId = some rid} := by
        ext rid
        constructor
        · rintro ⟨v, success⟩
          obtain ⟨e, member, known, _⟩ := commit_of_success secured fresh success
          exact ⟨e, member, known⟩
        · rintro ⟨⟨i, c⟩, member, known⟩
          obtain ⟨token, done⟩ := success_of_commit secured quiet member
          exact ⟨c.keyVersion, i, token, known, done⟩
      rw [same, card_requestIds secured.1.chain secured.1.distinct, Profile.currentKv, current]
      exact secured.1.chain.version
    · obtain ⟨e, member, known, version⟩ := commit_of_success secured fresh first
      obtain ⟨e', member', known', version'⟩ := commit_of_success secured fresh second
      -- versions in the ledger are distinct, so one version has one commit
      have same : e = e' := List.inj_on_of_nodup_map secured.1.chain.versions_nodup member member'
        (version.trans version'.symm)
      rw [same, known'] at known
      exact (Option.some.inj known).symm
    · obtain ⟨⟨i, c⟩, member, known, version⟩ := commit_of_success secured fresh success
      -- a commit was accepted against the one before it
      obtain ⟨newer, older, split⟩ := List.append_of_mem member
      obtain ⟨⟨token, body, x, rotates, itself, accepted, _⟩, _⟩ :=
        Chain.accepted (split ▸ secured.1.chain)
      exact ⟨newer, i, c, older, split, known, version, token, body, x, rotates, itself, accepted⟩
  · exact replayed orderly account (writers_secured orderly account stored reached) run
      (rotations i) idle named found

end Rotations

section Replays

open Sample

theorem no_record {ι : Type} (rid : String) : recordOf user rid (Sample.sys ι) = none := by
  rw [recordOf, show (Sample.sys ι).objects.get (keyRotationRecord user.str rid) = none
    from store_record rid]
  rfl

theorem on_sample (body : Option Json) : (ProfileWriter.rotate token body).OnAccount env user := by
  intro other known
  exact token_user known

/-- The sample account, with its rotation sent any number of times. -/
theorem sample_rotations :
    (∀ w, Reach (profileWriters env user (fun _ : Nat => .rotate token (some rotation))
        (BelowMax user)) (Traced.init (Sample.sys Nat)) w →
      ExactlyOnce env user (fun _ => .rotate token (some rotation)) profile w) ∧
    ∀ w w', Reach (profileWriters env user (fun _ : Nat => .rotate token (some rotation))
        (BelowMax user)) (Traced.init (Sample.sys Nat)) w →
      Relation.ReflTransGen (Step (profileWriters env user
        (fun _ : Nat => .rotate token (some rotation)) (BelowMax user))) w w' →
      ∀ i rid rec, w.procs i = .idle →
        (ProfileWriter.rotate token (some rotation)).requestId = some rid →
        recordOf user rid w.sys.state = some rec →
        Replayed env user (fun _ => .rotate token (some rotation)) i rec w w' :=
  @rotation_exactly_once Nat _ env user (fun _ => .rotate token (some rotation)) (fun _ => rfl)
    (fun _ => on_sample _) _ profile stored_profile (fun _ rid _ => no_record rid)

end Replays

end Atmin
