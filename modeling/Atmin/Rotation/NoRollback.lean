import Atmin.Rotation.ExactlyOnce
import Atmin.Server.Sample

/-!
# Credentials and rollback

Whether a later write of the profile can bring back an earlier credential.
-/

namespace Atmin

open Interaction

section NoRollback

variable {ι : Type} [DecidableEq ι]

/-- From one world of a run to a later one: the version does not decrease, and after a
successful rotation to `v` the stored credential is one that was installed as a whole, at
`v` or above. -/
def NoRollback (u : UserId) (req : ι → ProfileWriter) (p0 : Profile)
    (w w' : World ι Op Res (Except ApiError (Option RotateOutcome)) (Log ι)) : Prop :=
  ∃ p p', profileOf u w.sys.state = some p ∧ profileOf u w'.sys.state = some p' ∧
    p.keyVersion ≤ p'.keyVersion ∧
    ∀ i token v, w.procs i = .done (.ok (some (.success token v))) → v ≤ p'.keyVersion ∧
      p'.credential ∈ p0.credential :: (commits u req w'.sys.trace).map Prod.snd

/-- The property of all runs from `s0` that `C` allows. -/
def CredentialsKept (env : Env) (u : UserId) (req : ι → ProfileWriter) (p0 : Profile)
    (s0 : Sys ι) (C : ι → Op → Log ι → Prop) : Prop :=
  ∀ w w', Reach (profileWriters env u req C) (Traced.init s0) w →
    Relation.ReflTransGen (Step (profileWriters env u req C)) w w' → NoRollback u req p0 w w'

/-- A rotation is not applied at the largest version; another writer writes the profile only
while no rotation has been applied since it read it. -/
def Undisturbed (u : UserId) (req : ι → ProfileWriter) (i : ι) (o : Op) (s : Log ι) : Prop :=
  (o.puts (keyProfile u.str)).isSome = true →
    if (req i).isRotate = true then ∀ p, profileOf u s.state = some p → p.currentKv + 1 ≠ 0
    else commits u req (sinceRead u i s.trace) = []

variable {env : Env} {u : UserId} {req : ι → ProfileWriter}

theorem orderly_undisturbed : Orderly u req (Undisturbed u req) where
  below i d s rotates allowed := by
    have step := allowed (by simp [Op.puts])
    rwa [if_pos rotates] at step
  current i d s other allowed := by
    have step := allowed (by simp [Op.puts])
    rwa [if_neg (by simp [other])] at step

omit [DecidableEq ι] in
/-- Later rotations only raise the version. -/
theorem Chain.le_newest {c0 : Credential} {newer older : List (ι × Credential)}
    (chain : Chain env req c0 (newer ++ older)) :
    (newest c0 older).keyVersion ≤ (newest c0 (newer ++ older)).keyVersion := by
  cases newer with
  | nil => exact UInt32.le_refl _
  | cons e newer =>
    obtain ⟨i, c⟩ := e
    have before : Chain env req c0 older := by
      have rest := chain.2
      clear chain
      induction newer with
      | nil => exact rest
      | cons e newer ih => exact ih rest.2
    have top := Chain.version_of_mem (show Chain env req c0 ([] ++ (i, c) :: (newer ++ older))
      from chain)
    have bottom := before.version
    have shown : (newest c0 older).keyVersion.toNat ≤ (newest c0 older).currentKv.toNat := by
      unfold Credential.currentKv
      split
      next zero => rw [zero]; exact Nat.zero_le _
      next => exact Nat.le_refl _
    rw [List.length_append] at top
    show (newest c0 older).keyVersion ≤ c.keyVersion
    rw [UInt32.le_iff_toNat_le]
    omega

omit [DecidableEq ι] in
/-- The newest credential has the largest version of the chain. -/
theorem Chain.le_of_mem {c0 : Credential} {cs : List (ι × Credential)}
    (chain : Chain env req c0 cs) {e : ι × Credential} (member : e ∈ cs) :
    e.2.keyVersion ≤ (newest c0 cs).keyVersion := by
  obtain ⟨newer, older, split⟩ := List.append_of_mem member
  subst split
  exact chain.le_newest

omit [DecidableEq ι] in
theorem newest_mem (c0 : Credential) (cs : List (ι × Credential)) :
    newest c0 cs ∈ c0 :: cs.map Prod.snd := by
  cases cs with
  | nil => exact List.mem_cons_self
  | cons e rest => exact List.mem_cons_of_mem _ List.mem_cons_self

theorem credentials_kept (account : ∀ i, (req i).OnAccount env u) {s0 : Sys ι} {p0 : Profile}
    (stored : profileOf u s0 = some p0)
    (early : ∀ rid v, EarlySuccess u s0 rid v → v ≤ p0.keyVersion) :
    CredentialsKept env u req p0 s0 (Undisturbed u req) := by
  intro w w' reached run
  have here := writers_secured orderly_undisturbed account stored reached
  have contracts : Contracts (ledgerRules env u req p0.credential (EarlySuccess u s0))
      (profileWriters env u req (Undisturbed u req)) (fun i => Started env u req i none False)
      (fun i => Answered env u req i none False) :=
    writerContracts orderly_undisturbed account _ _
  have there := here.run contracts run
  -- between the two states the ledger has only grown
  obtain ⟨newer, log⟩ := here.relates contracts
    (fun s t => ∃ newer, commits u req t.trace = newer ++ commits u req s.trace)
    (fun s => ⟨[], rfl⟩)
    (fun s t v first second => by
      obtain ⟨a, first⟩ := first
      obtain ⟨b, second⟩ := second
      exact ⟨b ++ a, by rw [second, first, List.append_assoc]⟩)
    (fun i s t _ _ moved => by
      obtain ⟨e, _, trace⟩ := moved.logged
      exact ⟨_, by rw [trace, commits_cons]⟩)
    run
  obtain ⟨p, now, current⟩ := here.1.stored
  obtain ⟨p', later, current'⟩ := there.1.stored
  have chain := there.1.chain
  -- versions rise along the ledger, so the newest of the two is the later one
  have grown : p.keyVersion ≤ p'.keyVersion := by
    have step := (log ▸ chain).le_newest
    rw [← log, ← current, ← current'] at step
    exact step
  refine ⟨p, p', now, later, grown, fun i token v done => ⟨?_, ?_⟩⟩
  · -- a success that was answered is on record
    have slot := here.2 i
    rw [done] at slot
    rcases slot.post.1 with ⟨lost, _⟩ | ⟨rid, rec, _, found, same, _⟩
    · cases lost
    · refine UInt32.le_trans ?_ grown
      -- it was there from the start, or it is in the ledger
      rcases here.1.truthful rid rec token v found same with before | ⟨e, member, _, version⟩
      · have start : Chain env req p0.credential (commits u req w.sys.trace ++ []) := by
          rw [List.append_nil]
          exact here.1.chain
        have base := start.le_newest
        rw [List.append_nil, ← current] at base
        exact UInt32.le_trans (early rid v before) base
      · have step := here.1.chain.le_of_mem member
        rw [version, ← current] at step
        exact step
  · rw [current']
    exact newest_mem _ _

end NoRollback

/-! ### A profile update that brings back the old credential -/

section Rollback

open Sample

/-- One rotation and one change of the display name. -/
def renameAndRotate : Bool → ProfileWriter
  | true => .rotate token (some rotation)
  | false => .update token (some rename)

/-- The update reads the profile, the rotation runs to its end. -/
def readThenRotate : List (Bool × Choice) :=
  List.replicate 6 (false, .ok) ++ List.replicate 11 (true, .ok)

theorem renameAndRotate_prog (C : Bool → Op → Log Bool → Prop) :
    (profileWriters env user renameAndRotate C).prog = fun i =>
      cond i ((ProfileWriter.rotate token (some rotation)).run env user).run
        ((ProfileWriter.update token (some rename)).run env user).run := by
  funext i
  cases i <;> rfl

def storedVersion (w : World Bool Op Res (Except ApiError (Option RotateOutcome)) (Log Bool)) :
    Option UInt32 :=
  (profileOf user w.sys.state).map Profile.keyVersion

theorem versions_observed :
    (World.follow logRun (profileWriters env user renameAndRotate Anything).prog readThenRotate
      (.init (.init (Sample.sys Bool)))).bind (fun w =>
        (World.follow logRun (profileWriters env user renameAndRotate Anything).prog
          [(false, .ok)] w).map fun w' => (storedVersion w, storedVersion w')) =
      some (some 2, some 1) := by
  rw [renameAndRotate_prog]
  simp only [ProfileWriter.run, rotateKeys, updateProfile, authenticate_known identity_token]
  decide +kernel

/-- The late write of the update takes the version back from 2 to 1. -/
theorem credentials_roll_back :
    ¬ CredentialsKept env user renameAndRotate profile (Sample.sys Bool) Anything := by
  intro kept
  obtain ⟨w, before, rest⟩ := Option.bind_eq_some_iff.mp versions_observed
  obtain ⟨w', late, versions⟩ := Option.map_eq_some_iff.mp rest
  obtain ⟨p, p', now, later, grown, _⟩ :=
    kept w w' (steps_of_logRun before) (steps_of_logRun late)
  obtain ⟨early, last⟩ := Prod.mk.inj versions
  have two : p.keyVersion = 2 := by
    rw [storedVersion, now] at early
    exact Option.some.inj early
  have one : p'.keyVersion = 1 := by
    rw [storedVersion, later] at last
    exact Option.some.inj last
  rw [two, one] at grown
  exact absurd grown (by decide)

/-- The same two requests, when the update only writes what is still current. -/
theorem rename_and_rotate_kept :
    CredentialsKept env user renameAndRotate profile (Sample.sys Bool)
      (Undisturbed user renameAndRotate) := by
  refine credentials_kept (fun i => ?_) stored_profile fun rid v before => ?_
  · cases i <;> exact fun _ known => token_user known
  · obtain ⟨rec, token, found, _⟩ := before
    rw [no_record] at found
    cases found

end Rollback

end Atmin
