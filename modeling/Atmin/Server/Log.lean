import Atmin.Server.Contracts

/-!
# Runs with a log

The store together with the log of every request served, and what one request does to a
single object and a single lock.
-/

namespace Atmin

open Interaction

/-- Store and server memory, with the log of the requests served. -/
abbrev Log (ι : Type) := Traced ι Op Res (Sys ι)

/-- Healthy requests, logged, where `C` allows them. -/
abbrev Logged {ι : Type} (C : ι → Op → Log ι → Prop) :
    ι → (o : Op) → Log ι → Res o → Log ι → Prop :=
  guarded C (traced Healthy)

/-- Logged requests, any of which may fail. -/
abbrev Recorded {ι : Type} : ι → (o : Op) → Log ι → Res o → Log ι → Prop := traced Faulty

/-- Any healthy request is allowed. -/
def Anything {ι : Type} (_ : ι) (_ : Op) (_ : Log ι) : Prop := True

/-- A computable reading of the logged requests. -/
def logRun {ι : Type} (i : ι) (o : Op) (c : Choice) (s : Log ι) : Option (Res o × Log ι) :=
  match serve Choice.healthy i o c s.state with
  | some (r, t) => some (r, ⟨t, ⟨i, o, r⟩ :: s.trace⟩)
  | none => none

theorem logged_of_logRun {ι : Type} {i : ι} {o : Op} {s t : Log ι} {r : Res o}
    (served : execOf logRun i o s r t) : Logged Anything i o s r t := by
  obtain ⟨c, h⟩ := served
  unfold logRun at h
  split at h
  next r' t' found => cases h; exact ⟨trivial, ⟨c, found⟩, rfl⟩
  next => cases h

/-- Following a schedule on the log is a run. -/
theorem steps_of_logRun {ι α : Type} [DecidableEq ι] {prog : ι → Eff α}
    {w w' : World ι Op Res α (Log ι)} {schedule : List (ι × Choice)}
    (followed : w.follow logRun prog schedule = some w') :
    Relation.ReflTransGen (Step ⟨prog, Logged Anything⟩) w w' :=
  steps_mono (fun _ _ _ _ _ => logged_of_logRun) (steps_of_follow logRun prog followed)

/-- A healthy run is one of those in which requests may fail. -/
theorem recorded_of_logged {ι : Type} {C : ι → Op → Log ι → Prop} {i : ι} {o : Op} {s t : Log ι}
    {r : Res o} (served : Logged C i o s r t) : Recorded i o s r t := by
  obtain ⟨_, ⟨c, h⟩, log⟩ := served
  refine ⟨⟨c, ?_⟩, log⟩
  unfold serve at h ⊢
  rw [if_pos rfl]
  split at h
  next => exact h
  next => cases h

/-- Whether the slot has answered with success. -/
def succeeded {ι σ : Type} (i : ι) (w : World ι Op Res (Except ApiError Unit) σ) : Bool :=
  match w.procs i with
  | .done (.ok _) => true
  | _ => false

theorem done_of_succeeded {ι σ : Type} {i : ι} {w : World ι Op Res (Except ApiError Unit) σ}
    (success : succeeded i w = true) : w.procs i = .done (.ok ()) := by
  unfold succeeded at success
  split at success
  next done => exact done
  next => cases success

/-- The stored profile of an account. -/
def profileOf {ι : Type} (u : UserId) (s : Sys ι) : Option Profile :=
  (s.objects.get (keyProfile u.str)).bind Profile.parse

namespace Op

/-- What a request writes to this key. -/
def puts (key : String) : Op → Option Data
  | putObject k d => if key = k then some d else none
  | _ => none

/-- Whether a request reads this key. -/
def gets (key : String) : Op → Bool
  | getObject k => decide (key = k)
  | _ => false

/-- The object at `key` after the request, from the object before. -/
def after (key : String) (before : Option Data) : Op → Option Data
  | putObject k d => if key = k then some d else before
  | deleteObject k => if key = k then none else before
  | deleteObjects ks => if key ∈ ks then none else before
  | _ => before

/-- Whether a request deletes this key. -/
def removes (key : String) : Op → Bool
  | deleteObject k => decide (key = k)
  | deleteObjects ks => decide (key ∈ ks)
  | _ => false

/-- A request that can change some object. -/
def Writes (o : Op) : Prop := ∃ key before, o.after key before ≠ before

/-- The lock a request is about. -/
def lock? : Op → Option Lock
  | acquire l | release l => some l
  | _ => none

theorem after_passive {o : Op} (passive : o.passive = true) (key : String) (before : Option Data) :
    o.after key before = before := by
  cases o <;> first | rfl | cases passive

theorem lock?_passive {o : Op} (passive : o.passive = true) : o.lock? = none := by
  cases o <;> first | rfl | cases passive

theorem puts_passive {o : Op} (passive : o.passive = true) (key : String) :
    o.puts key = none := by
  cases o <;> first | rfl | cases passive

theorem removes_passive {o : Op} (passive : o.passive = true) (key : String) :
    o.removes key = false := by
  cases o <;> first | rfl | cases passive

end Op

section Served

variable {ι : Type} {i : ι} {o : Op} {s t : Sys ι} {r : Res o}

/-- One object, before and after a request. -/
theorem healthy_get (served : Healthy i o s r t) (key : String) :
    t.objects.get key = o.after key (s.objects.get key) := by
  by_cases passive : o.passive = true
  · obtain ⟨_, _, _, _, _, rfl⟩ := served_passive served passive
    rw [Op.after_passive passive]
  · cases o with
    | putObject k d =>
      rcases served_putObject served with ⟨_, rfl⟩ | ⟨fault, _⟩
      · simp [Sys.put, Op.after]
      · exact absurd fault not_faulted_healthy
    | deleteObject k =>
      rcases served_deleteObject served with ⟨_, rfl⟩ | ⟨fault, _⟩
      · simp [Sys.remove, Op.after]
      · exact absurd fault not_faulted_healthy
    | deleteObjects ks =>
      rcases served_deleteObjects served with ⟨_, rfl⟩ | ⟨err, gone, admitted, _⟩
      · simp [Sys.remove, Op.after]
      · cases admitted
    | presignPut k n ttl =>
      rcases served_presignPut served with ⟨_, rfl⟩ | ⟨rfl, _⟩ <;> rfl
    | acquire l =>
      rcases served_acquire served with ⟨_, _, rfl⟩ | ⟨_, rfl⟩ <;> rfl
    | release l => rw [served_release served]; rfl
    | newUlid =>
      obtain ⟨_, _, rfl⟩ := served_newUlid served
      rfl
    | _ => exact absurd rfl passive

/-- A request leaves every lock alone but the one it is about. -/
theorem served_holder {allow : Choice → Bool} (served : execOf (serve allow) i o s r t) {l : Lock}
    (other : o.lock? ≠ some l) : t.holder l = s.holder l := by
  by_cases passive : o.passive = true
  · obtain ⟨_, _, _, _, _, rfl⟩ := served_passive served passive
    rfl
  · cases o with
    | putObject k d => rcases served_putObject served with ⟨_, rfl⟩ | ⟨_, rfl | rfl⟩ <;> rfl
    | deleteObject k => rcases served_deleteObject served with ⟨_, rfl⟩ | ⟨_, rfl | rfl⟩ <;> rfl
    | deleteObjects ks =>
      rcases served_deleteObjects served with ⟨_, rfl⟩ | ⟨err, gone, _, _, rfl⟩ <;> rfl
    | presignPut k n ttl =>
      rcases served_presignPut served with ⟨_, rfl⟩ | ⟨rfl, _⟩ <;> rfl
    | acquire m =>
      have differ : l ≠ m := fun same => other (by rw [same]; rfl)
      rcases served_acquire served with ⟨_, _, rfl⟩ | ⟨_, rfl⟩
      · exact Function.update_of_ne differ _ _
      · rfl
    | release m =>
      have differ : l ≠ m := fun same => other (by rw [same]; rfl)
      rw [served_release served]
      exact Function.update_of_ne differ _ _
    | newUlid =>
      obtain ⟨_, _, rfl⟩ := served_newUlid served
      rfl
    | _ => exact absurd rfl passive

/-- One object, before and after a request that may fail. -/
theorem served_get {allow : Choice → Bool} (served : execOf (serve allow) i o s r t)
    (key : String) : t.objects.get key = s.objects.get key ∨
      (∃ d, o.puts key = some d ∧ t.objects.get key = some d) ∨
      (o.removes key = true ∧ t.objects.get key = none) := by
  by_cases passive : o.passive = true
  · obtain ⟨_, _, _, _, _, rfl⟩ := served_passive served passive
    exact .inl rfl
  · cases o with
    | putObject k d =>
      -- a faulty write may have been applied
      have written : t = s.put k d ∨ t = s := by
        rcases served_putObject served with ⟨_, new⟩ | ⟨_, either⟩
        · exact .inl new
        · exact either
      rcases written with rfl | rfl
      · by_cases same : key = k
        · subst same
          exact .inr (.inl ⟨d, by simp [Op.puts], by simp [Sys.put]⟩)
        · exact .inl (by simp [Sys.put, same])
      · exact .inl rfl
    | deleteObject k =>
      -- so may a faulty delete
      have written : t = s.remove [k] ∨ t = s := by
        rcases served_deleteObject served with ⟨_, new⟩ | ⟨_, either⟩
        · exact .inl new
        · exact either
      rcases written with rfl | rfl
      · by_cases same : key = k
        · exact .inr (.inr ⟨by simp [Op.removes, same], by simp [Sys.remove, same]⟩)
        · exact .inl (by simp [Sys.remove, same])
      · exact .inl rfl
    | deleteObjects ks =>
      -- and of a bulk delete any part
      have written : ∃ gone, (∀ k ∈ gone, k ∈ ks) ∧ t = s.remove gone := by
        rcases served_deleteObjects served with ⟨_, new⟩ | ⟨err, gone, _, _, new⟩
        · exact ⟨ks, fun _ h => h, new⟩
        · exact ⟨_, fun _ h => (List.mem_filter.mp h).1, new⟩
      obtain ⟨gone, within, rfl⟩ := written
      by_cases member : key ∈ gone
      · exact .inr (.inr ⟨by simp [Op.removes, within key member], by simp [Sys.remove, member]⟩)
      · exact .inl (by simp [Sys.remove, member])
    | presignPut k n ttl =>
      rcases served_presignPut served with ⟨_, rfl⟩ | ⟨rfl, _⟩ <;> exact .inl rfl
    | acquire l =>
      rcases served_acquire served with ⟨_, _, rfl⟩ | ⟨_, rfl⟩ <;> exact .inl rfl
    | release l => rw [served_release served]; exact .inl rfl
    | newUlid =>
      obtain ⟨_, _, rfl⟩ := served_newUlid served
      exact .inl rfl
    | _ => exact absurd rfl passive

/-- Only the generator issues ids. -/
theorem served_issued {allow : Choice → Bool} (served : execOf (serve allow) i o s r t)
    (other : o ≠ .newUlid) : t.issued = s.issued := by
  by_cases passive : o.passive = true
  · obtain ⟨_, _, _, _, _, rfl⟩ := served_passive served passive
    rfl
  · cases o with
    | putObject k d => rcases served_putObject served with ⟨_, rfl⟩ | ⟨_, rfl | rfl⟩ <;> rfl
    | deleteObject k => rcases served_deleteObject served with ⟨_, rfl⟩ | ⟨_, rfl | rfl⟩ <;> rfl
    | deleteObjects ks =>
      rcases served_deleteObjects served with ⟨_, rfl⟩ | ⟨err, gone, _, _, rfl⟩ <;> rfl
    | presignPut k n ttl =>
      rcases served_presignPut served with ⟨_, rfl⟩ | ⟨rfl, _⟩ <;> rfl
    | acquire l =>
      rcases served_acquire served with ⟨_, _, rfl⟩ | ⟨_, rfl⟩ <;> rfl
    | release l => rw [served_release served]
    | newUlid => exact absurd rfl other
    | _ => exact absurd rfl passive

/-- The clock does not run backwards. -/
theorem served_clock {allow : Choice → Bool} (served : execOf (serve allow) i o s r t) :
    s.clock ≤ t.clock := by
  by_cases passive : o.passive = true
  · obtain ⟨_, _, _, _, later, rfl⟩ := served_passive served passive
    exact later
  · cases o with
    | putObject k d => rcases served_putObject served with ⟨_, rfl⟩ | ⟨_, rfl | rfl⟩ <;> exact le_rfl
    | deleteObject k =>
      rcases served_deleteObject served with ⟨_, rfl⟩ | ⟨_, rfl | rfl⟩ <;> exact le_rfl
    | deleteObjects ks =>
      rcases served_deleteObjects served with ⟨_, rfl⟩ | ⟨err, gone, _, _, rfl⟩ <;> exact le_rfl
    | presignPut k n ttl =>
      rcases served_presignPut served with ⟨_, rfl⟩ | ⟨rfl, _⟩ <;> exact le_rfl
    | acquire l => rcases served_acquire served with ⟨_, _, rfl⟩ | ⟨_, rfl⟩ <;> exact le_rfl
    | release l => rw [served_release served]
    | newUlid => rw [(served_newUlid served).2.2]
    | _ => exact absurd rfl passive

/-- Only the guard enters devices into the cache. -/
theorem served_deviceCache {allow : Choice → Bool} (served : execOf (serve allow) i o s r t)
    (plain : ∀ key, o ≠ .deviceCacheSet key) : t.deviceCache ⊆ s.deviceCache := by
  obtain ⟨c, _, h⟩ := served_iff.mp served
  cases o with
  | deviceCacheSet key => exact absurd rfl (plain key)
  | deviceCacheInvalidate key =>
    cases c <;> simp only [exec, Option.some.injEq, Prod.mk.injEq, reduceCtorEq] at h
    rw [← h.2]
    exact fun _ member => (List.mem_filter.mp member).1
  | acquire l => rcases served_acquire served with ⟨_, _, rfl⟩ | ⟨_, rfl⟩ <;> exact fun _ h => h
  | putObject k d =>
    rcases served_putObject served with ⟨_, rfl⟩ | ⟨_, rfl | rfl⟩ <;> exact fun _ h => h
  | utcNow => rw [(served_utcNow served).2]; exact fun _ h => h
  | newUlid => rw [(served_newUlid served).2.2]; exact fun _ h => h
  | deleteObject k =>
    rcases served_deleteObject served with ⟨_, rfl⟩ | ⟨_, rfl | rfl⟩ <;> exact fun _ h => h
  | _ =>
    cases c <;> simp only [exec, Option.some.injEq, Prod.mk.injEq, reduceCtorEq] at h <;>
      rw [← h.2] <;> exact fun _ h => h

/-- Only the guard enters versions into the cache. -/
theorem served_profileCache {allow : Choice → Bool} (served : execOf (serve allow) i o s r t)
    {uid : String} {kv : UInt32} (member : (uid, kv) ∈ t.profileCache) :
    (o = .profileCacheSet uid kv ∨ (uid, kv) ∈ s.profileCache) ∧ o ≠ .profileCacheInvalidate uid := by
  obtain ⟨c, _, h⟩ := served_iff.mp served
  cases o with
  | profileCacheSet other v =>
    cases c <;> simp only [exec, Option.some.injEq, Prod.mk.injEq, reduceCtorEq] at h
    rw [← h.2] at member
    rcases List.mem_cons.mp member with same | old
    · cases same
      exact ⟨.inl rfl, fun h => by cases h⟩
    · exact ⟨.inr old, fun h => by cases h⟩
  | profileCacheInvalidate other =>
    cases c <;> simp only [exec, Option.some.injEq, Prod.mk.injEq, reduceCtorEq] at h
    rw [← h.2] at member
    obtain ⟨old, differ⟩ := List.mem_filter.mp member
    refine ⟨.inr old, fun same => ?_⟩
    cases same
    exact of_decide_eq_true differ rfl
  | acquire l =>
    rcases served_acquire served with ⟨_, _, rfl⟩ | ⟨_, rfl⟩ <;>
      exact ⟨.inr member, fun h => by cases h⟩
  | putObject k d =>
    rcases served_putObject served with ⟨_, rfl⟩ | ⟨_, rfl | rfl⟩ <;>
      exact ⟨.inr member, fun h => by cases h⟩
  | utcNow => rw [(served_utcNow served).2] at member; exact ⟨.inr member, fun h => by cases h⟩
  | newUlid => rw [(served_newUlid served).2.2] at member; exact ⟨.inr member, fun h => by cases h⟩
  | deleteObject k =>
    rcases served_deleteObject served with ⟨_, rfl⟩ | ⟨_, rfl | rfl⟩ <;>
      exact ⟨.inr member, fun h => by cases h⟩
  | _ =>
    cases c <;> simp only [exec, Option.some.injEq, Prod.mk.injEq, reduceCtorEq] at h <;>
      rw [← h.2] at member <;> exact ⟨.inr member, fun h => by cases h⟩

/-- On a healthy store a write succeeds. -/
theorem healthy_put {key : String} {d : Data} {r : Res (.putObject key d)}
    (served : Healthy i (.putObject key d) s r t) : r = .ok () := by
  rcases served_putObject served with ⟨same, _⟩ | ⟨fault, _⟩
  · exact same
  · exact absurd fault not_faulted_healthy

/-- On a healthy store a read returns the object, if there is one. -/
theorem healthy_read {key : String} {r : Res (.getObject key)}
    (served : Healthy i (.getObject key) s r t) : t = s ∧ r = s.lookup key := by
  obtain ⟨same, found | fault⟩ := served_getObject served
  · exact ⟨same, found⟩
  · exact absurd fault not_faulted_healthy

theorem lookup_eq_ok {key : String} {d : Data} : s.lookup key = .ok d ↔ s.objects.get key = some d := by
  unfold Sys.lookup
  split <;> simp_all

end Served

end Atmin
