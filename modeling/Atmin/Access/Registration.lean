import Atmin.Interaction.Session
import Atmin.Server.Sample
import Atmin.Server.Sequential

/-!
# A registration that fails

`register` writes the projection, the profile and the device, and takes back by hand what it
has written when a later write fails. One storage operation fails, with or without effect: the
handle can be claimed again unless it was a write that nothing takes back.
-/

namespace Atmin

open Interaction

/-! ### One fault -/

/-- The server, with the storage operation that has failed. -/
structure Faultable (ι : Type) where
  state : Sys ι
  fault : Option (Op × Choice) := none

section Once

variable {ι : Type} {i : ι}

/-- One storage operation may fail, with or without effect. -/
def Once (i : ι) (o : Op) (s : Faultable ι) (r : Res o) (t : Faultable ι) : Prop :=
  ∃ c, exec i o c s.state = some (r, t.state) ∧
    if c.healthy then t.fault = s.fault else s.fault = none ∧ t.fault = some (o, c)

/-- No fault, no timeout, nothing expires. -/
def Choice.smooth (c : Choice) : Bool := c.healthy && decide (c ≠ .expire)

abbrev Smooth : ι → (o : Op) → Sys ι → Res o → Sys ι → Prop := execOf (serve Choice.smooth)

variable {o : Op} {s t : Faultable ι} {r : Res o}

theorem once_cases (served : Once i o s r t) :
    (Healthy i o s.state r t.state ∧ t.fault = s.fault) ∨
      ∃ c, c.healthy = false ∧ exec i o c s.state = some (r, t.state) ∧
        s.fault = none ∧ t.fault = some (o, c) := by
  obtain ⟨c, ran, fault⟩ := served
  cases healthy : c.healthy with
  | true =>
    rw [if_pos healthy] at fault
    exact .inl ⟨served_iff.mpr ⟨c, healthy, ran⟩, fault⟩
  | false =>
    rw [healthy] at fault
    exact .inr ⟨c, healthy, ran, fault⟩

/-- After the fault nothing fails any more. -/
theorem once_after {f : Op × Choice} (served : Once i o s r t) (failed : s.fault = some f) :
    Healthy i o s.state r t.state ∧ t.fault = some f := by
  rcases once_cases served with ⟨healthy, same⟩ | ⟨_, _, _, none_, _⟩
  · exact ⟨healthy, same.trans failed⟩
  · rw [failed] at none_
    cases none_

/-- Requests that touch no storage do not fail. -/
theorem once_healthy (served : Once i o s r t) (safe : ∀ c s r, exec i o c s = some r → c.healthy = true) :
    Healthy i o s.state r t.state ∧ t.fault = s.fault := by
  rcases once_cases served with healthy | ⟨c, faulty, ran, _⟩
  · exact healthy
  · rw [safe c _ _ ran] at faulty
    cases faulty

/-- A run without faults is one in which a fault was possible. -/
theorem once_of_smooth {α : Type} {p : Prog Op Res α} {s t : Sys ι} {a : α} (run : Runs (Smooth i) p s a t)
    (fault : Option (Op × Choice)) : Runs (Once i) p ⟨s, fault⟩ a ⟨t, fault⟩ := by
  induction run with
  | ret a s => exact .ret a _
  | op served _ ih =>
    obtain ⟨c, smooth, ran⟩ := served_iff.mp served
    refine .op ⟨c, ran, ?_⟩ ih
    rw [if_pos (Bool.and_eq_true_iff.mp smooth).1]

/-! ### What a request that fails leaves -/

/-- A failed read answers with an error and leaves the store as it is. -/
theorem once_get {key : String} {r : Res (.getObject key)} (served : Once i (.getObject key) s r t)
    (clean : s.fault = none) :
    t.state = s.state ∧ ((r = s.state.lookup key ∧ t.fault = none) ∨
      ∃ err c, r = .error (.backend err) ∧ t.fault = some (.getObject key, c)) := by
  rcases once_cases served with ⟨healthy, same⟩ | ⟨c, faulty, ran, before, fault⟩
  · obtain ⟨still, answer⟩ := healthy_read healthy
    exact ⟨still, .inl ⟨answer, same.trans clean⟩⟩
  · cases c <;> simp only [exec, Option.some.injEq, Prod.mk.injEq, reduceCtorEq] at ran
    case ok => simp_all [Choice.healthy]
    case fail err applied => exact ⟨ran.2.symm, .inr ⟨err, _, ran.1.symm, fault⟩⟩

theorem once_put {key : String} {d : Data} {r : Res (.putObject key d)}
    (served : Once i (.putObject key d) s r t) (clean : s.fault = none) :
    (r = .ok () ∧ t.state = s.state.put key d ∧ t.fault = none) ∨
      ∃ err applied, r = .error (.backend err) ∧
        t.state = (if applied then s.state.put key d else s.state) ∧
        t.fault = some (.putObject key d, .fail err applied) := by
  rcases once_cases served with ⟨healthy, same⟩ | ⟨c, faulty, ran, before, fault⟩
  · rcases served_putObject healthy with ⟨rfl, now⟩ | ⟨faulted, _⟩
    · exact .inl ⟨rfl, now, same.trans clean⟩
    · exact absurd faulted not_faulted_healthy
  · cases c <;> simp only [exec, Option.some.injEq, Prod.mk.injEq, reduceCtorEq] at ran
    case ok => simp_all [Choice.healthy]
    case fail err applied => exact .inr ⟨err, applied, ran.1.symm, ran.2.symm, fault⟩

theorem once_delete {key : String} {r : Res (.deleteObject key)}
    (served : Once i (.deleteObject key) s r t) (clean : s.fault = none) :
    (r = .ok () ∧ t.state = s.state.remove [key] ∧ t.fault = none) ∨
      ∃ err applied, r = .error (.backend err) ∧
        t.state = (if applied then s.state.remove [key] else s.state) ∧
        t.fault = some (.deleteObject key, .fail err applied) := by
  rcases once_cases served with ⟨healthy, same⟩ | ⟨c, faulty, ran, before, fault⟩
  · rcases served_deleteObject healthy with ⟨rfl, now⟩ | ⟨faulted, _⟩
    · exact .inl ⟨rfl, now, same.trans clean⟩
    · exact absurd faulted not_faulted_healthy
  · cases c <;> simp only [exec, Option.some.injEq, Prod.mk.injEq, reduceCtorEq] at ran
    case ok => simp_all [Choice.healthy]
    case fail err applied => exact .inr ⟨err, applied, ran.1.symm, ran.2.symm, fault⟩

theorem healthy_delete {key : String} {s t : Sys ι} {r : Res (.deleteObject key)}
    (served : Healthy i (.deleteObject key) s r t) : t = s.remove [key] := by
  rcases served_deleteObject served with ⟨_, now⟩ | ⟨faulted, _⟩
  · exact now
  · exact absurd faulted not_faulted_healthy

theorem once_utcNow {r : Res .utcNow} (served : Once i .utcNow s r t) :
    s.state.clock ≤ r ∧ t.state = { s.state with clock := r } ∧ t.fault = s.fault := by
  obtain ⟨healthy, same⟩ := once_healthy served fun c s r ran => by
    cases c <;> simp only [exec, reduceCtorEq] at ran
    rfl
  obtain ⟨later, now⟩ := served_utcNow healthy
  exact ⟨later, now, same⟩

theorem once_newUlid {r : Res .newUlid} (served : Once i .newUlid s r t) :
    validateUlid r = true ∧ r ∉ s.state.issued ∧
      t.state = { s.state with issued := r :: s.state.issued } ∧ t.fault = s.fault := by
  obtain ⟨healthy, same⟩ := once_healthy served fun c s r ran => by
    cases c <;> simp only [exec, reduceCtorEq] at ran
    rfl
  obtain ⟨valid, fresh, now⟩ := served_newUlid healthy
  exact ⟨valid, fresh, now, same⟩

end Once

/-! ### The handle and the devices -/

section Registration

variable {ι : Type} {i : ι} {env : Env} {h : Handle} {s t : Sys ι}

/-- The handle is free, or a tombstone past its cooldown. -/
def Claimable (env : Env) (h : Handle) (s : Sys ι) : Prop :=
  s.objects.get (keyHandle h.str) = none ∨
    ∃ d p released, s.objects.get (keyHandle h.str) = some d ∧ PublicHandleData.parse d = some p ∧
      p.releasedAt ≠ "" ∧ env.parseRfc3339 p.releasedAt = some released ∧
      released + days HANDLE_COOLDOWN_DAYS ≤ s.clock

/-- The two writes that nothing takes back once they have failed and taken effect. -/
inductive Leaks (h : Handle) : Op × Choice → Prop
  | handle (d : Data) (err : String) : Leaks h (.putObject (keyHandle h.str) d, .fail err true)
  | device (u : UserId) (did : String) (d : Data) (err : String) :
    Leaks h (.putObject (keyDevice u.str did) d, .fail err true)

/-- No handle has been written, and no device file. -/
structure HandleSpared (h : Handle) (s t : Sys ι) : Prop where
  handle : t.objects.get (keyHandle h.str) = s.objects.get (keyHandle h.str) ∨
    t.objects.get (keyHandle h.str) = none
  devices : ∀ (u : UserId) did, t.objects.get (keyDevice u.str did) = s.objects.get (keyDevice u.str did)
  clock : s.clock ≤ t.clock

/-- A live projection, or a device of an account that was not there before. -/
def Leaked (h : Handle) (s t : Sys ι) : Prop :=
  (∃ d p, t.objects.get (keyHandle h.str) = some d ∧ PublicHandleData.parse d = some p ∧
    p.releasedAt = "") ∨
    ∃ (u : UserId) (did : String), u.str ∉ s.issued ∧ (t.objects.get (keyDevice u.str did)).isSome

theorem Leaked.of_put {u : Sys ι} {p : PublicHandleData} (put : t = s.put (keyHandle h.str) p.data)
    (live : p.releasedAt = "") : Leaked h u t := by
  refine .inl ⟨p.data, p, ?_, PublicHandleData.parse_data p, live⟩
  rw [put, Sys.put, ObjectMap.get_insert, if_pos rfl]

theorem HandleSpared.refl (h : Handle) (s : Sys ι) : HandleSpared h s s := ⟨.inl rfl, fun _ _ => rfl, le_rfl⟩

theorem HandleSpared.trans {u : Sys ι} (first : HandleSpared h s t) (last : HandleSpared h t u) :
    HandleSpared h s u where
  handle := by
    rcases last.handle with same | gone
    · rw [same]
      exact first.handle
    · exact .inr gone
  devices v did := (last.devices v did).trans (first.devices v did)
  clock := first.clock.trans last.clock

theorem HandleSpared.claimable (spared : HandleSpared h s t) (claimable : Claimable env h s) :
    Claimable env h t := by
  rcases spared.handle with same | gone
  · rcases claimable with free | ⟨d, p, released, found, parsed, stone, stamp, past⟩
    · exact .inl (same.trans free)
    · exact .inr ⟨d, p, released, same.trans found, parsed, stone, stamp, past.trans spared.clock⟩
  · exact .inl gone

theorem HandleSpared.remove (h : Handle) (s : Sys ι) : HandleSpared h s (s.remove [keyHandle h.str]) where
  handle := .inr (by simp [Sys.remove])
  devices u did := by simp [Sys.remove, (keyHandle_ne_device h.str u.str did).symm]
  clock := le_rfl

theorem not_leaks_get (h : Handle) {key : String} {c : Choice} : ¬ Leaks h (.getObject key, c) := nofun

theorem not_leaks_delete (h : Handle) {key : String} {c : Choice} : ¬ Leaks h (.deleteObject key, c) := nofun

theorem not_leaks_undone (h : Handle) {o : Op} {err : String} : ¬ Leaks h (o, .fail err false) := nofun

theorem not_leaks_profile (h : Handle) (u : UserId) {d : Data} {c : Choice} :
    ¬ Leaks h (.putObject (keyProfile u.str) d, c) := by
  generalize same : keyProfile u.str = key
  rintro (_ | ⟨v, did⟩)
  · exact keyHandle_ne_profile _ _ same.symm
  · exact device_ne_profile u v did same.symm

/-- Where the handle can be claimed, it is claimed or the fault is one that leaves it so. -/
theorem claimHandle_once {s : Faultable ι} (claimable : Claimable env h s.state) (clean : s.fault = none) :
    Interaction.Ends (Once i) (claimHandle env (keyHandle h.str)).run s fun r t =>
      HandleSpared h s.state t.state ∧ t.state.issued = s.state.issued ∧
        ((r = .ok () ∧ t.fault = none) ∨ ∃ e f, r = .error e ∧ t.fault = some f ∧ ¬ Leaks h f) := by
  unfold claimHandle
  refine Ends.call fun found u served => ?_
  obtain ⟨still, ⟨answer, clean'⟩ | ⟨err, c, rfl, fault⟩⟩ := once_get served clean
  · rcases claimable with free | ⟨d, p, released, stored, parsed, stone, stamp, past⟩
    · -- no file: nothing to delete
      rw [Sys.lookup, free] at answer
      subst answer
      refine .ret ?_
      rw [still]
      exact ⟨.refl h _, rfl, .inl ⟨rfl, clean'⟩⟩
    · -- an expired tombstone: every check passes, and it is deleted
      rw [lookup_eq_ok.mpr stored] at answer
      subst answer
      refine Ends.orFail (fun failed => absurd (parsed.symm.trans failed) nofun) fun p' parsed' => ?_
      cases parsed.symm.trans parsed'
      refine Ends.checked (fun wrong => absurd wrong (by simpa using stone)) fun _ => ?_
      refine Ends.orFail (fun failed => absurd (stamp.symm.trans failed) nofun) fun at_ stamp' => ?_
      cases stamp.symm.trans stamp'
      refine Ends.call fun now v served => ?_
      obtain ⟨later, timed, same⟩ := once_utcNow served
      rw [still] at later timed
      refine Ends.checked (fun wrong => ?_) fun _ => ?_
      · exact absurd (past.trans later) (of_decide_eq_false wrong)
      · have kept : HandleSpared h s.state v.state := by
          rw [timed]
          exact ⟨.inl rfl, fun _ _ => rfl, later⟩
        have issued : v.state.issued = s.state.issued := by rw [timed]
        refine .op fun r w served => ?_
        rcases once_delete served (same.trans clean') with ⟨rfl, gone, clean''⟩ |
          ⟨err, applied, rfl, either, fault⟩
        · refine .ret ?_
          rw [gone]
          exact ⟨kept.trans (.remove h _), issued, .inl ⟨rfl, clean''⟩⟩
        · refine .ret ?_
          rw [either]
          -- a faulty delete may have been applied; the handle is free either way
          have left : HandleSpared h s.state
              (if applied then v.state.remove [keyHandle h.str] else v.state) := by
            cases applied with
            | true => exact kept.trans (.remove h _)
            | false => exact kept
          refine ⟨left, ?_, .inr ⟨_, _, rfl, fault, not_leaks_delete h⟩⟩
          cases applied with
          | true => exact issued
          | false => exact issued
  · -- the read itself is the fault
    refine .ret ?_
    rw [still]
    exact ⟨.refl h _, rfl, .inr ⟨_, _, rfl, fault, not_leaks_get h⟩⟩

/-- A rollback after the fault takes effect. -/
theorem rollback_once {α : Type} {Q : Except ApiError α → Faultable ι → Prop} {f : Unit → Handler α}
    {s : Faultable ι} {key : String} {failure : Op × Choice} (failed : s.fault = some failure)
    (rest : Interaction.Ends (Once i) (f ()).run ⟨s.state.remove [key], some failure⟩ Q) :
    Interaction.Ends (Once i) (deleteBestEffort key >>= f).run s Q := by
  simp only [deleteBestEffort, run_bind, run_call, ask_bind, Prog.op_bind, Prog.ret_bind, run_pure]
  refine .op fun r t served => ?_
  obtain ⟨healthy, fault⟩ := once_after served failed
  have same : t = ⟨s.state.remove [key], some failure⟩ := by
    cases t
    simp only at fault
    rw [fault, ← healthy_delete healthy]
  rw [same]
  exact rest

/-- A failure has been taken back, or it was one of the two. -/
theorem createAccount_once {s : Faultable ι} {req : RegisterRequest} (clean : s.fault = none) :
    Interaction.Ends (Once i) (createAccount env req (keyHandle h.str)).run s fun r t =>
      (∃ resp, r = .ok resp ∧ t.fault = none) ∨ ∃ e f, r = .error e ∧ t.fault = some f ∧
        ((Leaks h f ∧ Leaked h s.state t.state) ∨ (¬ Leaks h f ∧ HandleSpared h s.state t.state)) := by
  unfold createAccount
  refine Ends.call fun userId s₁ served => ?_
  obtain ⟨valid, fresh, at₁, clean₁⟩ := once_newUlid served
  refine Ends.call fun deviceId s₂ served => ?_
  obtain ⟨_, _, at₂, clean₂⟩ := once_newUlid served
  refine Ends.call fun now s₃ served => ?_
  obtain ⟨later, at₃, clean₃⟩ := once_utcNow served
  have objects : s₃.state.objects = s.state.objects := by rw [at₃, at₂, at₁]
  have clock : s.state.clock ≤ s₃.state.clock := by
    rw [at₃]
    rw [at₂, at₁] at later
    exact later
  have clean : s₃.fault = none := by rw [clean₃, clean₂, clean₁, clean]
  dsimp only
  have apart (v : UserId) (did : String) : keyDevice v.str did ≠ keyProfile userId :=
    device_ne_profile ⟨userId, valid⟩ v did
  simp only [writeJson, run_bind, run_tryStore, ask_bind, Prog.op_bind]
  refine .op fun r s₄ served => ?_
  -- the handle is written first, then the profile, then the device
  rcases once_put served clean with ⟨rfl, at₄, clean₄⟩ | ⟨err, applied, rfl, at₄, fault⟩
  · refine Ends.call fun r s₅ served => ?_
    rcases once_put served clean₄ with ⟨rfl, at₅, clean₅⟩ | ⟨err, applied, rfl, at₅, fault⟩
    · refine Ends.call fun r s₆ served => ?_
      rcases once_put served clean₅ with ⟨rfl, at₆, clean₆⟩ | ⟨err, applied, rfl, at₆, fault⟩
      · exact .ret (.inl ⟨_, rfl, clean₆⟩)
      · -- the device failed: handle and profile are taken back, a device that was written stays
        refine rollback_once fault (rollback_once rfl (.ret (.inr ⟨_, _, rfl, rfl, ?_⟩)))
        rw [at₆, at₅, at₄]
        cases applied with
        | true =>
          refine .inl ⟨.device ⟨userId, valid⟩ deviceId _ _, .inr ⟨⟨userId, valid⟩, deviceId, fresh, ?_⟩⟩
          simp [Sys.remove, Sys.put, (keyHandle_ne_device h.str userId deviceId).symm,
            keyDevice_ne_profile]
        | false =>
          refine .inr ⟨not_leaks_undone h, ⟨.inr (by simp [Sys.remove]), fun v did => ?_, clock⟩⟩
          simp [Sys.remove, Sys.put, (keyHandle_ne_device h.str v.str did).symm, objects,
            apart v did]
    · -- the profile failed: the handle is taken back
      refine rollback_once fault (.ret (.inr ⟨_, _, rfl, rfl,
        .inr ⟨not_leaks_profile h ⟨userId, valid⟩, ⟨.inr ?_, fun v did => ?_, ?_⟩⟩⟩))
      · simp [Sys.remove]
      · rw [at₅, at₄]
        cases applied <;> simp [Sys.remove, Sys.put, (keyHandle_ne_device h.str v.str did).symm, objects,
            apart v did]
      · rw [at₅, at₄]
        cases applied <;> exact clock
  · -- the handle failed: nothing is taken back, so a write that was applied stays
    refine .ret (.inr ⟨_, _, rfl, fault, ?_⟩)
    cases applied with
    | true => exact .inl ⟨.handle _ _, .of_put at₄ rfl⟩
    | false =>
      have same : s₄.state = s₃.state := at₄
      rw [same]
      exact .inr ⟨not_leaks_undone h, ⟨.inl (by rw [objects]), fun v did => by rw [objects], clock⟩⟩

/-! ### The request -/

/-- The request passes all checks before the proof-of-work. -/
structure Ready (env : Env) (h : Handle) (req : RegisterRequest) : Prop where
  handle : req.handle = h.str
  fields : req.handle ≠ "" ∧ req.deviceLabel ≠ "" ∧ req.authPublicKey ≠ "" ∧ req.sharingPublicKey ≠ ""
  unreserved : isReserved h.str = false
  kdf : ∃ kdf, req.kdf = some kdf ∧ (decide (req.salt ≠ "") && validKdfParams req.salt kdf) = true
  pow : powVerify env req.pow = true

/-- What runs under the claim lock. -/
def claimAndCreate (env : Env) (h : Handle) (req : RegisterRequest) : Handler RegisterResponse := do
  claimHandle env (keyHandle h.str)
  createAccount env req (keyHandle h.str)

theorem Handle.new_self (h : Handle) : Handle.new h.str = some h := by
  rw [Handle.new, dif_pos h.syntaxOk]

theorem register_run {body : Option Json} {req : RegisterRequest}
    (decoded : body.bind RegisterRequest.fromJson = some req) (ready : Ready env h req) :
    (register env body).run = .op (.consumeNonce req.pow.nonce) fun fresh =>
      if fresh then (withLock (.handleClaim h.str) (.error .registrationUnavailable)
        (claimAndCreate env h req)).run else .ret (.error .powInvalid) := by
  obtain ⟨kdf, some_, valid⟩ := ready.kdf
  have new : Handle.new req.handle = some h := by rw [ready.handle, h.new_self]
  simp only [register, parseBody, decoded, run_bind, run_orFail_some, Prog.ret_bind, run_check,
    decide_eq_true ready.fields, if_true, new, ready.unreserved, Bool.not_false, some_, valid, run_call,
    ask_bind, Prog.op_bind, ready.pow, Bool.and_true]
  congr 1
  funext fresh
  cases fresh <;> rfl

/-- One request of `claimAndCreate` at most fails. -/
theorem claimAndCreate_once {s : Faultable ι} {req : RegisterRequest} (claimable : Claimable env h s.state)
    (clean : s.fault = none) :
    Interaction.Ends (Once i) (claimAndCreate env h req).run s fun r t =>
      (∃ resp, r = .ok resp ∧ t.fault = none) ∨ ∃ e f, r = .error e ∧ t.fault = some f ∧
        ((Leaks h f ∧ Leaked h s.state t.state) ∨ (¬ Leaks h f ∧ HandleSpared h s.state t.state)) := by
  refine Ends.andThen (claimHandle_once claimable clean) (fun e t ⟨spared, _, ended⟩ => ?_)
    fun _ t ⟨spared, issued, ended⟩ => ?_
  · rcases ended with ⟨wrong, _⟩ | ⟨e, f, same, fault, kept⟩
    · cases wrong
    · cases same
      exact .inr ⟨_, f, rfl, fault, .inr ⟨kept, spared⟩⟩
  · rcases ended with ⟨_, clean'⟩ | ⟨e, f, wrong, _⟩
    · refine (createAccount_once clean').weaken fun r u after => ?_
      rcases after with done | ⟨e, f, failed, fault, ⟨leaks, leaked⟩ | ⟨kept, spared'⟩⟩
      · exact .inl done
      · refine .inr ⟨e, f, failed, fault, .inl ⟨leaks, ?_⟩⟩
        rwa [Leaked, issued] at leaked
      · exact .inr ⟨e, f, failed, fault, .inr ⟨kept, spared.trans spared'⟩⟩
    · cases wrong

theorem smooth_ends {α : Type} {p : Eff α} {P : α → Faultable ι → Prop}
    (ends : Interaction.Ends (Once i) p ⟨s, none⟩ P) :
    Interaction.Ends (Smooth i) p s fun r t => P r ⟨t, none⟩ :=
  fun r t run => ends r ⟨t, none⟩ (once_of_smooth run none)

theorem smooth_consumeNonce {nonce : String} {r : Res (.consumeNonce nonce)}
    (served : Smooth i (.consumeNonce nonce) s r t) : r = decide (nonce ∈ s.nonces) ∧ t.objects = s.objects ∧
      t.clock = s.clock ∧ t.holder = s.holder := by
  obtain ⟨c, smooth, ran⟩ := served_iff.mp served
  cases c <;> simp only [exec, Option.some.injEq, Prod.mk.injEq, reduceCtorEq] at ran
  case ok =>
    obtain ⟨rfl, rfl⟩ := ran
    exact ⟨rfl, rfl, rfl, rfl⟩
  case expire => cases smooth

theorem smooth_acquire {lock : Lock} {r : Res (.acquire lock)} (served : Smooth i (.acquire lock) s r t) :
    r = .ok () ∧ t.objects = s.objects ∧ t.clock = s.clock := by
  obtain ⟨c, smooth, ran⟩ := served_iff.mp served
  cases c <;> simp only [exec, Option.some.injEq, Prod.mk.injEq, reduceCtorEq] at ran
  case ok =>
    cases free : s.holder lock with
    | none =>
      simp only [free, Option.some.injEq, Prod.mk.injEq] at ran
      obtain ⟨rfl, rfl⟩ := ran
      exact ⟨rfl, rfl, rfl⟩
    | some j => simp [free] at ran
  case expire => cases smooth

/-- Two ids that can still be drawn. -/
def TwoLeft (s : Sys ι) : Prop :=
  ∃ a b, validateUlid a = true ∧ validateUlid b = true ∧ b ≠ a ∧ a ∉ s.issued ∧ b ∉ s.issued

/-- A request that passes the checks, at a time when nothing is in its way: its nonce is
known, the lock is free, and there are ids left. -/
structure Attempt (env : Env) (h : Handle) (body : Option Json) (req : RegisterRequest) (s : Sys ι) :
    Prop where
  decoded : body.bind RegisterRequest.fromJson = some req
  ready : Ready env h req
  nonce : req.pow.nonce ∈ s.nonces
  lock : s.holder (.handleClaim h.str) = none
  ids : TwoLeft s

/-- The request runs to its end, and returns an account. -/
structure Succeeds (i : ι) (env : Env) (body : Option Json) (s : Sys ι) : Prop where
  runs : ∃ resp t, Runs (Smooth i) (register env body).run s (.ok resp) t
  ends : Interaction.Ends (Smooth i) (register env body).run s fun r _ => ∃ resp, r = .ok resp

/-- Whoever tries to register the handle later succeeds, as long as no object has changed. -/
def Reclaimable (i : ι) (env : Env) (h : Handle) (s : Sys ι) : Prop :=
  ∀ (t : Sys ι) body req, t.objects = s.objects → s.clock ≤ t.clock → Attempt env h body req t →
    Succeeds i env body t

/-- The part under the lock decides. -/
theorem Attempt.ends {body : Option Json} {req : RegisterRequest} {P : Except ApiError RegisterResponse → Prop}
    (attempt : Attempt env h body req s)
    (claims : ∀ t : Sys ι, t.objects = s.objects → t.clock = s.clock →
      Interaction.Ends (Smooth i) (claimAndCreate env h req).run t fun r _ => P r) :
    Interaction.Ends (Smooth i) (register env body).run s fun r _ => P r := by
  rw [register_run attempt.decoded attempt.ready]
  refine .op fun fresh t served => ?_
  obtain ⟨rfl, objects, clock, _⟩ := smooth_consumeNonce served
  rw [if_pos (decide_eq_true attempt.nonce), run_withLock]
  refine .op fun r u served => ?_
  obtain ⟨rfl, objects', clock'⟩ := smooth_acquire served
  refine Interaction.Ends.bind (claims u (objects'.trans objects) (clock'.trans clock)) fun r v holds => ?_
  exact .op fun _ _ _ => .ret holds

/-- A live projection keeps the handle taken. -/
theorem live_refuses {d : Data} {p : PublicHandleData} {req : RegisterRequest}
    (found : s.objects.get (keyHandle h.str) = some d) (parsed : PublicHandleData.parse d = some p)
    (live : p.releasedAt = "") :
    Interaction.Ends (Smooth i) (claimAndCreate env h req).run s fun r _ => r = .error .handleTaken := by
  have refused : Interaction.Ends (Smooth i) (claimHandle env (keyHandle h.str)).run s fun r _ =>
      r = .error .handleTaken := by
    unfold claimHandle
    refine Ends.call fun answer t served => ?_
    obtain ⟨rfl, rfl | fault⟩ := served_getObject served
    · rw [lookup_eq_ok.mpr found]
      refine Ends.orFail (fun failed => absurd (parsed.symm.trans failed) nofun) fun p' parsed' => ?_
      cases parsed.symm.trans parsed'
      exact Ends.checked (fun _ => rfl) fun wrong => absurd live (of_decide_eq_true wrong)
    · obtain ⟨err, applied, admitted, _⟩ := fault
      cases admitted
  refine Ends.andThen refused (fun e _ same => ?_) fun _ _ wrong => nomatch wrong
  rw [Except.error.inj same]

theorem claimAndCreate_succeeds {req : RegisterRequest} (claimable : Claimable env h s) :
    Interaction.Ends (Smooth i) (claimAndCreate env h req).run s fun r _ => ∃ resp, r = .ok resp := by
  refine (smooth_ends (claimAndCreate_once claimable rfl)).weaken fun r t ended => ?_
  rcases ended with ⟨resp, done, _⟩ | ⟨e, f, _, wrong, _⟩
  · exact ⟨resp, done⟩
  · cases wrong

theorem claimHandle_runs (claimable : Claimable env h s) : ∃ t,
    Runs (Smooth i) (claimHandle env (keyHandle h.str)).run s (.ok ()) t ∧ t.issued = s.issued := by
  rcases claimable with free | ⟨d, p, released, found, parsed, stone, stamp, past⟩
  · have evaluated : (claimHandle env (keyHandle h.str)).run.evaluate (serve Choice.smooth i) [.ok] s =
        some (.ok (), s) := by
      simp [-ExceptT.run_pure, -ExceptT.run_bind, Prog.evaluate, serve, Choice.smooth, Choice.healthy, exec,
        claimHandle, Sys.lookup, free]
    exact ⟨s, runs_of_evaluate evaluated, rfl⟩
  · have evaluated : (claimHandle env (keyHandle h.str)).run.evaluate (serve Choice.smooth i)
        [.ok, .read s.clock, .ok] s = some (.ok (), s.remove [keyHandle h.str]) := by
      simp [-ExceptT.run_pure, -ExceptT.run_bind, Prog.evaluate, serve, Choice.smooth, Choice.healthy, exec,
        claimHandle, Sys.lookup, found, parsed, stone, stamp, past]
    exact ⟨_, runs_of_evaluate evaluated, rfl⟩

theorem createAccount_runs {req : RegisterRequest} {key a b : String} (validA : validateUlid a = true)
    (validB : validateUlid b = true) (apart : b ≠ a) (freshA : a ∉ s.issued) (freshB : b ∉ s.issued) :
    ∃ resp t, Runs (Smooth i) (createAccount env req key).run s (.ok resp) t := by
  have evaluated : ∃ resp t, (createAccount env req key).run.evaluate (serve Choice.smooth i)
      [.mint a, .mint b, .read s.clock, .ok, .ok, .ok] s = some (.ok resp, t) := by
    simp [-ExceptT.run_pure, -ExceptT.run_bind, Prog.evaluate, serve, Choice.smooth, Choice.healthy, exec,
      createAccount, writeJson, validA, validB, apart, freshA, freshB]
  obtain ⟨resp, t, ran⟩ := evaluated
  exact ⟨resp, t, runs_of_evaluate ran⟩

theorem claimAndCreate_runs (claimable : Claimable env h s) (ids : TwoLeft s) (req : RegisterRequest) :
    ∃ resp t, Runs (Smooth i) (claimAndCreate env h req).run s (.ok resp) t := by
  obtain ⟨a, b, validA, validB, apart, freshA, freshB⟩ := ids
  obtain ⟨t, claimed, issued⟩ := claimHandle_runs claimable
  rw [← issued] at freshA freshB
  obtain ⟨resp, u, created⟩ := createAccount_runs validA validB apart freshA freshB
  refine ⟨resp, u, ?_⟩
  rw [claimAndCreate, run_bind]
  exact runs_bind.mpr ⟨_, t, claimed, created⟩

theorem register_runs {body : Option Json} {req : RegisterRequest} (claimable : Claimable env h s)
    (attempt : Attempt env h body req s) :
    ∃ resp t, Runs (Smooth i) (register env body).run s (.ok resp) t := by
  let burned : Sys ι := { s with nonces := s.nonces.filter (· ≠ req.pow.nonce) }
  let held : Sys ι := { burned with holder := Function.update s.holder (.handleClaim h.str) (some i) }
  have burning : Smooth i (.consumeNonce req.pow.nonce) s (decide (req.pow.nonce ∈ s.nonces)) burned :=
    ⟨.ok, rfl⟩
  have taking : Smooth i (.acquire (.handleClaim h.str)) burned (.ok ()) held :=
    ⟨.ok, by simp [serve, Choice.smooth, Choice.healthy, exec, attempt.lock, burned, held]⟩
  have vacant : Claimable env h held := claimable
  have left : TwoLeft held := attempt.ids
  obtain ⟨resp, t, ran⟩ := claimAndCreate_runs vacant left req
  refine ⟨resp, { t with holder := Function.update t.holder (.handleClaim h.str) none }, ?_⟩
  rw [register_run attempt.decoded attempt.ready]
  refine .op burning ?_
  rw [if_pos (decide_eq_true attempt.nonce), run_withLock]
  exact .op taking (runs_bind.mpr ⟨_, t, ran, .op ⟨.ok, rfl⟩ (.ret _ _)⟩)

theorem Claimable.reclaimable (claimable : Claimable env h s) : Reclaimable i env h s := by
  intro t body req objects clock attempt
  have still (u : Sys ι) (objects' : u.objects = s.objects) (clock' : s.clock ≤ u.clock) :
      Claimable env h u := by
    rcases claimable with free | ⟨d, p, released, found, parsed, stone, stamp, past⟩
    · exact .inl (by rw [objects', free])
    · exact .inr ⟨d, p, released, by rw [objects', found], parsed, stone, stamp, past.trans clock'⟩
  refine ⟨register_runs (still t objects clock) attempt, attempt.ends fun u objects' clock' => ?_⟩
  exact claimAndCreate_succeeds (still u (objects'.trans objects) (by rw [clock']; exact clock))

/-- A live projection is in the way of everybody. -/
theorem not_reclaimable {d : Data} {p : PublicHandleData} {body : Option Json} {req : RegisterRequest}
    (found : s.objects.get (keyHandle h.str) = some d) (parsed : PublicHandleData.parse d = some p)
    (live : p.releasedAt = "") (decoded : body.bind RegisterRequest.fromJson = some req)
    (ready : Ready env h req) : ¬ Reclaimable i env h s := by
  intro reclaimable
  let t : Sys ι := { objects := s.objects, clock := s.clock, nonces := [req.pow.nonce] }
  have attempt : Attempt env h body req t :=
    { decoded, ready, nonce := List.mem_singleton_self _, lock := rfl
      ids := ⟨"00000000000000000000000000", "00000000000000000000000001", by decide, by decide,
        by decide, List.not_mem_nil, List.not_mem_nil⟩ }
  obtain ⟨resp, u, ran⟩ := (reclaimable t body req rfl le_rfl attempt).runs
  have refused : Except.ok resp = .error ApiError.handleTaken :=
    attempt.ends (fun v objects _ => live_refuses (by rw [objects]; exact found) parsed live) _ _ ran
  cases refused

/-- Objects, clock and ids are as they were. -/
structure AsBefore (s t : Sys ι) : Prop where
  objects : t.objects = s.objects
  clock : t.clock = s.clock
  issued : t.issued = s.issued

theorem AsBefore.spared (same : AsBefore s t) : HandleSpared h s t :=
  ⟨.inl (by rw [same.objects]), fun _ _ => by rw [same.objects], same.clock.ge⟩

theorem AsBefore.claimable (same : AsBefore s t) (claimable : Claimable env h s) :
    Claimable env h t := same.spared.claimable claimable

theorem Leaked.moved {s' t' : Sys ι} (leaked : Leaked h s t) (before : AsBefore s' s)
    (after : AsBefore t t') : Leaked h s' t' := by
  rw [Leaked, before.issued] at leaked
  rwa [Leaked, after.objects]

/-- A run of `register` in which something failed. -/
theorem register_once {body : Option Json}
    (asks : ∀ req, body.bind RegisterRequest.fromJson = some req → req.handle = h.str)
    (claimable : Claimable env h s) :
    Interaction.Ends (Once i) (register env body).run ⟨s, none⟩ fun _ t => ∀ f, t.fault = some f →
      ∃ req, body.bind RegisterRequest.fromJson = some req ∧ Ready env h req ∧
        ((Leaks h f ∧ Leaked h s t.state) ∨ (¬ Leaks h f ∧ HandleSpared h s t.state)) := by
  unfold register parseBody
  refine Ends.orFail (fun _ => nofun) fun req decoded => ?_
  refine Ends.checked (fun _ => nofun) fun fields => ?_
  refine Ends.orFail (fun _ => nofun) fun h' new => ?_
  have named : h' = h := by
    rw [asks req decoded, h.new_self] at new
    exact (Option.some.inj new).symm
  subst named
  refine Ends.checked (fun _ => nofun) fun unreserved => ?_
  refine Ends.orFail (fun _ => nofun) fun kdf some_ => ?_
  refine Ends.checked (fun _ => nofun) fun valid => ?_
  -- the nonce is consumed before the lock is taken
  refine Ends.call fun fresh t served => ?_
  obtain ⟨healthy, fault⟩ := once_healthy served fun c s r ran => by
    cases c <;> simp only [exec, reduceCtorEq] at ran <;> rfl
  obtain ⟨_, _, _, burned⟩ := served_volatile healthy rfl
  refine Ends.checked (fun _ f wrong => ?_) fun pow => ?_
  · rw [fault] at wrong
    cases wrong
  · have ready : Ready env h' req :=
      ⟨asks req decoded, of_decide_eq_true fields, by simpa using unreserved, ⟨kdf, some_, valid⟩,
        (Bool.and_eq_true_iff.mp pow).2⟩
    rw [run_withLock]
    refine .op fun r u served => ?_
    obtain ⟨healthy, fault'⟩ := once_healthy served fun c s r ran => by
      cases c <;> simp only [exec, reduceCtorEq] at ran <;> rfl
    have clean : u.fault = none := fault'.trans fault
    -- under the lock it is the claim that may leak; a timeout leaves everything
    rcases served_acquire healthy with ⟨rfl, _, taken⟩ | ⟨rfl, _⟩
    · have before : AsBefore s u.state := by
        rw [taken, burned]
        exact ⟨rfl, rfl, rfl⟩
      refine Interaction.Ends.bind (claimAndCreate_once (before.claimable claimable) clean) fun r v ended => ?_
      refine .op fun _ w served => .ret fun f failed => ?_
      obtain ⟨healthy, fault''⟩ := once_healthy served fun c s r ran => by
        cases c <;> simp only [exec, reduceCtorEq] at ran
        rfl
      have after : AsBefore v.state w.state := by
        rw [served_release healthy]
        exact ⟨rfl, rfl, rfl⟩
      rw [fault''] at failed
      refine ⟨req, decoded, ready, ?_⟩
      rcases ended with ⟨_, _, wrong⟩ | ⟨e, f', _, its, ⟨leaks, leaked⟩ | ⟨kept, spared⟩⟩
      · rw [wrong] at failed
        cases failed
      · cases its.symm.trans failed
        exact .inl ⟨leaks, leaked.moved before after⟩
      · cases its.symm.trans failed
        exact .inr ⟨kept, before.spared.trans (spared.trans after.spared)⟩
    · refine .ret fun f wrong => ?_
      rw [clean] at wrong
      cases wrong

/-- No device is stored for an id that has not been drawn. -/
def NoDevices (s t : Sys ι) : Prop :=
  ∀ u : UserId, u.str ∉ s.issued → ∀ did, t.objects.get (keyDevice u.str did) = none

/-- After a failed registration the handle can be claimed and the abandoned account has no device,
exactly when the fault was none of the two writes that stay. -/
theorem register_leaves_claimable {body : Option Json} {r : Except ApiError RegisterResponse} {f : Op × Choice}
    (asks : ∀ req, body.bind RegisterRequest.fromJson = some req → req.handle = h.str)
    (claimable : Claimable env h s) (unused : NoDevices s s)
    (run : Runs (Once i) (register env body).run ⟨s, none⟩ r ⟨t, some f⟩) :
    (Reclaimable i env h t ∧ NoDevices s t) ↔ ¬ Leaks h f := by
  obtain ⟨req, decoded, ready, ended⟩ := register_once asks claimable _ _ run f rfl
  rcases ended with ⟨leaks, ⟨d, p, found, parsed, live⟩ | ⟨u, did, fresh, stored⟩⟩ | ⟨kept, spared⟩
  · exact iff_of_false (fun ⟨reclaimable, _⟩ => not_reclaimable found parsed live decoded ready reclaimable)
      fun kept => kept leaks
  · refine iff_of_false (fun ⟨_, none_⟩ => ?_) fun kept => kept leaks
    rw [none_ u fresh did] at stored
    cases stored
  · refine iff_of_true ⟨(spared.claimable claimable).reclaimable, fun u fresh did => ?_⟩ kept
    rw [spared.devices]
    exact unused u fresh did

end Registration

section Samples

open Sample

def nina : Handle := ⟨"nina", by decide +kernel⟩

def signup : Json :=
  .obj [("handle", .str "nina"), ("device_label", .str "phone"), ("auth_public_key", .str authPublicKey),
    ("sharing_public_key", .str sharingPublicKey), ("salt", .str salt), ("kdf", kdf.toJson),
    ("pow", .obj [("nonce", .str "n")])]

/-- Nothing is stored yet, and a challenge has been issued. -/
def emptyTown : Sys Unit := { objects := .empty, nonces := ["n"] }

/-- The requests of a registration that one fault may hit. -/
def onceRun {ι : Type} (i : ι) (o : Op) (c : Choice) (s : Faultable ι) : Option (Res o × Faultable ι) :=
  match exec i o c s.state with
  | some (r, t) =>
    if c.healthy then some (r, ⟨t, s.fault⟩)
    else if s.fault.isNone then some (r, ⟨t, some (o, c)⟩) else none
  | none => none

theorem once_of_onceRun {ι : Type} {i : ι} {o : Op} {s t : Faultable ι} {r : Res o}
    (served : ∃ c, onceRun i o c s = some (r, t)) : Once i o s r t := by
  obtain ⟨c, ran⟩ := served
  unfold onceRun at ran
  split at ran
  next r' t' found =>
    refine ⟨c, ?_⟩
    split at ran
    next healthy =>
      cases ran
      rw [if_pos healthy]
      exact ⟨found, rfl⟩
    next faulty =>
      split at ran
      next none_ =>
        cases ran
        rw [if_neg faulty]
        exact ⟨found, Option.isNone_iff_eq_none.mp none_, rfl⟩
      next => cases ran
  next => cases ran

/-- The put of the projection times out, with its effect or without. -/
def timedOut (applied : Bool) : List Choice :=
  [.ok, .ok, .ok, .mint uid, .mint did, .read 0, .fail "timeout" applied, .ok]

theorem signup_asks (req : RegisterRequest)
    (decoded : (some signup).bind RegisterRequest.fromJson = some req) : req.handle = nina.str := by
  have handle : ((some signup).bind RegisterRequest.fromJson).map RegisterRequest.handle = some "nina" := by
    decide
  rw [decoded] at handle
  exact Option.some.inj handle

theorem timedOut_run (applied : Bool) : ∃ r t f,
    Runs (Once ()) (register env (some signup)).run ⟨emptyTown, none⟩ r ⟨t, some f⟩ ∧
      f.2 = .fail "timeout" applied ∧
      ((t.objects.get (keyHandle nina.str)).bind PublicHandleData.parse).any (fun p => p.releasedAt = "") =
        applied := by
  have observed : (((register env (some signup)).run.evaluate (onceRun ()) (timedOut applied)
      ⟨emptyTown, none⟩).any fun done => done.2.fault.any (fun f => f.2 = .fail "timeout" applied) &&
        (((done.2.state.objects.get (keyHandle nina.str)).bind PublicHandleData.parse).any
          (fun p => p.releasedAt = "") == applied)) = true := by
    cases applied <;> decide
  obtain ⟨⟨r, t, fault⟩, ran, seen⟩ := (Option.any_eq_true _ _).mp observed
  obtain ⟨failed, live⟩ := Bool.and_eq_true_iff.mp seen
  obtain ⟨f, rfl, choice⟩ := (Option.any_eq_true _ _).mp failed
  refine ⟨r, t, f, (runs_of_evaluate ran).mono fun _ _ _ _ => once_of_onceRun, of_decide_eq_true choice, ?_⟩
  exact eq_of_beq live

theorem emptyTown_unused : NoDevices emptyTown emptyTown := fun _ _ _ => rfl

/-- The put reported a timeout and took effect: the name is gone for good. -/
theorem handle_lost : Claimable env nina emptyTown ∧ NoDevices emptyTown emptyTown ∧ ∃ r t f,
    Runs (Once ()) (register env (some signup)).run ⟨emptyTown, none⟩ r ⟨t, some f⟩ ∧
      ¬ Reclaimable () env nina t := by
  obtain ⟨r, t, f, ran, _, live⟩ := timedOut_run true
  refine ⟨.inl rfl, emptyTown_unused, r, t, f, ran, ?_⟩
  obtain ⟨p, stored, empty⟩ := (Option.any_eq_true _ _).mp live
  obtain ⟨d, found, parsed⟩ := Option.bind_eq_some_iff.mp stored
  have start : Claimable env nina emptyTown := .inl rfl
  obtain ⟨req, decoded, ready, _⟩ := register_once signup_asks start _ _ ran f rfl
  exact not_reclaimable found parsed (of_decide_eq_true empty) decoded ready

/-- The put had no effect: whoever comes next gets the handle. -/
theorem handle_back : ∃ r t f,
    Runs (Once ()) (register env (some signup)).run ⟨emptyTown, none⟩ r ⟨t, some f⟩ ∧
      Reclaimable () env nina t ∧ NoDevices emptyTown t := by
  obtain ⟨r, t, f, ran, choice, _⟩ := timedOut_run false
  refine ⟨r, t, f, ran, ?_⟩
  refine (register_leaves_claimable signup_asks (.inl rfl) emptyTown_unused ran).mpr fun leaks => ?_
  obtain ⟨o, c⟩ := f
  simp only at choice
  subst choice
  exact not_leaks_undone nina leaks

end Samples

end Atmin
