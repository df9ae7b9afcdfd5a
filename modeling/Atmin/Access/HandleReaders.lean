import Atmin.Access.Registration
import Atmin.Retention.Verdict

/-!
# Three readers of a handle file

`resolve`, `register` and the cleanup each decide on their own what a handle file means at an
instant. There is one meaning, and each of them decides by it.
-/

namespace Atmin

open Interaction

/-- Nothing fails, times out or expires, and the clock stands still. -/
def steady {ι : Type} (i : ι) (o : Op) (c : Choice) (s : Sys ι) : Option (Res o × Sys ι) :=
  match o with
  | .utcNow => some (s.clock, s)
  | o => serve Choice.smooth i o c s

abbrev Steady {ι : Type} : ι → (o : Op) → Sys ι → Res o → Sys ι → Prop := execOf steady

/-! ### What a handle file means -/

/-- A handle file as the handlers write it: none, a live projection, or a tombstone with an
RFC 3339 instant. -/
inductive HandleObject (env : Env) where
  | absent
  | live (p : PublicHandleData) (projected : p.releasedAt = "")
  | tombstone (stamp : String) (released : Int) (stamped : stamp ≠ "")
    (instant : env.parseRfc3339 stamp = some released)

inductive Availability where
  | free
  | taken (p : PublicHandleData)
  | cooling (stamp : String) (available : Int)

namespace HandleObject

variable {env : Env}

def data : HandleObject env → Option Data
  | absent => none
  | live p _ => some p.data
  | tombstone stamp _ _ _ => some ({ releasedAt := stamp } : PublicHandleData).data

/-- The name is free again from the thirtieth day on. -/
def meaning (now : Int) : HandleObject env → Availability
  | absent => .free
  | live p _ => .taken p
  | tombstone stamp released _ _ =>
    if now < released + days HANDLE_COOLDOWN_DAYS then
      .cooling stamp (released + days HANDLE_COOLDOWN_DAYS)
    else .free

end HandleObject

/-- The answer of `resolve`. -/
def Availability.resolved (env : Env) : Availability → Except ApiError PublicHandleData
  | free => .error .notFound
  | taken p => .ok p
  | cooling stamp available => .error (.handleReleased stamp (env.formatSecs available))

/-- The answer of `register`; a free handle is claimed. -/
def Availability.Registered (env : Env) (r : Except ApiError RegisterResponse) : Availability → Prop
  | free => ∃ resp, r = .ok resp
  | taken _ => r = .error .handleTaken
  | cooling stamp available => r = .error (.handleInCooldown stamp (env.formatSecs available))

/-- The two answers tell free, taken and cooling apart in the same way. -/
theorem Availability.agree {env : Env} {a : Availability} {r : Except ApiError RegisterResponse}
    (registered : a.Registered env r) :
    (a.resolved env = .error .notFound ↔ ∃ resp, r = .ok resp) ∧
      (∀ stamp available, a.resolved env = .error (.handleReleased stamp available) ↔
        r = .error (.handleInCooldown stamp available)) ∧
      ((∃ p, a.resolved env = .ok p) ↔ r = .error .handleTaken) := by
  cases a with
  | free =>
    obtain ⟨resp, rfl⟩ := registered
    simp [resolved]
  | taken p =>
    obtain rfl : r = .error .handleTaken := registered
    simp [resolved]
  | cooling stamp available =>
    obtain rfl : r = .error (.handleInCooldown stamp (env.formatSecs available)) := registered
    simp [resolved]

section Readers

variable {ι : Type} {i : ι} {env : Env} {h : Handle} {s t : Sys ι} {obj : HandleObject env}

theorem steady_smooth {o : Op} {r : Res o} (served : Steady i o s r t) : Smooth i o s r t := by
  obtain ⟨c, ran⟩ := served
  cases o with
  | utcNow =>
    cases ran
    exact ⟨.read s.clock, by simp [serve, Choice.smooth, Choice.healthy, exec]⟩
  | _ => exact ⟨c, ran⟩

theorem steady_healthy {o : Op} {r : Res o} (served : Steady i o s r t) : Healthy i o s r t := by
  obtain ⟨c, smooth, ran⟩ := served_iff.mp (steady_smooth served)
  exact served_iff.mpr ⟨c, (Bool.and_eq_true_iff.mp smooth).1, ran⟩

theorem steady_utcNow {r : Res .utcNow} (served : Steady i .utcNow s r t) : r = s.clock ∧ t = s := by
  obtain ⟨_, ran⟩ := served
  cases ran
  exact ⟨rfl, rfl⟩

/-- What holds after every smooth run holds after every steady one. -/
theorem ends_steady {α : Type} {p : Eff α} {Q : α → Sys ι → Prop}
    (ends : Interaction.Ends (Smooth i) p s Q) : Interaction.Ends (Steady i) p s Q :=
  fun r t run => ends r t (run.mono fun _ _ _ _ => steady_smooth)

theorem steady_reads : Reads (Steady i) False where
  get served := by
    obtain ⟨same, found⟩ := healthy_read (steady_healthy served)
    exact ⟨same, .inl found⟩
  list served := by
    obtain ⟨same, found | fault⟩ := served_listObjects (steady_healthy served)
    · exact ⟨same, .inl found⟩
    · exact absurd fault not_faulted_healthy

/-! ### `resolve` -/

/-- `resolve` answers by the meaning of the file. -/
theorem resolve_reads (stored : s.objects.get (keyHandle h.str) = obj.data) :
    Interaction.Ends (Steady i) (resolve env h.str).run s fun r _ =>
      r = (obj.meaning s.clock).resolved env := by
  unfold resolve
  rw [run_bind, run_tryStore, ask_bind]
  refine .op fun r t served => ?_
  obtain ⟨rfl, rfl⟩ := healthy_read (steady_healthy served)
  cases obj with
  | absent =>
    rw [Sys.lookup, stored]
    exact .ret rfl
  | live p projected =>
    rw [Sys.lookup, stored]
    simp only [HandleObject.data, Prog.ret_bind, run_bind, PublicHandleData.parse_data, run_orFail_some,
      if_pos projected]
    exact .ret rfl
  | tombstone stamp released stamped instant =>
    rw [Sys.lookup, stored]
    simp only [HandleObject.data, Prog.ret_bind, run_bind, PublicHandleData.parse_data, run_orFail_some,
      if_neg stamped, instant]
    refine Ends.call fun now u served => ?_
    obtain ⟨same, _⟩ := steady_utcNow served
    rw [same]
    by_cases cooling : t.clock < released + days HANDLE_COOLDOWN_DAYS
    · rw [if_pos cooling]
      refine .ret ?_
      rw [HandleObject.meaning, if_pos cooling]
      rfl
    · rw [if_neg cooling]
      refine .ret ?_
      rw [HandleObject.meaning, if_neg cooling]
      rfl

/-! ### `register` -/

/-- The part under the lock decides, at the instant of the request. -/
theorem Attempt.ends_steady {body : Option Json} {req : RegisterRequest}
    {P : Except ApiError RegisterResponse → Prop} (attempt : Attempt env h body req s)
    (claims : ∀ t : Sys ι, t.objects = s.objects → t.clock = s.clock →
      Interaction.Ends (Steady i) (claimAndCreate env h req).run t fun r _ => P r) :
    Interaction.Ends (Steady i) (register env body).run s fun r _ => P r := by
  rw [register_run attempt.decoded attempt.ready]
  refine .op fun fresh t served => ?_
  obtain ⟨rfl, objects, clock, _⟩ := smooth_consumeNonce (steady_smooth served)
  rw [if_pos (decide_eq_true attempt.nonce), run_withLock]
  refine .op fun r u served => ?_
  obtain ⟨rfl, objects', clock'⟩ := smooth_acquire (steady_smooth served)
  have same := claims u (objects'.trans objects) (clock'.trans clock)
  refine Interaction.Ends.bind same fun r v holds => ?_
  exact .op fun _ _ _ => .ret holds

/-- A tombstone within its cooldown is in the way. -/
theorem cooling_refuses {req : RegisterRequest} {stamp : String} {released : Int} (stamped : stamp ≠ "")
    (instant : env.parseRfc3339 stamp = some released)
    (stored : s.objects.get (keyHandle h.str) =
      some ({ releasedAt := stamp } : PublicHandleData).data)
    (cooling : s.clock < released + days HANDLE_COOLDOWN_DAYS) :
    Interaction.Ends (Steady i) (claimAndCreate env h req).run s fun r _ => r =
      .error (.handleInCooldown stamp (env.formatSecs (released + days HANDLE_COOLDOWN_DAYS))) := by
  have refused : Interaction.Ends (Steady i) (claimHandle env (keyHandle h.str)).run s fun r _ => r =
      .error (.handleInCooldown stamp (env.formatSecs (released + days HANDLE_COOLDOWN_DAYS))) := by
    unfold claimHandle
    refine Ends.call fun answer t served => ?_
    obtain ⟨rfl, rfl⟩ := healthy_read (steady_healthy served)
    rw [lookup_eq_ok.mpr stored]
    simp only [PublicHandleData.parse_data]
    refine Ends.orFail nofun fun p same => ?_
    obtain rfl := (Option.some.inj same).symm
    refine Ends.checked (fun wrong => absurd wrong (by simpa using stamped)) fun _ => ?_
    refine Ends.orFail (fun failed => absurd (instant.symm.trans failed) nofun) fun at_ same => ?_
    obtain rfl := Option.some.inj (instant.symm.trans same)
    refine Ends.call fun now u served => ?_
    obtain ⟨rfl, rfl⟩ := steady_utcNow served
    refine Ends.checked (fun _ => rfl) fun past => ?_
    exact absurd cooling (Int.not_lt.mpr (of_decide_eq_true past))
  refine Ends.andThen refused (fun e _ same => ?_) fun _ _ wrong => nomatch wrong
  rw [Except.error.inj same]

/-- `register` answers by the meaning of the file. -/
theorem register_reads {body : Option Json} {req : RegisterRequest} (attempt : Attempt env h body req s)
    (stored : s.objects.get (keyHandle h.str) = obj.data) :
    Interaction.Ends (Steady i) (register env body).run s fun r _ =>
      (obj.meaning s.clock).Registered env r := by
  refine attempt.ends_steady fun t objects clock => ?_
  have here : t.objects.get (keyHandle h.str) = obj.data := by rw [objects, stored]
  rw [← clock]
  cases obj with
  | absent => exact Atmin.ends_steady (claimAndCreate_succeeds (.inl here))
  | live p projected =>
    exact Atmin.ends_steady (live_refuses here (PublicHandleData.parse_data p) projected)
  | tombstone stamp released stamped instant =>
    by_cases cooling : t.clock < released + days HANDLE_COOLDOWN_DAYS
    · rw [HandleObject.meaning, if_pos cooling]
      exact cooling_refuses stamped instant here cooling
    · rw [HandleObject.meaning, if_neg cooling]
      exact Atmin.ends_steady (claimAndCreate_succeeds (.inr ⟨_, _, released, here,
        PublicHandleData.parse_data _, stamped, instant, Int.not_lt.mp cooling⟩))

/-! ### The cleanup -/

/-- The cleanup finds an expired tombstone only where the name is free. -/
theorem verdict_tombstone {opts : CleanupOpts} {p : Option Profile} (instant : opts.now = s.clock)
    (stored : s.objects.get (keyHandle h.str) = obj.data)
    (judged : verdict env opts s.objects (keyHandle h.str) = .ok (some (.tombstone, p))) :
    obj.meaning s.clock = .free := by
  cases obj with
  | absent => rfl
  | live q projected =>
    rcases verdict_some judged with ⟨q', found, unowned, _⟩ | ⟨_, _, _, _, _, _, wrong⟩
    · rw [stored] at found
      obtain rfl := Option.some.inj ((PublicHandleData.parse_data q).symm.trans found)
      rw [verdict, stored] at judged
      simp [HandleObject.data, unowned, projected] at judged
    · exact absurd rfl wrong
  | tombstone stamp released stamped parsed =>
    rw [verdict, stored] at judged
    simp only [HandleObject.data, PublicHandleData.parse_data, if_true, if_neg stamped,
      parsed] at judged
    split at judged
    next old =>
      rw [HandleObject.meaning, if_neg (by omega)]
    next => cases judged

/-- A tombstone is swept only where the name is free. -/
theorem sweep_tombstone {opts : CleanupOpts} {pages : Nat} {res : CleanupResult} {stamp : String}
    {released : Int} {stamped : stamp ≠ ""} {parsed : env.parseRfc3339 stamp = some released}
    (instant : opts.now = s.clock)
    (stored : s.objects.get (keyHandle h.str) =
      (HandleObject.tombstone stamp released stamped parsed).data) :
    Interaction.Ends (Steady i) (sweepHandle env opts pages res (keyHandle h.str)).run s fun _ t =>
      t.objects.get (keyHandle h.str) = none →
        (HandleObject.tombstone stamp released stamped parsed).meaning s.clock = .free := by
  unfold sweepHandle
  refine Sweep.andThen (Sweep.attempted (evaluateUser_reads steady_reads env opts (keyHandle h.str)))
    (fun _ _ wrong => nomatch wrong) ?_
  rintro _ t ⟨_, ⟨⟩, rfl, rfl | ⟨broken, _⟩⟩
  · rcases judged : verdict env opts t.objects (keyHandle h.str) with e | (_ | ⟨policy, profile⟩)
    · exact .ret fun gone => absurd (stored.symm.trans gone) nofun
    · exact .ret fun gone => absurd (stored.symm.trans gone) nofun
    · -- no other policy applies to a file without an account
      have policy_ : policy = .tombstone := by
        rcases verdict_some judged with ⟨_, _, _, same, _⟩ | ⟨q, _, found, named, _⟩
        · exact same
        · rw [stored] at found
          obtain rfl := Option.some.inj ((PublicHandleData.parse_data _).symm.trans found)
          exact absurd rfl named
      subst policy_
      have free := verdict_tombstone instant stored judged
      exact Interaction.Ends.trivial.weaken fun _ _ _ _ => free
  · exact absurd broken id

/-- For every handle file and every instant, the three readers decide alike. -/
theorem handle_readers_agree (opts : CleanupOpts) {body : Option Json} {req : RegisterRequest}
    {resolved : Except ApiError PublicHandleData} {registered : Except ApiError RegisterResponse}
    {t u : Sys ι} (stored : s.objects.get (keyHandle h.str) = obj.data)
    (attempt : Attempt env h body req s) (instant : opts.now = s.clock)
    (resolves : Runs (Steady i) (resolve env h.str).run s resolved t)
    (registers : Runs (Steady i) (register env body).run s registered u) :
    (resolved = .error .notFound ↔ ∃ resp, registered = .ok resp) ∧
      (∀ stamp available, resolved = .error (.handleReleased stamp available) ↔
        registered = .error (.handleInCooldown stamp available)) ∧
      ((∃ p, resolved = .ok p) ↔ registered = .error .handleTaken) ∧
      (∀ p, resolved = .ok p → ∃ projected, obj = .live p projected) ∧
      (∀ p v, Runs (Steady i) (evaluateUser env opts (keyHandle h.str)).run s
        (.ok (some (.tombstone, p))) v → ∃ resp, registered = .ok resp) ∧
      (∀ stamp released stamped parsed, obj = .tombstone stamp released stamped parsed →
        ∀ pages res r v, Runs (Steady i) (sweepHandle env opts pages res (keyHandle h.str)).run s r v →
          v.objects.get (keyHandle h.str) = none → ∃ resp, registered = .ok resp) := by
  have answer := resolve_reads stored _ _ resolves
  have claim := register_reads attempt stored _ _ registers
  have free (same : obj.meaning s.clock = .free) : ∃ resp, registered = .ok resp := by
    rw [same] at claim
    exact claim
  -- registration and resolve decide from the one meaning of the file
  have agree := Availability.agree claim
  rw [← answer] at agree
  -- cleanup deletes a tombstone only when that meaning is `free`
  refine ⟨agree.1, agree.2.1, agree.2.2, fun p shown => ?_, fun p v evaluates => ?_, ?_⟩
  · rw [shown] at answer
    cases obj with
    | absent => cases answer
    | live q projected =>
      cases answer
      exact ⟨projected, rfl⟩
    | tombstone stamp released stamped parsed =>
      rw [HandleObject.meaning] at answer
      split at answer <;> cases answer
  · obtain ⟨_, judged | ⟨broken, _⟩⟩ :=
      evaluateUser_reads steady_reads env opts (keyHandle h.str) _ _ evaluates
    · exact free (verdict_tombstone instant stored judged.symm)
    · exact absurd broken id
  · rintro stamp released stamped parsed rfl pages res r v sweeps gone
    exact free (sweep_tombstone instant stored _ _ sweeps gone)

end Readers

/-! ### A name that cools down -/

section Cooling

open Sample

/-- A run that begins with a request goes on with the rest. -/
theorem exists_runs_op {α σ : Type} {exec : (o : Op) → σ → Res o → σ → Prop} {o : Op}
    {k : Res o → Eff α} {s t : σ} {r : Res o} (served : exec o s r t)
    (rest : ∃ a u, Runs exec (k r) t a u) : ∃ a u, Runs exec (.op o k) s a u := by
  obtain ⟨a, u, run⟩ := rest
  exact ⟨a, u, .op served run⟩

theorem epoch_stamped : epoch ≠ "" := by decide

theorem epoch_instant : env.parseRfc3339 epoch = some 0 := by simp [env]

/-- The name was released at the epoch. -/
def released : HandleObject env := .tombstone epoch 0 epoch_stamped epoch_instant

/-- It is the epoch, and a challenge has been issued. -/
def ghostTown : Sys Unit where
  objects := ObjectMap.empty.insert (keyHandle nina.str) (tombstone env 0).data
  nonces := ["n"]

theorem ghostTown_stored : ghostTown.objects.get (keyHandle nina.str) = released.data := by
  rw [ghostTown, ObjectMap.get_insert, if_pos rfl]
  rfl

theorem ghostTown_attempt : ∃ req, Attempt env nina (some signup) req ghostTown := by
  obtain ⟨r, t, f, ran, _⟩ := timedOut_run true
  obtain ⟨req, decoded, ready, _⟩ := register_once signup_asks (.inl rfl) _ _ ran f rfl
  have nonce : ((some signup).bind RegisterRequest.fromJson).map (fun q => q.pow.nonce) = some "n" := by
    decide
  rw [decoded, Option.map_some] at nonce
  refine ⟨req, decoded, ready, ?_, rfl, ?_⟩
  · exact List.mem_singleton.mpr (Option.some.inj nonce)
  · exact ⟨uid, did, user.ulid, device.ulid, by decide, List.not_mem_nil, List.not_mem_nil⟩

theorem ghostTown_early : ghostTown.clock < days HANDLE_COOLDOWN_DAYS := by decide

theorem ghostTown_resolves : ∃ r t, Runs (Steady ()) (resolve env nina.str).run ghostTown r t := by
  unfold resolve
  rw [run_bind, run_tryStore, ask_bind]
  refine exists_runs_op ⟨.ok, rfl⟩ ?_
  rw [Sys.lookup, ghostTown_stored]
  simp only [released, HandleObject.data, Prog.ret_bind, run_bind, PublicHandleData.parse_data,
    run_orFail_some, if_neg epoch_stamped, epoch_instant]
  refine exists_runs_op ⟨.ok, rfl⟩ ?_
  exact ⟨_, _, .ret _ _⟩

/-- The claim looks at the file and the clock, and no further. -/
theorem claim_decided {t : Sys Unit} (stored : t.objects.get (keyHandle nina.str) = released.data)
    (early : t.clock < days HANDLE_COOLDOWN_DAYS) (req : RegisterRequest) :
    ∃ r u, Runs (Steady ()) (claimAndCreate env nina req).run t r u := by
  unfold claimAndCreate claimHandle
  rw [run_bind, run_bind, run_call, Prog.bind_assoc, ask_bind]
  refine exists_runs_op ⟨.ok, rfl⟩ ?_
  rw [Sys.lookup, stored]
  simp only [released, HandleObject.data, Prog.ret_bind, run_bind, PublicHandleData.parse_data,
    run_orFail_some, decide_eq_true epoch_stamped, epoch_instant]
  refine exists_runs_op ⟨.ok, rfl⟩ ?_
  have refused : decide (0 + days HANDLE_COOLDOWN_DAYS ≤ t.clock) = false := by
    rw [Int.zero_add]
    exact decide_eq_false (Int.not_le.mpr early)
  simp only [Prog.ret_bind, refused]
  exact ⟨_, _, .ret _ _⟩

theorem ghostTown_registers :
    ∃ r t, Runs (Steady ()) (register env (some signup)).run ghostTown r t := by
  obtain ⟨req, attempt⟩ := ghostTown_attempt
  let burned : Sys Unit := { ghostTown with nonces := ghostTown.nonces.filter (· ≠ req.pow.nonce) }
  let held : Sys Unit :=
    { burned with holder := Function.update burned.holder (.handleClaim nina.str) (some ()) }
  have burning : Steady () (.consumeNonce req.pow.nonce) ghostTown
      (decide (req.pow.nonce ∈ ghostTown.nonces)) burned := ⟨.ok, rfl⟩
  have taking : Steady () (.acquire (.handleClaim nina.str)) burned (.ok ()) held :=
    ⟨.ok, by simp [steady, serve, Choice.smooth, Choice.healthy, exec, burned, held, ghostTown]⟩
  obtain ⟨r, t, ran⟩ := claim_decided (t := held) ghostTown_stored ghostTown_early req
  rw [register_run attempt.decoded attempt.ready]
  refine ⟨r, { t with holder := Function.update t.holder (.handleClaim nina.str) none }, ?_⟩
  refine .op burning ?_
  rw [if_pos (decide_eq_true attempt.nonce), run_withLock]
  exact .op taking (runs_bind.mpr ⟨_, t, ran, .op ⟨.ok, rfl⟩ (.ret _ _)⟩)

/-- Both answer that the name is cooling down, until the same instant. -/
theorem nina_cools_down : ∃ resolved registered t u,
    Runs (Steady ()) (resolve env nina.str).run ghostTown resolved t ∧
      Runs (Steady ()) (register env (some signup)).run ghostTown registered u ∧
      ∀ stamp available, resolved = .error (.handleReleased stamp available) ↔
        registered = .error (.handleInCooldown stamp available) := by
  obtain ⟨req, attempt⟩ := ghostTown_attempt
  obtain ⟨resolved, t, resolves⟩ := ghostTown_resolves
  obtain ⟨registered, u, registers⟩ := ghostTown_registers
  exact ⟨resolved, registered, t, u, resolves, registers,
    (handle_readers_agree ⟨365, 100, false, ghostTown.clock⟩ ghostTown_stored attempt rfl resolves
      registers).2.1⟩

end Cooling

end Atmin
