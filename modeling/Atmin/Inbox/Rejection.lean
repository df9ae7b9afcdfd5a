import Mathlib.Data.List.Dedup
import Atmin.Interaction.Session
import Atmin.Server.Sample
import Atmin.Inbox.Letters

/-!
# Rejected batches

`send` checks the envelopes of a batch and writes them in one loop, so what stands before the
first refused envelope has been written when the request is rejected. And of two envelopes with
one storage key the second takes the place of the first.
-/

namespace Atmin

open Interaction

section Rejection

variable {ι : Type} {env : Env} {i : ι} {allow : Choice → Bool} {token : Option String}
  {user : AuthedUser} {envelopes : List Json} {s t : Log ι}

/-- The answer blames the client. -/
def ApiError.client (e : ApiError) : Bool := decide (400 ≤ e.status ∧ e.status < 500)

/-- A request that tells this recipient of new messages. -/
def tells (uid : String) : Op → Bool
  | .notify to_ event => decide (to_ = uid ∧ event = "new_message")
  | _ => false

/-- How often the recipient has been told of new messages. -/
def notified (uid : String) (s : Log ι) : Nat := s.trace.countP fun e => tells uid e.op

/-- The envelope has a header, and names the token's account and device as its sender. -/
def acceptable (user : AuthedUser) (raw : Json) : Bool :=
  (EnvelopeHeader.fromJson raw).any fun header =>
    decide (header.fromUser = user.userId.str ∧ header.fromDevice = user.deviceId.str)

/-- Stored under its key as it was received. -/
def StoredAs (s : Log ι) (raw : Json) : Prop :=
  ∃ header, EnvelopeHeader.fromJson raw = some header ∧
    s.state.objects.get (keyInboxLive header.toUser header.msgId) = some (.json raw)

/-- Some envelope of the batch is for this recipient. -/
def Addressed (envelopes : List Json) (uid : String) : Prop :=
  ∃ raw ∈ envelopes, ∃ header, EnvelopeHeader.fromJson raw = some header ∧ header.toUser = uid

/-- A rejected batch delivers nothing, an accepted one everything. -/
structure AllOrNothing (envelopes : List Json) (r : Except ApiError Unit) (s t : Log ι) : Prop where
  rejected : ∀ e, r = .error e → e.client = true →
    (∀ key, startsWith key "inbox/" = true → t.state.objects.get key = s.state.objects.get key) ∧
      ∀ uid, notified uid t = notified uid s
  stored : r = .ok () → ∀ raw ∈ envelopes, StoredAs t raw
  told : r = .ok () → ∀ uid, (Addressed envelopes uid → notified uid t = notified uid s + 1) ∧
    (¬ Addressed envelopes uid → notified uid t = notified uid s)

/-- Nothing new precedes a refused envelope, and no envelope takes the place of another. -/
structure Seamless (user : AuthedUser) (envelopes : List Json) (store : Store) : Prop where
  refused : envelopes.all (acceptable user) = false → ∀ key l,
    lastUnder (lettersFrom user.userId (envelopes.takeWhile (acceptable user))) key = some l →
      store.get key = some (.json l.raw)
  accepted : envelopes.all (acceptable user) = true → ∀ l ∈ lettersFrom user.userId envelopes,
    ∀ l' ∈ lettersFrom user.userId envelopes, l.key = l'.key → l.raw = l'.raw

/-- The guard lets this token through. -/
def Passes (env : Env) (i : ι) (token : Option String) (user : AuthedUser) (s : Log ι) : Prop :=
  ∃ t, Runs (Recorded i) (authenticate env token true).run s (.ok user) t

/-! ### One step -/

/-- Logged requests, of which those that `allow` admits may fail. -/
abbrev Watched (allow : Choice → Bool) : ι → (o : Op) → Log ι → Res o → Log ι → Prop :=
  traced (execOf (serve allow))

theorem notified_step {o : Op} {r : Res o} (served : Watched allow i o s r t) (uid : String) :
    notified uid t = notified uid s + if tells uid o then 1 else 0 := by
  simp only [notified, served.2, List.countP_cons]

/-- A failure of the store is not the client's fault. -/
theorem client_ofStore (err : String) : (ApiError.ofStore (.backend err)).client = false := by
  simp [ApiError.client, ApiError.ofStore, ApiError.status]

theorem watched_faulty {o : Op} {r : Res o} (served : Watched Choice.healthy i o s r t) :
    Recorded i o s r t := by
  obtain ⟨c, _, h⟩ := served_iff.mp served.1
  exact ⟨served_iff.mpr ⟨c, rfl, h⟩, served.2⟩

/-- What the log keeps while the guard looks at the token. -/
def Unmarked (s t : Log ι) : Prop :=
  t.state.objects = s.state.objects ∧ ∀ uid, notified uid t = notified uid s

theorem guard_unmarked (env : Env) (token : Option String) :
    Interaction.Ends (Watched allow i) (authenticate env token true).run s fun r t =>
      Identified env token r ∧ Unmarked s t := by
  refine Interaction.Ends.keeping (authenticate_guarding env token true) ?_ ⟨rfl, fun _ => rfl⟩
  intro o v r t guarding served ⟨objects, told⟩
  obtain ⟨_, _, _, _, _, same⟩ := served_passive served.1 (Op.passive_of_guarding guarding)
  refine ⟨by rw [same, objects], fun uid => ?_⟩
  have silent : tells uid o = false := by
    cases o <;> first | rfl | cases guarding
  rw [notified_step served, silent, told]
  rfl

/-! ### The loop -/

/-- What the loop over the envelopes leaves: all of them, or those before the first refused one. -/
def DeliveredUpTo (allow : Choice → Bool) (user : AuthedUser) (envelopes : List Json) (s : Log ι)
    (r : Except ApiError (List String)) (t : Log ι) : Prop :=
  (∀ uid, notified uid t = notified uid s) ∧ match r with
  | .ok uids => envelopes.all (acceptable user) = true ∧
      uids = (lettersFrom user.userId envelopes).map (fun l => l.header.toUser) ∧
      t.state.objects = postAll (lettersFrom user.userId envelopes) s.state.objects
  | .error e => (e.client = true ∧ envelopes.all (acceptable user) = false ∧ t.state.objects =
      postAll (lettersFrom user.userId (envelopes.takeWhile (acceptable user))) s.state.objects) ∨
      (e.client = false ∧ ∃ err applied, allow (.fail err applied) = true)

theorem lettersFrom_cons {raw : Json} {header : EnvelopeHeader} {rest : List Json}
    (read : EnvelopeHeader.fromJson raw = some header) (sender : UserId) :
    lettersFrom sender (raw :: rest) = ⟨sender, header, raw⟩ :: lettersFrom sender rest := by
  simp [lettersFrom, read]

theorem deliver_leaves (user : AuthedUser) (envelopes : List Json) :
    Interaction.Ends (Watched allow i) (deliver user envelopes).run s
      (DeliveredUpTo allow user envelopes s) := by
  induction envelopes generalizing s with
  | nil => exact .ret ⟨fun _ => rfl, rfl, rfl, rfl⟩
  | cons raw rest ih =>
    have refused {e : ApiError} (bad : acceptable user raw = false) (blame : e.client = true) :
        DeliveredUpTo allow user (raw :: rest) s (.error e) s := by
      refine ⟨fun _ => rfl, .inl ⟨blame, ?_, ?_⟩⟩
      · rw [List.all_cons, bad, Bool.false_and]
      · rw [List.takeWhile_cons, bad]
        rfl
    unfold deliver
    refine Ends.orFail (fun missing => refused ?_ rfl) fun header read => ?_
    · rw [acceptable, missing]
      rfl
    have judged : acceptable user raw =
        decide (header.fromUser = user.userId.str ∧ header.fromDevice = user.deviceId.str) := by
      rw [acceptable, read]
      rfl
    refine Ends.checked (fun other => refused (judged.trans other) rfl) fun own => ?_
    have fine : acceptable user raw = true := judged.trans own
    simp only [run_bind, writeJson, run_tryStore, ask_bind, Prog.op_bind]
    refine .op fun r t served => ?_
    have still (uid : String) : notified uid t = notified uid s := notified_step served uid
    rcases served_putObject served.1 with ⟨rfl, written⟩ | ⟨⟨err, applied, admitted, rfl⟩, _⟩
    · -- The envelope is stored, whatever becomes of those behind it.
      simp only [Prog.ret_bind]
      refine Interaction.Ends.bind ih fun r u delivered => ?_
      obtain ⟨told, after⟩ := delivered
      have told (uid : String) : notified uid u = notified uid s := (told uid).trans (still uid)
      have letters := @lettersFrom_cons raw header rest read user.userId
      have front := @lettersFrom_cons raw header (rest.takeWhile (acceptable user)) read user.userId
      cases r with
      | ok uids =>
        obtain ⟨all, rfl, objects⟩ := after
        refine .ret ⟨told, by rw [List.all_cons, fine, all]; rfl, by rw [letters]; rfl, ?_⟩
        rw [objects, written, letters]
        rfl
      | error e =>
        rcases after with ⟨blame, some_, objects⟩ | ⟨blame, fault⟩
        · refine .ret ⟨told, .inl ⟨blame, by rw [List.all_cons, fine, some_]; rfl, ?_⟩⟩
          rw [objects, written, List.takeWhile_cons, if_pos fine, front]
          rfl
        · exact .ret ⟨told, .inr ⟨blame, fault⟩⟩
    · exact .ret ⟨still, .inr ⟨client_ofStore err, err, applied, admitted⟩⟩

theorem notifyAll_tells (uids : List String) :
    Interaction.Ends (Watched allow i) (notifyAll uids).run s fun r t => r = .ok () ∧
      t.state.objects = s.state.objects ∧ ∀ uid, notified uid t = notified uid s + uids.count uid := by
  induction uids generalizing s with
  | nil => exact .ret ⟨rfl, rfl, fun _ => rfl⟩
  | cons to_ rest ih =>
    unfold notifyAll
    refine Ends.call fun _ t served => ih.weaken fun r u notified_ => ?_
    obtain ⟨ok, objects, told⟩ := notified_
    have quiet : Op.passive (.notify to_ "new_message") = true := rfl
    obtain ⟨_, _, _, _, _, same⟩ := served_passive served.1 quiet
    refine ⟨ok, by rw [objects, same], fun uid => ?_⟩
    rw [told, notified_step served, List.count_cons]
    by_cases here : to_ = uid
    · simp [tells, here]
      omega
    · simp [tells, here]

/-! ### The request -/

/-- The recipients of a batch, as they are told. -/
def recipients (user : AuthedUser) (envelopes : List Json) : List String :=
  ((lettersFrom user.userId envelopes).map fun l => l.header.toUser).dedup.insertionSort (· ≤ ·)

/-- What a request that the guard lets through leaves. -/
def SendAnswered (user : AuthedUser) (envelopes : List Json) (s : Log ι) (r : Except ApiError Unit)
    (t : Log ι) : Prop :=
  match r with
  | .ok _ => envelopes.all (acceptable user) = true ∧
      t.state.objects = postAll (lettersFrom user.userId envelopes) s.state.objects ∧
      ∀ uid, notified uid t = notified uid s + (recipients user envelopes).count uid
  | .error e => (∀ uid, notified uid t = notified uid s) ∧ (e.client = true →
      envelopes.all (acceptable user) = false ∧ t.state.objects =
        postAll (lettersFrom user.userId (envelopes.takeWhile (acceptable user))) s.state.objects)

/-- What follows the guard and the parser. -/
def distribute (user : AuthedUser) (envelopes : List Json) : Handler Unit := do
  let recipients ← deliver user envelopes
  notifyAll (recipients.dedup.insertionSort (· ≤ ·))

theorem distribute_answers (user : AuthedUser) (envelopes : List Json) :
    Interaction.Ends (Watched allow i) (distribute user envelopes).run s
      (SendAnswered user envelopes s) := by
  refine Ends.andThen (deliver_leaves user envelopes) ?_ ?_
  · rintro e t ⟨told, ⟨_, some_, objects⟩ | ⟨blame, _⟩⟩
    · exact ⟨told, fun _ => ⟨some_, objects⟩⟩
    · exact ⟨told, fun client => absurd (client.symm.trans blame) (by simp)⟩
  · rintro uids t ⟨told, all, rfl, objects⟩
    refine (notifyAll_tells _).weaken fun r u ⟨ok, same, later⟩ => ?_
    subst ok
    refine ⟨all, same.trans objects, fun uid => ?_⟩
    rw [later, told]
    rfl

/-- Where nothing fails, only the client is to blame. -/
theorem distribute_blames (user : AuthedUser) (envelopes : List Json) :
    Interaction.Ends (Watched Choice.healthy i) (distribute user envelopes).run s fun r _ =>
      ∀ e, r = .error e → e.client = true := by
  refine Ends.andThen (deliver_leaves user envelopes) ?_ ?_
  · rintro e t ⟨_, ⟨blame, _⟩ | ⟨_, _, _, admitted⟩⟩ e' same
    · cases same
      exact blame
    · cases admitted
  · intro uids t _
    refine (notifyAll_tells _).weaken fun r u ⟨ok, _⟩ e wrong => ?_
    rw [ok] at wrong
    cases wrong

theorem SendAnswered.unmarked {v : Log ι} {r : Except ApiError Unit} (unmarked : Unmarked s t)
    (answered : SendAnswered user envelopes t r v) : SendAnswered user envelopes s r v := by
  unfold SendAnswered at *
  rw [← unmarked.1]
  simp only [← unmarked.2]
  exact answered

theorem send_answers (body : Option Json) :
    Interaction.Ends (Recorded i) (send env token body).run s fun r t =>
      (∃ e, r = .error e ∧ Unmarked s t) ∨ ∃ user envelopes, Passes env i token user s ∧
        body.bind sendEnvelopes = some envelopes ∧ SendAnswered user envelopes s r t := by
  have enters : Interaction.Ends (Recorded i) (authenticate env token true).run s fun r t =>
      Unmarked s t ∧ ∀ user, r = .ok user → Passes env i token user s := by
    intro r t run
    refine ⟨(guard_unmarked env token r t run).2, fun user same => ⟨t, ?_⟩⟩
    rw [← same]
    exact run
  unfold send
  refine Ends.andThen enters (fun e t after => .inl ⟨e, rfl, after.1⟩) ?_
  intro user t ⟨unmarked, passes⟩
  refine Ends.orFail (fun _ => .inl ⟨.badRequest, rfl, unmarked⟩) fun envelopes parsed => ?_
  refine (distribute_answers user envelopes).weaken fun r v answered => ?_
  exact .inr ⟨user, envelopes, passes user rfl, parsed, answered.unmarked unmarked⟩

/-- Where the guard and the parser let it through, what follows decides. -/
theorem send_distributes {body : Option Json} {r : Except ApiError Unit} {v : Log ι}
    (entered : Runs (Recorded i) (authenticate env token true).run s (.ok user) t)
    (parsed : body.bind sendEnvelopes = some envelopes)
    (ran : Runs (Recorded i) (distribute user envelopes).run t r v) :
    Runs (Recorded i) (send env token body).run s r v := by
  rw [send, run_bind]
  refine runs_bind.mpr ⟨.ok user, t, entered, ?_⟩
  simp only [parseBody, parsed, orFail]
  exact ran

/-- On a healthy store the envelopes are gone through to the end. -/
theorem deliver_runs (user : AuthedUser) (envelopes : List Json) (s : Log ι) :
    ∃ r t, Runs (Watched Choice.healthy i) (deliver user envelopes).run s r t := by
  induction envelopes generalizing s with
  | nil => exact ⟨_, _, .ret _ _⟩
  | cons raw rest ih =>
    unfold deliver
    cases EnvelopeHeader.fromJson raw with
    | none => exact ⟨_, _, .ret _ _⟩
    | some header =>
      by_cases own : header.fromUser = user.userId.str ∧ header.fromDevice = user.deviceId.str
      · let put := Op.putObject (keyInboxLive header.toUser header.msgId) (.json raw)
        have served : Watched Choice.healthy i put s (.ok ())
            ⟨s.state.put (keyInboxLive header.toUser header.msgId) (.json raw),
              ⟨i, put, .ok ()⟩ :: s.trace⟩ := ⟨⟨.ok, rfl⟩, rfl⟩
        obtain ⟨r, t, run⟩ := ih _
        simp only [run_bind, run_orFail_some, Prog.ret_bind, decide_eq_true own, run_check, if_true,
          writeJson, run_tryStore, ask_bind, Prog.op_bind]
        cases r with
        | ok uids => exact ⟨_, t, .op served (runs_bind.mpr ⟨.ok (), _, .ret _ _,
            runs_bind.mpr ⟨_, t, run, .ret _ _⟩⟩)⟩
        | error e => exact ⟨_, t, .op served (runs_bind.mpr ⟨.ok (), _, .ret _ _,
            runs_bind.mpr ⟨_, t, run, .ret _ _⟩⟩)⟩
      · simp only [run_bind, run_orFail_some, Prog.ret_bind, decide_eq_false own]
        exact ⟨_, _, .ret _ _⟩

theorem notifyAll_runs (uids : List String) (s : Log ι) :
    ∃ t, Runs (Watched Choice.healthy i) (notifyAll uids).run s (.ok ()) t := by
  induction uids generalizing s with
  | nil => exact ⟨_, .ret _ _⟩
  | cons uid rest ih =>
    obtain ⟨t, run⟩ := ih ⟨s.state, ⟨i, .notify uid "new_message", ()⟩ :: s.trace⟩
    exact ⟨t, .op (r := ()) ⟨⟨.ok, rfl⟩, rfl⟩ run⟩

theorem distribute_runs (user : AuthedUser) (envelopes : List Json) (s : Log ι) :
    ∃ r t, Runs (Watched Choice.healthy i) (distribute user envelopes).run s r t := by
  obtain ⟨r, t, run⟩ := deliver_runs (i := i) user envelopes s
  cases r with
  | error e => exact ⟨.error e, t, runs_bind.mpr ⟨.error e, t, run, .ret _ _⟩⟩
  | ok uids =>
    obtain ⟨u, rest⟩ := notifyAll_runs (i := i) (uids.dedup.insertionSort (· ≤ ·)) t
    exact ⟨.ok (), u, runs_bind.mpr ⟨.ok uids, t, run, rest⟩⟩

/-! ### When a batch is all or nothing -/

theorem lastUnder_some {letters : List Letter} {key : String} (under : ∃ l ∈ letters, l.key = key) :
    ∃ l, lastUnder letters key = some l := by
  obtain ⟨l, member, same⟩ := under
  refine Option.isSome_iff_exists.mp (List.find?_isSome.mpr ⟨l, List.mem_reverse.mpr member, ?_⟩)
  exact decide_eq_true same

/-- Every acceptable envelope is a letter. -/
theorem letter_of {raw : Json} (member : raw ∈ envelopes) (fine : acceptable user raw = true) :
    ∃ header, EnvelopeHeader.fromJson raw = some header ∧
      ⟨user.userId, header, raw⟩ ∈ lettersFrom user.userId envelopes := by
  obtain ⟨header, read, _⟩ := (Option.any_eq_true _ _).mp fine
  exact ⟨header, read, List.mem_filterMap.mpr ⟨raw, member, by rw [read]; rfl⟩⟩

theorem raw_of {l : Letter} (member : l ∈ lettersFrom user.userId envelopes) :
    l.raw ∈ envelopes ∧ EnvelopeHeader.fromJson l.raw = some l.header := by
  obtain ⟨raw, inside, made⟩ := List.mem_filterMap.mp member
  obtain ⟨header, read, rfl⟩ := Option.map_eq_some_iff.mp made
  exact ⟨inside, read⟩

theorem count_recipients (user : AuthedUser) (envelopes : List Json) (uid : String) :
    (recipients user envelopes).count uid =
      if uid ∈ (lettersFrom user.userId envelopes).map (fun l => l.header.toUser) then 1 else 0 := by
  have once := List.nodup_dedup ((lettersFrom user.userId envelopes).map fun l => l.header.toUser)
  rw [recipients, (List.perm_insertionSort _ _).count_eq, once.count]
  simp only [List.mem_dedup]

theorem addressed_iff (all : envelopes.all (acceptable user) = true) (uid : String) :
    uid ∈ (lettersFrom user.userId envelopes).map (fun l => l.header.toUser) ↔
      Addressed envelopes uid := by
  rw [List.mem_map]
  constructor
  · rintro ⟨l, member, rfl⟩
    exact ⟨l.raw, (raw_of member).1, l.header, (raw_of member).2, rfl⟩
  · rintro ⟨raw, member, header, read, rfl⟩
    obtain ⟨header', read', letter⟩ := letter_of member (List.all_eq_true.mp all raw member)
    cases read.symm.trans read'
    exact ⟨_, letter, rfl⟩

theorem Seamless.allOrNothing {r : Except ApiError Unit}
    (seamless : Seamless user envelopes s.state.objects)
    (answered : SendAnswered user envelopes s r t) : AllOrNothing envelopes r s t := by
  cases r with
  | error e =>
    refine ⟨fun e' same client => ?_, nofun, nofun⟩
    cases same
    obtain ⟨some_, objects⟩ := answered.2 client
    refine ⟨fun key _ => ?_, answered.1⟩
    -- What was written stood there before.
    rw [objects, postAll_get]
    cases last : lastUnder _ key with
    | none => rfl
    | some l => exact (seamless.refused some_ key l last).symm
  | ok done =>
    obtain ⟨all, objects, told⟩ := answered
    refine ⟨nofun, fun _ raw member => ?_, fun _ uid => ?_⟩
    · obtain ⟨header, read, letter⟩ := letter_of member (List.all_eq_true.mp all raw member)
      obtain ⟨l, last⟩ := lastUnder_some ⟨_, letter, rfl⟩
      obtain ⟨later, same⟩ := lastUnder_mem last
      refine ⟨header, read, ?_⟩
      have equal : l.raw = raw := seamless.accepted all l later _ letter same
      rw [objects, postAll_get]
      change (Option.map _ (lastUnder _ (Letter.key ⟨user.userId, header, raw⟩))).or _ = _
      rw [last, Option.map_some, Option.some_or, equal]
    · rw [told, count_recipients]
      constructor
      · intro addressed
        rw [if_pos ((addressed_iff all uid).mpr addressed)]
      · intro other
        rw [if_neg fun listed => other ((addressed_iff all uid).mp listed)]
        rfl

/-- A letter lies where the header of its envelope says. -/
theorem StoredAs.get {l : Letter} (member : l ∈ lettersFrom user.userId envelopes)
    (stored : StoredAs t l.raw) : t.state.objects.get l.key = some (.json l.raw) := by
  obtain ⟨header, read, here⟩ := stored
  cases read.symm.trans (raw_of member).2
  exact here

theorem AllOrNothing.seamless {r : Except ApiError Unit}
    (answered : SendAnswered user envelopes s r t) (fault : ∀ e, r = .error e → e.client = true)
    (whole : AllOrNothing envelopes r s t) : Seamless user envelopes s.state.objects := by
  cases r with
  | error e =>
    have client := fault e rfl
    obtain ⟨some_, objects⟩ := answered.2 client
    refine ⟨fun _ key l last => ?_, fun all => absurd (all.symm.trans some_) (by simp)⟩
    have inbox : startsWith key "inbox/" = true := by
      rw [← (lastUnder_mem last).2]
      exact inboxLive_data _ _
    rw [← (whole.rejected e rfl client).1 key inbox, objects, postAll_get, last]
    rfl
  | ok done =>
    obtain ⟨all, _, _⟩ := answered
    refine ⟨fun some_ => absurd (all.symm.trans some_) (by simp), fun _ l member l' member' same => ?_⟩
    have first := (whole.stored rfl l.raw (raw_of member).1).get member
    have second := (whole.stored rfl l'.raw (raw_of member').1).get member'
    rw [same, second] at first
    exact (Data.json.inj (Option.some.inj first)).symm

/-- A batch is all or nothing in every run exactly where nothing new precedes a refused envelope
and none takes the place of another, if the guard lets the token through at all. -/
theorem send_allOrNothing_iff (env : Env) (i : ι) (token : Option String) (body : Option Json)
    (s : Log ι) :
    (∀ r t, Runs (Recorded i) (send env token body).run s r t →
        AllOrNothing ((body.bind sendEnvelopes).getD []) r s t) ↔
      ∀ user envelopes, Passes env i token user s → body.bind sendEnvelopes = some envelopes →
        Seamless user envelopes s.state.objects := by
  constructor
  · intro whole user envelopes ⟨t, entered⟩ parsed
    have unmarked := (guard_unmarked env token _ t entered).2
    obtain ⟨r, v, ran⟩ := distribute_runs (i := i) user envelopes t
    have answered := (distribute_answers user envelopes r v ran).unmarked unmarked
    have all := whole r v (send_distributes entered parsed
      (ran.mono fun _ _ _ _ served => watched_faulty served))
    rw [parsed] at all
    -- Nothing fails in this run, so whatever is wrong with it is the client's fault.
    exact AllOrNothing.seamless answered (distribute_blames user envelopes r v ran) all
  · intro seamless r t run
    rcases send_answers body r t run with ⟨e, rfl, objects, told⟩ |
      ⟨user, envelopes, passes, parsed, answered⟩
    · exact ⟨fun _ _ _ => ⟨fun key _ => by rw [objects], told⟩, nofun, nofun⟩
    · rw [parsed]
      exact (seamless user envelopes passes parsed).allOrNothing answered

end Rejection

section Mixed

open Sample

/-- A message that claims to come from another device of the user. -/
def misattributed : Json :=
  .obj [("to_user", .str uid), ("from_user", .str uid), ("from_device", .str "other"),
    ("msg_id", .str "second"), ("ciphertext", .str "AAAA")]

def mixed : Json := .obj [("envelopes", .arr [envelope, misattributed])]

/-- The batch on a store that answers every request. -/
abbrev mixedRun : Option (Except ApiError Unit × Log Unit) :=
  (send env token (some mixed)).run.evaluate (logRun ()) (List.replicate 5 .ok) (.init (sys Unit))

theorem mixed_observed : mixedRun.any fun x => decide (x.1 = .error .forbidden) &&
    (x.2.state.objects.get (keyInboxLive uid msgId)).isSome := by
  simp only [mixedRun, send, authenticate_known identity_token]
  decide

/-- The request is refused for its second envelope, and the first one is in the inbox. -/
theorem refused_batch_delivered : ¬ ∀ r t,
    Runs (Recorded ()) (send env token (some mixed)).run (.init (sys Unit)) r t →
      AllOrNothing (((some mixed).bind sendEnvelopes).getD []) r (.init (sys Unit)) t := by
  intro whole
  obtain ⟨⟨r, t⟩, ran, seen⟩ := (Option.any_eq_true _ _).mp mixed_observed
  obtain ⟨refused, here⟩ := (Bool.and_eq_true_iff).mp seen
  have run := (runs_of_evaluate ran).mono fun _ _ _ _ served =>
    recorded_of_logged (logged_of_logRun served)
  obtain ⟨same, _⟩ := (whole r t run).rejected _ (of_decide_eq_true refused) rfl
  have kept := same _ (inboxLive_data uid msgId)
  have empty : (Traced.init (sys Unit) : Log Unit).state.objects.get (keyInboxLive uid msgId) = none :=
    store_data (inboxLive_data uid msgId)
  rw [kept, empty] at here
  cases here

end Mixed

end Atmin
