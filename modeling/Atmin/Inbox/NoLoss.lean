import Atmin.Inbox.Compaction
import Atmin.Server.Sample

/-!
# No accepted envelope is lost

Deliveries and compactions keep the mailbox, so an envelope whose delivery was answered
with success is in the live inbox or in an archive from then on.
-/

namespace Atmin

open Interaction

section NoLoss

variable {ι : Type} {env : Env} {u : UserId} {req : ι → InboxRequest} {s0 : Sys ι} {i : ι}

/-! ### Compaction -/

theorem archiveBase_live (uid : String) : archiveBase (prefixInboxLive uid) = prefixInboxArchive uid := by
  rw [prefixInboxLive_eq, archiveBase_append, prefixInboxArchive]
  simp only [String.append_assoc]
  rfl

/-- A handler that keeps the mailbox and promises nothing of its reply. -/
abbrev Harmless (env : Env) (u : UserId) (req : ι → InboxRequest) (s0 : Sys ι) (i : ι) {α : Type}
    (h : Handler α) (s : Log ι) : Prop :=
  Safe (mailRules env u req s0) Recorded i (fun _ _ => True) h.run s

theorem archiveAndDelete_harmless (posting : Posting env u req) {day : String}
    {live archives : List String} {new existing : List Value} {s : Log ι}
    (agreeNew : ∀ x ∈ new, Agrees env u req x) (agreeOld : ∀ x ∈ existing, Agrees env u req x)
    (hand : (inHand live archives new existing : MailAssertion env u req s0 i) s) :
    Harmless env u req s0 i (archiveAndDelete (prefixInboxArchive u.str) day
      (Cbor.deduplicateByMsgId (existing ++ new)) (live ++ archives)) s := by
  have agree : ∀ x ∈ existing ++ new, Agrees env u req x := fun x member =>
    (List.mem_append.mp member).elim (agreeOld x) (agreeNew x)
  -- An entry that is waited for is the only one under its `msg_id`.
  have merged (x : Value) (member : x ∈ existing ++ new) (wanted : Wanted env u req x) :
      x ∈ Cbor.deduplicateByMsgId (existing ++ new) := by
    refine Cbor.mem_deduplicateFrom member (fun y other id named same => ?_) (fun _ _ h => nomatch h)
    obtain ⟨raw, msgId, mail, entry⟩ := wanted
    obtain ⟨j, h, carries, mine, rfl⟩ := mail
    have id_eq := entry_msgId carries.header entry named
    subst id_eq
    have twin := agree y other raw h.msgId ⟨j, h, carries, mine, rfl⟩ same
    exact Option.some.inj (twin.symm.trans entry)
  unfold Harmless archiveAndDelete
  simp only [run_bind, run_call, run_tryStore, ask_bind, Prog.op_bind, Prog.ret_bind]
  refine Safe.request (inHand live archives new existing) hand
    ((mint_unnoticed (inHand live archives new existing)).and (mints.of fun _ _ => trivial))
    fun id t after => ?_
  obtain ⟨hand, fresh, size, older, past, young, ids⟩ := after
  have old : ∀ key ∈ archives, archiveId key ∈ older := fun key member =>
    ids key (hand.2 key member).1.1 (hand.2 key member).1.2
  refine Safe.request ((inHand live archives new existing).and
    ((pending id).and ⟨fun s => older <:+ s.state.issued, fun _ _ _ _ change h =>
      h.trans change.issued⟩)) ⟨hand, fresh, past⟩
    (Atmin.archives posting lasting_inHand size young fun x member =>
      agree x (Cbor.deduplicate_subset member)) fun r v wrote => ?_
  cases r with
  | error e => exact fun _ _ => trivial
  | ok =>
    refine Safe.request ((inHand live archives new existing).and (archived older _))
      ⟨wrote.1, wrote.2 rfl⟩ (deletes posting old
        (fun x member => merged x (List.mem_append_right _ member))
        fun x member => merged x (List.mem_append_left _ member)) fun r w _ => ?_
    cases r <;> exact fun _ _ => trivial

/-- The live keys after they were read. -/
theorem readLive_safe (posting : Posting env u req) {keys : List String} {s : Log ι}
    (listed : ∀ key ∈ keys, (liveListed key : MailAssertion env u req s0 i) s) :
    Safe (mailRules env u req s0) Recorded i (fun r t => True ∧ ∀ new, r = .ok new →
      (∀ key ∈ keys, (liveRead key new : MailAssertion env u req s0 i) t) ∧
        ∀ x ∈ new, Agrees env u req x) (readLive keys).run s := by
  refine readObjects_safe (reads_unnoticed posting) ?_ (reads_live posting) keys (.pure True)
    trivial listed
  intro key some_ more t read more_
  refine ⟨read.1, fun raw msgId mail same => ?_⟩
  obtain ⟨x, entry, here⟩ := read.2 raw msgId mail same
  exact ⟨x, entry, here.imp_left (more_ x)⟩

/-- The archives after they were read, with what was in hand before. -/
theorem readArchives_safe (posting : Posting env u req) {keys : List String} {s : Log ι}
    (A : MailAssertion env u req s0 i) (here : A s)
    (listed : ∀ key ∈ keys, (archiveListed key : MailAssertion env u req s0 i) s) :
    Safe (mailRules env u req s0) Recorded i (fun r t => A t ∧ ∀ existing, r = .ok existing →
      (∀ key ∈ keys, (archiveRead key existing : MailAssertion env u req s0 i) t) ∧
        ∀ x ∈ existing, Agrees env u req x) (readArchives keys).run s := by
  refine readObjects_safe (reads_unnoticed posting) ?_ (reads_archive posting) keys A here listed
  intro key some_ more t read more_
  refine ⟨read.1, fun d found => ?_⟩
  obtain ⟨es, same, all⟩ := read.2 d found
  exact ⟨es, same, fun x member => more_ x (all x member)⟩

theorem compactKeys_harmless (posting : Posting env u req) {pages : Nat} {keys : List String}
    {s : Log ι} (listed : ∀ key ∈ keys, (liveListed key : MailAssertion env u req s0 i) s) :
    Harmless env u req s0 i (compactKeys env pages (prefixInboxLive u.str) keys) s := by
  have quiet (o : Op) (reads : o.reads = true) : MailUnnoticed env u req s0 i o :=
    reads_unnoticed posting o reads
  unfold Harmless compactKeys
  rw [run_bind]
  refine Safe.bind (readLive_safe posting listed) fun r t read => ?_
  cases r with
  | error e => exact fun _ _ => trivial
  | ok new =>
    obtain ⟨lives, agreeNew⟩ := read.2 new rfl
    let Lives : MailAssertion env u req s0 i := .each keys fun key => liveRead key new
    simp only [run_bind, run_call, ask_bind, Prog.op_bind, Prog.ret_bind, archiveBase_live]
    refine Safe.request Lives lives (quiet .utcNow rfl Lives) fun now t lives => ?_
    refine Safe.bind (collectAll_safe (lists_archives posting _) quiet pages none Lives lives)
      fun r t found => ?_
    cases r with
    | error e => exact fun _ _ => trivial
    | ok archives =>
      refine Safe.bind (readArchives_safe posting Lives found.1 (found.2 archives rfl))
        fun r t read => ?_
      cases r with
      | error e => exact fun _ _ => trivial
      | ok existing =>
        obtain ⟨olds, agreeOld⟩ := read.2 existing rfl
        refine Safe.bind (archiveAndDelete_harmless posting agreeNew agreeOld ⟨read.1, olds⟩)
          fun r t _ => ?_
        cases r <;> exact fun _ _ => trivial

theorem storeCompact_harmless (posting : Posting env u req) {pages : Nat}
    {token : Option String} {body : Option Json} (compacts : req i = .compact pages token body)
    (s : Log ι) : Harmless env u req s0 i (storeCompact env pages token body) s := by
  have owner := posting.owner i
  rw [compacts] at owner
  refine (Meets.authenticated (.pure True)
    (fun o passive => passive_unnoticed posting o passive _) trivial
    (fun _ _ _ => trivial) fun user t known _ => ?_ :
      Meets (mailRules env u req s0) Recorded (fun _ => .pure True) _ s)
  refine Meets.parsed (fun _ => trivial) fun body' parsed => ?_
  refine Meets.checked (fun _ => trivial) fun _ => ?_
  refine Meets.checked (fun _ => trivial) fun _ => ?_
  rw [owner.2 body' parsed]
  unfold Meets
  rw [run_bind]
  refine Safe.bind (collectLive_safe (lists_live posting) (reads_unnoticed posting) pages none (.pure True) trivial)
    fun r t found => ?_
  cases r with
  | error e => exact fun _ _ => trivial
  | ok keys =>
    dsimp only
    split
    · exact fun _ _ => trivial
    · exact compactKeys_harmless posting (found.2 keys rfl)

/-! ### Delivery -/

theorem deliver_unnoticed (posting : Posting env u req) {raw : Json} {h : EnvelopeHeader}
    (carries : (req i).Carries env raw h) : MailUnnoticed env u req s0 i
      (.putObject (keyInboxLive h.toUser h.msgId) (.json raw)) := by
  by_cases mine : h.toUser = u.str
  · rw [mine]
    refine .of fun s r t mailbox served => ?_
    have written {key : String} {d : Data}
        (put : Op.puts key (.putObject (keyInboxLive u.str h.msgId) (.json raw)) = some d) :
        key = keyInboxLive u.str h.msgId ∧ d = .json raw := by
      simp only [Op.puts, Option.ite_none_right_eq_some, Option.some.injEq] at put
      exact ⟨put.1, put.2.symm⟩
    have allowed : Allowed env u req s0 i s
        (.putObject (keyInboxLive u.str h.msgId) (.json raw)) := by
      refine ⟨fun key d put _ => ?_, fun key d put archive => ?_, fun _ _ _ removed => ?_,
        fun _ _ _ _ cover => keeps_cover (fun _ => rfl) cover⟩
      · exact ⟨raw, h.msgId, ⟨i, h, carries, mine, rfl⟩, written put⟩
      · rw [(written put).1] at archive
        exact absurd archive (live_not_archive (live_key u h.msgId))
      · cases removed
    have step (owned : ι → Prop) : Mailbox env u req s0 t ∧ Change env u req s0 owned s t := by
      refine allowed_step posting mailbox served (fun h => by cases h) allowed ?_
      intro j key _ archive put
      obtain ⟨d, put⟩ := Option.isSome_iff_exists.mp put
      rw [(written put).1] at archive
      exact absurd archive (live_not_archive (live_key u h.msgId))
    exact ⟨(step fun _ => True).1, (step _).2, (step _).2⟩
  · -- Another user's inbox: no key of it is a key of this one.
    let v : UserId := ⟨h.toUser, posting.addressed i raw h carries⟩
    have differ : v ≠ u := fun same => mine (congrArg UserId.str same)
    refine idle_unnoticed posting (fun h => by cases h) (fun key within => ?_) fun _ => rfl
    refine if_neg fun same => ?_
    rw [same] at within
    exact other_inbox differ h.msgId within

variable (env u req) in
/-- The envelope is well formed and, when it is for this user, delivered. -/
def Arrived (raw : Json) (s : Log ι) : Prop :=
  ∃ h, EnvelopeHeader.fromJson raw = some h ∧
    (h.toUser = u.str → Mail env u req raw h.msgId ∧ Delivered u raw h.msgId s)

def arrived (raw : Json) : MailAssertion env u req s0 i where
  holds := Arrived env u req raw
  stable s t _ _ change here := by
    obtain ⟨h, header, delivered⟩ := here
    refine ⟨h, header, fun mine => ⟨(delivered mine).1, ?_⟩⟩
    exact change.delivered raw h.msgId (delivered mine).1 (delivered mine).2

theorem arrived_of_put {raw : Json} {h : EnvelopeHeader} {s t : Log ι}
    {r : Res (.putObject (keyInboxLive h.toUser h.msgId) (.json raw))}
    (header : EnvelopeHeader.fromJson raw = some h) (carries : (req i).Carries env raw h)
    (served : Recorded i (.putObject (keyInboxLive h.toUser h.msgId) (.json raw)) s r t)
    (ok : r = .ok ()) : Arrived env u req raw t := by
  refine ⟨h, header, fun mine => ⟨⟨i, h, carries, mine, rfl⟩, .inl ?_⟩⟩
  rcases served_putObject served.1 with ⟨_, after⟩ | ⟨⟨_, _, _, fault⟩, _⟩
  · rw [after, mine]
    simp [Sys.put]
  · rw [ok] at fault
    cases fault

theorem deliver_safe (posting : Posting env u req) {user : AuthedUser} {envelopes : List Json}
    (carries : ∀ raw ∈ envelopes, ∀ h, EnvelopeHeader.fromJson raw = some h →
      h.fromUser = user.userId.str → h.fromDevice = user.deviceId.str → (req i).Carries env raw h)
    (A : MailAssertion env u req s0 i) {s : Log ι} (here : A s) :
    Safe (mailRules env u req s0) Recorded i (fun r t => A t ∧ ∀ recipients, r = .ok recipients →
      ∀ raw ∈ envelopes, (arrived raw : MailAssertion env u req s0 i) t)
      (deliver user envelopes).run s := by
  induction envelopes generalizing A s with
  | nil =>
    exact fun t moved => ⟨A.stable.others moved here, fun _ _ _ member => nomatch member⟩
  | cons raw rest ih =>
    have failed (e : ApiError) (t : Log ι) (after : A t) :
        Safe (mailRules env u req s0) Recorded i (fun r t => A t ∧ ∀ recipients,
          r = .ok recipients → ∀ raw' ∈ raw :: rest,
            (arrived raw' : MailAssertion env u req s0 i) t)
          (.ret (.error e) : Eff (Except ApiError (List String))) t :=
      fun v moved => ⟨A.stable.others moved after, fun _ same => nomatch same⟩
    simp only [deliver, run_bind]
    cases header : EnvelopeHeader.fromJson raw with
    -- an envelope that is refused ends the delivery
    | none => exact failed _ s here
    | some h =>
      simp only [run_orFail_some, Prog.ret_bind, run_check]
      split
      next a signed =>
        split at signed
        next mine =>
          simp only [decide_eq_true_eq] at mine
          have carried := carries raw List.mem_cons_self h header mine.1 mine.2
          have quiet : MailUnnoticed env u req s0 i
              (.putObject (keyInboxLive h.toUser h.msgId) (.json raw)) :=
            deliver_unnoticed posting carried
          -- once the write has succeeded the envelope has arrived, whatever happens to the rest
          have arrives : MailServes env u req s0 i
              (.putObject (keyInboxLive h.toUser h.msgId) (.json raw)) A
              fun r t => r = .ok () → Arrived env u req raw t :=
            quiet.serves A fun s r t _ _ served ok => arrived_of_put header carried served ok
          simp only [writeJson, run_tryStore, ask_bind, Prog.op_bind]
          refine Safe.request A here ((quiet A).and arrives) fun r t after => ?_
          cases r with
          | error e => exact failed _ t after.1
          | ok =>
            simp only [Prog.ret_bind]
            refine Safe.bind (ih (fun raw' member => carries raw' (List.mem_cons_of_mem _ member))
              (A.and (arrived raw)) ⟨after.1, after.2 rfl⟩) fun r v done => ?_
            cases r with
            | error e => exact failed e v done.1.1
            | ok recipients =>
              refine fun x moved => ⟨A.stable.others moved done.1.1, fun _ _ raw' member => ?_⟩
              refine (arrived raw').stable.others moved ?_
              rcases List.mem_cons.mp member with rfl | later
              · exact done.1.2
              · exact done.2 recipients rfl raw' later
        next => cases signed
      next e _ => exact failed _ s here

variable (env u req) in
/-- What a success answer of slot `i` is worth. -/
def Accepted (i : ι) (s : Log ι) : Prop :=
  ∀ token body envelopes, req i = .send token body → body.bind sendEnvelopes = some envelopes →
    ∀ raw ∈ envelopes, Arrived env u req raw s

/-- The answer of slot `i`, for which `Accepted` has to hold when it is a success. -/
def answer (i : ι) (r : Except ApiError Unit) : MailAssertion env u req s0 i where
  holds s := r = .ok () → Accepted env u req i s
  stable := .imp (.all fun _ => .all fun _ => .all fun _ => .imp (.imp (.all fun raw =>
    .imp (arrived raw).stable)))

theorem notifyAll_safe (posting : Posting env u req) (recipients : List String)
    (A : MailAssertion env u req s0 i) {s : Log ι} (here : A s) :
    Safe (mailRules env u req s0) Recorded i (fun _ t => A t) (notifyAll recipients).run s := by
  induction recipients generalizing s with
  | nil => exact fun t moved => A.stable.others moved here
  | cons uid rest ih =>
    simp only [notifyAll, run_bind, run_call, ask_bind, Prog.op_bind, Prog.ret_bind]
    exact Safe.request A here (passive_unnoticed posting _ rfl A) fun _ t after => ih after

theorem send_meets (posting : Posting env u req) {token : Option String} {body : Option Json}
    (sends : req i = .send token body) (s : Log ι) :
    Meets (mailRules env u req s0) Recorded (answer i) (send env token body) s := by
  have none_ (e : ApiError) (t : Log ι) : (answer i (.error e) : MailAssertion env u req s0 i) t :=
    fun same => nomatch same
  refine Meets.authenticated (.pure True) (fun o passive => passive_unnoticed posting o passive _)
    trivial (fun e t _ => none_ e t) fun user t known _ => ?_
  refine Meets.parsed (fun _ => none_ _ t) fun envelopes parsed => ?_
  refine Meets.bind (deliver_safe posting (fun raw member h header sender device => ?_) (.pure True)
    trivial) (fun e t _ => none_ e t) fun recipients t done => ?_
  · rw [sends]
    exact ⟨user, envelopes, known, parsed, member, header, sender, device⟩
  · let All : MailAssertion env u req s0 i := .each envelopes fun raw => arrived raw
    refine (notifyAll_safe posting _ All (done.2 recipients rfl)).weaken fun r v all _ => ?_
    intro token' body' envelopes' same parsed' raw member
    rw [sends] at same
    cases same
    rw [parsed] at parsed'
    cases parsed'
    exact all raw member

/-! ### All requests together -/

variable (env req) in
/-- Deliveries and compactions, any storage request of which may fail. -/
def inbox : System ι Op Res (Except ApiError Unit) (Log ι) where
  prog i := ((req i).run env).run
  exec := Recorded

theorem inboxContracts (posting : Posting env u req) :
    Contracts (mailRules env u req s0) (inbox env req) (fun _ _ => True)
      fun i r => (answer i r : MailAssertion env u req s0 i) where
  stable _ := .const True
  arrives i s _ _ := by
    show Safe _ _ i _ ((req i).run env).run s
    cases slot : req i with
    | send token body => exact send_meets posting slot s
    | compact pages token body =>
      simp only [InboxRequest.run, run_bind]
      refine Safe.bind (storeCompact_harmless posting slot s) fun r t _ => ?_
      have none_ (r : Except ApiError Unit) (v : Log ι) :
          (answer i r : MailAssertion env u req s0 i) v := by
        intro _ token' body' envelopes sends
        rw [slot] at sends
        cases sends
      cases r <;> exact fun v _ => none_ _ v

variable [DecidableEq ι]

theorem no_envelope_lost (posting : Posting env u req) (prepared : Prepared env u req s0)
    {w : World ι Op Res (Except ApiError Unit) (Log ι)}
    (reached : Reach (inbox env req) (Traced.init s0) w) {i : ι}
    (accepted : w.procs i = .done (.ok ())) {token : Option String} {body : Option Json}
    {envelopes : List Json} (sent : req i = .send token body)
    (parsed : body.bind sendEnvelopes = some envelopes) {raw : Json} (member : raw ∈ envelopes) :
    ∃ h, EnvelopeHeader.fromJson raw = some h ∧
      (h.toUser = u.str → Delivered u raw h.msgId w.sys) := by
  have secured : Secured (mailRules env u req s0) (inbox env req) (fun _ _ => True)
      (fun i r => (answer i r : MailAssertion env u req s0 i)) w :=
    (Secured.init (mailbox_init prepared) fun _ => trivial).run (inboxContracts posting) reached
  have slot := secured.2 i
  rw [accepted] at slot
  obtain ⟨h, header, delivered⟩ := slot.post rfl token body envelopes sent parsed raw member
  exact ⟨h, header, fun mine => (delivered mine).2⟩

end NoLoss

/-! ### A message that arrives and is compacted -/

section Arrives

open Sample

/-- A delivery, and a compaction of the live inbox. -/
def sendAndCompact : Bool → InboxRequest
  | false => .send token (some mail)
  | true => .compact 1 token
      (some (.obj [("prefix", .str (prefixInboxLive uid)), ("up_to", .str msgId)]))

theorem envelope_header : EnvelopeHeader.fromJson envelope = some ⟨uid, uid, did, msgId⟩ := by
  have readable := @Json.members_obj ["to_user", "from_user", "from_device", "msg_id"]
    [("to_user", .str uid), ("from_user", .str uid), ("from_device", .str did),
      ("msg_id", .str msgId), ("ciphertext", .str "AAAA")] (by simp)
  rw [EnvelopeHeader.fromJson, envelope, readable]
  simp

theorem mail_envelopes : (some mail).bind sendEnvelopes = some [envelope] := by
  have readable := @Json.members_obj ["envelopes"] [("envelopes", .arr [envelope])] (by simp)
  rw [Option.bind_some, sendEnvelopes, mail, readable]
  simp [Json.asArr]

theorem carried {raw : Json} {h : EnvelopeHeader} {i : Bool}
    (carries : (sendAndCompact i).Carries env raw h) : raw = envelope ∧ h = ⟨uid, uid, did, msgId⟩ := by
  cases i with
  | true => exact carries.elim
  | false =>
    obtain ⟨_, envelopes, _, parsed, member, header, _⟩ := carries
    rw [mail_envelopes] at parsed
    cases parsed
    cases List.mem_singleton.mp member
    rw [envelope_header] at header
    exact ⟨rfl, (Option.some.inj header).symm⟩

theorem sendAndCompact_posting : Posting env user sendAndCompact where
  addressed i raw h carries := by
    rw [(carried carries).2]
    exact user.ulid
  identical := by
    rintro raw raw' msgId ⟨i, h, first, _⟩ ⟨j, h', second, _⟩
    rw [(carried first).1, (carried second).1]
  owner i := by
    cases i with
    | false => trivial
    | true =>
      refine ⟨fun user known => ?_, fun req parsed => ?_⟩
      · exact token_user known
      · cases parsed
        rfl

theorem store_prepared : Prepared env user sendAndCompact (Sample.sys Bool) where
  live _ msgId _ _ found := by
    have within := inbox_of_live (live_key user msgId)
    rw [sys_objects, store_inbox within] at found
    cases found
  agreeLive key d x live found := by
    rw [sys_objects, store_inbox (inbox_of_live live)] at found
    cases found
  agreeArchive key es x archive found := by
    rw [sys_objects, store_inbox (inbox_of_archive archive)] at found
    cases found
  issued key archive present := by
    rw [sys_objects, store_inbox (inbox_of_archive archive)] at present
    cases present

/-- The delivery runs to its end, then the compaction. -/
def inTurns : List (Bool × Choice) :=
  List.replicate 8 (false, .ok) ++ List.replicate 5 (true, .ok) ++
    [(true, .read 0), (true, .ok), (true, .mint "01BX5ZZKBKACTAV9WEVGEMMVS1")] ++
    List.replicate 3 (true, .ok)

theorem both_succeed : ((World.init (Traced.init (Sample.sys Bool))).follow logRun
    (inbox env sendAndCompact).prog inTurns).any (fun w => succeeded false w && succeeded true w &&
      (w.sys.state.objects.get (keyInboxLive uid msgId)).isNone) = true := by
  decide +kernel

/-- The live object is gone, and its entry is in an archive. -/
theorem message_archived : ∃ w, Reach (inbox env sendAndCompact) (Traced.init (Sample.sys Bool)) w ∧
    (∀ i, w.procs i = .done (.ok ())) ∧ w.sys.state.objects.get (keyInboxLive uid msgId) = none ∧
      Delivered user envelope msgId w.sys := by
  obtain ⟨w, followed, checked⟩ := (Option.any_eq_true _ _).mp both_succeed
  rw [Bool.and_eq_true, Bool.and_eq_true, Option.isNone_iff_eq_none] at checked
  obtain ⟨⟨sent, compacted⟩, gone⟩ := checked
  have reached : Reach (inbox env sendAndCompact) (Traced.init (Sample.sys Bool)) w :=
    steps_mono (fun _ _ _ _ _ served => recorded_of_logged served) (steps_of_logRun followed)
  obtain ⟨h, header, delivered⟩ := no_envelope_lost sendAndCompact_posting store_prepared reached
    (done_of_succeeded sent) rfl mail_envelopes List.mem_cons_self
  rw [envelope_header] at header
  cases header
  refine ⟨w, reached, fun i => ?_, gone, delivered rfl⟩
  cases i with
  | false => exact done_of_succeeded sent
  | true => exact done_of_succeeded compacted

end Arrives

end Atmin
