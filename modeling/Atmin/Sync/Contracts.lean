import Atmin.Sync.Provenance

/-!
# Contracts of the syncing functions

What each function of a sync ensures, whatever the other tasks and the surroundings do in
between: its messages come from accepted envelopes, and each envelope it has read is
accounted for unless a skip was counted.
-/

namespace Atmin.Web

open Interaction

variable {α β : Type}

/-! ### Functions that record nothing about messages -/

/-- All steps of the function satisfy `ok`. -/
abbrev Within (ok : Act → Prop) (h : Async α) : Prop := Prog.Only ok (fun _ => True) h.run

/-- All steps of the function are quiet. -/
abbrev Quietly (h : Async α) : Prop := Within (fun act => act.quiet = true) h

/-- The requests of a sync of the inbox, before anything is saved. -/
def Act.fetches : Act → Bool
  | .storeList .. | .storeGet _ | .spawn _ | .loadSyncCursor _ | .saveSyncCursor .. | .loadMessageIds _
  | .loadIngestedArchiveKeys | .loadInboundSession _ | .saveInboundSession _ | .cachedInbound _
  | .cacheInbound _ => true
  | _ => false

/-- The function only fetches. -/
abbrev Fetches (h : Async α) : Prop := Within (fun act => act.fetches = true) h

namespace Within

variable {ok : Act → Prop}

theorem bind {h : Async α} {f : α → Async β} (first : Within ok h) (rest : ∀ a, Within ok (f a)) :
    Within ok (h >>= f) := by
  unfold Within
  rw [Async.run_bind]
  refine Prog.Only.bind first fun r _ => ?_
  cases r with
  | ok a => exact rest a
  | error e => exact .ret trivial

theorem pure (a : α) : Within ok (pure a : Async α) := .ret trivial

theorem await {p : Prog Act Reply (Except Thrown α)} (within : Prog.Only ok (fun _ => True) p) :
    Within ok (Atmin.Web.await p) := within

theorem sync {act : Act} (within : ok act) : Within ok (Atmin.Web.sync (step act)) :=
  .op within fun _ => .ret trivial

theorem attempt {h : Async α} (within : Within ok h) : Within ok (Atmin.Web.attempt h) :=
  Prog.Only.bind within fun _ _ => .ret trivial

theorem ofExcept (r : Except Thrown α) : Within ok (Atmin.Web.ofExcept r) := .ret trivial

theorem orThrow (e : Thrown) (o : Option α) : Within ok (Atmin.Web.orThrow e o) := by
  cases o <;> exact .ret trivial

end Within

theorem Fetches.quietly {h : Async α} (fetches : Fetches h) : Quietly h := by
  refine Prog.Only.mono fetches fun act fetches => ?_
  cases act <;> first | rfl | cases fetches

theorem addInbound_fetches (crypto : Crypto) (fromUser fromDevice : Js) (key : String) :
    Fetches (addInbound crypto fromUser fromDevice key) := by
  unfold addInbound
  refine .bind (.orThrow _ _) fun session => .bind (.sync rfl) fun cached => ?_
  cases cached with
  | some stored => exact .pure _
  | none =>
    refine .bind (.await (.op rfl fun _ => .ret trivial)) fun found => ?_
    cases found with
    | some stored => exact .bind (.sync rfl) fun _ => .pure _
    | none => exact .bind (.sync rfl) fun _ => .bind (.await (.op rfl fun _ => .ret trivial)) fun _ => .pure _

theorem applyKeyShare_fetches (page : Page) (envelope : Js) :
    Fetches (applyKeyShare page envelope) := by
  unfold applyKeyShare
  refine .bind (.ofExcept _) fun _ => .bind (.ofExcept _) fun _ => .bind (.ofExcept _) fun _ =>
    .bind (addInbound_fetches _ _ _ _) fun added => ?_
  obtain ⟨inbound, isNew⟩ := added
  dsimp only
  split
  · exact .sync rfl
  · exact .pure _

theorem applyKeyShares_fetches (page : Page) (seen : List Js) (es : List Keyed) :
    Fetches (applyKeyShares page seen es) := by
  induction es with
  | nil => exact .pure _
  | cons e rest ih =>
    refine .bind (.ofExcept _) fun _ => .bind (.ofExcept _) fun _ => ?_
    split
    · exact .bind (.attempt (applyKeyShare_fetches page _)) fun _ => ih
    · exact ih

theorem persistInbounds_fetches (ids : List String) : Fetches (persistInbounds ids) := by
  induction ids with
  | nil => exact .pure _
  | cons id rest ih =>
    refine .bind (.bind (.sync rfl) fun cached => ?_) fun _ => ih
    cases cached with
    | some stored => exact .await (.op rfl fun _ => .ret trivial)
    | none => exact .pure _

theorem advanceCursor_fetches (page : Page) (live : LiveResult) :
    Fetches (advanceCursor page live) := by
  unfold advanceCursor
  split
  · exact .pure _
  · exact .bind (.await (.op rfl fun _ => .ret trivial)) fun _ => .bind (.sync rfl) fun _ => .sync rfl

theorem triggerFlush_fetches (page : Page) : Fetches (triggerFlush page) := by
  unfold triggerFlush
  split
  · exact .sync rfl
  · exact .pure _

theorem getConversations_within {ok : Act → Prop} (reads : ∀ id, ok (.getConversation id))
    (ids : List Js) : Within ok (getConversations ids) := by
  induction ids with
  | nil => exact .pure _
  | cons id rest ih =>
    exact .bind (.await (.op (reads id) fun _ => .ret trivial)) fun _ => .bind ih fun _ => .pure _

theorem recomputeAmendedSummaries_within {ok : Act → Prop} (reads : ∀ id, ok (.getConversation id))
    (all : ∀ userId, ok (.getAllMessages userId)) (writes : ∀ rows, ok (.putConversations rows))
    (parse : String → Option Json) (render : Js → String) (userId : String) (ids : List Js) :
    Within ok (recomputeAmendedSummaries parse render userId ids) := by
  refine .bind (.await (.op (all userId) fun _ => .ret trivial)) fun _ =>
    .bind (getConversations_within reads ids) fun _ => ?_
  dsimp only
  split
  · exact .pure _
  · exact .await (.op (writes _) fun _ => .ret trivial)

theorem listLive_fetches (pre : String) (cursor : Option String) : Fetches (listLive pre cursor) := by
  refine .bind (.attempt (.await (.op rfl fun _ => .ret trivial))) fun listed => ?_
  cases listed with
  | ok page => exact .pure _
  | error e => exact .await (.op rfl fun _ => .ret trivial)

/-! ### Rules of a sync -/

variable [CborDecoder]

/-- Every task keeps the invariant, and may rely on the others to take nothing back. -/
def syncRules (ι : Type) (account : Account) (reliable : Prop) : Rules ι State where
  inv := Sourced account reliable
  rely _ := Grows
  guar _ := Grows
  compat _ _ _ _ _ _ _ h := h

variable {ι : Type} {account : Account} {allow : Act → Outcome → Bool} {epoch : ι → Nat} {i : ι}
  {s : State}

/-- Started in `s`, the program keeps the rules and its answer satisfies `Q`. -/
abbrev Ensures (account : Account) (allow : Act → Outcome → Bool) (epoch : ι → Nat) (i : ι)
    (Q : α → State → Prop) (p : Prog Act Reply α) (s : State) : Prop :=
  Safe (syncRules ι account (Reliable allow)) (Taking allow epoch) i Q p s

theorem others_grow {reliable : Prop} {s t : State}
    (moved : (syncRules ι account reliable).Others i s t) : Grows s t := by
  induction moved with
  | refl => exact .refl _
  | tail _ last ih => exact ih.trans last.2.2

namespace Ensures

theorem ret {Q : α → State → Prop} {a : α} (holds : ∀ t, Grows s t → Q a t) :
    Ensures account allow epoch i Q (.ret a) s :=
  fun t moved => holds t (others_grow moved)

/-- A step without precondition: what follows knows the state it was taken in. -/
theorem quiet {Q : α → State → Prop} {act : Act} {k : Reply act → Prog Act Reply α}
    (quiet : act.quiet = true)
    (rest : ∀ s' c r t, Grows s s' → Sourced account (Reliable allow) s' → allow act c = true →
      perform act c s' = some (r, t) → Sourced account (Reliable allow) t → Grows s' t →
      Ensures account allow epoch i Q (k r) t) :
    Ensures account allow epoch i Q (.op act k) s := by
  intro s' moved inv r t served
  obtain ⟨c, _, allowed, done⟩ := taking_iff.mp served
  obtain ⟨kept, grows⟩ := quiet_step inv quiet done
  exact ⟨kept, grows, rest s' c r t (others_grow moved) inv allowed done kept grows⟩

/-- Follow a program: what comes after sees a state that has grown. -/
theorem andThen {P : α → State → Prop} {Q : β → State → Prop} {p : Prog Act Reply α}
    {f : α → Prog Act Reply β} (first : Ensures account allow epoch i P p s)
    (rest : ∀ a t, Grows s t → P a t → Ensures account allow epoch i Q (f a) t) :
    Ensures account allow epoch i Q (p.bind f) s :=
  Safe.bind (first.relates Grows.refl (fun _ _ _ => Grows.trans) (fun _ _ h => h) fun _ _ h => h)
    fun a t after => rest a t after.2 after.1

/-- A call inside an `async` function: what it throws, the function throws. -/
theorem call {P : Except Thrown α → State → Prop} {Q : Except Thrown β → State → Prop}
    {h : Async α} {f : α → Async β} (first : Ensures account allow epoch i P h.run s)
    (thrown : ∀ e t, Grows s t → P (.error e) t → Q (.error e) t)
    (rest : ∀ a t, Grows s t → P (.ok a) t → Ensures account allow epoch i Q (f a).run t) :
    Ensures account allow epoch i Q (h >>= f).run s := by
  rw [Async.run_bind]
  refine andThen first.lasting fun r t grows after => ?_
  cases r with
  | ok a => exact rest a t grows (after t .refl)
  | error e => exact fun u moved => thrown e u (grows.trans (others_grow moved)) (after u moved)

/-- `try`: nothing is thrown past it. -/
theorem attempt {P : Except Thrown α → State → Prop} {Q : Except Thrown β → State → Prop}
    {h : Async α} {f : Except Thrown α → Async β} (first : Ensures account allow epoch i P h.run s)
    (rest : ∀ r t, Grows s t → P r t → Ensures account allow epoch i Q (f r).run t) :
    Ensures account allow epoch i Q (Atmin.Web.attempt h >>= f).run s := by
  simp only [Async.run_bind, run_attempt, Prog.bind_assoc, Prog.ret_bind]
  exact andThen first rest

/-- A pure computation that may throw. -/
theorem pureStep {Q : Except Thrown β → State → Prop} {r : Except Thrown α} {f : α → Async β}
    (thrown : ∀ e, r = .error e → ∀ t, Grows s t → Q (.error e) t)
    (rest : ∀ a, r = .ok a → Ensures account allow epoch i Q (f a).run s) :
    Ensures account allow epoch i Q (ofExcept r >>= f).run s := by
  cases r with
  | ok a => exact rest a rfl
  | error e => exact ret (thrown e rfl)

end Ensures

theorem Quietly.ensures {h : Async α} (quiet : Quietly h) :
    Ensures account allow epoch i (fun _ _ => True) h.run s := by
  suffices all : ∀ p : Prog Act Reply (Except Thrown α),
      p.Only (fun act : Act => act.quiet = true) (fun _ => True) → ∀ s,
      Ensures account allow epoch i (fun _ _ => True) p s from all h.run quiet s
  intro p only
  induction only with
  | ret _ => exact fun s => Ensures.ret fun _ _ => trivial
  | op quiet _ ih => exact fun s => Ensures.quiet quiet fun _ _ r t _ _ _ _ _ _ => ih r t

/-! ### Reading one envelope -/

/-- The session found is held under the id asked for; an error means no id, or a failed read. -/
def GotInbound (allow : Act → Outcome → Bool) (sessionId : Js) (t : State) :
    Except Thrown (Option Inbound) → Prop
  | .ok (some k) => sessionId = .str k.sessionId ∧ k ∈ t.held
  | .ok none => True
  | .error _ => Reliable allow → sessionId.asStr = none

theorem loadInbound_ensures (sessionId : Js) : Ensures account allow epoch i
    (fun r t => GotInbound allow sessionId t r) (loadInbound sessionId).run s := by
  unfold loadInbound
  simp only [Async.run_bind, run_await, step_bind]
  refine Ensures.quiet rfl fun s' c r t _ inv allowed done _ _ => ?_
  simp only [perform] at done
  obtain ⟨rfl, reply⟩ := reading_cases done
  rcases reply with rfl | ⟨e, rfl, rfl⟩
  · cases sessionId with
    | str id =>
      dsimp only
      cases found : t.db.inbound.get id with
      | none => exact Ensures.ret fun _ _ => trivial
      | some stored =>
        simp only [Async.run_bind, run_sync, step_bind, Prog.op_bind, Prog.ret_bind]
        refine Ensures.quiet rfl fun t' c' r u grows inv' _ cached _ _ => ?_
        cases c' <;> simp only [perform, Option.some.injEq, Prod.mk.injEq, reduceCtorEq] at cached
        obtain ⟨_, rfl⟩ := cached
        exact Ensures.ret fun v later =>
          ⟨by rw [inv.stored id stored found], later.held List.mem_cons_self⟩
    | _ =>
      dsimp only
      split
      next h =>
        split at h
        · cases h; exact Ensures.ret fun _ _ => trivial
        · cases h
      next h => exact Ensures.ret fun _ _ _ => rfl
  · exact Ensures.ret fun _ _ reliable => absurd allowed (by simp [reliable sessionId e])

theorem getInbound_ensures (sessionId : Js) : Ensures account allow epoch i
    (fun r t => GotInbound allow sessionId t r) (getInbound sessionId).run s := by
  unfold getInbound
  cases named : sessionId.asStr with
  | none => exact loadInbound_ensures sessionId
  | some id =>
    simp only [Async.run_bind, run_sync, step_bind, Prog.op_bind, Prog.ret_bind]
    refine Ensures.quiet rfl fun s' c r t _ inv _ done _ _ => ?_
    cases c <;> simp only [perform, Option.some.injEq, Prod.mk.injEq, reduceCtorEq] at done
    obtain ⟨rfl, rfl⟩ := done
    have same : sessionId = .str id := by
      cases sessionId <;> simp_all [Js.asStr]
    cases found : s'.memory.inboundCache.get id with
    | none => exact loadInbound_ensures sessionId
    | some stored =>
      obtain ⟨named, held⟩ := inv.cached id stored found
      exact Ensures.ret fun _ later => ⟨by rw [same, named], later.held held⟩

/-- What reading one envelope makes of what was gathered. -/
inductive Reads (account : Account) (e : Js) (acc : Gathered) : Gathered → Prop where
  /-- No message, or one whose id was seen. -/
  | idle : (∀ id, IsMessage e id → id.isIn acc.seen = true) → Reads account e acc acc
  | skip : Reads account e acc acc.skip
  | opened {k : Inbound} {text : String} {m : DecryptedMessage} : IsMessage e m.id →
      Opens account.crypto k e text → decryptedMessage account e text = .ok m →
      Reads account e acc ((acc.advance k.sessionId).push m)
  | undated {k : Inbound} {text : String} {thrown : Thrown} :
      Opens account.crypto k e text → decryptedMessage account e text = .error thrown →
      Reads account e acc (acc.advance k.sessionId)

section Opening

omit [CborDecoder]

theorem decryptPayload_iff {k : Inbound} {payload : Js} {text : String} :
    decryptPayload account k payload = .ok text ↔ ∃ ciphertext,
      payload.member "ciphertext" = .ok (.str ciphertext) ∧
        k.decrypt account.crypto ciphertext = some text := by
  unfold decryptPayload
  cases member : payload.member "ciphertext" with
  | error e => simp [bind, Except.bind]
  | ok c =>
    simp only [bind, Except.bind, Except.ok.injEq]
    cases c <;> simp [Js.asStr, pure, Except.pure, throw, throwThe, MonadExceptOf.throw]
    next ct => cases h : k.decrypt account.crypto ct <;> simp

/-- A value whose member cannot be read has no members at all. -/
theorem member_error {x : Js} {name : String} {e : Thrown} (thrown : x.member name = .error e)
    (other : String) : x.member other = .error e := by
  cases x <;> simp_all [Js.member]

theorem member_ok {e x : Js} {name : String} (found : e.member name = .ok x) (other : String) :
    ∃ y, e.member other = .ok y := by
  cases e with
  | undefined | null => cases found
  | _ => exact ⟨_, rfl⟩

/-- Where the fields of a materialised message come from. -/
theorem decryptedMessage_ok {e : Js} {text : String} {m : DecryptedMessage}
    (made : decryptedMessage account e text = .ok m) :
    e.member "msg_id" = .ok m.id ∧ e.member "from_user" = .ok m.fromUser ∧
      e.member "from_device" = .ok m.fromDevice ∧ m.text = text ∧
      (∃ payload conversation, e.member "payload" = .ok payload ∧
        payload.member "conversation_id" = .ok conversation ∧
        m.conversationId = conversation.orElse (conversationWith m.fromUser account.userId.str)) ∧
      ∃ sentAt, e.member "sent_at" = .ok sentAt ∧
        account.date (sentAt.orElse (.num (.int 0))) = .ok m.timestamp := by
  simp only [decryptedMessage, except_bind_ok, pure, Except.pure, Except.ok.injEq] at made
  obtain ⟨id, named, payload, found, conversation, inside, fromUser, sender, fromDevice, device,
    sentAt, sent, timestamp, dated, rfl⟩ := made
  exact ⟨named, sender, device, rfl, ⟨payload, conversation, found, inside, rfl⟩, sentAt, sent, dated⟩

/-- Whether the fields can be read does not depend on the text. -/
theorem decryptedMessage_error {e : Js} {text : String} {thrown : Thrown}
    (failed : decryptedMessage account e text = .error thrown) (other : String) :
    ∃ thrown, decryptedMessage account e other = .error thrown := by
  cases made : decryptedMessage account e other with
  | error thrown => exact ⟨thrown, rfl⟩
  | ok m =>
    have again : decryptedMessage account e text = .ok { m with text } := by
      simp only [decryptedMessage, except_bind_ok, pure, Except.pure, Except.ok.injEq] at made ⊢
      obtain ⟨id, named, payload, found, conversation, inside, fromUser, sender, fromDevice, device,
        sentAt, sent, timestamp, dated, rfl⟩ := made
      exact ⟨id, named, payload, found, conversation, inside, fromUser, sender, fromDevice, device,
        sentAt, sent, timestamp, dated, rfl⟩
    rw [failed] at again
    cases again

/-- An error while reading an envelope means that it was passed over. -/
def ReadOr (account : Account) (allow : Act → Outcome → Bool) (e : Js) (acc : Gathered)
    (r : Except Thrown Gathered) (t : State) : Prop :=
  match r with
  | .ok acc' => Reads account e acc acc'
  | .error _ => Reliable allow → PassedOver account t e

theorem openMessage_reads {e payload : Js} {k : Inbound} {acc : Gathered} {t : State}
    (type_ : e.member "content_type" = .ok (.str "megolm.message"))
    (found : e.member "payload" = .ok payload)
    (session : payload.member "session_id" = .ok (.str k.sessionId)) (held : k ∈ t.held) :
    ReadOr account allow e acc (openMessage account e payload k acc) t := by
  unfold openMessage
  cases opened : decryptPayload account k payload with
  | error thrown =>
    intro _ k' text opens
    obtain ⟨payload', ct, found', session', cipher, decrypted⟩ := opens
    obtain rfl : payload = payload' := Except.ok.inj (found.symm.trans found')
    have same : k.sessionId = k'.sessionId := by
      simpa using session.symm.trans session'
    refine .inl ⟨k, held, same, fun text' opens' => ?_⟩
    obtain ⟨payload', ct', found', _, cipher', decrypted'⟩ := opens'
    obtain rfl : payload = payload' := Except.ok.inj (found.symm.trans found')
    have := decryptPayload_iff.mpr ⟨ct', cipher', decrypted'⟩
    rw [opened] at this
    cases this
  | ok text =>
    obtain ⟨ct, cipher, decrypted⟩ := decryptPayload_iff.mp opened
    have opens : Opens account.crypto k e text := ⟨payload, ct, found, session, cipher, decrypted⟩
    simp only [bind, Except.bind]
    cases made : decryptedMessage account e text with
    | ok m => exact .opened ⟨type_, (decryptedMessage_ok made).1⟩ opens made
    | error thrown => exact .undated opens made

end Opening

theorem readEnvelope_ensures (page : Page) (e : Js) (acc : Gathered) :
    Ensures page.toAccount allow epoch i (fun r t => ReadOr page.toAccount allow e acc r t)
      (readEnvelope page e acc).run s := by
  -- an envelope that lacks a member holds no message that could be missed
  have nothing {name : String} {thrown : Thrown} (h : e.member name = .error thrown) (t : State) :
      PassedOver page.toAccount t e := by
    rintro k text ⟨payload, _, found, _⟩
    rw [member_error h] at found
    cases found
  unfold readEnvelope
  refine Ensures.pureStep (fun _ h t _ _ => nothing h t) fun contentType type_ => ?_
  refine Ensures.pureStep (fun _ h t _ _ => nothing h t) fun msgId named => ?_
  split
  -- a message that is not seen yet
  next wanted =>
    simp only [Bool.and_eq_true, Bool.not_eq_true'] at wanted
    have isMessage : e.member "content_type" = .ok (.str "megolm.message") := by
      have same : Js.same (.str "megolm.message") contentType = true := by
        cases contentType <;> simp_all [Js.same]
      rw [type_, (Js.same_str _ _).mp same]
    refine Ensures.pureStep (fun _ h t _ _ => nothing h t) fun payload found => ?_
    refine Ensures.pureStep (fun _ h t _ _ k text opens => ?_) fun sessionId session => ?_
    · obtain ⟨payload', _, found', session', _⟩ := opens
      obtain rfl : payload = payload' := Except.ok.inj (found.symm.trans found')
      rw [h] at session'
      cases session'
    -- reliable reads of sessions do not throw
    refine Ensures.call (getInbound_ensures sessionId) (fun thrown t _ got reliable k text opens => ?_)
      fun found' t _ got => ?_
    · obtain ⟨payload', _, found', session', _⟩ := opens
      obtain rfl : payload = payload' := Except.ok.inj (found.symm.trans found')
      obtain rfl : sessionId = .str k.sessionId := Except.ok.inj (session.symm.trans session')
      cases got reliable
    · cases found' with
      | none => exact Ensures.ret fun _ _ => .skip
      | some k =>
        obtain ⟨rfl, held⟩ := got
        exact Ensures.ret fun u later => openMessage_reads isMessage found session (later.held held)
  -- seen before, or no message
  next unwanted =>
    refine Ensures.ret fun _ _ => .idle fun id message => ?_
    rw [message.1] at type_
    rw [message.2] at named
    cases type_
    cases named
    simpa [Js.same] using unwanted

/-! ### Reading many envelopes -/

omit [CborDecoder] in
theorem isIn_addOnce {x y : Js} {set : List Js} (h : x.isIn (addOnce y set) = true) :
    x.isIn set = true ∨ x = y := by
  unfold addOnce at h
  split at h
  · exact .inl h
  · rcases Js.isIn_append.mp h with old | new
    · exact .inl old
    · exact .inr (List.mem_singleton.mp (Js.mem_of_isIn new))

/-- What reading the envelopes has gathered, from `acc` on. -/
structure Gathers (account : Account) (reliable : Prop) (t : State) (es : List Js)
    (acc acc' : Gathered) : Prop where
  kept : acc.messages ⊆ acc'.messages
  messages : ∀ m ∈ acc'.messages, m ∈ acc.messages ∨ ∃ e ∈ es, Materializes account e m
  seen : ∀ x, x.isIn acc'.seen = true → x.isIn acc.seen = true ∨ ∃ m ∈ acc'.messages, m.id = x
  skips : acc.recoverableSkips ≤ acc'.recoverableSkips
  accounted : acc'.recoverableSkips = acc.recoverableSkips → reliable → ∀ e ∈ es, ∀ id,
    IsMessage e id → id.isIn acc.seen = true ∨ (∃ m ∈ acc'.messages, m.id = id) ∨
      PassedOver account t e

namespace Gathers

omit [CborDecoder]

variable {reliable : Prop} {t u : State} {es es' : List Js} {e : Js} {acc acc₁ acc₂ : Gathered}

theorem nil : Gathers account reliable t [] acc acc where
  kept := fun _ h => h
  messages := fun _ h => .inl h
  seen := fun _ h => .inl h
  skips := Nat.le_refl _
  accounted := fun _ _ _ h => absurd h List.not_mem_nil

theorem append (first : Gathers account reliable t es acc acc₁)
    (last : Gathers account reliable t es' acc₁ acc₂) :
    Gathers account reliable t (es ++ es') acc acc₂ where
  kept := fun _ h => last.kept (first.kept h)
  messages := fun m h => by
    rcases last.messages m h with h | ⟨e, member, becomes⟩
    · rcases first.messages m h with h | ⟨e, member, becomes⟩
      · exact .inl h
      · exact .inr ⟨e, List.mem_append_left _ member, becomes⟩
    · exact .inr ⟨e, List.mem_append_right _ member, becomes⟩
  seen := fun x h => by
    rcases last.seen x h with h | new
    · rcases first.seen x h with h | ⟨m, member, same⟩
      · exact .inl h
      · exact .inr ⟨m, last.kept member, same⟩
    · exact .inr new
  skips := first.skips.trans last.skips
  accounted := fun same h e member id message => by
    have le₁ := first.skips
    have le₂ := last.skips
    rcases List.mem_append.mp member with member | member
    · rcases first.accounted (by omega) h e member id message with seen | ⟨m, here, same⟩ | passed
      · exact .inl seen
      · exact .inr (.inl ⟨m, last.kept here, same⟩)
      · exact .inr (.inr passed)
    · rcases last.accounted (by omega) h e member id message with seen | rest
      · rcases first.seen id seen with seen | ⟨m, here, same⟩
        · exact .inl seen
        · exact .inr (.inl ⟨m, last.kept here, same⟩)
      · exact .inr rest

theorem passed (skipped : reliable → PassedOver account t e) :
    Gathers account reliable t [e] acc acc where
  kept := fun _ h => h
  messages := fun _ h => .inl h
  seen := fun _ h => .inl h
  skips := Nat.le_refl _
  accounted := fun _ h e' member id _ => by
    rw [List.mem_singleton.mp member]
    exact .inr (.inr (skipped h))

theorem reads (read : Reads account e acc acc₁) : Gathers account reliable t [e] acc acc₁ := by
  cases read with
  | idle seen =>
    refine ⟨fun _ h => h, fun _ h => .inl h, fun _ h => .inl h, Nat.le_refl _,
      fun _ _ e' member id message => ?_⟩
    rw [List.mem_singleton.mp member] at message
    exact .inl (seen id message)
  | skip =>
    refine ⟨fun _ h => h, fun _ h => .inl h, fun _ h => .inl h, Nat.le_succ _, fun same => ?_⟩
    simp [Gathered.skip] at same
  | @opened k text m message opens made =>
    refine ⟨fun _ h => List.mem_append_left _ h, fun m' h => ?_, fun x h => ?_, Nat.le_refl _,
      fun _ _ e' member id message' => ?_⟩
    · rcases List.mem_append.mp h with old | new
      · exact .inl old
      · rw [List.mem_singleton.mp new]
        exact .inr ⟨e, List.mem_cons_self, message, k, text, opens, made⟩
    · rcases isIn_addOnce h with old | rfl
      · exact .inl old
      · exact .inr ⟨m, List.mem_append_right _ List.mem_cons_self, rfl⟩
    · rw [List.mem_singleton.mp member] at message'
      refine .inr (.inl ⟨m, List.mem_append_right _ List.mem_cons_self, ?_⟩)
      exact Except.ok.inj (message.2.symm.trans message'.2)
  | @undated k text thrown _ failed =>
    refine ⟨fun _ h => h, fun _ h => .inl h, fun _ h => .inl h, Nat.le_refl _,
      fun _ _ e' member id _ => ?_⟩
    rw [List.mem_singleton.mp member]
    exact .inr (.inr fun _ other _ => .inr (decryptedMessage_error failed other))

end Gathers

theorem readEnvelopes_ensures (page : Page) (es : List Keyed) (acc : Gathered) :
    Ensures page.toAccount allow epoch i (fun r t => ∃ acc', r = .ok acc' ∧
      Gathers page.toAccount (Reliable allow) t (es.map Keyed.envelope) acc acc')
      (readEnvelopes page es acc).run s := by
  induction es generalizing acc s with
  | nil => exact Ensures.ret fun _ _ => ⟨acc, rfl, .nil⟩
  | cons e rest ih =>
    unfold readEnvelopes
    refine Ensures.attempt (readEnvelope_ensures page e.envelope acc) fun r t _ read => ?_
    cases r with
    | ok acc₁ =>
      refine (ih acc₁).weaken fun r u after => ?_
      obtain ⟨acc₂, rfl, more⟩ := after
      exact ⟨acc₂, rfl, (Gathers.reads read).append more⟩
    | error thrown =>
      -- What was passed over stays so while the rest is read.
      refine ((ih acc).relates Grows.refl (fun _ _ _ => Grows.trans) (fun _ _ h => h)
        fun _ _ h => h).weaken fun r u after => ?_
      obtain ⟨⟨acc₂, rfl, more⟩, grows⟩ := after
      exact ⟨acc₂, rfl, (Gathers.passed fun h => (read h).grows grows).append more⟩

/-- What is known of the envelopes read from one object. -/
abbrev Processed (account : Account) (allow : Act → Outcome → Bool) (t : State) (es : List Js)
    (seen : List Js) (g : Gathered) : Prop :=
  Gathers account (Reliable allow) t es { seen } g

theorem processEnvelopes_ensures (page : Page) (es : List Keyed) (seen : List Js) :
    Ensures page.toAccount allow epoch i (fun r t => ∀ g, r = .ok g →
      Processed page.toAccount allow t (es.map Keyed.envelope) seen g)
      (processEnvelopes page es seen).run s := by
  unfold processEnvelopes
  refine Ensures.call (applyKeyShares_fetches page seen es).quietly.ensures (fun _ _ _ _ _ h => nomatch h)
    fun _ t _ _ => ?_
  refine (readEnvelopes_ensures page es { seen }).weaken fun r u after g same => ?_
  obtain ⟨acc, rfl, gathers⟩ := after
  cases same
  exact gathers

/-! ### Fetching -/

theorem listLive_ensures (pre : String) (cursor : Option String) :
    Ensures account allow epoch i (fun r _ => ∀ listed, r = .ok listed →
      ∀ key ∈ listed.keys, startsWith key pre = true) (listLive pre cursor).run s := by
  have within (s : State) (cursor : Option String) (key : String)
      (member : key ∈ (s.listing pre cursor).keys) : startsWith key pre = true :=
    (ObjectMap.mem_page _ _ _ _ key member).2
  unfold listLive
  simp only [Async.run_bind, run_attempt, run_await, step_bind, Prog.op_bind, Prog.ret_bind]
  refine Ensures.quiet rfl fun s' c r t _ _ _ done _ _ => ?_
  simp only [perform] at done
  obtain ⟨rfl, reply⟩ := reading_cases done
  rcases reply with rfl | ⟨e, _, rfl⟩
  · exact Ensures.ret fun _ _ listed same => by cases same; exact within t cursor
  · refine Ensures.quiet rfl fun s' c r t _ _ _ done _ _ => ?_
    simp only [perform] at done
    obtain ⟨rfl, reply⟩ := reading_cases done
    rcases reply with rfl | ⟨e, _, rfl⟩
    · exact Ensures.ret fun _ _ listed same => by cases same; exact within t none
    · exact Ensures.ret fun _ _ listed same => by cases same

theorem fetchEnvelope_ensures {key : String}
    (within : startsWith key (prefixInboxLive account.userId.str) = true) :
    Ensures account allow epoch i (fun r t => ∀ k, r = .ok k →
      Delivered account.userId t k.envelope) (fetchEnvelope key).run s := by
  unfold fetchEnvelope
  simp only [Async.run_bind, run_await, step_bind]
  refine Ensures.quiet rfl fun s' c r t _ inv _ done _ _ => ?_
  simp only [perform] at done
  obtain ⟨rfl, reply⟩ := reading_cases done
  rcases reply with rfl | ⟨e, _, rfl⟩
  · cases found : t.lookup key with
    | error e => exact Ensures.ret fun _ _ k same => by cases same
    | ok blob =>
      cases blob with
      | cbor es => exact Ensures.ret fun _ _ k same => by cases same
      | raw b => exact Ensures.ret fun _ _ k same => by cases same
      | json raw =>
        refine Ensures.ret fun u grows k same => ?_
        cases same
        have stored : t.objects.get key = some (.json raw) := by
          unfold State.lookup at found
          split at found
          next d h => cases found; exact h
          next => cases found
        obtain ⟨accepted, header, parsed, rfl⟩ := inv.live key raw stored
        exact Delivered.grows
          ⟨raw, ⟨⟨accepted, inv.truthful raw accepted⟩, header, parsed, within⟩, .live⟩ grows
  · exact Ensures.ret fun _ _ k same => by cases same

theorem fetchEnvelopes_ensures {keys : List String}
    (within : ∀ key ∈ keys, startsWith key (prefixInboxLive account.userId.str) = true) :
    Ensures account allow epoch i (fun r t => ∀ es, r = .ok es →
      ∀ e ∈ es.map Keyed.envelope, Delivered account.userId t e) (fetchEnvelopes keys).run s := by
  induction keys generalizing s with
  | nil => exact Ensures.ret fun _ _ es same e member => by cases same; cases member
  | cons key rest ih =>
    unfold fetchEnvelopes
    refine Ensures.attempt (fetchEnvelope_ensures (within key List.mem_cons_self))
      fun fetched t _ first => ?_
    refine Ensures.call (ih fun k member => within k (List.mem_cons_of_mem _ member))
      (fun _ _ _ _ es same => nomatch same) fun more u grows others => ?_
    refine Ensures.ret fun v later es same e member => ?_
    cases same
    simp only [List.map_append, List.mem_append] at member
    rcases member with here | there
    · cases fetched with
      | error e => cases here
      | ok k =>
        obtain rfl := List.mem_singleton.mp here
        exact ((first k rfl).grows grows).grows later
    · exact (others more rfl e there).grows later

theorem syncLive_ensures (page : Page) :
    Ensures page.toAccount allow epoch i (fun r t => ∀ live, r = .ok live →
      ∀ m ∈ live.gathered.messages, From page.toAccount t m) (syncLive page).run s := by
  unfold syncLive
  simp only [Async.run_bind (await _), run_await, step_bind]
  refine Ensures.quiet rfl fun _ _ r t _ _ _ _ _ _ => ?_
  cases r with
  | error e => exact Ensures.ret fun _ _ live same => nomatch same
  | ok cursor =>
    refine Ensures.call (listLive_ensures _ cursor) (fun _ _ _ _ live same => nomatch same)
      fun listed t _ keys => ?_
    refine Ensures.call (fetchEnvelopes_ensures (keys listed rfl))
      (fun _ _ _ _ live same => nomatch same) fun es t _ delivered => ?_
    refine Ensures.call (processEnvelopes_ensures page es [])
      (fun _ _ _ _ live same => nomatch same) fun g u grows processed => ?_
    refine Ensures.ret fun v later live same m member => ?_
    cases same
    rcases (processed g rfl).messages m member with none_ | ⟨e, here, becomes⟩
    · cases none_
    · exact From.grows ⟨e, (delivered es rfl e here).grows grows, becomes⟩ later

/-! ### Archives -/

omit [CborDecoder] in
/-- A key below the archive prefixes of two accounts belongs to one account. -/
theorem archive_owner {u v : UserId} {name : String}
    (within : startsWith (prefixInboxArchive u.str ++ name) (prefixInboxArchive v.str) = true) :
    u = v := by
  simp only [startsWith, List.isPrefixOf_iff_prefix, prefixInboxArchive, String.toList_append,
    List.append_assoc] at within
  obtain ⟨rest, same⟩ := within
  have tail := List.append_cancel_left (by simpa only [List.append_assoc] using same)
  have sizes : v.str.toList.length = u.str.toList.length := by
    rw [validateUlid_length u.ulid, validateUlid_length v.ulid]
  have equal := (List.append_inj tail sizes).1
  have strings : v.str = u.str := String.toList_inj.mp equal
  cases u
  cases v
  simp_all

theorem mem_ofValues {e : Js} {vs : List Value} (member : e ∈ Js.ofValues vs) :
    ∃ v ∈ vs, Js.ofValue v = e := by
  induction vs with
  | nil => simp [Js.ofValues] at member
  | cons v rest ih =>
    simp only [Js.ofValues, List.mem_cons] at member
    rcases member with rfl | later
    · exact ⟨v, List.mem_cons_self, rfl⟩
    · obtain ⟨w, here, same⟩ := ih later
      exact ⟨w, List.mem_cons_of_mem _ here, same⟩

theorem ofValue_mem {v : Value} {vs : List Value} (member : v ∈ vs) :
    Js.ofValue v ∈ Js.ofValues vs := by
  induction vs with
  | nil => cases member
  | cons w rest ih =>
    simp only [Js.ofValues, List.mem_cons]
    rcases List.mem_cons.mp member with rfl | later
    · exact .inl rfl
    · exact .inr (ih later)

theorem archivable_delivered {reliable : Prop} {user : UserId} {t : State} {n : Nat} {v : Value}
    (inv : Sourced account reliable t) (found : t.archivable user n = some v) :
    Delivered user t (Js.ofValue v) := by
  simp only [State.archivable, Option.bind_eq_bind, Option.bind_eq_some_iff] at found
  obtain ⟨raw, here, header, parsed, read⟩ := found
  split at read
  next within =>
    have accepted := List.mem_of_getElem? here
    exact ⟨raw, ⟨⟨accepted, inv.truthful raw accepted⟩, header, parsed, within⟩, .archived read⟩
  next => cases read

/-- The archive that was fetched: its entries were accepted, and were written under the key. -/
def Fetched (account : Account) (key : String) (t : State) (es : List Js) : Prop :=
  ∃ entries, es = Js.ofValues entries ∧ (key, entries) ∈ t.archived ∧
    ∀ e ∈ es, Delivered account.userId t e

theorem Fetched.grows {key : String} {t u : State} {es : List Js}
    (fetched : Fetched account key t es) (grows : Grows t u) : Fetched account key u es := by
  obtain ⟨entries, same, written, delivered⟩ := fetched
  exact ⟨entries, same, grows.archived.subset written, fun e member =>
    (delivered e member).grows grows⟩

theorem fetchArchive_ensures {key : String}
    (within : startsWith key (prefixInboxArchive account.userId.str) = true) :
    Ensures account allow epoch i (fun r t => ∀ es, r = .ok es → Fetched account key t es)
      (fetchArchive key).run s := by
  unfold fetchArchive
  simp only [Async.run_bind, run_await, step_bind]
  refine Ensures.quiet rfl fun s' c r t _ inv _ done _ _ => ?_
  simp only [perform] at done
  obtain ⟨rfl, reply⟩ := reading_cases done
  rcases reply with rfl | ⟨e, _, rfl⟩
  · cases found : t.lookup key with
    | error e => exact Ensures.ret fun _ _ k same => by cases same
    | ok blob =>
      cases blob with
      | json raw => exact Ensures.ret fun _ _ k same => by cases same
      | raw b => exact Ensures.ret fun _ _ k same => by cases same
      | cbor entries =>
        refine Ensures.ret fun u grows es same => ?_
        cases same
        have stored : t.objects.get key = some (.cbor entries) := by
          unfold State.lookup at found
          split at found
          next d h => cases found; exact h
          next => cases found
        have written := inv.archives key entries stored
        obtain ⟨user, name, rfl, each⟩ := inv.entries key entries written
        obtain rfl := archive_owner within
        refine Fetched.grows ⟨entries, rfl, written, fun e member => ?_⟩ grows
        obtain ⟨v, here, rfl⟩ := mem_ofValues member
        obtain ⟨n, found⟩ := each v here
        exact archivable_delivered inv found
  · exact Ensures.ret fun _ _ k same => by cases same

/-- What has been gathered from archives, next to the messages `live` of the live pass. -/
structure Archived (account : Account) (reliable : Prop) (t : State)
    (live : List DecryptedMessage) (acc : ArchiveResult) : Prop where
  messages : ∀ m ∈ acc.gathered.messages, From account t m
  seen : ∀ x, x.isIn acc.gathered.seen = true →
    HasRow t x ∨ ∃ m ∈ live ++ acc.gathered.messages, m.id = x
  candidates : reliable → ∀ key ∈ acc.ingestedCandidates,
    AccountedArchive account t (live ++ acc.gathered.messages) key

theorem Archived.grows {reliable : Prop} {t u : State} {live : List DecryptedMessage}
    {acc : ArchiveResult} (known : Archived account reliable t live acc) (grows : Grows t u) :
    Archived account reliable u live acc where
  messages m member := (known.messages m member).grows grows
  seen x h := (known.seen x h).imp_left fun row => row.grows grows
  candidates h key member := (known.candidates h key member).grows grows

theorem AccountedArchive.more {t : State} {few many : List DecryptedMessage} {key : String}
    (accounted : AccountedArchive account t few key) (subset : few ⊆ many) :
    AccountedArchive account t many key := by
  obtain ⟨entries, written, each⟩ := accounted
  refine ⟨entries, written, fun v member => ⟨(each v member).1, fun id message => ?_⟩⟩
  rcases (each v member).2 id message with row | ⟨m, here, same⟩ | passed
  · exact .inl row
  · exact .inr (.inl ⟨m, subset here, same⟩)
  · exact .inr (.inr passed)

/-- One more archive: its key is a candidate only if no message of it was skipped. -/
theorem Archived.add {t : State} {live : List DecryptedMessage} {acc : ArchiveResult}
    {key : String} {es : List Js} {one : Gathered}
    (known : Archived account (Reliable allow) t live acc) (fetched : Fetched account key t es)
    (processed : Processed account allow t es acc.gathered.seen one) :
    Archived account (Reliable allow) t live (acc.add key one) := by
  -- messages are only added
  have subset : live ++ acc.gathered.messages ⊆ live ++ (acc.add key one).gathered.messages := by
    intro m member
    simp only [ArchiveResult.add, List.mem_append] at member ⊢
    tauto
  obtain ⟨entries, rfl, written, delivered⟩ := fetched
  have seen (x : Js) (h : x.isIn acc.gathered.seen = true) :
      HasRow t x ∨ ∃ m ∈ live ++ (acc.add key one).gathered.messages, m.id = x := by
    rcases known.seen x h with row | ⟨m, here, same⟩
    · exact .inl row
    · exact .inr ⟨m, subset here, same⟩
  have fresh {m : DecryptedMessage} (member : m ∈ one.messages) :
      m ∈ live ++ (acc.add key one).gathered.messages :=
    List.mem_append_right _ (List.mem_append_right _ member)
  refine ⟨fun m member => ?_, fun x h => ?_, fun h other member => ?_⟩
  · rcases List.mem_append.mp member with old | new
    · exact known.messages m old
    · rcases processed.messages m new with none_ | ⟨e, here, becomes⟩
      · cases none_
      · exact ⟨e, delivered e here, becomes⟩
  · rcases processed.seen x h with old | ⟨m, here, same⟩
    · exact seen x old
    · exact .inr ⟨m, fresh here, same⟩
  · -- the archive becomes a candidate only when nothing in it was skipped
    have split_ : other ∈ acc.ingestedCandidates ∨ (one.recoverableSkips = 0 ∧ other = key) := by
      simp only [ArchiveResult.add] at member
      split at member
      next none_ => exact (List.mem_append.mp member).imp_right fun here =>
        ⟨none_, List.mem_singleton.mp here⟩
      next => exact .inl member
    rcases split_ with old | ⟨none_, rfl⟩
    · exact (known.candidates h other old).more subset
    · refine ⟨entries, written, fun v here =>
        ⟨delivered _ (ofValue_mem here), fun id message => ?_⟩⟩
      -- so each of its messages is seen, taken or passed over for good
      rcases processed.accounted none_ h _ (ofValue_mem here) id message with
        old | ⟨m, here, same⟩ | passed
      · exact (seen id old).imp_right .inl
      · exact .inr (.inl ⟨m, fresh here, same⟩)
      · exact .inr (.inr passed)

theorem readArchives_ensures (page : Page) (ingested : List String)
    {live : List DecryptedMessage} {keys : List String}
    (within : ∀ key ∈ keys, startsWith key (prefixInboxArchive page.userId.str) = true)
    {acc : ArchiveResult} (known : Archived page.toAccount (Reliable allow) s live acc) :
    Ensures page.toAccount allow epoch i (fun r t => ∀ acc', r = .ok acc' →
      Archived page.toAccount (Reliable allow) t live acc')
      (readArchives page ingested keys acc).run s := by
  induction keys generalizing acc s with
  | nil => exact Ensures.ret fun t grows acc' same => by cases same; exact known.grows grows
  | cons key rest ih =>
    have others := fun k member => within k (List.mem_cons_of_mem key member)
    unfold readArchives
    split
    · exact ih others known
    · refine Ensures.attempt (fetchArchive_ensures (within key List.mem_cons_self))
        fun fetched t grows first => ?_
      cases fetched with
      | error e => exact ih others (known.grows grows)
      | ok es =>
        refine Ensures.call (processEnvelopes_ensures page _ _)
          (fun _ _ _ _ acc' same => nomatch same) fun one u later processed => ?_
        have whole : (es.map (Keyed.mk key)).map Keyed.envelope = es := by
          rw [List.map_map]
          exact List.map_id es
        rw [whole] at processed
        exact ih others (((known.grows grows).grows later).add ((first es rfl).grows later)
          (processed one rfl))

theorem storeListAll_ensures (pre : String) (pages : Nat) (cursor : Option String) :
    Ensures account allow epoch i (fun r _ => ∀ keys, r = .ok keys →
      ∀ key ∈ keys, startsWith key pre = true) (storeListAll pre pages cursor).run s := by
  induction pages generalizing s cursor with
  | zero => exact Ensures.ret fun _ _ keys same => by cases same
  | succ n ih =>
    unfold storeListAll
    simp only [Async.run_bind (await _), run_await, step_bind]
    refine Ensures.quiet rfl fun s' c r t _ _ _ done _ _ => ?_
    simp only [perform] at done
    obtain ⟨rfl, reply⟩ := reading_cases done
    rcases reply with rfl | ⟨e, _, rfl⟩
    · have here (key : String) (member : key ∈ (t.listing pre cursor).keys) :
          startsWith key pre = true := (ObjectMap.mem_page _ _ _ _ key member).2
      dsimp only
      split
      · exact Ensures.ret fun _ _ keys same => by cases same; exact here
      · refine Ensures.call (ih _) (fun _ _ _ _ keys same => by cases same) fun more u _ there => ?_
        refine Ensures.ret fun _ _ keys same key member => ?_
        cases same
        exact (List.mem_append.mp member).elim (here key) (there more rfl key)
    · exact Ensures.ret fun _ _ keys same => by cases same

theorem syncArchive_ensures (page : Page) (live : List DecryptedMessage) {seen : List Js}
    (known : ∀ x, x.isIn seen = true → HasRow s x ∨ ∃ m ∈ live, m.id = x) :
    Ensures page.toAccount allow epoch i (fun r t => ∀ acc, r = .ok acc →
      Archived page.toAccount (Reliable allow) t live acc) (syncArchive page seen).run s := by
  have start {t : State} (grows : Grows s t) :
      Archived page.toAccount (Reliable allow) t live { gathered := { seen } } := by
    refine ⟨fun _ h => absurd h List.not_mem_nil, fun x h => ?_,
      fun _ _ h => absurd h List.not_mem_nil⟩
    rcases known x h with row | ⟨m, member, same⟩
    · exact .inl (row.grows grows)
    · exact .inr ⟨m, List.mem_append_left _ member, same⟩
  unfold syncArchive
  simp only [Async.run_bind (await _), run_await, step_bind]
  refine Ensures.quiet rfl fun _ _ r t g₁ _ _ _ _ g₂ => ?_
  cases r with
  | error e => exact Ensures.ret fun _ _ acc same => nomatch same
  | ok ingested =>
    refine Ensures.attempt (storeListAll_ensures _ _ _) fun r u g₃ listed => ?_
    have grows := (g₁.trans g₂).trans g₃
    cases r with
    | error e =>
      refine Ensures.ret fun v later acc same => ?_
      cases same
      exact start (grows.trans later)
    | ok keys => exact readArchives_ensures page ingested (listed keys rfl) (start grows)

/-! ### One sync -/

omit [CborDecoder] in
theorem mem_foldl_addOnce {x : Js} {xs set : List Js}
    (h : x.isIn (xs.foldl (fun set x => addOnce x set) set) = true) :
    x.isIn set = true ∨ x ∈ xs := by
  induction xs generalizing set with
  | nil => exact .inl h
  | cons y rest ih =>
    rcases ih h with old | later
    · rcases isIn_addOnce old with old | rfl
      · exact .inl old
      · exact .inr List.mem_cons_self
    · exact .inr (List.mem_cons_of_mem _ later)

/-- The ids of the stored rows are stored. -/
theorem hasRow_of_stored {t : State} (inv : Sourced account (Reliable allow) t) {userId : String}
    {x : Js} (member : x ∈ (t.db.messagesOf userId).map StoredMessage.id) : HasRow t x := by
  obtain ⟨row, here, rfl⟩ := List.mem_map.mp member
  simp only [Database.messagesOf, List.mem_insertionSort, List.mem_filter, List.mem_map] at here
  obtain ⟨⟨⟨key, row'⟩, entry, rfl⟩, _⟩ := here
  have found := ObjectMap.get_of_mem entry
  exact ⟨key, row', (inv.rows key row' found).1, found⟩

theorem fetchMessages_ensures (page : Page) :
    Ensures page.toAccount allow epoch i (fun r t => ∀ result, r = .ok result →
      GoodResult page.toAccount (Reliable allow) t result) (fetchMessages page).run s := by
  unfold fetchMessages
  refine Ensures.call (syncLive_ensures page) (fun _ _ _ _ result same => nomatch same)
    fun live s₁ _ fromLive => ?_
  simp only [Async.run_bind (await _), run_await, step_bind]
  refine Ensures.quiet rfl fun s₂ c r s₃ g₁ inv _ done _ g₂ => ?_
  simp only [perform] at done
  obtain ⟨rfl, reply⟩ := reading_cases done
  rcases reply with rfl | ⟨e, _, rfl⟩
  · refine Ensures.call (syncArchive_ensures page live.gathered.messages fun x h => ?_)
      (fun _ _ _ _ result same => nomatch same) fun archive s₄ g₃ archived => ?_
    · rcases mem_foldl_addOnce h with stored | member
      · exact .inl (hasRow_of_stored inv (Js.mem_of_isIn stored))
      · obtain ⟨m, here, same⟩ := List.mem_map.mp member
        exact .inr ⟨m, here, same⟩
    · refine Ensures.call (persistInbounds_fetches _).quietly.ensures
        (fun _ _ _ _ result same => nomatch same) fun _ s₅ g₄ _ => ?_
      refine Ensures.call (advanceCursor_fetches page live).quietly.ensures
        (fun _ _ _ _ result same => nomatch same) fun _ s₆ g₅ _ => ?_
      refine Ensures.call (triggerFlush_fetches page).quietly.ensures (fun _ _ _ _ result same => nomatch same)
        fun _ s₇ g₆ _ => ?_
      refine Ensures.ret fun s₈ g₇ result same => ?_
      cases same
      have known := archived archive rfl
      have late : Grows s₄ s₈ := ((g₄.trans g₅).trans g₆).trans g₇
      have all (m : DecryptedMessage) : m ∈ (live.gathered.messages ++
          archive.gathered.messages).insertionSort (fun a b => notAfter a b = true) ↔
          m ∈ live.gathered.messages ++ archive.gathered.messages := List.mem_insertionSort _
      refine ⟨fun m member => ?_, fun h key member => ?_⟩
      · rcases List.mem_append.mp ((all m).mp member) with here | here
        · exact (fromLive live rfl m here).grows (((g₁.trans g₂).trans g₃).trans late)
        · exact (known.messages m here).grows late
      · exact ((known.candidates h key member).grows late).more fun m here => (all m).mpr here
  · exact Ensures.ret fun _ _ result same => nomatch same

/-- A settled result may be kept for every caller. -/
theorem settle_step {t : State} {n : Nat} {result : Except Thrown SyncResult} {c : Outcome}
    {r : Reply (.settleSync n result)} (inv : Sourced account (Reliable allow) s)
    (good : ∀ a, result = .ok a → GoodResult account (Reliable allow) s a)
    (done : perform (.settleSync n result) c s = some (r, t)) :
    Sourced account (Reliable allow) t ∧ Grows s t := by
  cases c <;> simp only [perform, Option.some.injEq, Prod.mk.injEq, reduceCtorEq] at done
  obtain ⟨_, rfl⟩ := done
  refine inv.memory s.epoch (fun _ _ found => found) fun a member => ?_
  rcases List.mem_or_eq_of_mem_set member with old | new
  · exact inv.results a old
  · exact good a (Option.some.inj new).symm

theorem syncMessages_ensures (page : Page) :
    Ensures page.toAccount allow epoch i (fun r t => ∀ result, r = .ok result →
      GoodResult page.toAccount (Reliable allow) t result) (syncMessages page).run s := by
  unfold syncMessages
  simp only [Async.run_bind (sync _), run_sync, step_bind, Prog.op_bind, Prog.ret_bind]
  refine Ensures.quiet rfl fun _ _ joined s₁ _ _ _ _ _ _ => ?_
  cases joined with
  | second n =>
    refine Ensures.quiet rfl fun s₂ c r s₃ _ inv _ done _ _ => ?_
    cases c <;> simp only [perform, reduceCtorEq] at done
    split at done
    next result settled =>
      cases done
      refine Ensures.ret fun t grows a same => ?_
      subst same
      exact (inv.results a (List.mem_of_getElem? settled)).grows grows
    next => cases done
  | first n =>
    refine Ensures.attempt (fetchMessages_ensures page).lasting fun result s₂ _ good => ?_
    simp only [Async.run_bind, run_sync, step_bind, Prog.op_bind, Prog.ret_bind, run_ofExcept]
    intro s₃ moved inv r s₄ served
    obtain ⟨c, _, _, done⟩ := taking_iff.mp served
    have here := good s₃ moved
    obtain ⟨kept, grows⟩ := settle_step inv here done
    exact ⟨kept, grows, Ensures.ret fun t later a same => ((here a same).grows grows).grows later⟩

/-! ### Storing -/

section Rows

omit [CborDecoder]

/-- A batch of puts leaves under each key what was there, or a row of the batch. -/
theorem putRows_get {Row : Type} {id : Row → Js} {rows : List Row} {store store' : ObjectMap Key Row}
    (put : Database.putRows id rows store = some store') (key : Key) :
    (store'.get key = store.get key ∧ ∀ row ∈ rows, (id row).key ≠ some key) ∨
      ∃ row ∈ rows, (id row).key = some key ∧ store'.get key = some row := by
  induction rows generalizing store with
  | nil => cases put; exact .inl ⟨rfl, fun _ h => absurd h List.not_mem_nil⟩
  | cons row rest ih =>
    simp only [Database.putRows] at put
    split at put
    next first valid =>
      rcases ih put with ⟨kept, absent⟩ | ⟨other, later, named, found⟩
      · rw [ObjectMap.get_insert] at kept
        by_cases same : key = first
        · subst same
          exact .inr ⟨row, List.mem_cons_self, valid, by simpa using kept⟩
        · refine .inl ⟨by rw [kept, if_neg same], fun other member => ?_⟩
          rcases List.mem_cons.mp member with rfl | later
          · rw [valid]
            exact fun h => same (Option.some.inj h).symm
          · exact absent other later
      · exact .inr ⟨other, List.mem_cons_of_mem _ later, named, found⟩
    next => cases put

/-- Rows whose ids are keys can be put. -/
theorem putRows_some {Row : Type} {id : Row → Js} {rows : List Row} (store : ObjectMap Key Row)
    (valid : ∀ row ∈ rows, ∃ key, (id row).key = some key) :
    ∃ store', Database.putRows id rows store = some store' := by
  induction rows generalizing store with
  | nil => exact ⟨store, rfl⟩
  | cons row rest ih =>
    obtain ⟨key, named⟩ := valid row List.mem_cons_self
    simp only [Database.putRows, named]
    exact ih _ fun other member => valid other (List.mem_cons_of_mem _ member)

/-- A batch that was put has a key for each of its rows. -/
theorem putRows_valid {Row : Type} {id : Row → Js} {rows : List Row} {store store' : ObjectMap Key Row}
    (put : Database.putRows id rows store = some store') :
    ∀ row ∈ rows, ∃ key, (id row).key = some key := by
  induction rows generalizing store with
  | nil => exact fun _ h => absurd h List.not_mem_nil
  | cons first rest ih =>
    simp only [Database.putRows] at put
    split at put
    next key valid =>
      intro row member
      rcases List.mem_cons.mp member with rfl | later
      · exact ⟨key, valid⟩
      · exact ih put row later
    next => cases put

theorem putRows_there {Row : Type} {id : Row → Js} {rows : List Row} {store store' : ObjectMap Key Row}
    (put : Database.putRows id rows store = some store') {row : Row} (member : row ∈ rows) :
    ∃ key row', (id row).key = some key ∧ store'.get key = some row' := by
  obtain ⟨key, named⟩ := putRows_valid put row member
  rcases putRows_get put key with ⟨_, absent⟩ | ⟨other, _, _, there⟩
  · exact absurd named (absent row member)
  · exact ⟨key, other, named, there⟩

theorem saveBatch_messages {db db' : Database} {rows : List StoredMessage}
    {conversations : List StoredConversation} (saved : db.saveBatch rows conversations = some db') :
    Database.putRows StoredMessage.id rows db.messages = some db'.messages ∧
      db'.inbound = db.inbound ∧ db'.ingestedArchives = db.ingestedArchives := by
  unfold Database.saveBatch at saved
  split at saved
  next ms cs messages _ => cases saved; exact ⟨messages, rfl, rfl⟩
  next => cases saved

end Rows

/-- Saving messages of the inbox, all of them or none. -/
theorem putMessages_step {t : State} {messages : List DecryptedMessage}
    {conversations : List StoredConversation} {c : Outcome} {r : Except Thrown Unit}
    (inv : Sourced account (Reliable allow) s) (from_ : ∀ m ∈ messages, From account s m)
    (done : perform (.putMessages (messages.map (storedMessage account.userId.str)) conversations) c s
      = some (r, t)) :
    Sourced account (Reliable allow) t ∧ Grows s t ∧
      (r = .ok () → ∀ m ∈ messages, HasRow t m.id) := by
  simp only [perform] at done
  rcases writing_cases done with ⟨rfl, e, rfl⟩ | ⟨db, saved, rfl, rfl⟩
  · exact ⟨inv, .refl _, fun h => by cases h⟩
  · obtain ⟨put, inbound, ingested⟩ := saveBatch_messages saved
    have grows : Grows s { s with db } := by
      refine ⟨List.prefix_refl _, List.prefix_refl _, fun _ member => member, fun key row found => ?_⟩
      rcases putRows_get put key with ⟨kept, _⟩ | ⟨other, _, _, there⟩
      · exact ⟨row, kept.trans found⟩
      · exact ⟨other, there⟩
    refine ⟨{ truthful := inv.truthful, live := inv.live, archives := inv.archives, entries := inv.entries, once := inv.once
              stored := by rw [inbound]; exact inv.stored
              cached := inv.cached
              rows := fun key row found => ?_
              results := fun result settled => (inv.results result settled).grows grows
              ingested := fun h key member => ?_ }, grows, fun _ m member => ?_⟩
    · rcases putRows_get put key with ⟨kept, _⟩ | ⟨other, member, named, there⟩
      · exact (inv.rows key row (kept.symm.trans found)).grows grows
      · obtain ⟨m, here, rfl⟩ := List.mem_map.mp member
        cases there.symm.trans found
        exact ⟨named, m, (from_ m here).grows grows, rfl⟩
    · rw [ingested] at member
      exact (inv.ingested h key member).grows grows
    · exact putRows_there put (List.mem_map_of_mem member)

theorem markArchiveIngested_step {t : State} {key : String} {c : Outcome} {r : Except Thrown Unit}
    (inv : Sourced account (Reliable allow) s)
    (accounted : Reliable allow → AccountedArchive account s [] key)
    (done : perform (.markArchiveIngested key) c s = some (r, t)) :
    Sourced account (Reliable allow) t ∧ Grows s t := by
  simp only [perform] at done
  rcases writing_cases done with ⟨rfl, _⟩ | ⟨db, saved, rfl, _⟩
  · exact ⟨inv, .refl _⟩
  · cases saved
    have grows : Grows s { s with
        db := { s.db with ingestedArchives := key :: s.db.ingestedArchives } } :=
      ⟨List.prefix_refl _, List.prefix_refl _, fun _ member => member, fun _ row found => ⟨row, found⟩⟩
    refine ⟨{ truthful := inv.truthful, live := inv.live, archives := inv.archives, entries := inv.entries, once := inv.once
              stored := inv.stored, cached := inv.cached, rows := inv.rows
              results := fun result settled => (inv.results result settled).grows grows
              ingested := fun h other member => ?_ }, grows⟩
    rcases List.mem_cons.mp member with rfl | old
    · exact (accounted h).grows grows
    · exact (inv.ingested h other old).grows grows

/-- When `saveMessages` returns, every message has its row. -/
theorem saveMessages_ensures {messages : List DecryptedMessage}
    (from_ : ∀ m ∈ messages, From account s m) :
    Ensures account allow epoch i (fun r t => r = .ok () → ∀ m ∈ messages, HasRow t m.id)
      (saveMessages account.parse account.render account.userId.str messages).run s := by
  unfold saveMessages
  split
  next empty =>
    rw [List.isEmpty_iff] at empty
    subst empty
    exact Ensures.ret fun _ _ _ m member => absurd member List.not_mem_nil
  next =>
    refine Ensures.call (Quietly.ensures (getConversations_within (fun _ => rfl) _)) (fun _ _ _ _ same => nomatch same)
      fun existing s₁ g₁ _ => ?_
    simp only [Async.run_bind (await _), run_await, step_bind]
    intro s₂ moved inv r s₃ served
    obtain ⟨c, _, _, done⟩ := taking_iff.mp served
    have grown := g₁.trans (others_grow moved)
    obtain ⟨kept, grows, rows⟩ :=
      putMessages_step inv (fun m member => (from_ m member).grows grown) done
    refine ⟨kept, grows, ?_⟩
    cases r with
    | error e => exact Ensures.ret fun _ _ same => nomatch same
    | ok =>
      dsimp only
      split
      · exact Ensures.ret fun t later _ m member => (rows rfl m member).grows later
      · refine ((Quietly.ensures (recomputeAmendedSummaries_within (fun _ => rfl) (fun _ => rfl) (fun _ => rfl)
          _ _ _ _)).relates Grows.refl
          (fun _ _ _ => Grows.trans) (fun _ _ h => h) fun _ _ h => h).weaken fun r t after _ m member => ?_
        exact (rows rfl m member).grows after.2

theorem markArchivesIngested_ensures {keys : List String}
    (accounted : Reliable allow → ∀ key ∈ keys, AccountedArchive account s [] key) :
    Ensures account allow epoch i (fun _ _ => True) (markArchivesIngested keys).run s := by
  induction keys generalizing s with
  | nil => exact Ensures.ret fun _ _ => trivial
  | cons key rest ih =>
    unfold markArchivesIngested
    simp only [Async.run_bind, run_attempt, run_await, step_bind, Prog.op_bind, Prog.ret_bind]
    intro s₁ moved inv r s₂ served
    obtain ⟨c, _, _, done⟩ := taking_iff.mp served
    obtain ⟨kept, grows⟩ := markArchiveIngested_step inv (fun h =>
      (accounted h key List.mem_cons_self).grows (others_grow moved)) done
    refine ⟨kept, grows, ?_⟩
    exact ih fun h other member =>
      (accounted h other (List.mem_cons_of_mem _ member)).grows ((others_grow moved).trans grows)

/-- Once every message is stored, what was accounted for with them is accounted for. -/
theorem AccountedArchive.saved {t : State} {messages : List DecryptedMessage} {key : String}
    (accounted : AccountedArchive account t messages key)
    (rows : ∀ m ∈ messages, HasRow t m.id) : AccountedArchive account t [] key := by
  obtain ⟨entries, written, each⟩ := accounted
  refine ⟨entries, written, fun v member => ⟨(each v member).1, fun id message => ?_⟩⟩
  rcases (each v member).2 id message with row | ⟨m, here, rfl⟩ | passed
  · exact .inl row
  · exact .inl (rows m here)
  · exact .inr (.inr passed)

theorem publish_ensures (page : Page) {synced : SyncResult}
    (good : GoodResult page.toAccount (Reliable allow) s synced) :
    Ensures page.toAccount allow epoch i (fun _ _ => True) (publish page synced).run s := by
  unfold publish
  refine Ensures.attempt (saveMessages_ensures good.messages) fun r t grows rows => ?_
  cases r with
  | error e => exact Ensures.ret fun _ _ => trivial
  | ok =>
    refine Ensures.call (markArchivesIngested_ensures fun h key member =>
      ((good.candidates h key member).grows grows).saved (rows rfl)) (fun _ _ _ _ => trivial)
      fun _ u _ _ => ?_
    have last : Quietly (do
        let _ ← attempt (await (step .syncReadMarkers))
        pure Published.done) :=
      .bind (.attempt (.await (.op rfl fun _ => .ret trivial))) fun _ => .pure _
    exact last.ensures

theorem syncAndPublish_ensures (page : Page) :
    Ensures page.toAccount allow epoch i (fun _ _ => True) (syncAndPublish page).run s := by
  unfold syncAndPublish
  refine Ensures.attempt (syncMessages_ensures page) fun r t _ good => ?_
  cases r with
  | error e => exact Ensures.ret fun _ _ => trivial
  | ok synced => exact publish_ensures page (good synced rfl)

/-! ### The browser -/

theorem browser_contracts (account : Account) (allow : Act → Outcome → Bool) (tasks : Tasks ι) :
    Contracts (syncRules ι account (Reliable allow)) (browser account allow tasks)
      (fun _ _ => True) fun _ _ _ => True where
  stable _ _ _ _ _ _ _ := trivial
  arrives i s _ _ := by
    show Ensures account allow tasks.epoch i _ ((tasks.task i).prog account) s
    cases tasks.task i with
    | sync key backs =>
      exact Ensures.andThen (syncAndPublish_ensures ⟨account, key, backs⟩) fun _ _ _ _ =>
        Ensures.ret fun _ _ => trivial
    | addInbound fromUser fromDevice key =>
      exact Ensures.andThen (addInbound_fetches account.crypto fromUser fromDevice key).quietly.ensures
        fun _ _ _ _ => Ensures.ret fun _ _ => trivial
    | surroundings act surrounds =>
      refine Ensures.quiet ?_ fun _ _ _ _ _ _ _ _ _ _ => Ensures.ret fun _ _ => trivial
      cases act <;> first | rfl | cases surrounds

theorem Sourced.fresh (account : Account) (reliable : Prop) : Sourced account reliable {} where
  truthful := fun _ accepted => absurd accepted List.not_mem_nil
  live := fun _ _ found => nomatch found
  archives := fun _ _ found => nomatch found
  entries := fun _ _ written => absurd written List.not_mem_nil
  once := List.nodup_nil
  stored := fun _ _ found => nomatch found
  cached := fun _ _ found => nomatch found
  rows := fun _ _ found => nomatch found
  results := fun _ settled => absurd settled List.not_mem_nil
  ingested := fun _ _ member => absurd member List.not_mem_nil

/-- In every run of a new browser the invariant holds throughout. -/
theorem browser_sourced [DecidableEq ι] {tasks : Tasks ι} {w : World ι Act Reply Unit State}
    (run : Reach (browser account allow tasks) {} w) : Sourced account (Reliable allow) w.sys :=
  (Secured.run (browser_contracts account allow tasks)
    (Secured.init (Sourced.fresh account (Reliable allow)) fun _ => trivial) run).1

/-- What is there stays there in the rest of the run. -/
theorem browser_grows [DecidableEq ι] {tasks : Tasks ι} {w w' : World ι Act Reply Unit State}
    (run : Reach (browser account allow tasks) {} w)
    (more : Relation.ReflTransGen (Step (browser account allow tasks)) w w') :
    Grows w.sys w'.sys :=
  Secured.relates (browser_contracts account allow tasks) Grows Grows.refl
    (fun _ _ _ => Grows.trans) (fun _ _ _ _ _ h => h)
    (Secured.run (browser_contracts account allow tasks)
      (Secured.init (Sourced.fresh account (Reliable allow)) fun _ => trivial) run) more

end Atmin.Web
