import Atmin.Sync.Envelope

/-!
# Conversations and authors

A stored message takes its conversation and its sender from the envelope alone: the
conversation from a field the sender fills in, the sender from the account that posted
it. The rows are right as long as the envelopes that can be opened are.
-/

namespace Atmin.Web

open Interaction

/-- A session opens only what it was used for. -/
theorem opens_of_decrypt {crypto : Crypto} {k : Inbound} {ciphertext text : String}
    (decrypted : k.decrypt crypto ciphertext = some text) :
    ∃ index, crypto.opens k.sessionId ciphertext = some (index, text) ∧ k.firstKnownIndex ≤ index := by
  unfold Inbound.decrypt at decrypted
  split at decrypted
  next index opened found =>
    simp only [Option.ite_none_right_eq_some, Option.some.injEq] at decrypted
    obtain ⟨known, rfl⟩ := decrypted
    exact ⟨index, found, known⟩
  next => cases decrypted

section Decoding

variable [CborDecoder]

/-- What the row of a message says about the envelope it came from. -/
theorem row_origin {account : Account} {reliable : Prop} {s : State}
    (inv : Sourced account reliable s) {key : Key} {row : StoredMessage}
    (found : s.db.messages.get key = some row) :
    ∃ e k, Delivered account.userId s e ∧ IsMessage e row.id ∧ Opens account.crypto k e row.text ∧
      (∃ sender : UserId, e.member "from_user" = .ok (.str sender.str) ∧
        row.fromUser = .str sender.str) ∧
      ∃ payload conversation, e.member "payload" = .ok payload ∧
        payload.member "conversation_id" = .ok conversation ∧
        row.conversationId = conversation.orElse (conversationWith row.fromUser account.userId.str) := by
  obtain ⟨_, m, ⟨e, delivered, message, k, text, opens, made⟩, rfl⟩ := inv.rows key row found
  obtain ⟨_, sentBy, _, rfl, inside, _⟩ := decryptedMessage_ok made
  obtain ⟨⟨sender, named⟩, _⟩ := delivered_header delivered message
  exact ⟨e, k, delivered, message, opens, ⟨sender, named, Except.ok.inj (sentBy.symm.trans named)⟩,
    inside⟩

/-! ### Conversations -/

/-- The conversation the envelope names, if it names one, is one its sender may write to. -/
def OwnConversation (account : Account) (e : Js) : Prop :=
  ∀ k text payload conversation (sender : UserId), Opens account.crypto k e text →
    e.member "payload" = .ok payload → payload.member "conversation_id" = .ok conversation →
    e.member "from_user" = .ok (.str sender.str) →
    conversation = .undefined ∨ conversation = .null ∨
      (sender ≠ account.userId ∧
        conversation = .str (conversationId sender.str account.userId.str)) ∨
      (sender = account.userId ∧ ∃ peer, conversation = .str (conversationId account.userId.str peer))

/-- Every stored message lies in a conversation of its sender with the account. -/
def ConversationsKept (account : Account) (s : State) : Prop :=
  ∀ key row, s.db.messages.get key = some row → ∃ sender : UserId,
    row.fromUser = .str sender.str ∧
    (sender ≠ account.userId →
      row.conversationId = .str (conversationId sender.str account.userId.str)) ∧
    (sender = account.userId → ∃ peer,
      row.conversationId = .str (conversationId account.userId.str peer))

/-- While every envelope that can be opened names a conversation of its sender, every stored
message lies in one. -/
theorem conversations_kept {ι : Type} [DecidableEq ι] {account : Account}
    {allow : Act → Outcome → Bool} {tasks : Tasks ι} {w : World ι Act Reply Unit State}
    (run : Reach (browser account allow tasks) {} w)
    (own : ∀ e, Delivered account.userId w.sys e → OwnConversation account e) :
    ConversationsKept account w.sys := by
  intro key row found
  obtain ⟨e, k, delivered, _, opens, ⟨sender, named, from_⟩, payload, conversation, inside, given,
    same⟩ := row_origin (browser_sourced run) found
  have fallback : conversationWith row.fromUser account.userId.str =
      .str (conversationId sender.str account.userId.str) := by rw [from_]; rfl
  refine ⟨sender, from_, fun stranger => ?_, fun self => ?_⟩
  · rcases own e delivered k row.text payload conversation sender opens inside given named with
      rfl | rfl | ⟨_, rfl⟩ | ⟨self, _⟩
    · rw [same, Js.orElse_undefined, fallback]
    · rw [same, Js.orElse_null, fallback]
    · rw [same, Js.orElse_str]
    · exact absurd self stranger
  · rcases own e delivered k row.text payload conversation sender opens inside given named with
      rfl | rfl | ⟨stranger, _⟩ | ⟨_, peer, rfl⟩
    · exact ⟨account.userId.str, by rw [same, Js.orElse_undefined, fallback, self]⟩
    · exact ⟨account.userId.str, by rw [same, Js.orElse_null, fallback, self]⟩
    · exact absurd self stranger
    · exact ⟨peer, by rw [same, Js.orElse_str]⟩

/-! ### Authors -/

/-- Ideal Megolm: `creator` is the account whose device created a session, and `wrote` says
which account's devices made a ciphertext with it. -/
structure IdealMegolm (crypto : Crypto) (creator : String → UserId)
    (wrote : UserId → String → String → Prop) : Prop where
  opened : ∀ sessionId ciphertext r, crypto.opens sessionId ciphertext = some r →
    wrote (creator sessionId) sessionId ciphertext
  unforged : ∀ writer sessionId ciphertext, wrote writer sessionId ciphertext →
    writer = creator sessionId

/-- Whoever posted the envelope created the session that opens it. -/
def OwnSession (account : Account) (creator : String → UserId) (e : Js) : Prop :=
  ∀ k text, Opens account.crypto k e text →
    e.member "from_user" = .ok (.str (creator k.sessionId).str)

/-- Every stored message is the text of a ciphertext, received under its id, that a device of
its sender made. -/
def AuthorsKept (account : Account) (wrote : UserId → String → String → Prop) (s : State) : Prop :=
  ∀ key row, s.db.messages.get key = some row → ∃ sender : UserId, row.fromUser = .str sender.str ∧
    ∃ (e : Js) (k : Inbound) (payload : Js) (ciphertext : String),
      Delivered account.userId s e ∧ IsMessage e row.id ∧
      e.member "payload" = .ok payload ∧ payload.member "ciphertext" = .ok (.str ciphertext) ∧
      k.decrypt account.crypto ciphertext = some row.text ∧ wrote sender k.sessionId ciphertext

/-- While every envelope that a session opens was posted by the account the session belongs
to, every stored message was written by its sender. -/
theorem authors_kept {ι : Type} [DecidableEq ι] {account : Account}
    {allow : Act → Outcome → Bool} {tasks : Tasks ι} {w : World ι Act Reply Unit State}
    {creator : String → UserId} {wrote : UserId → String → String → Prop}
    (ideal : IdealMegolm account.crypto creator wrote)
    (run : Reach (browser account allow tasks) {} w)
    (own : ∀ e, Delivered account.userId w.sys e → OwnSession account creator e) :
    AuthorsKept account wrote w.sys := by
  intro key row found
  obtain ⟨e, k, delivered, message, opens, ⟨sender, named, from_⟩, _⟩ :=
    row_origin (browser_sourced run) found
  have posted := own e delivered k row.text opens
  obtain ⟨payload, ciphertext, inside, _, sealed_, decrypted⟩ := opens
  obtain ⟨index, opened, _⟩ := opens_of_decrypt decrypted
  refine ⟨creator k.sessionId, ?_, e, k, payload, ciphertext, delivered, message, inside, sealed_,
    decrypted, ideal.opened _ _ _ opened⟩
  rw [from_]
  exact Except.ok.inj (named.symm.trans posted)

/-- A test that a stranger's envelope names the right conversation or none. -/
def namesOwn (account : Account) (e : Js) : Bool :=
  match e.member "payload", e.member "from_user" with
  | .ok payload, .ok (.str sender) => match payload.member "conversation_id" with
    | .ok .undefined | .ok .null => true
    | .ok conversation => decide (sender ≠ account.userId.str) &&
        conversation.same (.str (conversationId sender account.userId.str))
    | .error _ => false
  | _, _ => false

omit [CborDecoder] in
theorem own_of_namesOwn {account : Account} {e : Js} (named : namesOwn account e = true) :
    OwnConversation account e := by
  intro k text payload conversation sender _ inside given from_
  simp only [namesOwn, inside, from_, given] at named
  split at named
  next h => cases h; exact .inl rfl
  next h => cases h; exact .inr (.inl rfl)
  next c _ _ h =>
    cases h
    simp only [Bool.and_eq_true, decide_eq_true_eq] at named
    exact .inr (.inr (.inl ⟨fun same => named.1 (by rw [same]), Js.eq_of_same named.2⟩))
  next => cases named

/-- A test for both forms in which an envelope is read. -/
def bothViews (check : Js → Bool) (raw : Json) : Bool :=
  check (Js.ofJson raw) && (Value.ofJson jsonDepth raw).all fun v => check (Js.ofValue v)

theorem of_bothViews {check : Js → Bool} {user : UserId} {s : State} {e : Js}
    (all : s.accepted.all (bothViews check) = true) (delivered : Delivered user s e) :
    check e = true := by
  obtain ⟨raw, ⟨⟨accepted, _⟩, _⟩, view⟩ := delivered
  have both := List.all_eq_true.mp all raw accepted
  simp only [bothViews, Bool.and_eq_true] at both
  cases view with
  | live => exact both.1
  | archived read => exact (Option.all_eq_true _ _).mp both.2 _ read

end Decoding

section Samples

open Demo

attribute [local instance] Demo.cbor

/-- A key share and a message that names the conversation of the two accounts. -/
def ownMail : List (UserId × Json) :=
  [(mallory, keyShare mallory user "a" "s"),
    (mallory, message mallory user "b" "s" "hi" (.str (conversationId mallory.str user.str)))]

theorem ownMail_kept : ∃ w, Reach (browser account (fun _ _ => true) (tasks ownMail)) {} w ∧
    (w.sys.db.messages.get [.str "b"]).isSome = true ∧ ConversationsKept account w.sys := by
  obtain ⟨w, run, holds⟩ := reach_of_follow account (fun _ _ => true) (tasks ownMail)
    (schedule ownMail 24)
    (fun w => w.sys.accepted.all (bothViews (namesOwn account)) &&
      (w.sys.db.messages.get [.str "b"]).isSome) (by decide +kernel)
  obtain ⟨checked, stored⟩ := (Bool.and_eq_true _ _).mp holds
  exact ⟨w, run, stored, conversations_kept run fun e delivered =>
    own_of_namesOwn (of_bothViews checked delivered)⟩

/-- The same message naming the conversation with someone else. -/
def foreignMail : List (UserId × Json) :=
  [(mallory, keyShare mallory user "a" "s"),
    (mallory, message mallory user "b" "s" "hi" (.str (conversationId bob.str user.str)))]

theorem foreignMail_not_kept : ∃ w,
    Reach (browser account (fun _ _ => true) (tasks foreignMail)) {} w ∧
      ¬ ConversationsKept account w.sys := by
  obtain ⟨w, run, holds⟩ := reach_of_follow account (fun _ _ => true) (tasks foreignMail)
    (schedule foreignMail 24)
    (fun w => (w.sys.db.messages.get [.str "b"]).any fun row =>
      row.fromUser.same (.str mallory.str) &&
        row.conversationId.same (.str (conversationId bob.str user.str))) (by decide +kernel)
  refine ⟨w, run, fun kept => ?_⟩
  obtain ⟨row, found, checked⟩ := (Option.any_eq_true _ _).mp holds
  obtain ⟨byMallory, toBob⟩ := (Bool.and_eq_true _ _).mp checked
  obtain ⟨sender, from_, stranger, _⟩ := kept _ row found
  rw [Js.eq_of_same byMallory] at from_
  have same : sender.str = mallory.str := by simpa using from_.symm
  have other : sender ≠ account.userId := fun self => by
    rw [self] at same
    exact absurd same (by decide)
  have here := stranger other
  rw [Js.eq_of_same toBob, same] at here
  exact absurd (Js.str.inj here) (by decide)

/-- The session `s` belongs to Bob, every other one to the account itself. -/
def creator (sessionId : String) : UserId := if sessionId = "s" then bob else user

/-- Ciphertexts that a session opens were made by its creator. -/
def wrote (writer : UserId) (sessionId ciphertext : String) : Prop :=
  writer = creator sessionId ∧ (crypto.opens sessionId ciphertext).isSome = true

theorem crypto_ideal : IdealMegolm account.crypto creator wrote where
  opened _ _ r opened := ⟨rfl, Option.isSome_iff_exists.mpr ⟨r, opened⟩⟩
  unforged _ _ _ made := made.1

/-- A test that a message was posted by the creator of the session it names. -/
def postedByCreator (e : Js) : Bool :=
  match e.member "payload", e.member "from_user" with
  | .ok payload, .ok fromUser => match payload.member "session_id" with
    | .ok (.str sessionId) => fromUser.same (.str (creator sessionId).str)
    | _ => true
  | _, _ => true

theorem own_of_postedByCreator {e : Js} (posted : postedByCreator e = true)
    (from_ : ∃ x, e.member "from_user" = .ok x) : OwnSession account creator e := by
  rintro k text ⟨payload, ciphertext, inside, session, _⟩
  obtain ⟨fromUser, given⟩ := from_
  simp only [postedByCreator, inside, given, session] at posted
  rw [given, Js.eq_of_same posted]

/-- Bob's key share and his message. -/
def bobsMail : List (UserId × Json) :=
  [(bob, keyShare bob user "a" "s"), (bob, message bob user "b" "s" "hi" .null)]

theorem bobsMail_authors : ∃ w, Reach (browser account (fun _ _ => true) (tasks bobsMail)) {} w ∧
    (w.sys.db.messages.get [.str "b"]).isSome = true ∧ AuthorsKept account wrote w.sys := by
  obtain ⟨w, run, holds⟩ := reach_of_follow account (fun _ _ => true) (tasks bobsMail)
    (schedule bobsMail 24)
    (fun w => w.sys.accepted.all (bothViews fun e => postedByCreator e &&
      (e.member "from_user").isOk) && (w.sys.db.messages.get [.str "b"]).isSome) (by decide +kernel)
  obtain ⟨checked, stored⟩ := (Bool.and_eq_true _ _).mp holds
  refine ⟨w, run, stored, authors_kept crypto_ideal run fun e delivered => ?_⟩
  obtain ⟨posted, given⟩ := (Bool.and_eq_true _ _).mp (of_bothViews checked delivered)
  refine own_of_postedByCreator posted ?_
  cases found : e.member "from_user" with
  | ok x => exact ⟨x, rfl⟩
  | error _ => rw [found] at given; cases given

/-- Mallory, who has the key too, posts Bob's ciphertext again as her own. -/
def replayedMail : List (UserId × Json) :=
  bobsMail ++ [(mallory, message mallory user "c" "s" "hi" .null)]

theorem replayedMail_authors : ∃ w,
    Reach (browser account (fun _ _ => true) (tasks replayedMail)) {} w ∧
      IdealMegolm account.crypto creator wrote ∧ ¬ AuthorsKept account wrote w.sys := by
  obtain ⟨w, run, holds⟩ := reach_of_follow account (fun _ _ => true) (tasks replayedMail)
    (schedule replayedMail 27)
    (fun w => (w.sys.db.messages.get [.str "c"]).any fun row =>
      row.fromUser.same (.str mallory.str)) (by decide +kernel)
  refine ⟨w, run, crypto_ideal, fun kept => ?_⟩
  obtain ⟨row, found, byMallory⟩ := (Option.any_eq_true _ _).mp holds
  obtain ⟨sender, from_, _, k, _, _, _, _, _, _, _, made, _⟩ := kept _ row found
  rw [Js.eq_of_same byMallory, made] at from_
  have same : mallory.str = (creator k.sessionId).str := Js.str.inj from_
  by_cases bobs : k.sessionId = "s"
  · rw [creator, if_pos bobs] at same
    exact absurd same (by decide)
  · rw [creator, if_neg bobs] at same
    exact absurd same (by decide)

end Samples

end Atmin.Web
