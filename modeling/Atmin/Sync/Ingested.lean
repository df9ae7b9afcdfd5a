import Atmin.Sync.Rendering

/-!
# Archives that are never fetched again

An archive recorded as ingested is not read any more, so each of its messages that the
account can open has to be stored by then. A key that opens a message is of no use when the
device already holds the session under a key that does not.
-/

namespace Atmin.Web

open Interaction

section Hidden

variable (account : Account) (s : State)

variable [CborDecoder]

/-- A session key the account has: on the device, in a key share of the inbox that opens
under the sharing key, or in the key backup. -/
inductive AccountKey : Inbound → Prop where
  | cached {id : String} {stored : StoredInbound} :
    s.memory.inboundCache.get id = some stored → AccountKey stored.session
  | stored {id : String} {stored : StoredInbound} :
    s.db.inbound.get id = some stored → AccountKey stored.session
  | shared {e : Js} {sessionKey : String} {k : Inbound} : Delivered account.userId s e →
    e.member "content_type" = .ok (.str "megolm.key_share") →
    openKeyShare ⟨account, s.sharingKey, false⟩ e = .ok sessionKey →
    account.crypto.importSession sessionKey = some k → AccountKey k
  | backedUp {k : Inbound} : k ∈ s.backups → AccountKey k

/-- An entry of an archive that the device has recorded as ingested. -/
def InIngested (e : Js) : Prop :=
  ∃ key ∈ s.db.ingestedArchives, ∃ entries, (key, entries) ∈ s.archived ∧ ∃ v ∈ entries, e = Js.ofValue v

/-- The text of the envelope is stored under its id and its sender. -/
def Present (e id : Js) (text : String) : Prop :=
  ∃ key row, s.db.messages.get key = some row ∧ row.id = id ∧ row.text = text ∧
    e.member "from_user" = .ok row.fromUser

/-- Every message of an ingested archive that some key of the account opens is stored. -/
def NoneHidden : Prop :=
  ∀ e id k text, InIngested s e → IsMessage e id → AccountKey account s k →
    Opens account.crypto k e text → Present s e id text

/-- Nothing keeps a message from being stored that some key of the account opens. -/
structure Unobstructed : Prop where
  /-- The device never held the session under a key that does not open the message. -/
  keys : ∀ e id k text, InIngested s e → IsMessage e id → AccountKey account s k →
    Opens account.crypto k e text →
    ∀ k' ∈ s.held, k'.sessionId = k.sessionId → ∃ text', Opens account.crypto k' e text'
  /-- The date of the message can be converted. -/
  dates : ∀ e id k text sentAt, InIngested s e → IsMessage e id → AccountKey account s k →
    Opens account.crypto k e text → e.member "sent_at" = .ok sentAt →
    ∃ timestamp, account.date (sentAt.orElse (.num (.int 0))) = .ok timestamp
  /-- No other message was sent under its id. -/
  ids : ∀ e e' id k k' text text', InIngested s e → IsMessage e id → AccountKey account s k →
    Opens account.crypto k e text → Delivered account.userId s e' → IsMessage e' id →
    Opens account.crypto k' e' text' → text' = text ∧ e'.member "from_user" = e.member "from_user"

end Hidden

section Stored

variable {account : Account} {s : State}

/-- Only its date can keep an envelope from becoming a message. -/
theorem decryptedMessage_dated {k : Inbound} {e sentAt : Js} {text : String} {timestamp : Timestamp}
    (opens : Opens account.crypto k e text) (sent : e.member "sent_at" = .ok sentAt)
    (dated : account.date (sentAt.orElse (.num (.int 0))) = .ok timestamp) :
    ∃ m, decryptedMessage account e text = .ok m := by
  obtain ⟨payload, _, inside, session, _⟩ := opens
  obtain ⟨id, named⟩ := member_ok sent "msg_id"
  obtain ⟨fromUser, sender⟩ := member_ok sent "from_user"
  obtain ⟨fromDevice, device⟩ := member_ok sent "from_device"
  obtain ⟨conversation, given⟩ := member_ok session "conversation_id"
  simp only [decryptedMessage, except_bind_ok]
  exact ⟨_, id, named, payload, inside, conversation, given, fromUser, sender, fromDevice, device,
    sentAt, sent, timestamp, dated, rfl⟩

variable [CborDecoder]

/-- An ingested archive is accounted for, entry by entry. -/
theorem Sourced.ingestedEntry {reliable : Prop} (inv : Sourced account reliable s) (h : reliable)
    {e : Js} (ingested : InIngested s e) :
    Delivered account.userId s e ∧ Accounted account s [] e := by
  obtain ⟨key, member, entries, written, v, here, rfl⟩ := ingested
  obtain ⟨entries', written', each⟩ := inv.ingested h key member
  have same : (key, entries) = (key, entries') :=
    List.inj_on_of_nodup_map inv.once written written' rfl
  cases same
  exact each v here

/-- The row under the id of a message is that message, when no other was sent under the id. -/
theorem present_of_row {reliable : Prop} (inv : Sourced account reliable s) {e id : Js}
    {text : String} (delivered : Delivered account.userId s e) (message : IsMessage e id)
    (only : ∀ e' k' text', Delivered account.userId s e' → IsMessage e' id →
      Opens account.crypto k' e' text' → text' = text ∧ e'.member "from_user" = e.member "from_user")
    (row : HasRow s id) : Present s e id text := by
  obtain ⟨key, row, valid, found⟩ := row
  obtain ⟨e', k', delivered', message', opens', ⟨sender, named, from_⟩, _⟩ := row_origin inv found
  have same : row.id = id :=
    key_inj delivered' message' delivered message (inv.rows key row found).1 valid
  rw [same] at message'
  obtain ⟨text_, sent⟩ := only e' k' row.text delivered' message' opens'
  exact ⟨key, row, found, same, text_, by rw [← sent, named, from_]⟩

/-- In every run in which nothing obstructs them, the messages of the ingested archives are
stored. -/
theorem none_hidden {ι : Type} [DecidableEq ι] {allow : Act → Outcome → Bool} {tasks : Tasks ι}
    {w : World ι Act Reply Unit State} (reliable : Reliable allow)
    (run : Reach (browser account allow tasks) {} w) (clear : Unobstructed account w.sys) :
    NoneHidden account w.sys := by
  intro e id k text ingested message has opens
  have inv := browser_sourced run
  obtain ⟨delivered, accounted⟩ := inv.ingestedEntry reliable ingested
  rcases accounted id message with row | ⟨m, member, _⟩ | passed
  · exact present_of_row inv delivered message (fun e' k' text' delivered' message' opens' =>
      clear.ids e e' id k k' text text' ingested message has opens delivered' message' opens') row
  · cases member
  · exfalso
    rcases passed k text opens with ⟨k', held, session, closed⟩ | ⟨thrown, failed⟩
    · obtain ⟨text', opened⟩ := clear.keys e id k text ingested message has opens k' held session
      exact closed text' opened
    · obtain ⟨sentAt, sent⟩ := member_ok message.2 "sent_at"
      obtain ⟨timestamp, dated⟩ := clear.dates e id k text sentAt ingested message has opens sent
      obtain ⟨m, made⟩ := decryptedMessage_dated opens sent dated
      rw [made] at failed
      cases failed

end Stored

section Samples

open Demo

attribute [local instance] Demo.cbor

/-- A share of the session `s` that says `late` carries it from its second index on. -/
def lateAccount : Account :=
  { account with crypto := { crypto with
      importSession := fun key => if key = "late" then some ⟨"s", 1⟩ else some ⟨key, 0⟩ } }

def noFault : Act → Outcome → Bool := fun _ c => decide (c = .ok)

example : lateAccount.crypto.importSession "late" = some ⟨"s", 1⟩ := by decide +kernel

theorem noFault_reliable : Reliable noFault := fun _ _ => rfl

/-- A key share, a message that is compacted, a sync, and a backup of the whole session. -/
def sharedAs (sessionKey : String) : List Task :=
  [delivery bob (keyShare bob user "a" sessionKey),
    delivery bob (message bob user "b" "s" "hi" .null)] ++
    compaction "x" [1] [keyInboxLive user.str "b"] ++
    [.sync "" false, .surroundings (.changeBackups [⟨"s", 0⟩]) rfl]

/-- The only message is Bob's, under the session `s`. -/
def onlyHi (e : Js) : Bool :=
  match e.member "content_type", e.member "from_user", e.member "payload" with
  | .ok type_, .ok fromUser, .ok payload => !type_.same (.str "megolm.message") ||
      match payload.member "session_id", payload.member "ciphertext" with
      | .ok sessionId, .ok ciphertext => fromUser.same (.str bob.str) &&
          sessionId.same (.str "s") && ciphertext.same (.str "s:hi")
      | _, _ => false
  | _, _, _ => true

theorem of_onlyHi {t : State} (checked : t.accepted.all (bothViews onlyHi) = true) {e id : Js}
    {k : Inbound} {text : String} (delivered : Delivered user t e) (message : IsMessage e id)
    (opens : Opens crypto k e text) : e.member "from_user" = .ok (.str bob.str) ∧ text = "hi" := by
  have hi := of_bothViews checked delivered
  obtain ⟨payload, ciphertext, inside, session, sealed_, decrypted⟩ := opens
  obtain ⟨fromUser, sent⟩ := member_ok message.2 "from_user"
  have type_ : (Js.str "megolm.message").same (.str "megolm.message") = true := by simp
  simp only [onlyHi, message.1, sent, inside, session, sealed_, type_, Bool.not_true,
    Bool.false_or, Bool.and_eq_true, Js.same_of_str, Js.str.injEq] at hi
  obtain ⟨⟨rfl, same⟩, rfl⟩ := hi
  refine ⟨sent, ?_⟩
  obtain ⟨index, opened, _⟩ := opens_of_decrypt decrypted
  rw [same] at opened
  have known : crypto.opens "s" "s:hi" = some (0, "hi") := by decide
  rw [known] at opened
  cases opened
  rfl

/-- A key that opens a message at its first index does so under any key from that index on. -/
theorem opens_from_start {crypto : Crypto} {k k' : Inbound} {e : Js} {text : String}
    (opens : Opens crypto k e text) (session : k'.sessionId = k.sessionId)
    (start : k'.firstKnownIndex = 0) : Opens crypto k' e text := by
  obtain ⟨payload, ciphertext, inside, named, sealed_, decrypted⟩ := opens
  obtain ⟨index, opened, _⟩ := opens_of_decrypt decrypted
  refine ⟨payload, ciphertext, inside, by rw [session]; exact named, sealed_, ?_⟩
  simp [Inbound.decrypt, session, opened, start]

theorem early_none_hidden : ∃ w,
    Reach (browser lateAccount noFault (script (sharedAs "s"))) {} w ∧
      w.sys.db.ingestedArchives.length = 1 ∧ NoneHidden lateAccount w.sys := by
  obtain ⟨w, run, holds⟩ := reach_of_follow lateAccount noFault (script (sharedAs "s"))
    (inTurn _ [3, 3, 3, 3, 25, 3])
    (fun w => w.sys.accepted.all (bothViews onlyHi) &&
      w.sys.held.all (fun k => decide (k.firstKnownIndex = 0)) &&
      decide (w.sys.db.ingestedArchives.length = 1)) (by decide +kernel)
  simp only [Bool.and_eq_true, decide_eq_true_eq] at holds
  obtain ⟨⟨checked, early⟩, one⟩ := holds
  refine ⟨w, run, one, none_hidden noFault_reliable run ⟨?_, ?_, ?_⟩⟩
  · intro e id k text _ _ _ opens k' held session
    have start := List.all_eq_true.mp early k' held
    exact ⟨text, opens_from_start opens session (by simpa using start)⟩
  · exact fun _ _ _ _ _ _ _ _ _ _ => ⟨some 0, rfl⟩
  · intro e e' id k k' text text' ingested message _ opens delivered' message' opens'
    obtain ⟨delivered, _⟩ := (browser_sourced run).ingestedEntry noFault_reliable ingested
    obtain ⟨sender, hi⟩ := of_onlyHi checked delivered message opens
    obtain ⟨sender', hi'⟩ := of_onlyHi checked delivered' message' opens'
    exact ⟨hi'.trans hi.symm, sender'.trans sender.symm⟩

/-- A test that the envelope is the message `b`, and that the session `s` opens it. -/
def opensHi (e : Js) : Bool :=
  match e.member "content_type", e.member "msg_id", e.member "payload" with
  | .ok type_, .ok id, .ok payload =>
    type_.same (.str "megolm.message") && id.same (.str "b") &&
      match payload.member "session_id", payload.member "ciphertext" with
      | .ok sessionId, .ok ciphertext => sessionId.same (.str "s") && ciphertext.same (.str "s:hi")
      | _, _ => false
  | _, _, _ => false

/-- A test that a stored object is that message. -/
def holdsHi : Data → Bool
  | .json raw => opensHi (Js.ofJson raw)
  | _ => false

theorem of_opensHi {e : Js} (checked : opensHi e = true) :
    IsMessage e (.str "b") ∧ Opens crypto ⟨"s", 0⟩ e "hi" := by
  unfold opensHi at checked
  split at checked
  next type_ id payload found named inside =>
    split at checked
    next sessionId ciphertext session sealed_ =>
      simp only [Bool.and_eq_true, Js.same_of_str] at checked
      obtain ⟨⟨rfl, rfl⟩, rfl, rfl⟩ := checked
      exact ⟨⟨found, named⟩, payload, "s:hi", inside, session, sealed_, by decide⟩
    next => simp at checked
  next => cases checked

/-- The session is first received too late for the archived message. -/
theorem late_hidden : ∃ w,
    Reach (browser lateAccount noFault (script (sharedAs "late"))) {} w ∧
      Reliable noFault ∧ ¬ NoneHidden lateAccount w.sys := by
  obtain ⟨w, run, holds⟩ := reach_of_follow lateAccount noFault (script (sharedAs "late"))
    (inTurn _ [3, 3, 3, 3, 21, 3])
    (fun w => (w.sys.archived.any fun e => decide (e.1 ∈ w.sys.db.ingestedArchives) &&
        e.2.any fun v => opensHi (Js.ofValue v)) &&
      decide (⟨"s", 0⟩ ∈ w.sys.backups) && (w.sys.db.messages.get [.str "b"]).isNone)
    (by decide)
  simp only [Bool.and_eq_true, List.any_eq_true, decide_eq_true_eq] at holds
  obtain ⟨⟨⟨⟨key, entries⟩, written, ingested, v, member, checked⟩, backedUp⟩, missing⟩ := holds
  obtain ⟨message, opens⟩ := of_opensHi checked
  refine ⟨w, run, noFault_reliable, fun none_ => ?_⟩
  obtain ⟨key', row, found, id_, _⟩ := none_ _ _ _ _ ⟨key, ingested, entries, written, v, member, rfl⟩
    message (.backedUp backedUp) opens
  obtain ⟨name, named, rfl⟩ := (browser_sourced run).named key' row found
  cases named.symm.trans id_
  rw [found] at missing
  cases missing

end Samples

end Atmin.Web
