import Atmin.Sync.LastBubble
import Atmin.Web.ReadMarkers

/-!
# Unread counts

The badge of a conversation counts stored messages, and the chat shows bubbles. A payload of
a type to come has no bubble, but it is counted.
-/

namespace Atmin.Web

open Interaction

/-! ### The counter (`db.ts`) -/

/-- `lastRead.get(id) ?? 0`. -/
def Database.lastReadOf (db : Database) (id : Js) : Int :=
  (((db.conversations.entries.map Prod.snd).reverse.find? fun c => id.same c.conversationId).map
    StoredConversation.lastRead).getD 0

/-- `counts.get(id) ?? 0`. -/
def unreadOf (counts : List (Js × Nat)) (id : Js) : Nat :=
  ((counts.find? fun e => id.same e.1).map Prod.snd).getD 0

/-- `counts.set(id, (counts.get(id) ?? 0) + 1)`. -/
def countIn (id : Js) : List (Js × Nat) → List (Js × Nat)
  | [] => [(id, 1)]
  | (other, n) :: rest =>
    if id.same other then (other, n + 1) :: rest else (other, n) :: countIn id rest

section Counter

variable (parse : String → Option Json) (db : Database) (userId : String)

def countUnread : List StoredMessage → List (Js × Nat) → List (Js × Nat)
  | [], counts => counts
  | m :: rest, counts =>
    if m.fromUser.same (.str userId) then countUnread rest counts
    else if isAmendment parse m.text then countUnread rest counts
    else if m.timestamp.after (some (db.lastReadOf m.conversationId)) then
      countUnread rest (countIn m.conversationId counts)
    else countUnread rest counts

def unreadCounts : List (Js × Nat) := countUnread parse db userId (db.messagesOf userId) []

/-- Not by the user, and newer than the watermark of its conversation. -/
def incoming (m : StoredMessage) : Bool :=
  !m.fromUser.same (.str userId) && m.timestamp.after (some (db.lastReadOf m.conversationId))

/-- A payload of a type that the client does not know. -/
def isUnknown (text : String) : Bool :=
  match parseInner parse text with
  | .unknown => true
  | _ => false

end Counter

section Unread

variable {parse : String → Option Json} {account : Account} {atob : String → Option (List UInt8)}
  {db : Database} {userId convId : String} {msgs : List StoredMessage}

/-! ### What is counted -/

theorem unreadOf_countIn (id : Js) (convId : String) (counts : List (Js × Nat)) :
    unreadOf (countIn id counts) (.str convId) =
      unreadOf counts (.str convId) + if id.same (.str convId) then 1 else 0 := by
  induction counts with
  | nil =>
    by_cases here : id = .str convId <;> simp [countIn, unreadOf, here]
  | cons e rest ih =>
    obtain ⟨other, n⟩ := e
    by_cases named : other = .str convId
    · -- The entry of the conversation itself.
      subst named
      cases here : id.same (.str convId) <;> simp [countIn, unreadOf, here]
    · have skip (tail : List (Js × Nat)) (k : Nat) :
          unreadOf ((other, k) :: tail) (.str convId) = unreadOf tail (.str convId) := by
        simp [unreadOf, named]
      unfold countIn
      split
      next same =>
        have elsewhere : id ≠ .str convId := Js.eq_of_same same ▸ named
        rw [skip, skip, if_neg (by simpa using elsewhere), Nat.add_zero]
      next => rw [skip, skip, ih]

theorem unreadOf_countUnread (counts : List (Js × Nat)) :
    unreadOf (countUnread parse db userId msgs counts) (.str convId) =
      unreadOf counts (.str convId) + msgs.countP fun m =>
        m.conversationId.same (.str convId) && incoming db userId m && !isAmendment parse m.text := by
  induction msgs generalizing counts with
  | nil => rfl
  | cons m rest ih =>
    unfold countUnread
    cases own : m.fromUser.same (.str userId) with
    | true => simp [ih, incoming, own]
    | false =>
      cases amends : isAmendment parse m.text with
      | true => simp [ih, amends]
      | false =>
        cases newer : m.timestamp.after (some (db.lastReadOf m.conversationId)) with
        | false => simp [ih, incoming, newer]
        | true =>
          simp only [Bool.false_eq_true, if_false, if_true, ih, unreadOf_countIn]
          rw [List.countP_cons, incoming, own, newer, amends]
          simp only [Bool.not_false, Bool.and_true]
          omega

/-! ### What is shown -/

theorem amend_sent (account : Account) (author : Js) (base : Message) (chain : List StoredMessage) :
    (amend account author base chain).sent = base.sent := by
  fun_induction amend account author base chain <;> first | rfl | assumption

theorem entry_sent {m : StoredMessage} {b : Message} (made : entry account atob msgs m = some b) :
    b.sent = m.fromUser.same (.str account.userId.str) ∧ b.timestamp = m.timestamp := by
  obtain ⟨base, found, rfl⟩ := Option.map_eq_some_iff.mp made
  have based := Option.join_eq_some_iff.mp found
  unfold baseMessage at based
  rw [amend_timestamp, amend_sent]
  dsimp only at based
  split at based
  next => cases based; exact ⟨rfl, rfl⟩
  next =>
    simp only [Option.bind_eq_bind, Option.bind_eq_some_iff, Option.pure_def,
      Option.some.injEq] at based
    obtain ⟨media, _, rfl⟩ := based
    exact ⟨rfl, rfl⟩
  all_goals cases based

theorem countP_paired {α β : Type} {p : α → Bool} {q : β → Bool} {xs : List α} {ys : List β}
    (paired : List.Forall₂ (fun a b => p a = q b) xs ys) : ys.countP q = xs.countP p := by
  induction paired with
  | nil => rfl
  | cons same _ ih => rw [List.countP_cons, List.countP_cons, ih, same]

/-- The bubbles of others that are newer than the watermark are counted by their originals. -/
theorem countP_shown
    (decodes : ∀ m ∈ chatRows account db convId, decodable account.parse atob m = true) :
    ∃ shown, load account atob db convId = some shown ∧
      (shown.countP fun b => !b.sent && b.timestamp.after (some (db.lastReadOf (.str convId)))) =
        (chatRows account db convId).countP fun m =>
          incoming db account.userId.str m && isOriginal account.parse m.text := by
  have view : load account atob db convId = some ((chatRows account db convId).filterMap
      (entry account atob (chatRows account db convId))) := by
    rw [load, ← chatRows, toMessages_eq, if_pos (List.all_eq_true.mpr decodes)]
  refine ⟨_, view, ?_⟩
  have paired : List.Forall₂ (fun (m : StoredMessage) (b : Message) =>
      incoming db account.userId.str m =
        (!b.sent && b.timestamp.after (some (db.lastReadOf (.str convId)))))
      (originals account.parse (chatRows account db convId))
      ((chatRows account db convId).filterMap (entry account atob (chatRows account db convId))) :=
    entries_forall decodes fun m member b made => by
      obtain ⟨_, _, _, named⟩ := mem_chatRows.mp member
      rw [incoming, named, (entry_sent made).1, (entry_sent made).2]
  have split_ : (originals account.parse (chatRows account db convId)).countP
      (incoming db account.userId.str) = _ := List.countP_filter ..
  rw [← split_]
  exact countP_paired paired

/-- An original is no amendment, and what is neither is unknown. -/
theorem isOriginal_eq (text : String) :
    isOriginal parse text = (!isAmendment parse text && !isUnknown parse text) := by
  unfold isOriginal isAmendment isUnknown
  cases parseInner parse text <;> rfl

/-- The badge shows as many messages as the chat shows unread bubbles, exactly where no unread
message of another is of an unknown type or dated outside the index. -/
theorem unread_rendered_iff
    (decodes : ∀ m ∈ chatRows account db convId, decodable account.parse atob m = true) :
    ∃ shown, load account atob db convId = some shown ∧
      (unreadOf (unreadCounts account.parse db account.userId.str) (.str convId) =
          (shown.countP fun b => !b.sent && b.timestamp.after (some (db.lastReadOf (.str convId)))) ↔
        ∀ m ∈ db.messagesOf account.userId.str, m.conversationId = .str convId →
          incoming db account.userId.str m = true → isAmendment account.parse m.text = false →
            isUnknown account.parse m.text = false ∧ Database.dated m = true) := by
  obtain ⟨shown, view, counted⟩ := countP_shown decodes
  refine ⟨shown, view, ?_⟩
  let rows := (db.messagesOf account.userId.str).filter fun m => m.conversationId.same (.str convId) &&
    incoming db account.userId.str m && !isAmendment account.parse m.text
  have badge : unreadOf (unreadCounts account.parse db account.userId.str) (.str convId) =
      rows.length := by
    rw [unreadCounts, unreadOf_countUnread, List.countP_eq_length_filter]
    exact Nat.zero_add _
  have bubbles : (chatRows account db convId).countP (fun m =>
      incoming db account.userId.str m && isOriginal account.parse m.text) =
        rows.countP fun m => !isUnknown account.parse m.text && Database.dated m := by
    rw [chatRows, Database.loadMessages, List.countP_filter, (List.perm_insertionSort _ _).countP_eq,
      List.countP_filter, List.countP_filter]
    refine List.countP_congr fun m _ => ?_
    rw [isOriginal_eq]
    simp only [Bool.and_eq_true]
    tauto
  rw [counted, bubbles, badge, eq_comm, List.countP_eq_length]
  simp only [rows, List.mem_filter, Bool.and_eq_true, Bool.not_eq_true', Js.same_of_str]
  constructor
  · intro all m member named unread original
    exact all m ⟨member, ⟨named, unread⟩, original⟩
  · rintro all m ⟨member, ⟨named, unread⟩, original⟩
    exact all m member named unread original

end Unread

section Samples

open Demo

/-- Bob's greeting and his poll. -/
def bobsGreeting : StoredMessage := { hello with timestamp := some 1 }

def pollText : String := "\x7b\"type\":\"poll\"\x7d"

def poll : StoredMessage := { row bob "b" pollText with timestamp := some 2 }

def readPoll (text : String) : Option Json :=
  if text = pollText then some (.obj [("type", .str "poll")]) else none

def pollster : Account := { account with parse := readPoll }

def inChat (rows : List StoredMessage) : Database where
  messages := rows.foldl (fun store m => store.insert [.str m.name] m) .empty

/-- What the chat shows as unread. -/
def unreadBubbles (db : Database) (convId : String) : Option Nat :=
  (load pollster atob db convId).map fun shown =>
    shown.countP fun b => !b.sent && b.timestamp.after (some (db.lastReadOf (.str convId)))

/-- Bob's four messages, one of them read and the last an edit of the third; the user's own one; and
a poll elsewhere. -/
def chatter : List StoredMessage :=
  [{ row bob "read" "hi" with timestamp := some 4 },
    { row bob "b" "are you there" with timestamp := some 6 },
    { row bob "a" "hello" with timestamp := some 7 },
    { row bob "c" editText with timestamp := some 8 },
    { row user "d" "yes" with timestamp := some 9 },
    { row bob "e" pollText with timestamp := some 10, conversationId := .str "dm:c:d" }]

/-- The chat has been read up to 5. -/
def readUpTo5 : Database :=
  { inChat chatter with
    conversations := ObjectMap.empty.insert [.str "dm:a:b"]
      { conversationId := .str "dm:a:b", lastMessageText := "yes", lastMessageTimestamp := some 9
        messageCount := 4, lastReadTimestamp := some 5 } }

/-- Two messages are new, and the chat shows two new bubbles. -/
theorem news_shown :
    unreadOf (unreadCounts teller.parse readUpTo5 teller.userId.str) (.str "dm:a:b") = 2 ∧
    ∃ shown, load teller atob readUpTo5 "dm:a:b" = some shown ∧
      unreadOf (unreadCounts teller.parse readUpTo5 teller.userId.str) (.str "dm:a:b") =
        shown.countP fun b =>
          !b.sent && b.timestamp.after (some (readUpTo5.lastReadOf (.str "dm:a:b"))) := by
  constructor
  · decide +kernel
  · have decodes : ∀ m ∈ chatRows teller readUpTo5 "dm:a:b", decodable teller.parse atob m = true :=
      List.all_eq_true.mp (by decide +kernel)
    obtain ⟨shown, view, same⟩ := unread_rendered_iff decodes
    refine ⟨shown, view, same.mpr fun m member here _ _ => ?_⟩
    have known : ∀ m ∈ readUpTo5.messagesOf teller.userId.str,
        m.conversationId.same (.str "dm:a:b") = true →
          isUnknown teller.parse m.text = false ∧ Database.dated m = true := by decide +kernel
    exact known m member ((Js.same_of_str _ _).mpr here)

/-- The badge says two, and the chat shows the greeting alone. -/
theorem poll_counted :
    (∀ m ∈ (inChat [bobsGreeting, poll]).messagesOf user.str,
      Database.dated m = true ∧ decodable pollster.parse atob m = true) ∧
    unreadOf (unreadCounts pollster.parse (inChat [bobsGreeting, poll]) user.str) (.str "dm:a:b") = 2 ∧
    unreadBubbles (inChat [bobsGreeting, poll]) "dm:a:b" = some 1 := by
  decide

end Samples

end Atmin.Web
