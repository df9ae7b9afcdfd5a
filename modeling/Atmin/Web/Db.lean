import Atmin.Web.Async
import Atmin.Web.Payload

/-!
# Message storage (`db.ts`)

`saveMessages` with its two phases, and the recomputation of the conversation summaries
that amendments touch.
-/

namespace Atmin.Web

/-- `a > b` on timestamps; an invalid date compares with nothing. -/
def Timestamp.after (a b : Timestamp) : Bool :=
  match a, b with
  | some x, some y => decide (y < x)
  | _, _ => false

/-- `Math.max`. -/
def Timestamp.max (a b : Timestamp) : Timestamp :=
  match a, b with
  | some x, some y => some (Max.max x y)
  | _, _ => none

/-- A conversation's part of a batch. -/
structure ConvUpdate where
  conversationId : Js
  text : String
  ts : Timestamp
  count : Nat
  deriving Repr

/-- Count a message in. -/
def bumpConversation (m : DecryptedMessage) : List ConvUpdate → List ConvUpdate
  | [] => [⟨m.conversationId, m.text, m.timestamp, 1⟩]
  | u :: rest =>
    if m.conversationId.same u.conversationId then
      (if m.timestamp.after u.ts then ⟨u.conversationId, m.text, m.timestamp, u.count + 1⟩
        else { u with count := u.count + 1 }) :: rest
    else u :: bumpConversation m rest

def addOnce (x : Js) (set : List Js) : List Js := if x.isIn set then set else set ++ [x]

section Save

variable (parse : String → Option Json)

/-- The updated conversations of a batch, and those it amends. -/
def groupByConversation : List DecryptedMessage → List ConvUpdate × List Js
    → List ConvUpdate × List Js
  | [], acc => acc
  | m :: rest, (updates, amended) =>
    if isAmendment parse m.text then
      groupByConversation rest (updates, addOnce m.conversationId amended)
    else groupByConversation rest (bumpConversation m updates, amended)

def storedMessage (userId : String) (m : DecryptedMessage) : StoredMessage :=
  { id := m.id, userId, conversationId := m.conversationId, fromUser := m.fromUser
    fromDevice := m.fromDevice, text := m.text, timestamp := m.timestamp }

/-- The summary row that an update leaves. The row is put whole, without a read watermark. -/
def summaryRow (existing : Option StoredConversation) (u : ConvUpdate) : StoredConversation :=
  let keep := existing.filter fun e => e.lastMessageTimestamp.after u.ts
  { conversationId := u.conversationId
    lastMessageText := (keep.map StoredConversation.lastMessageText).getD u.text
    lastMessageTimestamp :=
      ((existing.map StoredConversation.lastMessageTimestamp).getD (some 0)).max u.ts
    lastMessageDeleted := (keep.map StoredConversation.lastMessageDeleted).getD false
    messageCount := ((existing.map StoredConversation.messageCount).getD 0) + u.count }

/-- Read the row of each conversation. -/
def getConversations : List Js → Async (List (Option StoredConversation))
  | [] => pure []
  | id :: rest => do
    let row ← await (step (.getConversation id))
    let rows ← getConversations rest
    pure (row :: rows)

/-! ### Summaries -/

structure Summary where
  lastMessageText : String
  lastMessageTimestamp : Timestamp
  lastMessageDeleted : Bool
  deriving DecidableEq, Repr

/-- `a > b` on strings. -/
def Js.after (a b : Js) : Bool :=
  match a, b with
  | .str x, .str y => decide (Utf16.place y < Utf16.place x)
  | _, _ => false

/-- The amendments of a message, oldest id first. -/
def amendmentChain (msgs : List StoredMessage) (target : Js) : List StoredMessage :=
  (msgs.filter fun m => match parseInner parse m.text with
    | .amendment id _ _ => id.same target
    | _ => false).insertionSort fun a b => Database.idLe a b = true

def latestOf : StoredMessage → List StoredMessage → StoredMessage
  | latest, [] => latest
  | latest, m :: rest =>
    if m.timestamp.after latest.timestamp ||
        (m.timestamp.isSome && decide (m.timestamp = latest.timestamp) && m.id.after latest.id) then
      latestOf m rest
    else latestOf latest rest

/-- Whether the chain deletes its target, and else the last edit of it. -/
def applyChain (latest : StoredMessage) (isText : Bool) :
    List StoredMessage → Option Js → Bool × Option Js
  | [], edited => (false, edited)
  | am :: rest, edited => match parseInner parse am.text with
    | .amendment _ action body =>
      if !am.fromUser.same latest.fromUser then applyChain latest isText rest edited
      else if action.same (.str "delete") then (true, none)
      else if action.same (.str "edit") && isText && body.isSome then
        applyChain latest isText rest body
      else applyChain latest isText rest edited
    | _ => applyChain latest isText rest edited

/-- `render` is `JSON.stringify` of a text payload with the given body. -/
def summarizeConversation (render : Js → String) (msgs : List StoredMessage) : Option Summary :=
  -- amendments are no messages of their own
  let originals := msgs.filter fun m => match parseInner parse m.text with
    | .text _ | .media .. => true
    | _ => false
  match originals with
  | [] => none
  | first :: rest =>
    let latest := latestOf first rest
    -- only a text can be edited; anything can be deleted
    let isText := match parseInner parse latest.text with
      | .text _ => true
      | _ => false
    match applyChain parse latest isText (amendmentChain parse msgs latest.id) none with
    | (true, _) => some ⟨"", latest.timestamp, true⟩
    | (false, some body) => some ⟨render body, latest.timestamp, false⟩
    | (false, none) => some ⟨latest.text, latest.timestamp, false⟩

/-- The row to write for an amended conversation, if it changes. -/
def correctedRow (render : Js → String) (all : List StoredMessage) (id : Js)
    (current : Option StoredConversation) : Option StoredConversation := do
  let current ← current
  let summary ← summarizeConversation parse render
    (all.filter fun m => m.conversationId.same id)
  if summary.lastMessageText = current.lastMessageText ∧
      summary.lastMessageTimestamp.isSome ∧
      summary.lastMessageTimestamp = current.lastMessageTimestamp ∧
      summary.lastMessageDeleted = current.lastMessageDeleted then none
  else
    some
      -- the row is written whole, so its read watermark goes
      { conversationId := id, lastMessageText := summary.lastMessageText
        lastMessageTimestamp := summary.lastMessageTimestamp
        lastMessageDeleted := summary.lastMessageDeleted, messageCount := current.messageCount }

def recomputeAmendedSummaries (render : Js → String) (userId : String) (ids : List Js) :
    Async Unit := do
  let all ← await (step (.getAllMessages userId))
  let rows ← getConversations ids
  let writes := (ids.zip rows).filterMap fun (id, row) => correctedRow parse render all id row
  if writes.isEmpty then pure () else await (step (.putConversations writes))

def saveMessages (render : Js → String) (userId : String) (messages : List DecryptedMessage) :
    Async Unit :=
  if messages.isEmpty then pure ()
  else do
    let (updates, amended) := groupByConversation parse messages ([], [])
    let existing ← getConversations (updates.map ConvUpdate.conversationId)
    await (step (.putMessages (messages.map (storedMessage userId))
      ((existing.zip updates).map fun (row, u) => summaryRow row u)))
    if amended.isEmpty then pure () else recomputeAmendedSummaries parse render userId amended

end Save

end Atmin.Web
