import Atmin.Data.Utf16
import Atmin.Interaction.RelyGuarantee
import Atmin.Interaction.ObjectMap
import Atmin.Server.Inbox
import Atmin.Web.Js

/-!
# A browser and what surrounds it

The state one browser keeps for an account (IndexedDB, and the memory of the page), the
part of the object store it talks to, and the single steps a task of the page can take:
a request to the server, an IndexedDB transaction, a synchronous slice of work on the
memory of the page. Between two steps of a task every other task, every other device and
the server may move.
-/

namespace Atmin.Web

open Interaction

/-- Milliseconds since the epoch; an invalid date has none. -/
abbrev Timestamp := Option Int

/-- `MegolmInbound`: a session as received, from its first known index on. -/
structure Inbound where
  sessionId : String
  firstKnownIndex : Nat
  deriving DecidableEq, Repr

/-- An ECIES ciphertext with what is needed to open it, in base64url. -/
structure Sealed where
  ephemeralKey : String
  iv : String
  ciphertext : String
  deriving DecidableEq, Repr

/-- The cryptography the client calls (WebCrypto, vodozemac). -/
structure Crypto where
  /-- `eciesDecrypt` under a sharing private key. -/
  eciesDecrypt : String → Sealed → Option String
  /-- `eciesEncrypt` to a sharing public key, with the randomness it draws. -/
  eciesEncrypt : String → String → String → Option Sealed
  /-- `MegolmInbound.from_session_key`. -/
  importSession : String → Option Inbound
  /-- `session_key()` of an outbound session at a ratchet index. -/
  sessionKey : String → Nat → String
  /-- `encrypt` of an outbound session at a ratchet index. -/
  encrypt : String → Nat → String → String
  /-- The index and the text of a ciphertext made with a session; none if it was not. -/
  opens : String → String → Option (Nat × String)

/-- `decrypt` of an inbound session. -/
def Inbound.decrypt (crypto : Crypto) (inbound : Inbound) (ciphertext : String) : Option String :=
  match crypto.opens inbound.sessionId ciphertext with
  | some (index, text) => if inbound.firstKnownIndex ≤ index then some text else none
  | none => none

/-- A session as the session manager keeps it, in its cache and in `megolm_inbound`. -/
structure StoredInbound where
  fromUser : Js
  fromDevice : Js
  session : Inbound
  deriving Repr

structure DecryptedMessage where
  id : Js
  conversationId : Js
  fromUser : Js
  fromDevice : Js
  text : String
  timestamp : Timestamp
  deriving Repr

structure SyncResult where
  messages : List DecryptedMessage
  ingestedCandidates : List String
  deriving Repr

structure StoredMessage where
  id : Js
  userId : String
  conversationId : Js
  fromUser : Js
  fromDevice : Js
  text : String
  timestamp : Timestamp
  deriving Repr

structure StoredConversation where
  conversationId : Js
  lastMessageText : String
  lastMessageTimestamp : Timestamp
  messageCount : Nat
  lastMessageDeleted : Bool := false
  lastReadTimestamp : Timestamp := none
  deriving Repr

/-- A task started without being awaited. -/
inductive Background where
  | storeCompact (pre upTo : String)
  | backupSessionKey (sessionId sessionKey : String)
  | flushPendingKeyBackups
  deriving DecidableEq, Repr

/-- IndexedDB. -/
structure Database where
  messages : ObjectMap Key StoredMessage := .empty
  conversations : ObjectMap Key StoredConversation := .empty
  inbound : ObjectMap String StoredInbound := .empty
  syncCursors : ObjectMap String String := .empty
  ingestedArchives : List String := []

/-- The memory of the page; a reload empties it. -/
structure Memory where
  inboundCache : ObjectMap String StoredInbound := .empty
  /-- The syncs started so far, each with its result once it has settled. -/
  syncs : List (Option (Except Thrown SyncResult)) := []
  syncInFlight : Option Nat := none
  background : List Background := []

structure State where
  objects : ObjectMap String Data := .empty
  db : Database := {}
  memory : Memory := {}
  /-- How often the page was reloaded. -/
  epoch : Nat := 0
  /-- The private key under which key shares are opened now. -/
  sharingKey : String := ""
  /-- The session keys the key backup holds now. -/
  backups : List Inbound := []
  /-- Every envelope the server accepted so far. -/
  accepted : List Json := []
  /-- Every archive written so far. -/
  archived : List (String × List Value) := []
  /-- Every inbound session the session manager ever held. -/
  held : List Inbound := []

/-! ### Steps -/

/-- The answer of `joinSync`. -/
inductive Joined where
  /-- No sync was in flight: this caller fetches. -/
  | first (n : Nat)
  | second (n : Nat)
  deriving DecidableEq, Repr

inductive Act where
  -- requests to the server
  | storeList (pre : String) (cursor : Option String)
  | storeGet (key : String)
  | spawn (task : Background)
  | syncReadMarkers
  -- IndexedDB
  | loadSyncCursor (pre : String)
  | saveSyncCursor (pre cursor : String)
  | loadMessageIds (userId : String)
  | loadIngestedArchiveKeys
  | markArchiveIngested (key : String)
  | loadInboundSession (sessionId : Js)
  | saveInboundSession (stored : StoredInbound)
  | getConversation (id : Js)
  | putMessages (messages : List StoredMessage) (conversations : List StoredConversation)
  | getAllMessages (userId : String)
  | putConversations (conversations : List StoredConversation)
  -- memory
  | cachedInbound (sessionId : String)
  | cacheInbound (stored : StoredInbound)
  | joinSync
  | settleSync (n : Nat) (result : Except Thrown SyncResult)
  | awaitSync (n : Nat)
  -- the surroundings
  /-- The server accepts an envelope from a device of `sender`. -/
  | deliver (sender : UserId) (device : DeviceId) (raw : Json)
  /-- A compaction writes an archive of accepted envelopes, given by their positions. -/
  | archive (user : UserId) (name : String) (picks : List Nat)
  | remove (keys : List String)
  | changeBackups (keys : List Inbound)
  | changeSharingKey (key : String)
  | reload

@[reducible] def Reply : Act → Type
  | .storeList .. => Except Thrown StoreListResponse
  | .storeGet _ => Except Thrown Data
  | .loadSyncCursor _ => Except Thrown (Option String)
  | .loadMessageIds _ => Except Thrown (List Js)
  | .loadIngestedArchiveKeys => Except Thrown (List String)
  | .loadInboundSession _ => Except Thrown (Option StoredInbound)
  | .getConversation _ => Except Thrown (Option StoredConversation)
  | .getAllMessages _ => Except Thrown (List StoredMessage)
  | .cachedInbound _ => Option StoredInbound
  | .joinSync => Joined
  | .awaitSync _ => Except Thrown SyncResult
  | .saveSyncCursor .. | .markArchiveIngested _ | .saveInboundSession _ | .putMessages ..
  | .putConversations _ | .syncReadMarkers => Except Thrown Unit
  | .spawn _ | .cacheInbound _ | .settleSync .. | .deliver .. | .archive .. | .remove _
  | .changeBackups _ | .changeSharingKey _ | .reload => Unit

/-- What the surroundings decide about one step. -/
inductive Outcome where
  | ok
  /-- The step fails, and leaves no effect. -/
  | fail (e : Thrown)
  deriving DecidableEq, Repr

/-! ### IndexedDB -/

namespace Database

/-- `store.get(id)`: an error for what is no key. -/
def lookup {Row : Type} (store : ObjectMap Key Row) (id : Js) : Except Thrown (Option Row) :=
  match id.key with
  | some key => .ok (store.get key)
  | none => .error .data

/-- `put` of some rows in one transaction: all of them, or none when one has no key. -/
def putRows {Row : Type} (id : Row → Js) :
    List Row → ObjectMap Key Row → Option (ObjectMap Key Row)
  | [], store => some store
  | row :: rest, store => match (id row).key with
    | some key => putRows id rest (store.insert key row)
    | none => none

/-- The order of the primary keys. -/
def idLe (a b : StoredMessage) : Bool :=
  match a.id, b.id with
  | .str x, .str y => decide (Utf16.place x ≤ Utf16.place y)
  | _, _ => true

/-- The rows of one account, as the index on `userId` gives them. -/
def messagesOf (db : Database) (userId : String) : List StoredMessage :=
  ((db.messages.entries.map Prod.snd).filter fun m => decide (m.userId = userId)).insertionSort
    fun a b => idLe a b = true

/-- The second transaction of `saveMessages`. -/
def saveBatch (db : Database) (messages : List StoredMessage)
    (conversations : List StoredConversation) : Option Database :=
  match putRows StoredMessage.id messages db.messages,
    putRows StoredConversation.conversationId conversations db.conversations with
  | some ms, some cs => some { db with messages := ms, conversations := cs }
  | _, _ => none

def saveInbound (db : Database) (stored : StoredInbound) : Database :=
  { db with inbound := db.inbound.insert stored.session.sessionId stored }

end Database

/-! ### The store as the account sees it -/

namespace State

def listing (s : State) (pre : String) (cursor : Option String) : StoreListResponse :=
  let page := s.objects.page (startsWith · pre) STORE_LIST_LIMIT cursor
  ⟨page.1, page.2.getD ""⟩

def lookup (s : State) (key : String) : Except Thrown Data :=
  match s.objects.get key with
  | some d => .ok d
  | none => .error .failed

/-- `send`: one envelope is written under its `msg_id`. -/
def accept (s : State) (raw : Json) (header : EnvelopeHeader) : State :=
  { s with
    objects := s.objects.insert (keyInboxLive header.toUser header.msgId) (.json raw)
    accepted := s.accepted ++ [raw] }

/-- The envelope at a position of the history, as an archive of `user` holds it. -/
def archivable (s : State) (user : UserId) (n : Nat) : Option Value := do
  let raw ← s.accepted[n]?
  let header ← EnvelopeHeader.fromJson raw
  if startsWith (keyInboxLive header.toUser header.msgId) (prefixInboxLive user.str) then
    Value.ofJson jsonDepth raw
  else none

def writeArchive (s : State) (key : String) (entries : List Value) : State :=
  { s with
    objects := s.objects.insert key (.cbor entries)
    archived := s.archived ++ [(key, entries)] }

/-- A page reload: the memory is gone, and so is every task. -/
def reloaded (s : State) : State := { s with memory := {}, epoch := s.epoch + 1 }

end State

/-- A read of IndexedDB or of the server. -/
def reading {α : Type} (reply : State → Except Thrown α) (c : Outcome) (s : State) :
    Option (Except Thrown α × State) :=
  match c with
  | .ok => some (reply s, s)
  | .fail e => some (.error e, s)

/-- A transaction that writes; it aborts where `write` has no result. -/
def writing (write : Database → Option Database) (c : Outcome) (s : State) :
    Option (Except Thrown Unit × State) :=
  match c with
  | .ok => match write s.db with
    | some db => some (.ok (), { s with db })
    | none => some (.error .data, s)
  | .fail e => some (.error e, s)

/-- What one step does under a decision of the surroundings. -/
def perform : (act : Act) → Outcome → State → Option (Reply act × State)
  | .storeList pre cursor, c, s => reading (fun s => .ok (s.listing pre cursor)) c s
  | .storeGet key, c, s => reading (fun s => s.lookup key) c s
  | .syncReadMarkers, c, s => reading (fun _ => .ok ()) c s
  | .loadSyncCursor pre, c, s => reading (fun s => .ok (s.db.syncCursors.get pre)) c s
  | .saveSyncCursor pre cursor, c, s => writing
      (fun db => some { db with syncCursors := db.syncCursors.insert pre cursor }) c s
  | .loadMessageIds userId, c, s =>
    reading (fun s => .ok ((s.db.messagesOf userId).map StoredMessage.id)) c s
  | .loadIngestedArchiveKeys, c, s => reading (fun s => .ok s.db.ingestedArchives) c s
  | .markArchiveIngested key, c, s => writing
      (fun db => some { db with ingestedArchives := key :: db.ingestedArchives }) c s
  -- a session id that is no valid key throws in IndexedDB
  | .loadInboundSession id, c, s => reading
      (fun s => match id with
        | .str sessionId => .ok (s.db.inbound.get sessionId)
        | _ => if id.key.isSome then .ok none else .error .data) c s
  | .saveInboundSession stored, c, s => writing (fun db => some (db.saveInbound stored)) c s
  | .getConversation id, c, s => reading (fun s => Database.lookup s.db.conversations id) c s
  | .putMessages messages conversations, c, s => writing (·.saveBatch messages conversations) c s
  | .getAllMessages userId, c, s => reading (fun s => .ok (s.db.messagesOf userId)) c s
  | .putConversations conversations, c, s => writing (·.saveBatch [] conversations) c s
  | .spawn task, .ok, s =>
    some ((), { s with memory := { s.memory with background := task :: s.memory.background } })
  -- the session manager of this page, which a reload forgets
  | .cachedInbound id, .ok, s => some (s.memory.inboundCache.get id, s)
  | .cacheInbound stored, .ok, s => some ((), { s with
      memory := { s.memory with
        inboundCache := s.memory.inboundCache.insert stored.session.sessionId stored }
      held := stored.session :: s.held })
  -- one sync at a time: a second caller gets the promise of the first
  | .joinSync, .ok, s => match s.memory.syncInFlight with
    | some n => some (.second n, s)
    | none =>
      let n := s.memory.syncs.length
      some (.first n, { s with memory := { s.memory with
        syncs := s.memory.syncs ++ [none], syncInFlight := some n } })
  | .settleSync n result, .ok, s => some ((), { s with memory := { s.memory with
      syncs := s.memory.syncs.set n (some result), syncInFlight := none } })
  | .awaitSync n, .ok, s => match s.memory.syncs[n]? with
    | some (some result) => some (result, s)
    | _ => none
  -- the server accepts what is addressed from the sender itself
  | .deliver sender device raw, .ok, s =>
    ((EnvelopeHeader.fromJson raw).filter fun header =>
      decide (header.fromUser = sender.str ∧ header.fromDevice = device.str)).map
        fun header => ((), s.accept raw header)
  -- a compaction: some live envelopes and archives become one archive
  | .archive user name picks, .ok, s =>
    let key := prefixInboxArchive user.str ++ name
    if key ∈ s.archived.map Prod.fst then none
    else (picks.mapM (s.archivable user)).map fun entries => ((), s.writeArchive key entries)
  | .remove keys, .ok, s => some ((), { s with objects := s.objects.eraseAll keys })
  | .changeBackups keys, .ok, s => some ((), { s with backups := keys })
  | .changeSharingKey key, .ok, s => some ((), { s with sharingKey := key })
  | .reload, .ok, s => some ((), s.reloaded)
  | _, _, _ => none

/-- Steps of the surroundings, which no page takes part in. -/
def Act.surrounds : Act → Bool
  | .deliver .. | .archive .. | .remove _ | .changeBackups _ | .changeSharingKey _ | .reload => true
  | _ => false

/-- The steps a task of page `page` can take, under the outcomes that `allow` admits. A task
is gone once its page was reloaded. -/
def takes (allow : Act → Outcome → Bool) (page : Nat) (act : Act) (c : Outcome) (s : State) :
    Option (Reply act × State) :=
  if (act.surrounds = true ∨ page = s.epoch) ∧ allow act c = true then perform act c s else none

end Atmin.Web
