import Atmin.Server.Inbox
import Atmin.Web.Messaging

/-!
# Sending (`messaging.ts`, `megolm-session.ts`, `api.ts`)

A session manager sends with one outbound session, an object in the memory of its page. Who has the
key of a session is recorded in IndexedDB. `sendInnerPayload` makes one batch of a key share, where
one is needed, and the message, for the recipient and for the sender's own devices; the server
writes the batch into the inboxes one envelope after another.
-/

namespace Atmin.Web

open Interaction

/-! ### Envelopes -/

structure Envelope where
  toUser : String
  fromUser : String
  fromDevice : String
  msgId : String
  contentType : String
  sentAt : String
  payload : Json

/-- `JSON.stringify`. -/
def Envelope.toJson (e : Envelope) : Json :=
  .obj [("v", .num (.int 1)), ("to_user", .str e.toUser), ("from_user", .str e.fromUser),
    ("from_device", .str e.fromDevice), ("msg_id", .str e.msgId),
    ("content_type", .str e.contentType), ("sent_at", .str e.sentAt), ("payload", e.payload)]

def keySharePayload (convId : String) (encrypted : Sealed) : Json :=
  .obj [("conversation_id", .str convId), ("ephemeral_key", .str encrypted.ephemeralKey),
    ("iv", .str encrypted.iv), ("ciphertext", .str encrypted.ciphertext)]

def messagePayload (convId sessionId ciphertext : String) : Json :=
  .obj [("conversation_id", .str convId), ("session_id", .str sessionId),
    ("ciphertext", .str ciphertext)]

/-- The body of `POST /v1/send`. -/
def sendBody (batch : List Envelope) : Json := .obj [("envelopes", .arr (batch.map Envelope.toJson))]

/-! ### The state -/

/-- A `MegolmOutbound`. The methods of an object that was freed throw. -/
structure Outbound where
  messageIndex : Nat := 0
  freed : Bool := false

/-- The record of `megolm_outbound`. -/
structure StoredOutbound where
  sessionId : String
  messageIndex : Nat

/-- A `POST /v1/send` that a page made. -/
structure Post where
  token : String
  body : Json
  /-- The server has begun to handle it. -/
  taken : Bool := false
  /-- What the handler returned. -/
  reply : Option (Except ApiError Unit) := none

structure SendState (ι : Type) where
  /-- Inbound sessions, and the page that is open. -/
  web : State := {}
  server : Sys ι
  /-- Every outbound session that was ever created, by its id. -/
  sessions : ObjectMap String Outbound := .empty
  /-- The variables of each session manager. -/
  outbound : Nat → Option String := fun _ => none
  outboundIsNew : Nat → Bool := fun _ => false
  stored : Option StoredOutbound := none
  /-- `megolm_key_shares`: a session id, and who has its key. -/
  keyShares : List (String × String) := []
  posts : List Post := []
  /-- What the server has written for these requests, in this order. -/
  accepted : List (String × Data) := []

/-! ### Steps -/

/-- What a `fetch` comes back with. -/
inductive Response where
  /-- The answer of the handler. -/
  | answered (reply : Except ApiError Unit)
  /-- An answer below 500 that is not the handler's. -/
  | refused
  /-- No connection, or an answer from 500 on. -/
  | lost

inductive SendAct where
  -- inbound sessions, as they are read and written elsewhere
  | page (act : Act)
  -- memory
  | takeOutbound (manager : Nat)
  | createOutbound (manager : Nat)
  | currentOutbound (manager : Nat)
  | freeOutbound (manager : Nat)
  | markNew (manager : Nat)
  | destroy (manager : Nat)
  | sessionId (session : String)
  | messageIndex (session : String)
  | sessionKey (session : String)
  | encrypt (session text : String)
  -- IndexedDB
  | loadOutboundSession
  | saveOutboundSession (session : String)
  | clearOutboundSession
  | hasKeyShare (session user : String)
  | recordKeyShare (session user : String)
  | clearKeyShares (session : String)
  -- WebCrypto, the clock and the generator of ids
  | eciesEncrypt (publicKey text : String)
  | ulid
  | now
  /-- `onSessionCreated`, which never rejects. -/
  | onSessionCreated (session sessionKey : String)
  -- requests to the server
  | post (token : String) (body : Json)
  | response (n : Nat)
  -- the server
  | receive
  /-- A request of a handler to the store, for one of the posts or for anything else. -/
  | serve (post : Option Nat) (o : Op)
  | respond (n : Nat) (reply : Except ApiError Unit)
  | reload

@[reducible] def SendReply : SendAct → Type
  | .page act => Reply act
  | .takeOutbound _ => Option (String × Bool)
  | .createOutbound _ | .ulid | .now => String
  | .currentOutbound _ => Option String
  | .freeOutbound _ => Except Thrown (Option String)
  | .messageIndex _ => Except Thrown Nat
  | .sessionKey _ | .encrypt .. => Except Thrown String
  | .sessionId _ | .saveOutboundSession _ | .clearOutboundSession | .recordKeyShare ..
  | .clearKeyShares _ => Except Thrown Unit
  | .loadOutboundSession => Except Thrown (Option StoredOutbound)
  | .hasKeyShare .. => Except Thrown Bool
  | .eciesEncrypt .. => Except Thrown Sealed
  | .post .. => Nat
  | .response _ => Response
  | .receive => Nat × Post
  | .serve _ o => Res o
  | .markNew _ | .destroy _ | .onSessionCreated .. | .respond .. | .reload => Unit

/-- What the surroundings decide about one step. -/
inductive SendChoice where
  | ok
  | fail (e : Thrown)
  /-- What a step on inbound sessions comes to. -/
  | page (c : Outcome)
  /-- The id of a new session, the randomness of an encryption, an id or a time. -/
  | draw (x : String)
  /-- The answer is not the handler's. -/
  | refused
  | lost
  /-- The server takes up this request. -/
  | pick (n : Nat)
  | store (c : Choice)

section Perform

variable {ι : Type}

namespace SendState

/-- The object of a session, as long as it was not freed. -/
def live (s : SendState ι) (id : String) : Except Thrown Outbound :=
  match s.sessions.get id with
  | some o => if o.freed then .error .failed else .ok o
  | none => .error .failed

def putSession (s : SendState ι) (id : String) (o : Outbound) : SendState ι :=
  { s with sessions := s.sessions.insert id o }

def putPost (s : SendState ι) (n : Nat) (p : Post) : SendState ι := { s with posts := s.posts.set n p }

end SendState

/-- An IndexedDB transaction, which can abort. -/
def transaction {α : Type} (c : SendChoice) (result : α) (s t : SendState ι) :
    Option (Except Thrown α × SendState ι) :=
  match c with
  | .ok => some (.ok result, t)
  | .fail e => some (.error e, s)
  | _ => none

/-- What a request of a handler leaves in an inbox or elsewhere, whatever its reply. -/
def written : Op → Choice → List (String × Data)
  | .putObject key d, .ok | .putObject key d, .fail _ true => [(key, d)]
  | _, _ => []

/-- What one step does, for slot `i` on page `page`, under a decision of the surroundings. -/
def performSend (crypto : Crypto) (i : ι) (page : Nat) : (act : SendAct) → SendChoice → SendState ι →
    Option (SendReply act × SendState ι)
  | .page act, .page c, s =>
    if act.surrounds then none
    else (takes (fun _ _ => true) page act c s.web).map fun (r, web) => (r, { s with web })
  -- the session of the manager; a session that was freed throws when it is used
  | .takeOutbound m, .ok, s => match s.outbound m with
    | some id => some (some (id, s.outboundIsNew m),
        { s with outboundIsNew := Function.update s.outboundIsNew m false })
    | none => some (none, s)
  | .createOutbound m, .draw id, s =>
    if (s.sessions.get id).isSome then none
    else some (id, { s.putSession id {} with outbound := Function.update s.outbound m (some id) })
  | .currentOutbound m, .ok, s => some (s.outbound m, s)
  | .freeOutbound m, .ok, s => match s.outbound m with
    | some id => match s.live id with
      | .ok o => some (.ok (some id), s.putSession id { o with freed := true })
      | .error e => some (.error e, s)
    | none => some (.ok none, s)
  | .markNew m, .ok, s =>
    some ((), { s with outboundIsNew := Function.update s.outboundIsNew m true })
  -- destroying one that is freed already is passed over
  | .destroy m, .ok, s =>
    let cleared := { s with outbound := Function.update s.outbound m none }
    match (s.outbound m).map s.live with
    | some (.ok o) => some ((), cleared.putSession ((s.outbound m).getD "") { o with freed := true })
    | _ => some ((), cleared)
  | .sessionId id, .ok, s => some ((s.live id).map fun _ => (), s)
  | .messageIndex id, .ok, s => some ((s.live id).map Outbound.messageIndex, s)
  | .sessionKey id, .ok, s =>
    some ((s.live id).map fun o => crypto.sessionKey id o.messageIndex, s)
  -- each message moves the ratchet on by one
  | .encrypt id text, .ok, s => match s.live id with
    | .ok o => some (.ok (crypto.encrypt id o.messageIndex text),
        s.putSession id { o with messageIndex := o.messageIndex + 1 })
    | .error e => some (.error e, s)
  -- what the device stores of its session and of whom it was shared with
  | .loadOutboundSession, c, s => transaction c s.stored s s
  | .saveOutboundSession id, c, s => match s.live id with
    | .ok o => transaction c () s { s with stored := some ⟨id, o.messageIndex⟩ }
    | .error e => some (.error e, s)
  | .clearOutboundSession, c, s => transaction c () s { s with stored := none }
  | .hasKeyShare id user, c, s => transaction c (decide ((id, user) ∈ s.keyShares)) s s
  | .recordKeyShare id user, c, s =>
    transaction c () s { s with keyShares := (id, user) :: s.keyShares }
  | .clearKeyShares id, c, s =>
    transaction c () s { s with keyShares := s.keyShares.filter fun e => decide (e.1 ≠ id) }
  | .eciesEncrypt publicKey text, .draw random, s =>
    match crypto.eciesEncrypt publicKey text random with
    | some encrypted => some (.ok encrypted, s)
    | none => some (.error .crypto, s)
  | .ulid, .draw x, s | .now, .draw x, s => some (x, s)
  | .onSessionCreated .., .ok, s => some ((), s)
  -- a request is on its way until the server takes it, or it is lost
  | .post token body, .ok, s => some (s.posts.length, { s with posts := s.posts ++ [{ token, body }] })
  | .response n, .ok, s => ((s.posts[n]?).bind Post.reply).map fun r => (.answered r, s)
  | .response _, .refused, s => some (.refused, s)
  | .response _, .lost, s => some (.lost, s)
  | .receive, .pick n, s => match s.posts[n]? with
    | some p => if p.taken then none else some ((n, p), s.putPost n { p with taken := true })
    | none => none
  -- the handler of a request that was taken
  | .serve post o, .store c, s => (exec i o c s.server).map fun (r, server) =>
      (r, { s with server, accepted := s.accepted ++ if post.isSome then written o c else [] })
  | .respond n r, .ok, s => (s.posts[n]?).map fun p => ((), s.putPost n { p with reply := some r })
  | .reload, .ok, s => some ((), { s with web := s.web.reloaded })
  | _, _, _ => none

/-- The steps that the code of a page takes; a task is gone once its page was reloaded. -/
def SendAct.onPage : SendAct → Bool
  | .receive | .serve .. | .respond .. | .reload => false
  | _ => true

def takesSend (crypto : Crypto) (i : ι) (page : Nat) (act : SendAct) (c : SendChoice)
    (s : SendState ι) : Option (SendReply act × SendState ι) :=
  if act.onPage = true → page = s.web.epoch then performSend crypto i page act c s else none

end Perform

/-! ### The session manager -/

abbrev Sending (α : Type) := ExceptT Thrown (Prog SendAct SendReply) α

section Manager

variable {α : Type}

/-- A step that throws what it fails with. -/
def wait (p : Prog SendAct SendReply (Except Thrown α)) : Sending α := ExceptT.mk p

/-- A step that cannot fail. -/
def slice (p : Prog SendAct SendReply α) : Sending α := ExceptT.mk (p.bind fun a => .ret (.ok a))

abbrev does (act : SendAct) : Prog SendAct SendReply (SendReply act) := Prog.request act

/-- The account and the device that a page is logged in to. -/
structure Device where
  userId : String
  deviceId : String
  crypto : Crypto

variable (device : Device) (manager : Nat)

/-- `mgr.addInbound` for an own session. -/
def addSelf (sessionKey : String) : Sending Unit :=
  wait (((addInbound device.crypto (.str device.userId) (.str device.deviceId) sessionKey).run.expand
    fun act => Prog.request (SendAct.page act)).bind fun r => .ret (r.map fun _ => ()))

/-- The variable `outbound`, whose members are read next. -/
def currentSession : Sending String := do
  match ← slice (does (.currentOutbound manager)) with
  | some session => pure session
  | none => throw .type

def persistOutbound (session : String) : Sending Unit := wait (does (.saveOutboundSession session))

/-- The session of the variable is added to the inbound ones, and its key is backed up. -/
def announce : Sending Unit := do
  let session ← currentSession manager
  let key ← wait (does (.sessionKey session))
  addSelf device key
  let session ← currentSession manager
  let key ← wait (does (.sessionKey session))
  slice (does (.onSessionCreated session key))

/-- A stored session is not sent with any more; its inbound side is kept. -/
def retire : Option StoredOutbound → Sending Unit
  | none => pure ()
  | some stored => do
    addSelf device (device.crypto.sessionKey stored.sessionId stored.messageIndex)
    wait (does (.clearKeyShares stored.sessionId))
    wait (does .clearOutboundSession)

/-- The body of `getOutbound` where no session is cached. -/
def openOutbound : Sending (String × Bool) := do
  let stored ← wait (does .loadOutboundSession)
  retire device stored
  let session ← slice (does (.createOutbound manager))
  persistOutbound session
  announce device manager
  let session ← currentSession manager
  pure (session, true)

def getOutbound : Sending (String × Bool) := do
  match ← slice (does (.takeOutbound manager)) with
  | some cached => pure cached
  | none => openOutbound device manager

/-- The shares of the session that a rotation frees are cleared. -/
def clearFreed : Option String → Sending Unit
  | none => pure ()
  | some old => wait (does (.clearKeyShares old))

def rotate : Sending String := do
  let old ← wait (does (.freeOutbound manager))
  clearFreed old
  let _ ← slice (does (.createOutbound manager))
  wait (does .clearOutboundSession)
  let session ← currentSession manager
  persistOutbound session
  announce device manager
  currentSession manager

/-- The rotation at the start of a page. -/
def createSessionManager : Sending Unit := do
  match ← wait (does .loadOutboundSession) with
  | none => pure ()
  | some stored => do
    retire device (some stored)
    let session ← slice (does (.createOutbound manager))
    persistOutbound session
    announce device manager
    slice (does (.markNew manager))

end Manager

/-! ### `sendInnerPayload` -/

def ROTATION_THRESHOLD : Nat := 100

def SEND_ATTEMPTS : Nat := 3

/-- The arguments of a call; the payload is the text that is encrypted. -/
structure Outgoing where
  token : String
  toUserId : String
  toPublicKey : String
  selfPublicKey : String
  payload : String

section Send

variable (device : Device) (manager : Nat) (out : Outgoing)

def Device.keyShare (toUser msgId sentAt : String) (encrypted : Sealed) : Envelope where
  toUser
  fromUser := device.userId
  fromDevice := device.deviceId
  msgId
  contentType := "megolm.key_share"
  sentAt
  payload := keySharePayload (conversationId device.userId out.toUserId) encrypted

def Device.message (toUser msgId sentAt session ciphertext : String) : Envelope where
  toUser
  fromUser := device.userId
  fromDevice := device.deviceId
  msgId
  contentType := "megolm.message"
  sentAt
  payload := messagePayload (conversationId device.userId out.toUserId) session ciphertext

/-- The session to send with, and whether it is new. -/
def sessionFor : Sending (String × Bool) := do
  let (session, isNew) ← getOutbound device manager
  let index ← wait (does (.messageIndex session))
  if ROTATION_THRESHOLD ≤ index then do
    let session ← rotate device manager
    pure (session, true)
  else pure (session, isNew)

def needsShare (session : String) (isNew : Bool) : Sending Bool :=
  if isNew then pure true
  else do
    wait (does (.sessionId session))
    let shared ← wait (does (.hasKeyShare session out.toUserId))
    pure !shared

/-- The key at the index the session has by now, for the recipient and for the own devices. -/
def keyShares (session : String) : Sending (List Envelope) := do
  let key ← wait (does (.sessionKey session))
  let msgId ← slice (does .ulid)
  let encrypted ← wait (does (.eciesEncrypt out.toPublicKey key))
  let sentAt ← slice (does .now)
  let first := device.keyShare out out.toUserId msgId sentAt encrypted
  if out.toUserId = device.userId then pure [first]
  else do
    let encrypted ← wait (does (.eciesEncrypt out.selfPublicKey key))
    let msgId ← slice (does .ulid)
    let sentAt ← slice (does .now)
    pure [first, device.keyShare out device.userId msgId sentAt encrypted]

/-- The message for the recipient, and a copy for the own devices under the same id. -/
def messages (session ciphertext : String) : Sending (List Envelope) := do
  let msgId ← slice (does .ulid)
  let sentAt ← slice (does .now)
  wait (does (.sessionId session))
  let first := device.message out out.toUserId msgId sentAt session ciphertext
  if out.toUserId = device.userId then pure [first]
  else do
    let sentAt ← slice (does .now)
    pure [first, device.message out device.userId msgId sentAt session ciphertext]

/-- An `APIError` below 500 is final. A version that is stale is thrown as an error of another
class, and the request is made again. -/
def isFinal : ApiError → Bool
  | .keyVersionStale _ => false
  | e => decide (e.status < 500)

/-- `send`: a request that fails on the way or on the server is made again. -/
def sendBatch (token : String) (batch : List Envelope) : Nat → Sending Unit
  | 0 => throw .failed
  | attempts + 1 => do
    let n ← slice (does (.post token (sendBody batch)))
    match ← slice (does (.response n)) with
    | .answered (.ok ()) => pure ()
    | .answered (.error e) =>
      if isFinal e then throw .failed else sendBatch token batch attempts
    | .refused => throw .failed
    | .lost => sendBatch token batch attempts

/-- The recipient has the key. -/
def recordShare (session : String) : Bool → Sending Unit
  | false => pure ()
  | true => do
    wait (does (.sessionId session))
    wait (does (.recordKeyShare session out.toUserId))

def sharesFor (session : String) : Bool → Sending (List Envelope)
  | true => keyShares device out session
  | false => pure []

/-- The envelopes of one call. -/
def batchFor (session : String) (share : Bool) : Sending (List Envelope) := do
  let shares ← sharesFor device out session share
  let ciphertext ← wait (does (.encrypt session out.payload))
  let copies ← messages device out session ciphertext
  pure (shares ++ copies)

def sendInnerPayload : Sending Unit := do
  let (session, isNew) ← sessionFor device manager
  let share ← needsShare out session isNew
  let batch ← batchFor device out session share
  persistOutbound session
  sendBatch out.token batch SEND_ATTEMPTS
  recordShare out session share

end Send

/-! ### Who takes the steps -/

inductive SendTask where
  | start (manager : Nat)
  | send (manager : Nat) (out : Outgoing)
  /-- Any other code of a page that works with inbound sessions, such as a sync. -/
  | page (task : Prog Act Reply Unit)
  /-- `mgr.destroy()`. -/
  | destroy (manager : Nat)
  | reload
  /-- The server handles one of the posts. -/
  | handle
  /-- The server handles a request of anyone else. -/
  | request (handler : Eff Unit)

/-- `POST /v1/send`, from the request to the answer. -/
def handlePost (env : Env) : Prog SendAct SendReply Unit :=
  (does .receive).bind fun (n, p) =>
    ((Atmin.send env (some p.token) (some p.body)).run.expand fun o =>
      Prog.request (SendAct.serve (some n) o)).bind fun r =>
        (does (.respond n r)).bind fun _ => .ret ()

def SendTask.prog (env : Env) (device : Device) : SendTask → Prog SendAct SendReply Unit
  | .start manager => (createSessionManager device manager).run.bind fun _ => .ret ()
  | .send manager out => (sendInnerPayload device manager out).run.bind fun _ => .ret ()
  | .page task => task.expand fun act => Prog.request (SendAct.page act)
  | .destroy manager => (does (.destroy manager)).bind fun _ => .ret ()
  | .reload => (does .reload).bind fun _ => .ret ()
  | .handle => handlePost env
  | .request handler => handler.expand fun o => Prog.request (SendAct.serve none o)

structure SendTasks (ι : Type) where
  task : ι → SendTask
  /-- The page that a task belongs to, by how often the browser was reloaded before. -/
  page : ι → Nat

/-- Any number of calls on any pages of one device, with the server that handles them. -/
def sender {ι : Type} (env : Env) (device : Device) (tasks : SendTasks ι) :
    System ι SendAct SendReply Unit (SendState ι) where
  prog i := (tasks.task i).prog env device
  exec := execOf fun i => takesSend device.crypto i (tasks.page i)

end Atmin.Web
