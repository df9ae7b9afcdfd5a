import Atmin.Web.SessionManager
import Atmin.Web.Db

/-!
# Reading the inbox (`messaging.ts`)

One sync lists the live keys above the cursor, processes what they hold, then processes
every archive that is not recorded as ingested. `processEnvelopes` makes two passes: key
shares first, then messages.
-/

namespace Atmin.Web

/-- Whose browser it is, and the built-ins it calls. -/
structure Account where
  userId : UserId
  crypto : Crypto
  /-- `new Date(x).getTime()`, or an error when the conversion throws. -/
  date : Js → Except Thrown Timestamp
  /-- `JSON.parse` of a plaintext. -/
  parse : String → Option Json
  /-- `JSON.stringify` of a text payload. -/
  render : Js → String
  /-- At most this many pages of a listing are read; the source has no bound. -/
  pages : Nat

/-- What a page was loaded with. -/
structure Page extends Account where
  sharingPrivateKey : String
  hasBackupKey : Bool

/-- `conversationId` of two accounts. -/
def conversationId (userA userB : String) : String :=
  if userA = userB then "self:" ++ userA
  else if userA ≤ userB then "dm:" ++ userA ++ ":" ++ userB
  else "dm:" ++ userB ++ ":" ++ userA

/-- `conversationId` of the sender of an envelope, which is a string in every envelope the
server accepts. -/
def conversationWith (fromUser : Js) (userId : String) : Js :=
  match fromUser with
  | .str s => .str (conversationId s userId)
  | _ => .undefined

/-- A listed key with the envelope found there. -/
structure Keyed where
  key : String
  envelope : Js
  deriving Repr

/-! ### Key shares -/

/-- The arguments of `eciesDecrypt`; `base64UrlDecode` takes strings only. -/
def sealedPayload (payload : Js) : Except Thrown Sealed := do
  let ephemeralKey ← payload.member "ephemeral_key"
  let iv ← payload.member "iv"
  let ciphertext ← payload.member "ciphertext"
  match ephemeralKey.asStr, iv.asStr, ciphertext.asStr with
  | some ephemeralKey, some iv, some ciphertext => pure { ephemeralKey, iv, ciphertext }
  | _, _, _ => throw .type

variable (page : Page)

/-- The session key a key share carries, as text. -/
def openKeyShare (envelope : Js) : Except Thrown String := do
  let payload ← envelope.member "payload"
  let sealed_ ← sealedPayload payload
  match page.crypto.eciesDecrypt page.sharingPrivateKey sealed_ with
  | some sessionKey => pure sessionKey
  | none => throw .crypto

/-- The body of the first `try`. -/
def applyKeyShare (envelope : Js) : Async Unit := do
  let sessionKey ← ofExcept (openKeyShare page envelope)
  let fromUser ← ofExcept (envelope.member "from_user")
  let fromDevice ← ofExcept (envelope.member "from_device")
  let (inbound, isNew) ← addInbound page.crypto fromUser fromDevice sessionKey
  if isNew && page.hasBackupKey then
    sync (step (.spawn (.backupSessionKey inbound.sessionId sessionKey)))
  else pure ()

/-- The first pass. A value without members ends it with an error. -/
def applyKeyShares (seen : List Js) : List Keyed → Async Unit
  | [] => pure ()
  | e :: rest => do
    let contentType ← ofExcept (e.envelope.member "content_type")
    let msgId ← ofExcept (e.envelope.member "msg_id")
    if contentType.same (.str "megolm.key_share") && !msgId.isIn seen then do
      -- A share under a superseded sharing key fails here, and is skipped.
      let _ ← attempt (applyKeyShare page e.envelope)
      applyKeyShares seen rest
    else applyKeyShares seen rest

/-! ### Messages -/

/-- What the second pass has gathered so far. -/
structure Gathered where
  messages : List DecryptedMessage := []
  advancedInbounds : List String := []
  recoverableSkips : Nat := 0
  seen : List Js
  deriving Repr

def insertOnce (x : String) (set : List String) : List String := if x ∈ set then set else set ++ [x]

namespace Gathered

def skip (acc : Gathered) : Gathered := { acc with recoverableSkips := acc.recoverableSkips + 1 }

def advance (acc : Gathered) (sessionId : String) : Gathered :=
  { acc with advancedInbounds := insertOnce sessionId acc.advancedInbounds }

def push (acc : Gathered) (m : DecryptedMessage) : Gathered :=
  { acc with messages := acc.messages ++ [m], seen := addOnce m.id acc.seen }

end Gathered

section Open

variable (account : Account)

/-- The fields of an envelope whose text is known. -/
def decryptedMessage (envelope : Js) (text : String) : Except Thrown DecryptedMessage := do
  let id ← envelope.member "msg_id"
  let payload ← envelope.member "payload"
  let conversation ← payload.member "conversation_id"
  let fromUser ← envelope.member "from_user"
  let fromDevice ← envelope.member "from_device"
  let sentAt ← envelope.member "sent_at"
  let timestamp ← account.date (sentAt.orElse (.num (.int 0)))
  pure { id, conversationId := conversation.orElse (conversationWith fromUser account.userId.str)
         fromUser, fromDevice, text, timestamp }

/-- `inbound.decrypt` of a member that should be a string. -/
def decryptPayload (inbound : Inbound) (payload : Js) : Except Thrown String := do
  let ciphertext ← payload.member "ciphertext"
  match ciphertext.asStr.bind (inbound.decrypt account.crypto) with
  | some text => pure text
  | none => throw .crypto

/-- A message whose session is known. What throws after the decryption leaves the session
advanced. -/
def openMessage (envelope payload : Js) (inbound : Inbound) (acc : Gathered) :
    Except Thrown Gathered := do
  let text ← decryptPayload account inbound payload
  let acc := acc.advance inbound.sessionId
  match decryptedMessage account envelope text with
  | .ok m => pure (acc.push m)
  | .error _ => pure acc

end Open

/-- The body of the second `try`. -/
def readEnvelope (envelope : Js) (acc : Gathered) : Async Gathered := do
  let contentType ← ofExcept (envelope.member "content_type")
  let msgId ← ofExcept (envelope.member "msg_id")
  if contentType.same (.str "megolm.message") && !msgId.isIn acc.seen then do
    let payload ← ofExcept (envelope.member "payload")
    let sessionId ← ofExcept (payload.member "session_id")
    match ← getInbound sessionId with
    | some inbound => ofExcept (openMessage page.toAccount envelope payload inbound acc)
    | none => pure acc.skip
  else pure acc

/-- The second pass: whatever is thrown for one envelope is logged, and counts for nothing. -/
def readEnvelopes : List Keyed → Gathered → Async Gathered
  | [], acc => pure acc
  | e :: rest, acc => do
    match ← attempt (readEnvelope page e.envelope acc) with
    | .ok acc => readEnvelopes rest acc
    | .error _ => readEnvelopes rest acc

def processEnvelopes (envelopes : List Keyed) (seen : List Js) : Async Gathered := do
  applyKeyShares page seen envelopes
  readEnvelopes page envelopes { seen }

/-! ### The live inbox -/

/-- The envelope of a live object. -/
def parseEnvelope (d : Data) : Except Thrown Js :=
  match d with
  | .json j => .ok (Js.ofJson j)
  | _ => .error .crypto

def fetchEnvelope (key : String) : Async Keyed := do
  let blob ← await (step (.storeGet key))
  let envelope ← ofExcept (parseEnvelope blob)
  pure { key, envelope }

/-- Fetch each listed key, without those that fail. -/
def fetchEnvelopes : List String → Async (List Keyed)
  | [] => pure []
  | key :: rest => do
    let fetched ← attempt (fetchEnvelope key)
    let more ← fetchEnvelopes rest
    pure (fetched.toOption.toList ++ more)

structure LiveResult where
  gathered : Gathered
  lastKey : Option String
  pre : String

/-- The first page above the cursor, or the first page of all when that fails. -/
def listLive (pre : String) (cursor : Option String) : Async StoreListResponse := do
  match ← attempt (await (step (.storeList pre cursor))) with
  | .ok page => pure page
  | .error _ => await (step (.storeList pre none))

def syncLive : Async LiveResult := do
  let pre := prefixInboxLive page.userId.str
  let cursor ← await (step (.loadSyncCursor pre))
  let listed ← listLive pre cursor
  let envelopes ← fetchEnvelopes listed.keys
  let gathered ← processEnvelopes page envelopes []
  pure { gathered, lastKey := listed.keys.getLast?, pre }

/-! ### Archives -/

/-- Every key under a prefix, from at most `pages` pages. -/
def storeListAll (pre : String) : Nat → Option String → Async (List String)
  | 0, _ => ofExcept (.error .failed)
  | pages + 1, cursor => do
    let listed ← await (step (.storeList pre cursor))
    if listed.nextCursor = "" then pure listed.keys
    else
      let more ← storeListAll pre pages (some listed.nextCursor)
      pure (listed.keys ++ more)

variable [CborDecoder]

def decodeArchive (d : Data) : Except Thrown (List Js) :=
  match d with
  | .cbor entries => .ok (Js.ofValues entries)
  | _ => .error .crypto

def fetchArchive (key : String) : Async (List Js) := do
  let blob ← await (step (.storeGet key))
  ofExcept (decodeArchive blob)

structure ArchiveResult where
  gathered : Gathered
  ingestedCandidates : List String := []

/-- Gather one more archive: its skips decide only about its own key. -/
def ArchiveResult.add (acc : ArchiveResult) (key : String) (one : Gathered) : ArchiveResult where
  gathered :=
    { acc.gathered with
      messages := acc.gathered.messages ++ one.messages
      advancedInbounds := one.advancedInbounds.foldl (fun set x => insertOnce x set)
        acc.gathered.advancedInbounds
      seen := one.seen }
  ingestedCandidates :=
    if one.recoverableSkips = 0 then acc.ingestedCandidates ++ [key] else acc.ingestedCandidates

def readArchives (ingested : List String) : List String → ArchiveResult → Async ArchiveResult
  | [], acc => pure acc
  | key :: rest, acc =>
    if key ∈ ingested then readArchives ingested rest acc
    else do
      match ← attempt (fetchArchive key) with
      | .error _ => readArchives ingested rest acc
      | .ok decoded =>
        let one ← processEnvelopes page (decoded.map (Keyed.mk key)) acc.gathered.seen
        readArchives ingested rest (acc.add key one)

def syncArchive (seen : List Js) : Async ArchiveResult := do
  let ingested ← await (step .loadIngestedArchiveKeys)
  match ← attempt (storeListAll (prefixInboxArchive page.userId.str) page.pages none) with
  | .error _ => pure { gathered := { seen } }
  | .ok keys => readArchives page ingested keys { gathered := { seen } }

/-! ### One sync -/

def persistInbounds : List String → Async Unit
  | [] => pure ()
  | sessionId :: rest => do
    persistInbound sessionId
    persistInbounds rest

def triggerCompaction (pre lastKey : String) : Async Unit := do
  sync (step (.spawn (.storeCompact pre (String.ofList (lastKey.toList.drop pre.toList.length)))))
  sync (step (.spawn (.storeCompact (prefixKeysLive page.userId.str) "~")))

/-- Move the cursor over the listed page, and have it compacted. -/
def advanceCursor (live : LiveResult) : Async Unit :=
  match live.lastKey with
  | none => pure ()
  | some lastKey => do
    await (step (.saveSyncCursor live.pre lastKey))
    triggerCompaction page live.pre lastKey

/-- `a.timestamp - b.timestamp` orders the two; with an invalid date it does not. -/
def notAfter (a b : DecryptedMessage) : Bool := !a.timestamp.after b.timestamp

/-- Have the queued key backups retried. -/
def triggerFlush : Async Unit :=
  if page.hasBackupKey then sync (step (.spawn .flushPendingKeyBackups)) else pure ()

def fetchMessages : Async SyncResult := do
  let live ← syncLive page
  let stored ← await (step (.loadMessageIds page.userId.str))
  let seen := (live.gathered.messages.map DecryptedMessage.id).foldl (fun set x => addOnce x set) stored
  let archive ← syncArchive page seen
  persistInbounds (archive.gathered.advancedInbounds.foldl (fun set x => insertOnce x set)
    live.gathered.advancedInbounds)
  advanceCursor page live
  triggerFlush page
  pure
    { messages := (live.gathered.messages ++ archive.gathered.messages).insertionSort
        fun a b => notAfter a b = true
      ingestedCandidates := archive.ingestedCandidates }

/-- Callers that overlap share one sync. -/
def syncMessages : Async SyncResult := do
  match ← sync (step .joinSync) with
  | .second n => await (step (.awaitSync n))
  | .first n => do
    let result ← attempt (fetchMessages page)
    sync (step (.settleSync n result))
    ofExcept result

end Atmin.Web
