import Atmin.Server.Account

/-!
# Object access, delivery and compaction (`routes.rs`, `cbor.rs`)
-/

namespace Atmin

def STORE_LIST_LIMIT : Nat := 50

def MAX_MEDIA_BYTES : Nat := 25 * 1024 * 1024

/-! ### CBOR archives -/

namespace Cbor

/-- Look up a key in a map entry. -/
def get (entry : Value) (key : String) : Option Value :=
  match entry with
  | .map pairs => pairs.findSome? fun
    | (.text t, v) => if t = key then some v else none
    | _ => none
  | _ => none

/-- A text-valued field. -/
def getText (entry : Value) (key : String) : Option String :=
  match get entry key with
  | some (.text s) => some s
  | _ => none

/-- Keep the first entry of each `msg_id` not in `seen`, and every entry without one. -/
def deduplicateFrom (seen : List String) : List Value → List Value
  | [] => []
  | obj :: rest => match getText obj "msg_id" with
    | some id =>
      if id ∈ seen then deduplicateFrom seen rest else obj :: deduplicateFrom (id :: seen) rest
    | none => obj :: deduplicateFrom seen rest

def deduplicateByMsgId (objects : List Value) : List Value := deduplicateFrom [] objects

def decodeArchive : Data → Option (List Value)
  | .cbor entries => some entries
  | _ => none

def encodeArchive (entries : List Value) : Data := .cbor entries

end Cbor

/-! ### Store endpoints -/

/-- An optional query parameter, absent when empty. -/
def nonEmpty (s : Option String) : Option String := s.filter fun s => decide (s ≠ "")

structure StoreListResponse where
  keys : List String
  /-- Empty when there are no more pages. -/
  nextCursor : String
  deriving DecidableEq, Repr

def storeList (env : Env) (token pre cursor : Option String) : Handler StoreListResponse := do
  let user ← authenticate env token true
  let pre ← orFail .badRequest (nonEmpty pre)
  check .forbidden (authorizePrefix user.userId.str pre)
  let page ← tryStore (ask (.listObjects pre STORE_LIST_LIMIT (nonEmpty cursor)))
  pure { keys := page.keys, nextCursor := page.nextCursor.getD "" }

def storeObject (env : Env) (token key : Option String) : Handler Data := do
  let user ← authenticate env token true
  let key ← orFail .badRequest (nonEmpty key)
  check .forbidden (authorizeKey user.userId.str key)
  tryStore (ask (.getObject key))

def storeUsage (env : Env) (token : Option String) : Handler (Nat × Nat) := do
  let user ← authenticate env token true
  tryStore (ask (.getUsage user.userId.str))

def deleteObject (env : Env) (token key : Option String) : Handler Unit := do
  let user ← authenticate env token true
  let key ← orFail .badRequest (nonEmpty key)
  check .forbidden (authorizeKeyWrite user.userId.str key)
  tryStore (ask (.deleteObject key))
  if startsWith key "media/" then call (ask (.quotaInvalidate user.userId.str)) else pure ()

structure PresignRequest where
  key : String
  bytes : Int
  deriving DecidableEq, Repr

def PresignRequest.fromJson (j : Json) : Option PresignRequest := do
  let f ← j.members ["key", "bytes"]
  let key ← Json.fieldOr "" Json.asStr (f "key")
  let bytes ← Json.fieldOr 0 Json.asI64 (f "bytes")
  return { key, bytes }

/-- Media uploads are size-checked and quota-reserved before signing. -/
def reserveMedia (uid key : String) (bytes : Nat) : Handler Unit :=
  if startsWith key "media/" then do
    check .tooLarge (decide (bytes ≤ MAX_MEDIA_BYTES))
    let reservation ← tryStore (ask (.reserveUpload uid bytes))
    check .quotaExceeded (decide (reservation = .granted))
  else pure ()

/-- The reply is the URL: whoever holds it may upload while it lasts. -/
def storePresign (env : Env) (token : Option String) (body : Option Json) : Handler Unit := do
  let user ← authenticate env token true
  let req ← parseBody PresignRequest.fromJson body
  check .badRequest (decide (req.key ≠ "" ∧ 0 < req.bytes))
  check .forbidden (authorizeKeyWrite user.userId.str req.key)
  check .badRequest (isObjectNameSafe req.key)
  reserveMedia user.userId.str req.key req.bytes.toNat
  tryStore (ask (.presignPut req.key req.bytes.toNat (15 * 60 * second)))

/-! ### Send -/

/-- The sender-identity and routing fields of an envelope. -/
structure EnvelopeHeader where
  toUser : String
  fromUser : String
  fromDevice : String
  msgId : String
  deriving DecidableEq, Repr

def EnvelopeHeader.fromJson (j : Json) : Option EnvelopeHeader := do
  let f ← j.members ["to_user", "from_user", "from_device", "msg_id"]
  let toUser ← Json.fieldOr "" Json.asStr (f "to_user")
  let fromUser ← Json.fieldOr "" Json.asStr (f "from_user")
  let fromDevice ← Json.fieldOr "" Json.asStr (f "from_device")
  let msgId ← Json.fieldOr "" Json.asStr (f "msg_id")
  return { toUser, fromUser, fromDevice, msgId }

/-- `SendRequest`: the envelopes as received. -/
def sendEnvelopes (j : Json) : Option (List Json) := do
  let f ← j.members ["envelopes"]
  Json.fieldOr [] Json.asArr (f "envelopes")

/-- Write each envelope verbatim; the recipients seen so far are collected. -/
def deliver (user : AuthedUser) : List Json → Handler (List String)
  | [] => pure []
  | raw :: rest => do
    let header ← orFail .badRequest (EnvelopeHeader.fromJson raw)
    check .forbidden
      (decide (header.fromUser = user.userId.str ∧ header.fromDevice = user.deviceId.str))
    writeJson (keyInboxLive header.toUser header.msgId) (.json raw)
    let recipients ← deliver user rest
    pure (header.toUser :: recipients)

def notifyAll : List String → Handler Unit
  | [] => pure ()
  | uid :: rest => do
    call (ask (.notify uid "new_message"))
    notifyAll rest

def send (env : Env) (token : Option String) (body : Option Json) : Handler Unit := do
  let user ← authenticate env token true
  let envelopes ← parseBody sendEnvelopes body
  let recipients ← deliver user envelopes
  notifyAll (recipients.dedup.insertionSort (· ≤ ·))

/-! ### Compaction -/

structure CompactRequest where
  pre : String
  upTo : String
  deriving DecidableEq, Repr

def CompactRequest.fromJson (j : Json) : Option CompactRequest := do
  let f ← j.members ["prefix", "up_to"]
  let pre ← Json.fieldOr "" Json.asStr (f "prefix")
  let upTo ← Json.fieldOr "" Json.asStr (f "up_to")
  return { pre, upTo }

structure CompactResponse where
  archived : Nat
  archiveKey : String
  deriving DecidableEq, Repr

/-- The paging loops stop with this when they have used up their pages. -/
def pagesUsedUp : ApiError := .internal "too many pages"

/-- Live keys up to the boundary, from at most `pages` pages. -/
def collectLive (pre boundary : String) : Nat → Option String → Handler (List String)
  | 0, _ => throw pagesUsedUp
  | pages + 1, cursor => do
    let page ← tryStore (ask (.listObjects pre 100 cursor))
    let within := page.keys.filter fun k => decide (k ≤ boundary)
    let lastPast := page.keys.getLast?.any fun k => decide (boundary < k)
    match page.nextCursor with
    | some c =>
      if lastPast then pure within
      else
        let more ← collectLive pre boundary pages (some c)
        pure (within ++ more)
    | none => pure within

/-- Every key under a prefix, from at most `pages` pages. -/
def collectAll (pre : String) : Nat → Option String → Handler (List String)
  | 0, _ => throw pagesUsedUp
  | pages + 1, cursor => do
    let page ← tryStore (ask (.listObjects pre 100 cursor))
    match page.nextCursor with
    | some c =>
      let more ← collectAll pre pages (some c)
      pure (page.keys ++ more)
    | none => pure page.keys

/-- Read objects with `dec`, skipping any deleted since they were listed. -/
def readObjects {α : Type} (undecodable : ApiError) (dec : Data → Option (List α)) :
    List String → Handler (List α)
  | [] => pure []
  | key :: rest => do
    let found ← call (ask (.getObject key))
    match found with
    | .ok data =>
      let entries ← orFail undecodable (dec data)
      let more ← readObjects undecodable dec rest
      pure (entries ++ more)
    | .error .notFound => readObjects undecodable dec rest
    | .error (.backend err) => throw (.internal err)

def readLive : List String → Handler (List Value) :=
  readObjects (.internal "decode failed") fun d => d.asValue.map fun v => [v]

def readArchives : List String → Handler (List Value) :=
  readObjects (.internal "CBOR decode failed") Cbor.decodeArchive

/-- `…/live/` becomes `…/archive/`. -/
def archiveBase (pre : String) : String := (stripSuffix pre "live/").getD pre ++ "archive/"

theorem archiveBase_append (root : String) : archiveBase (root ++ "live/") = root ++ "archive/" := by
  rw [archiveBase, stripSuffix_append, Option.getD_some]

theorem prefixInboxLive_eq (uid : String) :
    prefixInboxLive uid = "inbox/" ++ (uid ++ "/") ++ "live/" := by
  simp only [prefixInboxLive, String.append_assoc]
  rfl

theorem prefixKeysLive_eq (uid : String) :
    prefixKeysLive uid = "keys/" ++ (uid ++ "/") ++ "live/" := by
  simp only [prefixKeysLive, String.append_assoc]
  rfl

/-- Write the archive, then delete what it holds. -/
def archiveAndDelete (base today : String) (merged : List Value) (toDelete : List String) :
    Handler String := do
  let id ← call (ask .newUlid)
  let archiveKey := base ++ today ++ "-" ++ id
  tryStore (ask (.putObject archiveKey (Cbor.encodeArchive merged)))
  tryStore (ask (.deleteObjects toDelete))
  pure archiveKey

/-- Merge the listed live objects into today's archive. -/
def compactKeys (env : Env) (pages : Nat) (pre : String) (toCompact : List String) :
    Handler CompactResponse := do
  let newObjects ← readLive toCompact
  let now ← call (ask .utcNow)
  let today := env.formatDay now
  let existingKeys ← collectAll (archiveBase pre ++ today) pages none
  let existing ← readArchives existingKeys
  let merged := Cbor.deduplicateByMsgId (existing ++ newObjects)
  let archiveKey ← archiveAndDelete (archiveBase pre) today merged (toCompact ++ existingKeys)
  pure { archived := newObjects.length, archiveKey }

/-- `pages` bounds both paging loops; the source has no bound. -/
def storeCompact (env : Env) (pages : Nat) (token : Option String) (body : Option Json) :
    Handler CompactResponse := do
  let user ← authenticate env token true
  let req ← parseBody CompactRequest.fromJson body
  check .badRequest (decide (req.pre ≠ "" ∧ req.upTo ≠ ""))
  check .forbidden (authorizeCompactPrefix user.userId.str req.pre)
  let toCompact ← collectLive req.pre (req.pre ++ req.upTo) pages none
  if toCompact = [] then pure { archived := 0, archiveKey := "" }
  else compactKeys env pages req.pre toCompact

end Atmin
