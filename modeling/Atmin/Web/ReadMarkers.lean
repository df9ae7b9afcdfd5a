import Atmin.Interaction.Record
import Atmin.Web.Db
import Atmin.Web.Messaging

/-!
# Read markers (`read-markers.ts`, and the watermarks of `db.ts`)

The newest message that was seen of each conversation, as a watermark on its row, and the
blob through which the devices of one account exchange the watermarks.
-/

namespace Atmin.Web

open Interaction

/-- The app names its chats with `conversationId`; what a message names is up to its sender. -/
structure ConversationId where
  str : String
  deriving DecidableEq

def ConversationId.ofUsers (userA userB : String) : ConversationId := ⟨conversationId userA userB⟩

/-- The conversation a row is about. -/
def ConversationId.ofJs : Js → Option ConversationId
  | .str s => some ⟨s⟩
  | _ => none

@[simp] theorem ConversationId.ofJs_str (id : ConversationId) : ofJs (.str id.str) = some id := rfl

/-! ### Objects with the watermarks -/

/-- What every object inherits from `Object.prototype`. -/
def inheritedNames : List String :=
  ["constructor", "__proto__", "__defineGetter__", "__defineSetter__", "__lookupGetter__",
    "__lookupSetter__", "hasOwnProperty", "isPrototypeOf", "propertyIsEnumerable", "toLocaleString",
    "toString", "valueOf"]

/-- No object has a property of this name but its own. -/
def ConversationId.Plain (id : ConversationId) : Prop := id.str ∉ inheritedNames

instance (id : ConversationId) : Decidable id.Plain := inferInstanceAs (Decidable (_ ∉ _))

theorem ConversationId.Plain.ne_proto {id : ConversationId} (plain : id.Plain) :
    id.str ≠ "__proto__" := by
  rintro here
  exact plain (here ▸ by decide)

theorem conversationId_colon (userA userB : String) : ':' ∈ (conversationId userA userB).toList := by
  unfold conversationId
  split
  next => simp
  next => split <;> simp

theorem ConversationId.ofUsers_plain (userA userB : String) : (ofUsers userA userB).Plain := by
  intro inherited
  have none_ : ∀ name ∈ inheritedNames, ':' ∉ name.toList := by decide
  exact none_ _ inherited (conversationId_colon userA userB)

/-- The own properties of the object. -/
abbrev Markers := ObjectMap ConversationId Int

/-- An absent watermark counts as zero. -/
def Markers.at (m : Markers) (id : ConversationId) : Int := (m.get id).getD 0

/-- `ts > (markers[cid] ?? 0)`. What is inherited is no number, and no number is greater. -/
def Markers.below (m : Markers) (id : ConversationId) (ts : Int) : Bool :=
  match m.get id with
  | some t => decide (t < ts)
  | none => decide id.Plain && decide (0 < ts)

theorem Markers.below_of_get {m : Markers} {id : ConversationId} {t : Int} (found : m.get id = some t)
    (ts : Int) : m.below id ts = true ↔ t < ts := by
  rw [Markers.below, found, decide_eq_true_eq]

theorem Markers.below_of_absent {m : Markers} {id : ConversationId} (absent : m.get id = none)
    (ts : Int) :
    m.below id ts = true ↔ id.Plain ∧ 0 < ts := by
  rw [Markers.below, absent, Bool.and_eq_true, decide_eq_true_eq, decide_eq_true_eq]

theorem Markers.below_iff {m : Markers} {id : ConversationId} (plain : id.Plain) {ts : Int} :
    m.below id ts = true ↔ m.at id < ts := by
  unfold Markers.at
  cases found : m.get id with
  | none => rw [below_of_absent found, and_iff_right plain, Option.getD_none]
  | some t => rw [below_of_get found, Option.getD_some]

/-- `markers[cid] = ts`. A number that is assigned to `__proto__` is dropped. -/
def Markers.assign (m : Markers) (id : ConversationId) (ts : Int) : Markers :=
  if m.get id = none ∧ id.str = "__proto__" then m else m.set id ts

theorem Markers.get_assign (m : Markers) (id id' : ConversationId) (ts : Int) :
    (m.assign id ts).get id' = if id' = id ∧ ¬ (m.get id = none ∧ id.str = "__proto__") then some ts
      else m.get id' := by
  unfold Markers.assign
  by_cases dropped : m.get id = none ∧ id.str = "__proto__" <;> simp [dropped]

theorem Markers.assign_of_below {m : Markers} {id : ConversationId} {ts : Int}
    (later : m.below id ts = true) :
    m.assign id ts = m.set id ts :=
  if_neg fun dropped => ((below_of_absent dropped.1 ts).mp later).1.ne_proto dropped.2

/-- `if (ts > (out[cid] ?? 0)) out[cid] = ts`. -/
def Markers.raise (out : Markers) (e : ConversationId × Int) : Markers :=
  if out.below e.1 e.2 then out.assign e.1 e.2 else out

def mergeMarkers (a b : Markers) : Markers := b.entries.foldl Markers.raise a

/-! ### Watermarks of the conversation rows -/

/-- `row.lastReadTimestamp ?? 0`. -/
def StoredConversation.lastRead (row : StoredConversation) : Int := row.lastReadTimestamp.getD 0

namespace Database

def conversation (db : Database) (id : String) : Option StoredConversation :=
  db.conversations.get [.str id]

/-- The rows in the index on the date, newest first; a row with an invalid date is not in it. -/
def loadConversations (db : Database) : List StoredConversation :=
  ((((db.conversations.entries.map Prod.snd).filter fun c => c.lastMessageTimestamp.isSome).insertionSort
    fun a b => b.conversationId.after a.conversationId || !a.conversationId.after b.conversationId).insertionSort
      fun a b => !a.lastMessageTimestamp.after b.lastMessageTimestamp).reverse

/-- A watermark of zero is dropped with the absent ones. Only rows under strings have watermarks. -/
def addMarker (markers : Markers) (c : StoredConversation) : Markers :=
  match ConversationId.ofJs c.conversationId, c.lastReadTimestamp with
  | some id, some t => if t = 0 then markers else markers.assign id t
  | _, _ => markers

def loadReadMarkers (db : Database) : Markers := db.loadConversations.foldl addMarker .empty

/-- The second transaction of `markConversationRead`. -/
def putRead (db : Database) (existing : StoredConversation) (timestamp : Int) : Option Database :=
  db.saveBatch [] [{ existing with lastReadTimestamp := some timestamp }]

/-- `markConversationRead` as one step; none where a row has no key to be put under. -/
def markConversationRead (db : Database) (id : ConversationId) (timestamp : Int) :
    Option (Bool × Database) :=
  match db.conversation id.str with
  | none => some (false, db)
  | some row =>
    if timestamp ≤ row.lastRead then some (false, db)
    else (db.putRead row timestamp).map fun db => (true, db)

end Database

/-! ### Requests -/

/-- The blob before it is encrypted, with the version of the key it is encrypted under. -/
structure ReadMarkersBlob where
  v : Nat
  markers : Markers

/-- What `syncReadMarkers` calls. -/
inductive ReadAct where
  | storeGet
  | loadReadMarkers
  | markConversationRead (id : ConversationId) (timestamp : Int)
  | putBlob (blob : ReadMarkersBlob)

@[reducible] def ReadReply : ReadAct → Type
  | .storeGet => Except Thrown ReadMarkersBlob
  | .loadReadMarkers => Except Thrown Markers
  | .markConversationRead .. => Except Thrown Bool
  | .putBlob _ => Except Thrown Unit

abbrev ReadM (α : Type) := ExceptT Thrown (Prog ReadAct ReadReply) α

/-- A blob under a newer key is skipped; an older key comes from the key chain. -/
def fetchReadMarkers (currentVersion : Nat) : ReadM Markers :=
  ExceptT.mk (.op .storeGet fun
    | .error _ => .ret (.ok .empty)
    | .ok blob => .ret (.ok (if currentVersion < blob.v then .empty else blob.markers)))

def loadReadMarkers : ReadM Markers := ExceptT.mk (Prog.request ReadAct.loadReadMarkers)

def advance (id : ConversationId) (timestamp : Int) : ReadM Bool :=
  ExceptT.mk (Prog.request (ReadAct.markConversationRead id timestamp))

def uploadReadMarkers (keyVersion : Nat) (markers : Markers) : ReadM Unit :=
  ExceptT.mk (Prog.request (ReadAct.putBlob ⟨keyVersion, markers⟩))

/-- Whether a local row moved forward, and whether local is ahead of remote. -/
def applyMarkers (local_ remote : Markers) :
    List (ConversationId × Int) → Bool → Bool → ReadM (Bool × Bool)
  | [], localAdvanced, aheadOfRemote => pure (localAdvanced, aheadOfRemote)
  | (cid, ts) :: rest, localAdvanced, aheadOfRemote => do
    let advanced ← if local_.below cid ts then advance cid ts else pure false
    applyMarkers local_ remote rest (localAdvanced || advanced)
      (aheadOfRemote || remote.below cid ts)

def syncReadMarkers (keyVersion : Nat) : ReadM Bool := do
  let remote ← fetchReadMarkers keyVersion
  let local_ ← loadReadMarkers
  let merged := mergeMarkers local_ remote
  let (localAdvanced, aheadOfRemote) ← applyMarkers local_ remote merged.entries false false
  if aheadOfRemote then uploadReadMarkers keyVersion merged
  pure localAdvanced

/-! ### Transactions -/

/-- The transactions of one device, and its requests to the server. -/
inductive LocalAct where
  /-- A transaction of `saveMessages`. -/
  | saving (act : Act)
  | getConversation (id : ConversationId)
  | putRead (existing : StoredConversation) (timestamp : Int)
  | loadReadMarkers
  | storeGet
  | putBlob (blob : ReadMarkersBlob)

@[reducible] def LocalReply : LocalAct → Type
  | .saving act => Reply act
  | .getConversation _ => Except Thrown (Option StoredConversation)
  | .putRead .. => Except Thrown Unit
  | .loadReadMarkers => Except Thrown Markers
  | .storeGet => Except Thrown ReadMarkersBlob
  | .putBlob _ => Except Thrown Unit

abbrev LocalM (α : Type) := ExceptT Thrown (Prog LocalAct LocalReply) α

/-- Whether the watermark moved. -/
def markConversationRead (id : ConversationId) (timestamp : Int) : LocalM Bool := do
  let existing ← ExceptT.mk (Prog.request (LocalAct.getConversation id))
  match existing with
  | none => pure false
  | some existing =>
    if timestamp ≤ existing.lastRead then pure false
    else do
      ExceptT.mk (Prog.request (LocalAct.putRead existing timestamp))
      pure true

/-- `syncReadMarkers`, transaction by transaction. -/
def ReadAct.transactions : (act : ReadAct) → Prog LocalAct LocalReply (ReadReply act)
  | .storeGet => Prog.request LocalAct.storeGet
  | .loadReadMarkers => Prog.request LocalAct.loadReadMarkers
  | .markConversationRead id timestamp => (Web.markConversationRead id timestamp).run
  | .putBlob blob => Prog.request (LocalAct.putBlob blob)

end Atmin.Web
