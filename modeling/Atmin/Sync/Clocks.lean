import Atmin.Sync.Fetching
import Atmin.Sync.Watermarks
import Atmin.Web.Chat

/-!
# The devices of one account, each with a clock

Every device syncs its inbox, opens chats and exchanges read markers with the others. What
lies in the object store when a device asks for it is up to whoever sends; only the blob of
the read markers is the account's own. Each local read is recorded with the clock of the
device at that time.
-/

namespace Atmin.Web

open Interaction

/-- A chat that was marked as read when it was opened. -/
structure LocalRead (ι : Type) where
  device : ι
  id : ConversationId
  timestamp : Int
  /-- `Date.now()` of the device then. -/
  clock : Int
  deriving DecidableEq

structure Devices (ι : Type) where
  device : ι → State := fun _ => {}
  clock : ι → Int
  blob : Option ReadMarkersBlob := none
  /-- Every local read so far, latest first. -/
  reads : List (LocalRead ι) := []

inductive DeviceAct where
  | own (act : LocalAct)
  | loadMessages (userId : String)
  /-- Time passes on the device. -/
  | pass (ms : Nat)

@[reducible] def DeviceReply : DeviceAct → Type
  | .own act => LocalReply act
  | .loadMessages _ => Except Thrown (List StoredMessage)
  | .pass _ => Unit

/-! ### What a device runs -/

def owning {α : Type} (p : Prog LocalAct LocalReply α) : Prog DeviceAct DeviceReply α :=
  p.expand fun act => Prog.request (DeviceAct.own act)

/-- `syncReadMarkers`, transaction by transaction. -/
def exchangeMarkers (keyVersion : Nat) : Prog LocalAct LocalReply (Except Thrown Unit) :=
  ((syncReadMarkers keyVersion).run.expand ReadAct.transactions).bind fun r => .ret (r.map fun _ => ())

/-- A request of `syncAndPublish`; its last one is a sync of the read markers. -/
def inboxStep (keyVersion : Nat) : (act : Act) → Prog LocalAct LocalReply (Reply act)
  | .syncReadMarkers => exchangeMarkers keyVersion
  | act => Prog.request (LocalAct.saving act)

/-- The newest timestamp of a chat; whatever was loaded is dated. -/
def latestTimestamp (rows : List StoredMessage) : Int :=
  rows.foldl (fun latest m => max latest (m.timestamp.getD 0)) 0

/-- `refresh` of an open chat, as far as it writes: load the messages, then mark the newest one
as read. -/
def refresh (userId : String) (convId : ConversationId) :
    Prog DeviceAct DeviceReply (Except Thrown Unit) :=
  .op (.loadMessages userId) fun
    | .error e => .ret (.error e)
    | .ok all =>
      let latest := latestTimestamp (all.filter fun m => m.conversationId.same (.str convId.str))
      if latest ≤ 0 then .ret (.ok ())
      else (owning (markConversationRead convId latest).run).bind fun r => .ret (r.map fun _ => ())

inductive DeviceTask (ι : Type) where
  | syncAndPublish (d : ι) (sharingPrivateKey : String) (hasBackupKey : Bool) (keyVersion : Nat)
  | refresh (d : ι) (convId : ConversationId)
  | syncReadMarkers (d : ι) (keyVersion : Nat)
  | pass (d : ι) (ms : Nat)
  | reload (d : ι)

variable {ι : Type}

def DeviceTask.device : DeviceTask ι → ι
  | .syncAndPublish d .. | .refresh d _ | .syncReadMarkers d _ | .pass d _ | .reload d => d

variable [CborDecoder]

def DeviceTask.prog (account : Account) :
    DeviceTask ι → Prog DeviceAct DeviceReply (Except Thrown Unit)
  | .syncAndPublish _ key backs keyVersion =>
    owning (((Web.syncAndPublish ⟨account, key, backs⟩).run.expand (inboxStep keyVersion)).bind fun r =>
      .ret (r.map fun _ => ()))
  | .refresh _ convId => Web.refresh account.userId.str convId
  | .syncReadMarkers _ keyVersion => owning (exchangeMarkers keyVersion)
  | .pass _ ms => .op (.pass ms) fun _ => .ret (.ok ())
  | .reload _ => .op (.own (.saving .reload)) fun _ => .ret (.ok ())

/-! ### The steps -/

/-- What the surroundings decide about a step. -/
structure DeviceChoice where
  outcome : Outcome := .ok
  /-- The inbox as senders and server have left it. -/
  objects : ObjectMap String Data := .empty
  /-- Whether a PUT that fails was written all the same. -/
  written : Bool := false

variable [DecidableEq ι]

def performAt (d : ι) : (act : DeviceAct) → DeviceChoice → Devices ι → Option (DeviceReply act × Devices ι)
  | .own act, c, s => match act with
    | .storeGet => some (match c.outcome, s.blob with
      | .ok, some blob => .ok blob
      | .ok, none => .error .failed
      | .fail e, _ => .error e, s)
    | .putBlob blob => match c.outcome with
      | .ok => some (.ok (), { s with blob := some blob })
      | .fail e => some (.error e, if c.written then { s with blob := some blob } else s)
    | act => (performLocal act (c.outcome, ⟨0, .empty⟩) { s.device d with objects := c.objects }).map
        fun done => (done.1, { s with device := Function.update s.device d done.2 })
  | .loadMessages userId, c, s =>
    (reading (fun u => .ok (u.db.loadMessages userId)) c.outcome (s.device d)).map fun done => (done.1, s)
  | .pass ms, _, s => some ((), { s with clock := Function.update s.clock d (s.clock d + ms) })

/-- A watermark that an open chat has put is on record. -/
def recordRead (task : DeviceTask ι) : (act : DeviceAct) → DeviceReply act → Devices ι → Devices ι
  | .own (.putRead _ timestamp), .ok (), t => match task with
    | .refresh d convId => { t with reads := ⟨d, convId, timestamp, t.clock d⟩ :: t.reads }
    | _ => t
  | _, _, t => t

def performBy (task : DeviceTask ι) (act : DeviceAct) (c : DeviceChoice) (s : Devices ι) :
    Option (DeviceReply act × Devices ι) :=
  (performAt task.device act c s).map fun done => (done.1, recordRead task act done.1 done.2)

variable {κ : Type}

/-- Any tasks of any devices, interleaved transaction by transaction. -/
def devices (account : Account) (tasks : κ → DeviceTask ι) :
    System κ DeviceAct DeviceReply (Except Thrown Unit) (Devices ι) where
  prog i := (tasks i).prog account
  exec := execOf fun i => performBy (tasks i)

/-! ### Dates -/

/-- The date a message gets from its envelope. -/
def envelopeDate (account : Account) (e : Js) : Except Thrown Timestamp := do
  let sentAt ← e.member "sent_at"
  account.date (sentAt.orElse (.num (.int 0)))

/-- The envelope is not dated after `bound`. -/
def datedBy (account : Account) (bound : Int) (e : Js) : Bool :=
  match envelopeDate account e with
  | .ok (some t) => decide (t ≤ bound)
  | _ => true

/-- Where a device downloads envelopes, none of them is dated more than `skew` after its clock. -/
def punctual (account : Account) (skew : Int) (d : ι) :
    DeviceAct → DeviceChoice → Devices ι → Bool
  | .own (.saving (.storeGet key)), c, s => (c.objects.get key).all fun data =>
    (envelopesIn data).all (datedBy account (s.clock d + skew))
  | _, _, _ => true

def performPunctual (account : Account) (skew : Int) (task : DeviceTask ι) (act : DeviceAct)
    (c : DeviceChoice) (s : Devices ι) : Option (DeviceReply act × Devices ι) :=
  if punctual account skew task.device act c s then performBy task act c s else none

/-- The same, as long as every download meets the condition. -/
def punctualDevices (account : Account) (skew : Int) (tasks : κ → DeviceTask ι) :
    System κ DeviceAct DeviceReply (Except Thrown Unit) (Devices ι) where
  prog i := (tasks i).prog account
  exec := execOf fun i => performPunctual account skew (tasks i)

/-- The watermark of a conversation on a device. -/
def Devices.Marked (s : Devices ι) (d : ι) (id : ConversationId) (t : Int) : Prop :=
  ∃ row, (s.device d).db.conversation id.str = some row ∧ row.lastReadTimestamp = some t

/-- A local read went up to there, no more than `skew` after the clock of its device. -/
def Devices.Backed (skew : Int) (s : Devices ι) (id : ConversationId) (t : Int) : Prop :=
  ∃ r ∈ s.reads, r.id = id ∧ r.timestamp = t ∧ t ≤ r.clock + skew ∧ r.clock ≤ s.clock r.device

/-- The local read that came last. -/
def Devices.latestRead (s : Devices ι) (id : ConversationId) : Option (LocalRead ι) :=
  s.reads.find? fun r => decide (r.id = id)

/-- No watermark is more than `skew` ahead of the device that read up to it, as its clock was
then, nor of the one that read last, but for what the clocks of the devices differ. -/
structure Devices.Bounded (skew : Int) (s : Devices ι) : Prop where
  reader : ∀ d id t, s.Marked d id t → s.Backed skew id t
  latest : ∀ d id t, s.Marked d id t → ∃ r, s.latestRead id = some r ∧
    ∀ drift, (∀ e, s.clock e ≤ s.clock r.device + drift) → t ≤ s.clock r.device + (skew + drift)

end Atmin.Web
