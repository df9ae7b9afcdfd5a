import Atmin.Web.InboxSync

/-!
# Accounts on one browser (`auth.ts`)

IndexedDB and `localStorage` are shared by every tab and every account that signs in. The
modules of a tab keep their memory for as long as the tab is open, whoever is signed in;
each sign-in has a session manager of its own.
-/

namespace Atmin.Web

open Interaction

/-- Where code runs: in a tab, with the session manager of one sign-in. A reload is a new tab. -/
structure Seat where
  tab : Nat
  manager : Nat
  deriving DecidableEq, Repr

structure Browser where
  /-- The object store and IndexedDB; the memory in it is that of no tab. -/
  device : State := {}
  /-- The memory of each tab's modules, but for the session caches. -/
  modules : Nat → Memory := fun _ => {}
  managers : Nat → ObjectMap String StoredInbound := fun _ => .empty
  /-- `localStorage['atmin:userId']`. -/
  userId : Option String := none

namespace Browser

/-- What code on a seat sees. -/
def seen (b : Browser) (seat : Seat) : State :=
  { b.device with memory :=
      { b.modules seat.tab with inboundCache := b.managers seat.manager } }

/-- What it leaves behind. -/
def left (b : Browser) (seat : Seat) (s : State) : Browser :=
  { b with
    device := s
    modules := Function.update b.modules seat.tab s.memory
    managers := Function.update b.managers seat.manager s.memory.inboundCache }

end Browser

inductive Request where
  /-- A step of the code that syncs, or of the surroundings. -/
  | page (act : Act)
  | getUserId
  | setUserId (userId : String)
  | removeUserId
  | deleteDatabase

@[reducible] def Answer : Request → Type
  | .page act => Reply act
  | .getUserId => Option String
  | .deleteDatabase => Except Thrown Unit
  | .setUserId _ | .removeUserId => Unit

/-- What one step does under a decision of the surroundings. -/
def handle (seat : Seat) : (request : Request) → Outcome → Browser →
    Option (Answer request × Browser)
  | .page .reload, _, _ => none
  | .page act, c, b => (perform act c (b.seen seat)).map fun done => (done.1, b.left seat done.2)
  | .getUserId, .ok, b => some (b.userId, b)
  | .setUserId userId, .ok, b => some ((), { b with userId := some userId })
  | .removeUserId, .ok, b => some ((), { b with userId := none })
  -- While another connection is open the request waits, and is not served yet.
  | .deleteDatabase, .ok, b => some (.ok (), { b with device := { b.device with db := {} } })
  | .deleteDatabase, .fail e, b => some (.error e, b)
  | _, _, _ => none

/-! ### Sessions -/

/-- A wipe when the account on disk is another one, or unknown. -/
def wipeIfAccountChanged (userId : UserId) : Prog Request Answer (Except Thrown Unit) :=
  .op .getUserId fun owner =>
    if owner = some userId.str then .ret (.ok ()) else .op .deleteDatabase .ret

/-- Every sign-in and registration ends with this. -/
def saveSession (userId : UserId) : Prog Request Answer (Except Thrown Unit) :=
  (wipeIfAccountChanged userId).bind fun
    | .ok () => .op (.setUserId userId.str) fun _ => .ret (.ok ())
    | .error e => .ret (.error e)

/-- What a lost token leaves: the session is gone, IndexedDB stays. -/
def clearToken : Prog Request Answer Unit := .op .removeUserId fun _ => .ret ()

/-- A logout. -/
def clearSession : Prog Request Answer (Except Thrown Unit) :=
  clearToken.bind fun _ => .op .deleteDatabase .ret

/-! ### What goes on in a browser -/

inductive Visit where
  /-- `syncAndPublish` for the account of a session. -/
  | sync (page : Page)
  /-- Any other code that adds a session to a session manager. -/
  | addInbound (crypto : Crypto) (fromUser fromDevice : Js) (sessionKey : String)
  | saveSession (userId : UserId)
  | clearToken
  | clearSession
  | surroundings (act : Act) (surrounds : act.surrounds = true)

/-- Code of a page as a program of the browser. -/
abbrev inPage {α : Type} (p : Prog Act Reply α) : Prog Request Answer α :=
  p.expand fun act => Prog.request (.page act)

variable [CborDecoder]

def Visit.prog : Visit → Prog Request Answer Unit
  | .sync page => (inPage (syncAndPublish page).run).bind fun _ => .ret ()
  | .addInbound crypto fromUser fromDevice key =>
    (inPage (Atmin.Web.addInbound crypto fromUser fromDevice key).run).bind fun _ => .ret ()
  | .saveSession userId => (Atmin.Web.saveSession userId).bind fun _ => .ret ()
  | .clearToken => Atmin.Web.clearToken
  | .clearSession => Atmin.Web.clearSession.bind fun _ => .ret ()
  | .surroundings act _ => inPage (.op act fun _ => .ret ())

/-- The account a call syncs for. -/
def Visit.account : Visit → Option Account
  | .sync page => some page.toAccount
  | _ => none

/-- Which visits there are, and where each of them takes place. -/
structure Visits (ι : Type) where
  visit : ι → Visit
  seat : ι → Seat

variable {ι : Type}

/-- Everything asked and answered so far is on record. -/
abbrev History (ι : Type) := Traced ι Request Answer Browser

/-- The visits of one browser, where steps are taken only if `C` allows them. -/
def accounts (C : ι → Request → History ι → Prop) (visits : Visits ι) :
    System ι Request Answer Unit (History ι) where
  prog i := (visits.visit i).prog
  exec := guarded C (traced (execOf fun i => handle (visits.seat i)))

end Atmin.Web
