import Atmin.Server.Account

/-!
# Data-retention cleanup (`cleanup.rs`)

A separate process: it shares the object store with the server, and none of its locks.
-/

namespace Atmin

open Interaction

/-- A cleanup step returns `Result<T, StoreError>`. -/
abbrev Sweep (α : Type) := ExceptT StoreError Eff α

def ABANDONED_GRACE_DAYS : Int := 7
def HANDLES_PAGE_SIZE : Nat := 1000
def WIPE_PAGE_SIZE : Nat := 1000

structure CleanupOpts where
  inactiveDays : Int
  batchSize : Nat
  dryRun : Bool
  now : Int
  deriving DecidableEq, Repr

structure CleanupResult where
  handlesScanned : Nat := 0
  abandoned : Nat := 0
  inactive : Nat := 0
  tombstones : Nat := 0
  deleted : Nat := 0
  errors : Nat := 0
  deriving DecidableEq, Repr

inductive Policy where
  | abandoned
  | inactive
  | tombstone
  deriving DecidableEq, Repr

namespace Sweep

variable {α : Type}

/-- `?` on a storage request. -/
def store (p : Eff (Except StoreError α)) : Sweep α := ExceptT.mk p

def orBackend (err : String) : Option α → Sweep α
  | some a => ExceptT.mk (.ret (.ok a))
  | none => ExceptT.mk (.ret (.error (.backend err)))

/-- `match … { Ok(v) => …, Err(e) => … }` on a whole step. -/
def attempt (p : Sweep α) : Sweep (Except StoreError α) :=
  ExceptT.mk (Prog.bind p.run fun r => .ret (.ok r))

end Sweep

open Sweep

/-- Whether none of the prefixes has an object. -/
def prefixesEmpty : List String → Sweep Bool
  | [] => pure true
  | pre :: rest => do
    let page ← store (ask (.listObjects pre 1 none))
    if page.keys ≠ [] then pure false else prefixesEmpty rest

/-- Whether the user has no live and no archived messages. -/
def inboxEmpty (uid : String) : Sweep Bool := prefixesEmpty [prefixInboxLive uid, prefixInboxArchive uid]

/-- Whether an RFC 3339 instant lies more than `limit` before `now`. -/
def olderThan (env : Env) (now limit : Int) (stamp : String) : Bool :=
  (env.parseRfc3339 stamp).any fun t => decide (days limit < now - t)

/-- Once active, but silent for longer than the threshold. -/
def isInactive (env : Env) (opts : CleanupOpts) (profile : Profile) : Bool :=
  decide (profile.lastActive ≠ "") && olderThan env opts.now opts.inactiveDays profile.lastActive

/-- The retention policies, the abandoned one first. -/
def classify (env : Env) (opts : CleanupOpts) (uid : String) (profile : Profile) :
    Sweep (Option (Policy × Option Profile)) := do
  let abandoned ← if profile.displayName = "" ∧
      olderThan env opts.now ABANDONED_GRACE_DAYS profile.createdAt = true then inboxEmpty uid
    else pure false
  if abandoned then pure (some (.abandoned, some profile))
  else if isInactive env opts profile then pure (some (.inactive, some profile))
  else pure none

/-- Classify one handle file; `none` is keep. -/
def evaluateUser (env : Env) (opts : CleanupOpts) (handleKey : String) :
    Sweep (Option (Policy × Option Profile)) := do
  let data ← store (ask (.getObject handleKey))
  let h ← orBackend "invalid handle projection" (PublicHandleData.parse data)
  if h.userId = "" then
    if h.releasedAt = "" then pure none
    else
      let released ← orBackend "invalid released_at" (env.parseRfc3339 h.releasedAt)
      if days HANDLE_COOLDOWN_DAYS < opts.now - released then pure (some (.tombstone, none))
      else pure none
  else
    let found ← attempt (store (ask (.getObject (keyProfile h.userId))))
    match found with
    | .ok bytes =>
      let profile ← orBackend "invalid profile" (Profile.parse bytes)
      classify env opts h.userId profile
    -- A dangling handle is not a retention match.
    | .error .notFound => pure none
    | .error e => throw e

/-- Wipe one prefix page by page, at most `pages` of them. -/
def wipePrefix (pre : String) : Nat → Sweep Unit
  | 0 => throw (.backend "too many pages")
  | pages + 1 => do
    let page ← store (ask (.listObjects pre WIPE_PAGE_SIZE none))
    if page.keys = [] then pure ()
    else
      store (ask (.deleteObjects page.keys))
      if page.keys.length < WIPE_PAGE_SIZE then pure () else wipePrefix pre pages

def wipeAll (pages : Nat) : List String → Sweep Unit
  | [] => pure ()
  | pre :: rest => do
    wipePrefix pre pages
    wipeAll pages rest

/-- Remove everything of a user, then the handle file. -/
def deleteUser (pages : Nat) (profile : Profile) : Sweep Unit := do
  wipeAll pages (ownedPrefixes profile.userId)
  if profile.handle = "" then pure () else store (ask (.deleteObject (keyHandle profile.handle)))

def CleanupResult.count (res : CleanupResult) : Policy → CleanupResult
  | .abandoned => { res with abandoned := res.abandoned + 1 }
  | .inactive => { res with inactive := res.inactive + 1 }
  | .tombstone => { res with tombstones := res.tombstones + 1 }

/-- A tombstone is just the handle file; a user is a full wipe. -/
def deleteMatch (pages : Nat) (handleKey : String) : Policy × Option Profile → Sweep Unit
  | (.tombstone, _) => store (ask (.deleteObject handleKey))
  | (_, some profile) => deleteUser pages profile
  -- `unwrap` never fails: the other policies always carry a profile.
  | (_, none) => pure ()

/-- Evaluate one handle file and act on the verdict. -/
def sweepHandle (env : Env) (opts : CleanupOpts) (pages : Nat) (res : CleanupResult)
    (handleKey : String) : Sweep CleanupResult := do
  let evaluated ← attempt (evaluateUser env opts handleKey)
  match evaluated with
  -- an error is counted, and the sweep goes on
  | .error _ => pure { res with errors := res.errors + 1 }
  | .ok none => pure res
  | .ok (some found) =>
    let res := res.count found.1
    -- a dry run counts as deleted what would be
    if opts.dryRun then pure { res with deleted := res.deleted + 1 }
    else
      let deleted ← attempt (deleteMatch pages handleKey found)
      match deleted with
      | .error _ => pure { res with errors := res.errors + 1 }
      | .ok () => pure { res with deleted := res.deleted + 1 }

/-- One page of handle files; the batch size stops it early. -/
def sweepPage (env : Env) (opts : CleanupOpts) (pages : Nat) :
    List String → CleanupResult → Sweep CleanupResult
  | [], res => pure res
  | k :: rest, res =>
    let res := { res with handlesScanned := res.handlesScanned + 1 }
    if opts.batchSize ≤ res.deleted then pure res
    else do
      let res ← sweepHandle env opts pages res k
      sweepPage env opts pages rest res

/-- The sweep over `handles/`; `rounds` bounds the loop, which the source leaves open. -/
def sweepHandles (env : Env) (opts : CleanupOpts) (pages : Nat) :
    Nat → Option String → CleanupResult → Sweep CleanupResult
  | 0, _, _ => throw (.backend "too many pages")
  | rounds + 1, cursor, res =>
    if opts.batchSize ≤ res.deleted then pure res
    else do
      let page ← store (ask (.listObjects "handles/" HANDLES_PAGE_SIZE cursor))
      let res ← sweepPage env opts pages page.keys res
      match page.nextCursor with
      | some c => sweepHandles env opts pages rounds (some c) res
      | none => pure res

def runCleanup (env : Env) (pages : Nat) (opts : CleanupOpts) : Sweep CleanupResult :=
  sweepHandles env opts pages pages none {}

end Atmin
