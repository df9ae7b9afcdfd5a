import Atmin.Web.Messaging

/-!
# Syncing and publishing (`inbox-sync.ts`)
-/

namespace Atmin.Web

/-- How a call of `syncAndPublish` ended; the source returns nothing. -/
inductive Published where
  | syncFailed
  | savingFailed
  /-- The listeners were told. -/
  | done
  deriving DecidableEq, Repr

variable (page : Page)

/-- Record each archive; one that cannot be recorded is downloaded again. -/
def markArchivesIngested : List String → Async Unit
  | [] => pure ()
  | key :: rest => do
    let _ ← attempt (await (step (.markArchiveIngested key)))
    markArchivesIngested rest

/-- Save what was synced, and only then record its archives. -/
def publish (synced : SyncResult) : Async Published := do
  match ← attempt (saveMessages page.parse page.render page.userId.str synced.messages) with
  | .error _ => pure .savingFailed
  | .ok () => do
    markArchivesIngested synced.ingestedCandidates
    let _ ← attempt (await (step .syncReadMarkers))
    pure .done

variable [CborDecoder]

def syncAndPublish : Async Published := do
  match ← attempt (syncMessages page) with
  | .error _ => pure .syncFailed
  | .ok synced => publish page synced

end Atmin.Web
