import Atmin.Web.Async

/-!
# Inbound sessions of the session manager (`megolm-session.ts`)

The cache maps a session id to the session and to its metadata, which the source keeps in
two maps that are written together.
-/

namespace Atmin.Web

def addInbound (crypto : Crypto) (fromUser fromDevice : Js) (sessionKey : String) :
    Async (Inbound × Bool) := do
  let session ← orThrow .crypto (crypto.importSession sessionKey)
  match ← sync (step (.cachedInbound session.sessionId)) with
  -- a known session is kept, whatever the index of the new key
  | some cached => pure (cached.session, false)
  | none =>
    match ← await (step (.loadInboundSession (.str session.sessionId))) with
    | some stored => do
      sync (step (.cacheInbound stored))
      pure (stored.session, false)
    -- only a new one is saved
    | none => do
      sync (step (.cacheInbound ⟨fromUser, fromDevice, session⟩))
      await (step (.saveInboundSession ⟨fromUser, fromDevice, session⟩))
      pure (session, true)

/-- Load a session that is not cached; the cache has no key but strings. -/
def loadInbound (sessionId : Js) : Async (Option Inbound) := do
  match ← await (step (.loadInboundSession sessionId)) with
  | some stored => do
    sync (step (.cacheInbound stored))
    pure (some stored.session)
  | none => pure none

def getInbound (sessionId : Js) : Async (Option Inbound) :=
  match sessionId.asStr with
  | some id => do
    match ← sync (step (.cachedInbound id)) with
    | some cached => pure (some cached.session)
    | none => loadInbound sessionId
  | none => loadInbound sessionId

def persistInbound (sessionId : String) : Async Unit := do
  match ← sync (step (.cachedInbound sessionId)) with
  | some cached => await (step (.saveInboundSession cached))
  | none => pure ()

end Atmin.Web
