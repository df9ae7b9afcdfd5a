import Atmin.Interaction.Machine
import Atmin.Interaction.Slots
import Atmin.Web.Image
import Atmin.Web.KeyChain
import Atmin.Web.Preview

/-!
# Media in a chat (`useMedia.ts`, `media.ts`)

A chat loads its media as they come into view. Each load waits for IndexedDB, for the network and
for WebCrypto, and meanwhile the same object can be requested again, its message can go, or the
whole chat. What is shown is an object URL, which lives until it is revoked.
-/

namespace Atmin.UseMedia

open Interaction Web

/-! ### Images (`media.ts`) -/

inductive InlineMime where
  | png
  | jpeg
  | gif
  | webp
  deriving DecidableEq, Repr

/-- By the first bytes. -/
def sniffInlineImageMime (b : List UInt8) : Option InlineMime :=
  if b.length < 12 then none
  else if b.take 8 = [0x89, 0x50, 0x4e, 0x47, 0x0d, 0x0a, 0x1a, 0x0a] then some .png
  else if b.take 3 = [0xff, 0xd8, 0xff] then some .jpeg
  else if b.take 6 = [0x47, 0x49, 0x46, 0x38, 0x37, 0x61] ∨
      b.take 6 = [0x47, 0x49, 0x46, 0x38, 0x39, 0x61] then some .gif
  else if b.take 4 = [0x52, 0x49, 0x46, 0x46] ∧ (b.drop 8).take 4 = [0x57, 0x45, 0x42, 0x50] then
    some .webp
  else none

inductive DecryptError where
  /-- `MediaCorruptError`. -/
  | corrupt
  /-- The key has no length that AES takes. -/
  | badKey
  deriving DecidableEq, Repr

def decryptMedia {CryptoKey : Type} (subtle : Subtle CryptoKey) (ciphertext key iv : List UInt8) :
    Except DecryptError (List UInt8) :=
  match subtle.importKey key with
  | none => .error .badKey
  | some cryptoKey => match subtle.decrypt cryptoKey iv ciphertext with
    | some plaintext => .ok plaintext
    | none => .error .corrupt

/-! ### What is loaded -/

variable {Url : Type}

structure PreviewFile (Url : Type) where
  url : Url
  key : List UInt8
  iv : List UInt8

/-- A media file of a message. -/
structure File (Url : Type) where
  url : Url
  key : List UInt8
  iv : List UInt8
  name : Js
  preview : Option (PreviewFile Url)

inductive CachePolicy where
  | preview
  | derive
  | none
  deriving DecidableEq, Repr

structure Loadable (Url : Type) where
  url : Url
  key : List UInt8
  iv : List UInt8
  cache : CachePolicy

def loadablesOf (f : File Url) : List (Loadable Url) :=
  ⟨f.url, f.key, f.iv, if f.preview.isSome then .none else .derive⟩ ::
    (f.preview.map fun p => ⟨p.url, p.key, p.iv, .preview⟩).toList

def loadables (files : List (File Url)) : List (Loadable Url) := files.flatMap loadablesOf

def displayUrl (f : File Url) : Url := (f.preview.map PreviewFile.url).getD f.url

/-- `StoredMediaBlob`. -/
structure StoredMediaBlob where
  bytes : List UInt8
  mime : Option InlineMime
  deriving DecidableEq, Repr

/-- `cacheAfterLoad`: what it writes, if anything. -/
def cacheAfterLoad (file : Loadable Url) (plaintext : List UInt8) (canvas : CanvasApi) :
    Option StoredMediaBlob :=
  match file.cache with
  | .none => none
  | .preview => some ⟨plaintext, sniffInlineImageMime plaintext⟩
  | .derive => do
    let mime ← sniffInlineImageMime plaintext
    let (width, height) ← imageSize canvas plaintext
    if needsPreview plaintext.length width height then
      let thumb ← makePreview canvas plaintext
      pure ⟨thumb.bytes, some .jpeg⟩
    else pure ⟨plaintext, some mime⟩

/-! ### The hook -/

/-- `MediaState`. An object URL is named by how many were created before it. -/
inductive MediaState where
  | idle
  | loading
  | ready (blobUrl : Nat) (mime : Option InlineMime)
  | corrupt
  | unavailable
  | networkError
  deriving DecidableEq, Repr

/-- What a load waits for. -/
inductive Stage where
  | lookup
  /-- The cache has answered. -/
  | found (cached : Option StoredMediaBlob)
  | response
  | decryption (ciphertext : List UInt8)

structure Load (Url : Type) where
  file : Loadable Url
  token : String
  stage : Stage

/-- The refs and the state of the hook, and the IndexedDB store. A load is named by its controller. -/
structure State (Url : Type) [DecidableEq Url] where
  mounted : Bool := true
  files : List (File Url) := []
  token : Option String := none
  /-- The effect on `files` and `token` is due. -/
  changed : Bool := false
  states : ObjectMap Url MediaState := .empty
  controllers : ObjectMap Url Nat := .empty
  nextController : Nat := 0
  aborted : List Nat := []
  blobs : Slots Url (List UInt8) := .empty
  observed : ObjectMap Nat Url := .empty
  elByUrl : ObjectMap Url Nat := .empty
  triggered : List Url := []
  tracked : List Url := []
  loads : ObjectMap Nat (Load Url) := .empty
  /-- What `cacheAfterLoad` is at work on. -/
  caching : List (Loadable Url × List UInt8) := []
  evicting : List Url := []
  mediaCache : ObjectMap Url StoredMediaBlob := .empty

/-- What a `fetchMedia` comes to. -/
inductive Response where
  | bytes (ciphertext : List UInt8)
  | notFound
  | networkError
  deriving DecidableEq, Repr

section Hook

variable [DecidableEq Url]

/-- `filesRef.current.get`: of two entries with one url the last. -/
def fileAt (files : List (File Url)) (url : Url) : Option (Loadable Url) :=
  (loadables files).reverse.find? fun l => decide (l.url = url)

namespace State

variable (s : State Url)

def setState (url : Url) (state : MediaState) : State Url :=
  { s with states := s.states.insert url state }

/-- `controllersRef.current.get(url)?.abort()`. -/
def abort (url : Url) : State Url :=
  { s with aborted := s.aborted ++ (s.controllers.get url).toList }

def load (file : Loadable Url) (token : String) : State Url :=
  let s := s.abort file.url
  { s with
    tracked := s.tracked.insert file.url
    controllers := s.controllers.insert file.url s.nextController
    nextController := s.nextController + 1
    states := s.states.insert file.url .loading
    loads := s.loads.insert s.nextController ⟨file, token, .lookup⟩ }

/-- A new object URL replaces the one before, which is revoked. -/
def present (url : Url) (plaintext : List UInt8) : State Url :=
  { s with
    blobs := s.blobs.put url plaintext
    states := s.states.insert url
      (.ready s.blobs.created.length (sniffInlineImageMime plaintext)) }

/-- The load is over. -/
def finish (n : Nat) : State Url := { s with loads := s.loads.erase n }

/-- The load goes on. -/
def advance (n : Nat) (l : Load Url) (stage : Stage) : State Url :=
  { s with loads := s.loads.insert n { l with stage } }

/-- A failed load; an object that is gone leaves the cache as well. -/
def fail (url : Url) : MediaState → State Url
  | .unavailable => { s.setState url .unavailable with evicting := s.evicting ++ [url] }
  | state => s.setState url state

/-- The end of a load, unless it was aborted. -/
def conclude (n : Nat) (result : State Url → State Url) : State Url :=
  if n ∈ s.aborted then s.finish n else result (s.finish n)

def observe (observes : Bool) (url : Url) (el : Nat) : State Url :=
  if url ∈ s.triggered ∨ s.elByUrl.get url = some el ∨ observes = false then s
  else
    let observed := match s.elByUrl.get url with
      | some prevEl => s.observed.erase prevEl
      | none => s.observed
    { s with elByUrl := s.elByUrl.insert url el, observed := observed.insert el url }

/-- The callback of the observer, for an element that came into view. -/
def intersect (el : Nat) : State Url :=
  match s.observed.get el with
  | none => s
  | some url =>
    let s := { s with observed := s.observed.erase el, elByUrl := s.elByUrl.erase url }
    if url ∈ s.triggered then s
    else match fileAt s.files url, s.token with
      | some file, some token => { s with triggered := s.triggered.insert url }.load file token
      | _, _ => s

def request (url : Url) : State Url :=
  match fileAt s.files url, s.token with
  | some file, some token => s.load file token
  | _, _ => s

/-- One file of the effect: an image waits until it is seen, or is loaded where nothing can observe. -/
def seed (observes : Bool) (token : String) (f : File Url) : State Url :=
  if !isLikelyImage f.name then s
  else match fileAt s.files (displayUrl f) with
    | none => s
    | some file =>
      if observes then
        { s with
          tracked := s.tracked.insert (displayUrl f)
          states := if (s.states.get (displayUrl f)).isSome then s.states
            else s.states.insert (displayUrl f) .idle }
      else if (s.controllers.get (displayUrl f)).isSome then s
      else s.load file token

/-- One url that has left the files. -/
def teardown (url : Url) : State Url :=
  let s := s.abort url
  { s with
    controllers := s.controllers.erase url
    blobs := s.blobs.drop url
    triggered := s.triggered.erase url
    tracked := s.tracked.erase url
    observed := match s.elByUrl.get url with
      | some el => s.observed.erase el
      | none => s.observed
    elByUrl := s.elByUrl.erase url
    states := s.states.erase url }

/-- The urls that are tracked and no longer in the files. -/
def release : State Url :=
  (s.tracked.filter fun url => (fileAt s.files url).isNone).foldl teardown s

/-- The effect on `files` and `token`. -/
def effect (observes : Bool) : State Url :=
  match s.token with
  | none => s
  | some token => (s.files.foldl (fun s f => s.seed observes token f) s).release

/-- The cleanup when the chat goes. -/
def unmount : State Url :=
  { s with
    mounted := false
    aborted := s.aborted ++ s.controllers.entries.map Prod.snd
    controllers := .empty
    blobs := s.blobs.dropAll
    observed := .empty
    elByUrl := .empty
    triggered := []
    tracked := [] }

end State

/-- An empty token counts as none. Nothing but the observer calls the hook once its chat is gone. -/
inductive Act (Url : Type) where
  | render (files : List (File Url)) (token : Option String)
  | effect
  | observe (url : Url) (el : Nat)
  | intersect (el : Nat)
  | request (url : Url)
  | unmount
  /-- IndexedDB looks an object up, or fails to. -/
  | lookup (n : Nat) (ok : Bool)
  /-- The load goes on after the lookup. -/
  | resume (n : Nat)
  | response (n : Nat) (r : Response)
  | decrypted (n : Nat)
  /-- `cacheAfterLoad` comes to its end. -/
  | store (place : Nat) (canvas : CanvasApi) (ok : Bool)
  | evict (place : Nat) (ok : Bool)
  /-- Other code deletes an object from the cache. -/
  | forget (url : Url)

section Steps

variable {CryptoKey : Type} (subtle : Subtle CryptoKey) (observes : Bool)

def step (s : State Url) : Act Url → Option (State Url)
  -- a render is followed by one pass of the effect, if the hook is mounted
  | .render files token =>
    if s.mounted ∧ s.changed = false then
      some { s with files, token, changed := true }
    else none
  | .effect =>
    if s.mounted ∧ s.changed then some { s.effect observes with changed := false } else none
  | .observe url el => if s.mounted then some (s.observe observes url el) else none
  | .intersect el => some (s.intersect el)
  | .request url => if s.mounted then some (s.request url) else none
  | .unmount => if s.mounted then some s.unmount else none
  -- a failed read of the cache counts as a miss
  | .lookup n ok => match s.loads.get n with
    | some ⟨file, token, .lookup⟩ =>
      some (s.advance n ⟨file, token, .lookup⟩
        (.found (if ok then s.mediaCache.get file.url else none)))
    | _ => none
  -- a hit ends the load, a miss goes on to the network, and neither after an abort
  | .resume n => match s.loads.get n with
    | some ⟨file, _, .found (some cached)⟩ =>
      some (s.conclude n fun s => s.present file.url cached.bytes)
    | some ⟨file, token, .found none⟩ =>
      some (if n ∈ s.aborted then s.finish n else s.advance n ⟨file, token, .found none⟩ .response)
    | _ => none
  -- what comes after an abort is not looked at
  | .response n r => match s.loads.get n with
    | some ⟨file, token, .response⟩ => some (match r with
      | .bytes ciphertext =>
        if n ∈ s.aborted then s.finish n
        else s.advance n ⟨file, token, .response⟩ (.decryption ciphertext)
      | .notFound => s.conclude n fun s => s.fail file.url .unavailable
      | .networkError => s.conclude n fun s => s.fail file.url .networkError)
    | _ => none
  -- what opens is shown, and cached in the background
  | .decrypted n => match s.loads.get n with
    | some ⟨file, _, .decryption ciphertext⟩ =>
      some (match decryptMedia subtle ciphertext file.key file.iv with
        | .ok plaintext => s.conclude n fun s =>
          { s.present file.url plaintext with caching := s.caching ++ [(file, plaintext)] }
        | .error .corrupt => s.conclude n fun s => s.fail file.url .corrupt
        | .error .badKey => s.conclude n fun s => s.fail file.url .networkError)
    | _ => none
  -- the background work, in any order
  | .store place canvas ok => (s.caching[place]?).map fun (file, plaintext) =>
    { s with
      caching := s.caching.eraseIdx place
      mediaCache := match cacheAfterLoad file plaintext canvas with
        | some entry => if ok then s.mediaCache.insert file.url entry else s.mediaCache
        | none => s.mediaCache }
  | .evict place ok => (s.evicting[place]?).map fun url =>
    { s with
      evicting := s.evicting.eraseIdx place
      mediaCache := if ok then s.mediaCache.erase url else s.mediaCache }
  | .forget url => some { s with mediaCache := s.mediaCache.erase url }

/-- One chat, from its first render on. -/
def machine : Machine (State Url) (Act Url) := ⟨step subtle observes⟩

end Steps

/-- A chat that is opened with what the store has. -/
def start (mediaCache : ObjectMap Url StoredMediaBlob) : State Url := { mediaCache }

end Hook

end Atmin.UseMedia
