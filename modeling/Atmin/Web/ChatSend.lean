import Atmin.Interaction.ObjectMap
import Atmin.Web.Image
import Atmin.Web.InnerPayload
import Atmin.Web.RotateKeys
import Atmin.Web.UseMedia

/-!
# Sending media (`useChatSend.ts`, `media.ts`, `api.ts`)

One call of `sendMedia`: a file is prepared, encrypted and uploaded, with a preview beside it where
one is worth its while, and then a message with the keys is sent. Whether a request gets through is
decided by the surroundings.
-/

namespace Atmin.Web

open Interaction

/-! ### Preparing a file -/

structure PickedFile where
  bytes : List UInt8
  /-- The MIME type. -/
  type : String
  name : Text

inductive PhotoQuality where
  | optimized
  | original
  deriving DecidableEq, Repr

/-- `MediaFileExtras`. -/
structure Extras where
  mime : Option String := none
  width : Option Nat := none
  height : Option Nat := none
  optimized : Option Bool := none
  deriving DecidableEq, Repr

/-- The bytes to encrypt, with what the message says of them. -/
structure Full where
  bytes : List UInt8
  extras : Extras
  deriving DecidableEq, Repr

structure PreparedMedia extends Full where
  preview : Option Reencoded := none
  deriving DecidableEq, Repr

section Prepare

variable (canvas : CanvasApi)

/-- `original`: the bytes as they are. -/
def asOriginal (file : PickedFile) : Full where
  bytes := file.bytes
  extras :=
    let dimensions := imageSize canvas file.bytes
    { mime := some file.type, optimized := some false, width := dimensions.map Prod.fst
      height := dimensions.map Prod.snd }

def asReencoded (r : Reencoded) : Full where
  bytes := r.bytes
  extras :=
    { mime := some "image/jpeg", optimized := some true, width := some r.width
      height := some r.height }

/-- The bytes of an image, unless it cannot be encoded again. -/
def fullOf (quality : PhotoQuality) (file : PickedFile) : Option Full :=
  if !isOptimizableImage file.type || decide (quality = .original) then some (asOriginal canvas file)
  else (reencodeImage canvas file.bytes OPTIMIZED_MAX_EDGE OPTIMIZED_QUALITY).map asReencoded

/-- A preview that cannot be made is left out. -/
def maybePreview (type : String) (full : Full) : Option Reencoded :=
  match full.extras.width, full.extras.height with
  | some width, some height =>
    if isOptimizableImage type && needsPreview full.bytes.length width height then
      makePreview canvas full.bytes
    else none
  | _, _ => none

/-- An `ImageOptimizeError` is none. -/
def prepareMediaForSend (quality : PhotoQuality) (file : PickedFile) : Option PreparedMedia :=
  if startsWith file.type "image/" then
    (fullOf canvas quality file).map fun full =>
      { toFull := full, preview := maybePreview canvas file.type full }
  else some { bytes := file.bytes, extras := {} }

end Prepare

/-! ### Encrypting and uploading -/

def MAX_MEDIA_BYTES : Nat := 25 * 1024 * 1024

/-- AES-256-GCM. -/
structure MediaCrypto (CryptoKey : Type) extends Subtle CryptoKey where
  encrypt : CryptoKey → List UInt8 → List UInt8 → List UInt8
  decrypt_encrypt : ∀ key iv plain, decrypt key iv (encrypt key iv plain) = some plain

/-- What one upload draws at random. -/
structure Draws where
  key : List UInt8
  iv : List UInt8
  ulid : String
  deriving DecidableEq, Repr

/-- What comes of the requests of one upload. -/
structure UploadOutcome where
  presigned : Bool
  first : PutOutcome
  second : PutOutcome
  deriving DecidableEq, Repr

structure Upload where
  url : String
  key : List UInt8
  iv : List UInt8
  plaintextSize : Nat
  deriving DecidableEq, Repr

/-- The media objects of the server. -/
abbrev MediaStore := ObjectMap String (List UInt8)

def Paths.media (uid ulid : String) : String := "media/" ++ uid ++ "/" ++ ulid

/-- `putWithRetry`: whether it returns, and what is stored then. -/
def putObject (store : MediaStore) (key : String) (body : List UInt8) :
    List PutOutcome → Bool × MediaStore
  | [] => (false, store)
  | .done :: _ => (true, store.insert key body)
  | .refused :: _ => (false, store)
  | .failed written :: rest => putObject (if written then store.insert key body else store) key body rest

section Upload

variable {CryptoKey : Type} (crypto : MediaCrypto CryptoKey)

/-- `encryptMedia`, with the key and the iv that are drawn; a throw is none. -/
def encryptMedia (draws : Draws) (bytes : List UInt8) : Option (List UInt8) :=
  if bytes.length > MAX_MEDIA_BYTES then none
  else (crypto.importKey draws.key).map fun key => crypto.encrypt key draws.iv bytes

def uploadMedia (userId : String) (draws : Draws) (outcome : UploadOutcome) (ciphertext : List UInt8)
    (store : MediaStore) : Option String × MediaStore :=
  let key := Paths.media userId draws.ulid
  if outcome.presigned then
    match putObject store key ciphertext [outcome.first, outcome.second] with
    | (true, store) => (some key, store)
    | (false, store) => (none, store)
  else (none, store)

def encryptAndUpload (userId : String) (draws : Draws) (outcome : UploadOutcome) (bytes : List UInt8)
    (store : MediaStore) : Option Upload × MediaStore :=
  match encryptMedia crypto draws bytes with
  | none => (none, store)
  | some ciphertext =>
    let (url, store) := uploadMedia userId draws outcome ciphertext store
    (url.map fun url => ⟨url, draws.key, draws.iv, bytes.length⟩, store)

end Upload

/-! ### The message -/

/-- `trim`. Every blank is one unit. -/
def trimText (us : Text) : Text :=
  let blank (u : UInt16) := isSpace (Char.ofNat u.toNat)
  ((us.dropWhile blank).reverse.dropWhile blank).reverse

/-- A size, which is far below any that is written with an exponent. -/
def ofSize (n : Nat) : FiniteNumber := ⟨.int (min n (10 ^ 21 - 1) : Nat), by
  have small : (min n (10 ^ 21 - 1) : Nat) < 10 ^ 21 := by omega
  simp only [Number.canon, Int.natAbs_natCast, if_pos small]⟩

def previewPayload (upload : Upload) (r : Reencoded) : PreviewPayload where
  url := Utf16.ofString upload.url
  key := Utf16.ofString (base64UrlEncode upload.key)
  iv := Utf16.ofString (base64UrlEncode upload.iv)
  width := ofSize r.width
  height := ofSize r.height

def filePayload (name : Text) (upload : Upload) (extras : Extras) (preview : Option PreviewPayload) :
    FilePayload where
  url := Utf16.ofString upload.url
  key := Utf16.ofString (base64UrlEncode upload.key)
  iv := Utf16.ofString (base64UrlEncode upload.iv)
  name
  size := ofSize upload.plaintextSize
  mime := extras.mime.map Utf16.ofString
  width := extras.width.map ofSize
  height := extras.height.map ofSize
  optimized := extras.optimized
  preview

/-- `caption?.trim() || file.name`. -/
def captionOr (caption : Option Text) (name : Text) : Text :=
  ((caption.map trimText).filter fun text => !text.isEmpty).getD name

/-! ### `sendMedia` -/

/-- What the surroundings decide about one call. -/
structure SendOutcomes where
  /-- `resolveRecipient` finds someone. -/
  recipient : Bool
  full : UploadOutcome
  preview : UploadOutcome
  /-- `sendInnerPayload` and `syncAndPublish` return. -/
  sent : Bool
  synced : Bool

/-- What a call has done. -/
structure MediaSend where
  store : MediaStore
  /-- The message that was given to `sendInnerPayload`. -/
  payload : Option InnerPayload := none
  alert : Option String := none

def optimizeAlert : String := "Couldn't process this image. To send it unchanged — which keeps its " ++
  "metadata (e.g. location) — switch to Original quality in Settings."

def sendAlert : String := "Failed to send attachment. Please try again."

section Send

variable {CryptoKey : Type} (crypto : MediaCrypto CryptoKey) (canvas : CanvasApi) (userId : String)

/-- The two uploads, of which neither stops the other. -/
def uploadBoth (drawsFull drawsPreview : Draws) (outcomes : SendOutcomes) (prepared : PreparedMedia)
    (store : MediaStore) : Option (Upload × Option PreviewPayload) × MediaStore :=
  let (full, store) :=
    encryptAndUpload crypto userId drawsFull outcomes.full prepared.bytes store
  match prepared.preview with
  | none => (full.map fun full => (full, none), store)
  | some r =>
    let (prev, store) := encryptAndUpload crypto userId drawsPreview outcomes.preview r.bytes store
    match full, prev with
    | some full, some prev => (some (full, some (previewPayload prev r)), store)
    | _, _ => (none, store)

/-- `ready` is that nothing is being sent, that there is a session manager, and that the browser is
online. -/
def sendMedia (ready : Bool) (quality : PhotoQuality) (file : PickedFile) (caption : Option Text)
    (drawsFull drawsPreview : Draws) (outcomes : SendOutcomes) (store : MediaStore) : MediaSend :=
  if !ready then { store }
  else if file.bytes.length > MAX_MEDIA_BYTES || !outcomes.recipient then
    { store, alert := some sendAlert }
  else match prepareMediaForSend canvas quality file with
    -- a picture that cannot be re-encoded is not sent
    | none => { store, alert := some optimizeAlert }
    | some prepared =>
      match uploadBoth crypto userId drawsFull drawsPreview outcomes prepared store with
      | (none, store) => { store, alert := some sendAlert }
      | (some (full, preview), store) =>
        { store
          payload := some (.media (captionOr caption file.name)
            (filePayload file.name full prepared.extras preview))
          alert := if outcomes.sent && outcomes.synced then none else some sendAlert }

end Send

end Atmin.Web
