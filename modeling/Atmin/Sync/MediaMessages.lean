import Atmin.Access.ProofOfWork
import Atmin.Web.ChatSend

/-!
# A media message opens to what was sent

The message refers to nothing but complete objects, and with its keys they decrypt to what was
prepared. In the default quality what was prepared is what a canvas has encoded again.
-/

namespace Atmin.Web

open Interaction

variable {CryptoKey : Type} {crypto : MediaCrypto CryptoKey} {canvas : CanvasApi} {userId : String}
  {store store' : MediaStore} {draws : Draws} {outcome : UploadOutcome} {bytes : List UInt8}

/-! ### Uploads -/

/-- The object of an upload is stored, and decrypts to the content. -/
def Upload.Opens (crypto : MediaCrypto CryptoKey) (store : MediaStore) (upload : Upload)
    (bytes : List UInt8) : Prop :=
  ∃ ciphertext, store.get upload.url = some ciphertext ∧
    UseMedia.decryptMedia crypto.toSubtle ciphertext upload.key upload.iv = .ok bytes

/-- A PUT that returns has stored the body. -/
theorem putObject_stores {key : String} {body : List UInt8} {outcomes : List PutOutcome}
    (put : putObject store key body outcomes = (true, store')) : store'.get key = some body := by
  induction outcomes generalizing store with
  | nil => cases put
  | cons outcome rest ih =>
    cases outcome with
    | done =>
      cases put
      rw [ObjectMap.get_insert, if_pos rfl]
    | refused => cases put
    | failed written => exact ih put

/-- No other object changes, whatever the PUT comes to. -/
theorem putObject_others {key other : String} (body : List UInt8) (outcomes : List PutOutcome)
    (apart : other ≠ key) : (putObject store key body outcomes).2.get other = store.get other := by
  induction outcomes generalizing store with
  | nil => rfl
  | cons outcome rest ih =>
    cases outcome with
    | done => rw [putObject, ObjectMap.get_insert, if_neg apart]
    | refused => rfl
    | failed written =>
      refine ih.trans ?_
      -- The failed attempt wrote the object itself or nothing.
      split
      next => rw [ObjectMap.get_insert, if_neg apart]
      next => rfl

/-- Whatever the PUT comes to, it stores nothing but its body. -/
theorem putObject_adds {key other : String} {body object : List UInt8} {outcomes : List PutOutcome}
    (held : (putObject store key body outcomes).2.get other = some object) :
    store.get other = some object ∨ other = key ∧ object = body := by
  induction outcomes generalizing store with
  | nil => exact .inl held
  | cons outcome rest ih =>
    have added {before : MediaStore} (held : (before.insert key body).get other = some object) :
        before.get other = some object ∨ other = key ∧ object = body := by
      rw [ObjectMap.get_insert] at held
      split at held
      next here => exact .inr ⟨here, (Option.some.inj held).symm⟩
      next => exact .inl held
    cases outcome with
    | done => exact added held
    | refused => exact .inl held
    | failed written =>
      rcases ih held with before | this
      · split at before
        next => exact added before
        next => exact .inl before
      · exact .inr this

theorem encryptAndUpload_others {other : String} (apart : other ≠ Paths.media userId draws.ulid) :
    (encryptAndUpload crypto userId draws outcome bytes store).2.get other = store.get other := by
  unfold encryptAndUpload
  split
  next => rfl
  next ciphertext _ =>
    simp only [uploadMedia]
    split
    next =>
      have same : (putObject store (Paths.media userId draws.ulid) ciphertext
          [outcome.first, outcome.second]).2.get other = store.get other :=
        putObject_others ciphertext [outcome.first, outcome.second] apart
      split
      next put => rw [put] at same; exact same
      next put => rw [put] at same; exact same
    next => rfl

/-- An object that an upload may leave: the content, encrypted under the key that was drawn. -/
def AddsMedia (crypto : MediaCrypto CryptoKey) (userId : String) (draws : Draws) (bytes : List UInt8)
    (key : String) (object : List UInt8) : Prop :=
  key = Paths.media userId draws.ulid ∧ encryptMedia crypto draws bytes = some object

theorem encryptAndUpload_adds {key : String} {object : List UInt8}
    (held : (encryptAndUpload crypto userId draws outcome bytes store).2.get key = some object) :
    store.get key = some object ∨ AddsMedia crypto userId draws bytes key object := by
  unfold encryptAndUpload at held
  split at held
  next => exact .inl held
  next ciphertext sealed =>
    simp only [uploadMedia] at held
    split at held
    next =>
      have put : (putObject store (Paths.media userId draws.ulid) ciphertext
          [outcome.first, outcome.second]).2.get key = some object := by
        split at held
        next put => rw [put]; exact held
        next put => rw [put]; exact held
      rcases putObject_adds put with before | ⟨here, rfl⟩
      · exact .inl before
      · exact .inr ⟨here, sealed⟩
    next => exact .inl held

/-- An upload that returns is complete. -/
theorem encryptAndUpload_opens {upload : Upload}
    (done : encryptAndUpload crypto userId draws outcome bytes store = (some upload, store')) :
    upload.Opens crypto store' bytes ∧ upload.url = Paths.media userId draws.ulid ∧
      upload.plaintextSize = bytes.length := by
  unfold encryptAndUpload at done
  split at done
  next => cases done
  next ciphertext sealed =>
    simp only [uploadMedia] at done
    split at done
    next =>
      split at done
      next store'' put =>
        cases done
        refine ⟨⟨ciphertext, putObject_stores put, ?_⟩, rfl, rfl⟩
        unfold encryptMedia at sealed
        split at sealed
        next => cases sealed
        next =>
          obtain ⟨key, imported, rfl⟩ := Option.map_eq_some_iff.mp sealed
          simp only [UseMedia.decryptMedia, imported, crypto.decrypt_encrypt]
      next => cases done
    next => cases done

theorem Upload.Opens.keep {upload : Upload} (opens : upload.Opens crypto store bytes)
    (same : store'.get upload.url = store.get upload.url) : upload.Opens crypto store' bytes := by
  obtain ⟨ciphertext, stored, opened⟩ := opens
  exact ⟨ciphertext, same.trans stored, opened⟩

/-! ### The message -/

/-- What a reference of a received message opens to. -/
def RefOpens (crypto : MediaCrypto CryptoKey) (store : MediaStore) (url : Js) (key iv : List UInt8)
    (bytes : List UInt8) : Prop :=
  ∃ name ciphertext, url = .str name ∧ store.get name = some ciphertext ∧
    UseMedia.decryptMedia crypto.toSubtle ciphertext key iv = .ok bytes

theorem js_ofString (s : String) : Js.ofUnits (Utf16.ofString s) = .str s := by
  rw [Js.ofUnits, JsonText.ofUnits_ofString, Js.ofJson]

theorem decode_encoded (bytes : List UInt8) :
    base64UrlDecode atob (.str (base64UrlEncode bytes)) = some bytes :=
  base64UrlDecode_encode bytes

/-- What a receiver reads of a preview. -/
def decodedPreview (upload : Upload) (r : Reencoded) : DecodedPreviewRef where
  url := .str upload.url
  key := upload.key
  iv := upload.iv
  width := Js.ofFinite (ofSize r.width)
  height := Js.ofFinite (ofSize r.height)

theorem decodePreview_payload (upload : Upload) (r : Reencoded) :
    decodePreview atob (previewPayload upload r).parsed = some (decodedPreview upload r) := by
  simp only [decodePreview, previewPayload, PreviewPayload.parsed, js_ofString, decode_encoded,
    Option.bind_eq_bind, Option.bind_some, decodedPreview, Option.pure_def]

/-- What a receiver reads of a file. -/
def decodedFile (name : Text) (upload : Upload) (extras : Extras)
    (preview : Option DecodedPreviewRef) : MediaFile where
  url := .str upload.url
  key := upload.key
  iv := upload.iv
  name := Js.ofUnits name
  size := Js.ofFinite (ofSize upload.plaintextSize)
  mime := extras.mime.map .str
  width := extras.width.map fun n => Js.ofFinite (ofSize n)
  height := extras.height.map fun n => Js.ofFinite (ofSize n)
  optimized := extras.optimized.map .bool
  preview

theorem decodeMedia_payload (name : Text) (upload : Upload) (extras : Extras) :
    decodeMedia atob (filePayload name upload extras none).parsed =
      some (decodedFile name upload extras none) := by
  simp only [decodeMedia, filePayload, FilePayload.parsed, js_ofString, decode_encoded,
    Option.bind_eq_bind, Option.bind_some, Option.map_none, Option.map_map, Function.comp_def,
    decodedFile, Option.pure_def]

theorem decodeMedia_preview (name : Text) (upload prev : Upload) (extras : Extras) (r : Reencoded) :
    decodeMedia atob (filePayload name upload extras (some (previewPayload prev r))).parsed =
      some (decodedFile name upload extras (some (decodedPreview prev r))) := by
  simp only [decodeMedia, filePayload, FilePayload.parsed, js_ofString, decode_encoded,
    Option.bind_eq_bind, Option.bind_some, Option.map_some, Option.map_map, Function.comp_def,
    decodedFile, Option.pure_def, decodePreview_payload]

/-! ### The call -/

section Call

variable {ready : Bool} {quality : PhotoQuality} {file : PickedFile} {caption : Option Text}
  {drawsFull drawsPreview : Draws} {outcomes : SendOutcomes} {prepared : PreparedMedia}

theorem media_inj {a b : String} (same : Paths.media userId a = Paths.media userId b) : a = b := by
  simpa [Paths.media, String.ext_iff] using same

/-- Both uploads are complete, and the second leaves the first as it is. -/
theorem uploadBoth_opens {full : Upload} {preview : Option PreviewPayload}
    (distinct : drawsFull.ulid ≠ drawsPreview.ulid)
    (done : uploadBoth crypto userId drawsFull drawsPreview outcomes prepared store =
      (some (full, preview), store')) :
    full.Opens crypto store' prepared.bytes ∧ full.plaintextSize = prepared.bytes.length ∧
      (prepared.preview = none ∧ preview = none ∨ ∃ r prev, prepared.preview = some r ∧
        preview = some (previewPayload prev r) ∧ prev.Opens crypto store' r.bytes) := by
  unfold uploadBoth at done
  cases first : encryptAndUpload crypto userId drawsFull outcomes.full prepared.bytes store with
  | mk uploaded between =>
    rw [first] at done
    simp only at done
    split at done
    next none_ =>
      obtain ⟨its, rfl⟩ := Prod.mk.inj done
      obtain ⟨upload, rfl, same⟩ := Option.map_eq_some_iff.mp its
      obtain ⟨rfl, rfl⟩ := Prod.mk.inj same
      obtain ⟨opens, _, size⟩ := encryptAndUpload_opens first
      exact ⟨opens, size, .inl ⟨none_, rfl⟩⟩
    next r some_ =>
      cases second : encryptAndUpload crypto userId drawsPreview outcomes.preview r.bytes between with
      | mk previewed last =>
        rw [second] at done
        simp only at done
        split at done
        next upload prev =>
          cases done
          obtain ⟨opens, url, size⟩ := encryptAndUpload_opens first
          obtain ⟨shows, _, _⟩ := encryptAndUpload_opens second
          refine ⟨opens.keep ?_, size, .inr ⟨r, prev, some_, rfl, shows⟩⟩
          have apart : full.url ≠ Paths.media userId drawsPreview.ulid :=
            fun same => distinct (media_inj (url.symm.trans same))
          have kept : (encryptAndUpload crypto userId drawsPreview outcomes.preview r.bytes
              between).2.get full.url = between.get full.url := encryptAndUpload_others apart
          rw [second] at kept
          exact kept
        next => cases done

/-- A message is made after both uploads. -/
theorem sendMedia_payload {result : MediaSend} {payload : InnerPayload}
    (call : sendMedia crypto canvas userId ready quality file caption drawsFull drawsPreview outcomes
      store = result) (sent : result.payload = some payload) :
    ∃ prepared full preview, prepareMediaForSend canvas quality file = some prepared ∧
      uploadBoth crypto userId drawsFull drawsPreview outcomes prepared store =
        (some (full, preview), result.store) ∧
      payload = .media (captionOr caption file.name)
        (filePayload file.name full prepared.extras preview) := by
  unfold sendMedia at call
  split at call
  next => subst call; cases sent
  next =>
    split at call
    next => subst call; cases sent
    next =>
      split at call
      next => subst call; cases sent
      next prepared made =>
        split at call
        next => subst call; cases sent
        next full preview store' done =>
          subst call
          cases sent
          exact ⟨prepared, full, preview, made, done, rfl⟩

/-- What is stored after a call was stored before or comes from its uploads. -/
theorem sendMedia_store {result : MediaSend} {key : String} {object : List UInt8}
    (call : sendMedia crypto canvas userId ready quality file caption drawsFull drawsPreview outcomes
      store = result) (held : result.store.get key = some object) :
    store.get key = some object ∨
      ∃ prepared, prepareMediaForSend canvas quality file = some prepared ∧
        (uploadBoth crypto userId drawsFull drawsPreview outcomes prepared store).2.get key =
          some object := by
  unfold sendMedia at call
  split at call
  next => subst call; exact .inl held
  next =>
    split at call
    next => subst call; exact .inl held
    next =>
      split at call
      next => subst call; exact .inl held
      next prepared made =>
        refine .inr ⟨prepared, made, ?_⟩
        split at call
        next done => subst call; rw [done]; exact held
        next done => subst call; rw [done]; exact held

/-- If a message is sent at all, its receiver reads references to complete objects, which open to the
bytes that were prepared and to their preview. -/
theorem sent_media_opens (distinct : drawsFull.ulid ≠ drawsPreview.ulid) {result : MediaSend}
    {payload : InnerPayload} {j : Json}
    (call : sendMedia crypto canvas userId ready quality file caption drawsFull drawsPreview outcomes
      store = result) (sent : result.payload = some payload) (written : payload.Written j) :
    ∃ prepared body parsed media, prepareMediaForSend canvas quality file = some prepared ∧
      parseInner JsonText.parse (JsonText.stringify j) = .media body parsed ∧
      decodeMedia atob parsed = some media ∧ media.name = Js.ofUnits file.name ∧
      media.size = Js.ofFinite (ofSize prepared.bytes.length) ∧
      RefOpens crypto result.store media.url media.key media.iv prepared.bytes ∧
      Option.Rel (fun ref r => RefOpens crypto result.store ref.url ref.key ref.iv r.bytes)
        media.preview prepared.preview := by
  obtain ⟨prepared, full, preview, made, done, rfl⟩ := sendMedia_payload call sent
  have read := parseInner_written written
  obtain ⟨⟨ciphertext, stored, opened⟩, size, previews⟩ := uploadBoth_opens distinct done
  have size' : Js.ofFinite (ofSize full.plaintextSize) = Js.ofFinite (ofSize prepared.bytes.length) :=
    by rw [size]
  have opens : RefOpens crypto result.store (.str full.url) full.key full.iv prepared.bytes :=
    ⟨full.url, ciphertext, rfl, stored, opened⟩
  rcases previews with ⟨none_, rfl⟩ | ⟨r, prev, some_, rfl, shown, kept, shows⟩
  · refine ⟨prepared, _, _, _, made, read, decodeMedia_payload .., rfl, size', opens, ?_⟩
    rw [none_]
    exact .none
  · refine ⟨prepared, _, _, _, made, read, decodeMedia_preview .., rfl, size', opens, ?_⟩
    rw [some_]
    exact .some ⟨prev.url, shown, rfl, kept, shows⟩

/-! ### What leaves the device -/

theorem optimizable_image {type : String} (optimizable : isOptimizableImage type = true) :
    startsWith type "image/" = true := by
  simp only [isOptimizableImage, List.contains_eq_mem, decide_eq_true_eq, List.mem_cons,
    List.not_mem_nil, or_false] at optimizable
  rcases optimizable with rfl | rfl | rfl <;> decide +kernel

/-- The uploads leave the prepared content and its preview, and nothing else. -/
theorem uploadBoth_adds {key : String} {object : List UInt8}
    (held : (uploadBoth crypto userId drawsFull drawsPreview outcomes prepared store).2.get key =
      some object) :
    store.get key = some object ∨ AddsMedia crypto userId drawsFull prepared.bytes key object ∨
      ∃ r, prepared.preview = some r ∧ AddsMedia crypto userId drawsPreview r.bytes key object := by
  unfold uploadBoth at held
  cases first : encryptAndUpload crypto userId drawsFull outcomes.full prepared.bytes store with
  | mk uploaded between =>
    have full {object : List UInt8} (here : between.get key = some object) :
        store.get key = some object ∨ AddsMedia crypto userId drawsFull prepared.bytes key object := by
      have uploaded : (encryptAndUpload crypto userId drawsFull outcomes.full prepared.bytes
          store).2.get key = some object := by
        rw [first]
        exact here
      exact encryptAndUpload_adds uploaded
    rw [first] at held
    simp only at held
    split at held
    next => exact (full held).imp_right .inl
    next r some_ =>
      have both : (encryptAndUpload crypto userId drawsPreview outcomes.preview r.bytes
          between).2.get key = some object := by
        split at held
        next second => exact held
        next => exact held
      rcases encryptAndUpload_adds both with here | preview
      · exact (full here).imp_right .inl
      · exact .inr (.inr ⟨r, some_, preview⟩)

/-- The default quality. -/
theorem prepareMediaForSend_optimized (optimizable : isOptimizableImage file.type = true) :
    prepareMediaForSend canvas .optimized file =
      (reencodeImage canvas file.bytes OPTIMIZED_MAX_EDGE OPTIMIZED_QUALITY).map fun r =>
        ⟨asReencoded r, if needsPreview r.bytes.length r.width r.height
          then makePreview canvas r.bytes else none⟩ := by
  have whole : fullOf canvas .optimized file =
      (reencodeImage canvas file.bytes OPTIMIZED_MAX_EDGE OPTIMIZED_QUALITY).map asReencoded :=
    if_neg (by simp [optimizable])
  rw [prepareMediaForSend, if_pos (optimizable_image optimizable), whole, Option.map_map]
  congr
  funext r
  simp only [Function.comp_apply, maybePreview, asReencoded, optimizable, Bool.true_and]
  rfl

/-- In the default quality an image that can be encoded again leaves the device only as what the canvas
has made of it: nothing else is stored, nothing at all where the canvas fails, and a file of which the
canvas makes the same is stored and sent as the same. -/
theorem optimized_image_leaves_reencoded (optimizable : isOptimizableImage file.type = true)
    {result : MediaSend}
    (call : sendMedia crypto canvas userId ready .optimized file caption drawsFull drawsPreview
      outcomes store = result) :
    (∀ key object, result.store.get key = some object → store.get key = some object ∨
      ∃ full, reencodeImage canvas file.bytes OPTIMIZED_MAX_EDGE OPTIMIZED_QUALITY = some full ∧
        (AddsMedia crypto userId drawsFull full.bytes key object ∨
          ∃ preview, Rendition canvas full.bytes PREVIEW_QUALITY_STEPS preview ∧
            AddsMedia crypto userId drawsPreview preview.bytes key object)) ∧
      (reencodeImage canvas file.bytes OPTIMIZED_MAX_EDGE OPTIMIZED_QUALITY = none →
        result.store = store ∧ result.payload = none) ∧
      ∀ twin : PickedFile, isOptimizableImage twin.type = true → twin.name = file.name →
        (twin.bytes.length ≤ MAX_MEDIA_BYTES ↔ file.bytes.length ≤ MAX_MEDIA_BYTES) →
        reencodeImage canvas twin.bytes OPTIMIZED_MAX_EDGE OPTIMIZED_QUALITY =
          reencodeImage canvas file.bytes OPTIMIZED_MAX_EDGE OPTIMIZED_QUALITY →
        sendMedia crypto canvas userId ready .optimized twin caption drawsFull drawsPreview outcomes
          store = result := by
  have made : prepareMediaForSend canvas .optimized file = _ :=
    prepareMediaForSend_optimized optimizable
  subst call
  refine ⟨fun key object held => ?_, fun failed => ?_, fun twin image name sized same => ?_⟩
  · -- an object that is new was uploaded, and what is uploaded was prepared
    rcases sendMedia_store rfl held with before | ⟨prepared, its, uploaded⟩
    · exact .inl before
    rw [made] at its
    obtain ⟨full, encoded, rfl⟩ := Option.map_eq_some_iff.mp its
    rcases uploadBoth_adds uploaded with before | whole | ⟨r, shown, preview⟩
    · exact .inl before
    · exact .inr ⟨full, encoded, .inl whole⟩
    · simp only at shown
      split at shown
      next => exact .inr ⟨full, encoded, .inr ⟨r, makePreview_rendition shown, preview⟩⟩
      next => cases shown
  · -- nothing was prepared
    simp only [sendMedia, made, failed, Option.map_none]
    split
    next => exact ⟨rfl, rfl⟩
    next =>
      split
      next => exact ⟨rfl, rfl⟩
      next => exact ⟨rfl, rfl⟩
  · -- the twin is prepared alike, and nothing else of the file is looked at
    have made' : prepareMediaForSend canvas .optimized twin = _ := prepareMediaForSend_optimized image
    have long : (twin.bytes.length > MAX_MEDIA_BYTES) = (file.bytes.length > MAX_MEDIA_BYTES) :=
      propext (by omega)
    simp only [sendMedia, made, made', same, name, long]

end Call

/-! ### A photo -/

/-- A cipher that puts the key before the text. -/
def photoCrypto : MediaCrypto UInt8 where
  atob := atob
  importKey
    | [k] => some k
    | _ => none
  encrypt k _ plain := k :: plain
  decrypt k _
    | first :: text => if first = k then some text else none
    | [] => none
  decrypt_encrypt _ _ _ := if_pos rfl

/-- Every image is wide, and comes out small. -/
def photoCanvas : CanvasApi where
  decode _ := some (3000, 2000)
  scaled edge longest maxEdge := edge * maxEdge / longest
  toJpeg _ width _ quality := some [.ofNat width, .ofNat quality]

def holiday : PickedFile := ⟨[1, 2, 3], "image/png", Utf16.ofString "a.png"⟩

def photoDraws : Draws := ⟨[7], [], "a"⟩

def previewDraws : Draws := ⟨[8], [], "b"⟩

/-- The first PUT of the photo fails and its second one does not. -/
def photoOutcomes : SendOutcomes :=
  ⟨true, ⟨true, .failed true, .done⟩, ⟨true, .done, .done⟩, true, true⟩

def sendPhoto (file : PickedFile) : MediaSend :=
  sendMedia photoCrypto photoCanvas "user" true .optimized file none photoDraws previewDraws
    photoOutcomes .empty

theorem sendPhoto_call (file : PickedFile) : sendMedia photoCrypto photoCanvas "user" true .optimized
    file none photoDraws previewDraws photoOutcomes .empty = sendPhoto file := rfl

def holidaySend : MediaSend := sendPhoto holiday

theorem sent_photo_opens : ∃ payload, holidaySend.payload = some payload ∧
    ∃ prepared body parsed media,
      prepareMediaForSend photoCanvas .optimized holiday = some prepared ∧
      parseInner JsonText.parse (JsonText.stringify payload.toJson) = .media body parsed ∧
      decodeMedia atob parsed = some media ∧ media.name = Js.ofUnits holiday.name ∧
      media.size = Js.ofFinite (ofSize prepared.bytes.length) ∧
      RefOpens photoCrypto holidaySend.store media.url media.key media.iv prepared.bytes ∧
      Option.Rel (fun ref r => RefOpens photoCrypto holidaySend.store ref.url ref.key ref.iv r.bytes)
        media.preview prepared.preview := by
  obtain ⟨payload, sent⟩ : ∃ payload, holidaySend.payload = some payload :=
    Option.isSome_iff_exists.mp (by decide +kernel)
  have distinct : photoDraws.ulid ≠ previewDraws.ulid := by decide
  exact ⟨payload, sent, sent_media_opens distinct (sendPhoto_call holiday) sent (written_toJson payload)⟩

/-- The same picture as it came from another camera. -/
def tagged : PickedFile := ⟨[71, 80, 83, 1, 2, 3], "image/jpeg", Utf16.ofString "a.png"⟩

theorem sent_photo_leaves_reencoded :
    holidaySend.store.get "media/user/b" = some [8, 0, 70] ∧
      (∀ key object, holidaySend.store.get key = some object →
        (ObjectMap.empty : MediaStore).get key = some object ∨
        ∃ full, reencodeImage photoCanvas holiday.bytes OPTIMIZED_MAX_EDGE OPTIMIZED_QUALITY =
            some full ∧
          (AddsMedia photoCrypto "user" photoDraws full.bytes key object ∨
            ∃ preview, Rendition photoCanvas full.bytes PREVIEW_QUALITY_STEPS preview ∧
              AddsMedia photoCrypto "user" previewDraws preview.bytes key object)) ∧
      sendPhoto tagged = holidaySend := by
  have optimizable : isOptimizableImage holiday.type = true := by decide
  obtain ⟨leaves, _, same⟩ := optimized_image_leaves_reencoded optimizable (sendPhoto_call holiday)
  exact ⟨by decide +kernel, leaves, same tagged (by decide) rfl (by decide) rfl⟩

end Atmin.Web
