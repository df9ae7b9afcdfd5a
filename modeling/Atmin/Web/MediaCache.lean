import Atmin.Web.MediaUrls

/-!
# What a chat shows and what it keeps of its media

What is shown for a url decrypts under the key of a file with this url, or was cached for it. What is
cached is a preview, whatever its size, or of a file without one a small image or a thumbnail.
-/

namespace Atmin.UseMedia

open Interaction Web

variable {Url : Type} [DecidableEq Url] {CryptoKey : Type} {subtle : Subtle CryptoKey}
  {observes : Bool} {known : Loadable Url → Prop} {s t : State Url} {acts : List (Act Url)}

/-! ### Genuine contents -/

/-- Some ciphertext decrypts to it under the key of the file. -/
def Genuine (subtle : Subtle CryptoKey) (file : Loadable Url) (plaintext : List UInt8) : Prop :=
  ∃ ciphertext, decryptMedia subtle ciphertext file.key file.iv = .ok plaintext

/-- `cacheAfterLoad` has written it for a file with the url. -/
def Cached (subtle : Subtle CryptoKey) (known : Loadable Url → Prop) (url : Url)
    (entry : StoredMediaBlob) : Prop :=
  ∃ file plaintext canvas, known file ∧ file.url = url ∧ Genuine subtle file plaintext ∧
    cacheAfterLoad file plaintext canvas = some entry

/-- The content of a file with the url, or what was cached of it. -/
def Showable (subtle : Subtle CryptoKey) (known : Loadable Url → Prop) (url : Url)
    (bytes : List UInt8) : Prop :=
  (∃ file, known file ∧ file.url = url ∧ Genuine subtle file bytes) ∨
    ∃ entry, Cached subtle known url entry ∧ entry.bytes = bytes

structure Content (subtle : Subtle CryptoKey) (known : Loadable Url → Prop) (s : State Url) :
    Prop where
  files : ∀ f ∈ loadables s.files, known f
  loads : ∀ n l, s.loads.get n = some l → known l.file ∧
    ∀ entry, l.stage = .found (some entry) → Cached subtle known l.file.url entry
  caching : ∀ job ∈ s.caching, known job.1 ∧ Genuine subtle job.1 job.2
  cache : ∀ url entry, s.mediaCache.get url = some entry → Cached subtle known url entry
  blobs : ∀ url n bytes, s.blobs.held.get url = some n → s.blobs.created[n]? = some bytes →
    Showable subtle known url bytes

theorem fileAt_some {files : List (File Url)} {url : Url} {file : Loadable Url}
    (found : fileAt files url = some file) : file ∈ loadables files ∧ file.url = url := by
  unfold fileAt at found
  constructor
  · exact List.mem_reverse.mp (List.mem_of_find?_eq_some found)
  · have here := List.find?_some found
    exact of_decide_eq_true here

namespace Content

/-- Only what the invariant is about matters. -/
theorem same (content : Content subtle known s) (files : t.files = s.files)
    (loads : t.loads = s.loads) (caching : t.caching = s.caching)
    (cache : t.mediaCache = s.mediaCache) (blobs : t.blobs = s.blobs) :
    Content subtle known t := by
  constructor
  · rw [files]; exact content.files
  · rw [loads]; exact content.loads
  · rw [caching]; exact content.caching
  · rw [cache]; exact content.cache
  · rw [blobs]; exact content.blobs

theorem fail {url : Url} {state : MediaState} (content : Content subtle known s) :
    Content subtle known (s.fail url state) := by
  unfold State.fail
  split
  next => exact content.same rfl rfl rfl rfl rfl
  next => exact content.same rfl rfl rfl rfl rfl

theorem finish {n : Nat} (content : Content subtle known s) : Content subtle known (s.finish n) where
  files := content.files
  loads m l found := by
    rw [State.finish, ObjectMap.get_erase] at found
    split at found
    next => cases found
    next => exact content.loads m l found
  caching := content.caching
  cache := content.cache
  blobs := content.blobs

theorem advance {n : Nat} {l : Load Url} {stage : Stage} (content : Content subtle known s)
    (found : s.loads.get n = some l)
    (its : ∀ entry, stage = .found (some entry) → Cached subtle known l.file.url entry) :
    Content subtle known (s.advance n l stage) where
  files := content.files
  loads m l' here := by
    rw [State.advance, ObjectMap.get_insert] at here
    split at here
    next => cases here; exact ⟨(content.loads n l found).1, its⟩
    next => exact content.loads m l' here
  caching := content.caching
  cache := content.cache
  blobs := content.blobs

theorem conclude {n : Nat} {result : State Url → State Url} (content : Content subtle known s)
    (keeps : ∀ u, Content subtle known u → Content subtle known (result u)) :
    Content subtle known (s.conclude n result) := by
  unfold State.conclude
  split
  next => exact content.finish
  next => exact keeps _ content.finish

theorem present {url : Url} {plaintext : List UInt8} (content : Content subtle known s)
    (its : Showable subtle known url plaintext) : Content subtle known (s.present url plaintext) where
  files := content.files
  loads := content.loads
  caching := content.caching
  cache := content.cache
  blobs url' n bytes held made := by
    rw [State.present, Slots.get_put] at held
    rw [State.present, Slots.put] at made
    split at held
    next here =>
      cases held
      simp only [List.getElem?_concat_length, Option.some.injEq] at made
      subst here made
      exact its
    next =>
      rw [List.getElem?_append_left (s.blobs.accounted.live url' n held).1] at made
      exact content.blobs url' n bytes held made

theorem load {file : Loadable Url} {token : String} (content : Content subtle known s)
    (its : known file) : Content subtle known (s.load file token) where
  files := content.files
  loads n l found := by
    rw [State.load, ObjectMap.get_insert] at found
    split at found
    next => cases found; exact ⟨its, fun _ wrong => by cases wrong⟩
    next => exact content.loads n l found
  caching := content.caching
  cache := content.cache
  blobs := content.blobs

theorem teardown {url : Url} (content : Content subtle known s) :
    Content subtle known (s.teardown url) where
  files := content.files
  loads := content.loads
  caching := content.caching
  cache := content.cache
  blobs url' n bytes held made := by
    rw [State.teardown, Slots.get_drop] at held
    split at held
    next => cases held
    next => exact content.blobs url' n bytes held made

theorem seed {token : String} {f : File Url} (content : Content subtle known s) :
    Content subtle known (s.seed observes token f) := by
  unfold State.seed
  split
  next => exact content
  next =>
    split
    next => exact content
    next file found =>
      split
      next => exact content.same rfl rfl rfl rfl rfl
      next =>
        split
        next => exact content
        next => exact content.load (content.files file (fileAt_some found).1)

theorem seeds {token : String} (files : List (File Url)) (content : Content subtle known s) :
    Content subtle known (files.foldl (fun s f => s.seed observes token f) s) := by
  induction files generalizing s with
  | nil => exact content
  | cons f rest ih =>
    rw [List.foldl_cons]
    exact ih content.seed

theorem release (content : Content subtle known s) : Content subtle known s.release := by
  unfold State.release
  induction s.tracked.filter _ generalizing s with
  | nil => exact content
  | cons url rest ih =>
    rw [List.foldl_cons]
    exact ih content.teardown

theorem effect (content : Content subtle known s) : Content subtle known (s.effect observes) := by
  unfold State.effect
  split
  next => exact content
  next => exact (content.seeds s.files).release

theorem intersect {el : Nat} (content : Content subtle known s) :
    Content subtle known (s.intersect el) := by
  unfold State.intersect
  split
  next => exact content
  next url _ =>
    simp only
    split
    next => exact content.same rfl rfl rfl rfl rfl
    next =>
      split
      next file _ found _ =>
        exact load (content.same rfl rfl rfl rfl rfl) (content.files file (fileAt_some found).1)
      next => exact content.same rfl rfl rfl rfl rfl

theorem request {url : Url} (content : Content subtle known s) :
    Content subtle known (s.request url) := by
  unfold State.request
  split
  next file _ found _ => exact content.load (content.files file (fileAt_some found).1)
  next => exact content

theorem unmount (content : Content subtle known s) : Content subtle known s.unmount where
  files := content.files
  loads := content.loads
  caching := content.caching
  cache := content.cache
  blobs url n bytes held := by
    rw [State.unmount, Slots.get_dropAll] at held
    cases held

theorem forget (content : Content subtle known s) (gone : Url) :
    Content subtle known { s with mediaCache := s.mediaCache.erase gone } := by
  refine ⟨content.files, content.loads, content.caching, fun url entry got => ?_, content.blobs⟩
  rw [ObjectMap.get_erase] at got
  split at got
  next => cases got
  next => exact content.cache url entry got

theorem step {a : Act Url} (content : Content subtle known s)
    (rendered : ∀ files token, a = .render files token → ∀ f ∈ loadables files, known f)
    (stepped : step subtle observes s a = some t) : Content subtle known t := by
  cases a with
  | render files token =>
    -- the references change with what is rendered, and only then
    simp only [UseMedia.step] at stepped
    split at stepped
    next =>
      cases stepped
      exact ⟨rendered files token rfl, content.loads, content.caching, content.cache, content.blobs⟩
    next => cases stepped
  -- a pass of the effect, an observation and a scroll start loads at most
  | effect =>
    simp only [UseMedia.step] at stepped
    split at stepped
    next => cases stepped; exact content.effect.same rfl rfl rfl rfl rfl
    next => cases stepped
  | observe url el =>
    simp only [UseMedia.step] at stepped
    split at stepped
    next =>
      cases stepped
      unfold State.observe
      split
      next => exact content
      next => exact content.same rfl rfl rfl rfl rfl
    next => cases stepped
  | intersect el => cases stepped; exact content.intersect
  | request url =>
    simp only [UseMedia.step] at stepped
    split at stepped
    next => cases stepped; exact content.request
    next => cases stepped
  | unmount =>
    simp only [UseMedia.step] at stepped
    split at stepped
    next => cases stepped; exact content.unmount
    next => cases stepped
  -- a load goes on with what it has read from the cache
  | lookup n ok =>
    simp only [UseMedia.step] at stepped
    split at stepped
    next file token found =>
      cases stepped
      refine content.advance found fun entry its => ?_
      split at its
      next => exact content.cache file.url entry (Stage.found.inj its)
      next => cases its
    next => cases stepped
  | resume n =>
    simp only [UseMedia.step] at stepped
    split at stepped
    next file token cached found =>
      cases stepped
      -- a cache hit is shown, and its entry was written for this file
      have its := (content.loads n _ found).2 cached rfl
      exact content.conclude fun u kept => kept.present (.inr ⟨cached, its, rfl⟩)
    next file token found =>
      cases stepped
      split
      next => exact content.finish
      next => exact content.advance found fun entry wrong => by cases wrong
    next => cases stepped
  -- what comes from the network is ciphertext, or the load fails
  | response n r =>
    simp only [UseMedia.step] at stepped
    split at stepped
    next file token found =>
      cases stepped
      cases r with
      | bytes ciphertext =>
        simp only
        split
        next => exact content.finish
        next => exact content.advance found fun entry wrong => by cases wrong
      | notFound => exact content.conclude fun u kept => kept.fail
      | networkError => exact content.conclude fun u kept => kept.fail
    next => cases stepped
  -- only what opens under the file's key is shown, and it is queued for the cache
  | decrypted n =>
    simp only [UseMedia.step] at stepped
    split at stepped
    next file token ciphertext found =>
      cases stepped
      split
      next plaintext opened =>
        have its := (content.loads n _ found).1
        have genuine : Genuine subtle file plaintext := ⟨ciphertext, opened⟩
        refine content.conclude fun u kept => ?_
        have ready := kept.present (.inl ⟨file, its, rfl, genuine⟩)
        refine ⟨ready.files, ready.loads, fun job member => ?_, ready.cache, ready.blobs⟩
        rcases List.mem_append.mp member with old | this
        · exact kept.caching job old
        · obtain rfl := List.mem_singleton.mp this
          exact ⟨its, genuine⟩
      next => exact content.conclude fun u kept => kept.fail
      next => exact content.conclude fun u kept => kept.fail
    next => cases stepped
  -- the one write to the cache: the plaintext as it is, or what the canvas made of it
  | store place canvas ok =>
    obtain ⟨⟨file, plaintext⟩, found, rfl⟩ := Option.map_eq_some_iff.mp stepped
    obtain ⟨its, genuine⟩ := content.caching _ (List.mem_of_getElem? found)
    refine ⟨content.files, content.loads, fun job member =>
      content.caching job (List.mem_of_mem_eraseIdx member), fun url entry got => ?_, content.blobs⟩
    simp only at got
    split at got
    next written wrote =>
      split at got
      next =>
        rw [ObjectMap.get_insert] at got
        split at got
        next here =>
          cases got
          exact ⟨file, plaintext, canvas, its, here.symm, genuine, wrote⟩
        next => exact content.cache url entry got
      next => exact content.cache url entry got
    next => exact content.cache url entry got
  -- the two ways out of the cache
  | evict place ok =>
    obtain ⟨gone, _, rfl⟩ := Option.map_eq_some_iff.mp stepped
    split
    next => exact (content.forget gone).same rfl rfl rfl rfl rfl
    next => exact content.same rfl rfl rfl rfl rfl
  | forget gone => cases stepped; exact content.forget gone

end Content

end Atmin.UseMedia
