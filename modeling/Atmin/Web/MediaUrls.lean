import Atmin.Web.UseMedia

/-!
# Object URLs of a chat

No object URL leaks, none is revoked while it is shown, and none twice: whatever a load comes to
after it was aborted, it shows nothing any more.
-/

namespace Atmin.UseMedia

open Interaction Web

variable {Url : Type} [DecidableEq Url] {CryptoKey : Type} {subtle : Subtle CryptoKey}
  {observes : Bool} {s t : State Url} {acts : List (Act Url)}

/-! ### What holds between two actions -/

structure Live (s : State Url) : Prop where
  /-- What is shown as ready is what the slot of the url holds. -/
  shown : s.mounted = true → ∀ url n mime, s.states.get url = some (.ready n mime) →
    s.blobs.held.get url = some n ∧ (s.blobs.created[n]?).map sniffInlineImageMime = some mime
  /-- A load that was not aborted is the last one of its url. -/
  current : ∀ n l, s.loads.get n = some l → n ∉ s.aborted →
    s.mounted = true ∧ s.controllers.get l.file.url = some n
  gone : s.mounted = false → (∀ url, s.blobs.held.get url = none) ∧ ∀ el, s.observed.get el = none

theorem Live.setState {url : Url} {state : MediaState} (live : Live s)
    (plain : ∀ n mime, state ≠ .ready n mime) : Live (s.setState url state) where
  shown mounted url' n mime ready := by
    rw [State.setState, ObjectMap.get_insert] at ready
    split at ready
    next => exact absurd (Option.some.inj ready) (plain n mime)
    next => exact live.shown mounted url' n mime ready
  current := live.current
  gone := live.gone

theorem Live.fail {url : Url} {state : MediaState} (live : Live s)
    (plain : ∀ n mime, state ≠ .ready n mime) : Live (s.fail url state) := by
  have same : Live (s.setState url state) := live.setState plain
  unfold State.fail
  split
  next => exact ⟨same.shown, same.current, same.gone⟩
  next => exact same

theorem Live.present {url : Url} {plaintext : List UInt8} (live : Live s)
    (mounted : s.mounted = true) : Live (s.present url plaintext) where
  shown _ url' n mime ready := by
    rw [State.present, ObjectMap.get_insert] at ready
    rw [State.present, Slots.get_put]
    split at ready
    next here =>
      cases ready
      refine ⟨if_pos here, ?_⟩
      simp [Slots.put]
    next other =>
      obtain ⟨held, content⟩ := live.shown mounted url' n mime ready
      refine ⟨(if_neg other).trans held, ?_⟩
      have low := (s.blobs.accounted.live url' n held).1
      rw [Slots.put, List.getElem?_append_left low]
      exact content
  current := live.current
  gone away := by
    rw [State.present, mounted] at away
    cases away

theorem Live.queue (live : Live s) (caching : List (Loadable Url × List UInt8)) :
    Live { s with caching } := ⟨live.shown, live.current, live.gone⟩

theorem Live.finish {n : Nat} (live : Live s) : Live (s.finish n) where
  shown := live.shown
  current m l found fresh := by
    rw [State.finish, ObjectMap.get_erase] at found
    split at found
    next => cases found
    next => exact live.current m l found fresh
  gone := live.gone

theorem Live.advance {n : Nat} {l : Load Url} {stage : Stage} (live : Live s)
    (found : s.loads.get n = some l) : Live (s.advance n l stage) where
  shown := live.shown
  current m l' here fresh := by
    rw [State.advance, ObjectMap.get_insert] at here
    split at here
    next same =>
      subst same
      cases here
      exact live.current m l found fresh
    next => exact live.current m l' here fresh
  gone := live.gone

/-- Only a load that was not aborted has a result. -/
theorem Live.conclude {n : Nat} {l : Load Url} {result : State Url → State Url} (live : Live s)
    (found : s.loads.get n = some l)
    (keeps : ∀ u, Live u → u.mounted = true → Live (result u)) : Live (s.conclude n result) := by
  unfold State.conclude
  split
  next => exact live.finish
  next fresh => exact keeps _ live.finish (live.current n l found fresh).1

theorem Live.load {file : Loadable Url} {token : String} (live : Live s)
    (mounted : s.mounted = true) : Live (s.load file token) where
  shown _ url n mime ready := by
    rw [State.load, ObjectMap.get_insert] at ready
    split at ready
    next => cases ready
    next => exact live.shown mounted url n mime ready
  current n l found fresh := by
    refine ⟨mounted, ?_⟩
    simp only [State.load, State.abort, ObjectMap.get_insert, List.mem_append, Option.mem_toList,
      not_or] at found fresh ⊢
    split at found
    next this =>
      cases found
      rw [if_pos rfl, this]
    next other =>
      -- Another load of the url is aborted right now.
      obtain ⟨_, held⟩ := live.current n l found fresh.1
      have apart : l.file.url ≠ file.url := fun same => fresh.2 (by rw [← same, held])
      rw [if_neg apart, held]
  gone away := by
    have still : s.mounted = false := away
    rw [mounted] at still
    cases still

theorem Live.teardown {url : Url} (live : Live s) : Live (s.teardown url) where
  shown mounted url' n mime ready := by
    rw [State.teardown, ObjectMap.get_erase] at ready
    split at ready
    next => cases ready
    next other =>
      obtain ⟨held, content⟩ := live.shown mounted url' n mime ready
      exact ⟨(Slots.get_drop ..).trans ((if_neg other).trans held), content⟩
  current n l found fresh := by
    simp only [State.teardown, State.abort, List.mem_append, Option.mem_toList, not_or] at fresh
    obtain ⟨mounted, held⟩ := live.current n l found fresh.1
    have apart : l.file.url ≠ url := fun same => fresh.2 (by rw [← same, held])
    refine ⟨mounted, ?_⟩
    rw [State.teardown, ObjectMap.get_erase, if_neg apart]
    exact held
  gone away := by
    obtain ⟨empty, unseen⟩ := live.gone away
    refine ⟨fun url' => ?_, fun el => ?_⟩
    · rw [State.teardown, Slots.get_drop, State.abort, empty, ite_self]
    · simp only [State.teardown, State.abort]
      split
      next => rw [ObjectMap.get_erase, unseen, ite_self]
      next => exact unseen el

theorem Live.seed {token : String} {f : File Url} (live : Live s) (mounted : s.mounted = true) :
    Live (s.seed observes token f) := by
  unfold State.seed
  split
  next => exact live
  next =>
    split
    next => exact live
    next file _ =>
      split
      next =>
        refine ⟨fun mounted url n mime ready => ?_, live.current, live.gone⟩
        split at ready
        next => exact live.shown mounted url n mime ready
        next => exact (live.setState fun _ _ => by simp).shown mounted url n mime ready
      next =>
        split
        next => exact live
        next => exact live.load mounted

@[simp] theorem mounted_seed {token : String} {f : File Url} :
    (s.seed observes token f).mounted = s.mounted := by
  unfold State.seed
  split
  next => rfl
  next =>
    split
    next => rfl
    next => split <;> (try split) <;> rfl

theorem Live.seeds {token : String} (files : List (File Url)) (live : Live s)
    (mounted : s.mounted = true) : Live (files.foldl (fun s f => s.seed observes token f) s) := by
  induction files generalizing s with
  | nil => exact live
  | cons f rest ih =>
    rw [List.foldl_cons]
    exact ih (live.seed mounted) (mounted_seed.trans mounted)

theorem Live.release (live : Live s) : Live s.release := by
  unfold State.release
  induction s.tracked.filter _ generalizing s with
  | nil => exact live
  | cons url rest ih =>
    rw [List.foldl_cons]
    exact ih live.teardown

theorem Live.effect (live : Live s) (mounted : s.mounted = true) : Live (s.effect observes) := by
  unfold State.effect
  split
  next => exact live
  next => exact (live.seeds s.files mounted).release

theorem Live.unmount (live : Live s) : Live s.unmount where
  shown away := by cases away
  current n l found fresh := by
    simp only [State.unmount, List.mem_append, not_or] at fresh
    obtain ⟨_, held⟩ := live.current n l found fresh.1
    exact absurd (List.mem_map_of_mem (ObjectMap.mem_of_get held)) fresh.2
  gone _ := ⟨fun _ => Slots.get_dropAll _, fun _ => rfl⟩

theorem Live.observe {url : Url} {el : Nat} (live : Live s) (mounted : s.mounted = true) :
    Live (s.observe observes url el) := by
  unfold State.observe
  split
  next => exact live
  next =>
    refine ⟨live.shown, live.current, fun away => ?_⟩
    rw [mounted] at away
    cases away

theorem Live.intersect {el : Nat} (live : Live s) : Live (s.intersect el) := by
  unfold State.intersect
  split
  next => exact live
  next url seen =>
    have mounted : s.mounted = true := by
      by_contra away
      rw [(live.gone (by simpa using away)).2] at seen
      cases seen
    have unseen : Live { s with observed := s.observed.erase el, elByUrl := s.elByUrl.erase url } :=
      ⟨live.shown, live.current, fun away => by rw [mounted] at away; cases away⟩
    simp only
    split
    next => exact unseen
    next =>
      split
      next => exact Live.load ⟨unseen.shown, unseen.current, unseen.gone⟩ mounted
      next => exact unseen

theorem Live.request {url : Url} (live : Live s) (mounted : s.mounted = true) :
    Live (s.request url) := by
  unfold State.request
  split
  next => exact live.load mounted
  next => exact live

theorem Live.step {a : Act Url} (live : Live s) (stepped : step subtle observes s a = some t) :
    Live t := by
  cases a with
  -- what is rendered changes no url
  | render files token =>
    simp only [UseMedia.step] at stepped
    split at stepped
    next => cases stepped; exact ⟨live.shown, live.current, live.gone⟩
    next => cases stepped
  | effect =>
    simp only [UseMedia.step] at stepped
    split at stepped
    next due =>
      cases stepped
      have kept : Live (s.effect observes) := live.effect due.1
      exact ⟨kept.shown, kept.current, kept.gone⟩
    next => cases stepped
  | observe url el =>
    simp only [UseMedia.step] at stepped
    split at stepped
    next mounted => cases stepped; exact live.observe mounted
    next => cases stepped
  | intersect el => cases stepped; exact live.intersect
  | request url =>
    simp only [UseMedia.step] at stepped
    split at stepped
    next mounted => cases stepped; exact live.request mounted
    next => cases stepped
  | unmount =>
    simp only [UseMedia.step] at stepped
    split at stepped
    next => cases stepped; exact live.unmount
    next => cases stepped
  -- a load makes a url only when it presents the file
  | lookup n ok =>
    simp only [UseMedia.step] at stepped
    split at stepped
    next found => cases stepped; exact live.advance found
    next => cases stepped
  | resume n =>
    simp only [UseMedia.step] at stepped
    split at stepped
    next found => cases stepped; exact live.conclude found fun u kept mounted => kept.present mounted
    next found =>
      cases stepped
      split
      next => exact live.finish
      next => exact live.advance found
    next => cases stepped
  | response n r =>
    simp only [UseMedia.step] at stepped
    split at stepped
    next found =>
      cases stepped
      cases r with
      | bytes ciphertext =>
        simp only
        split
        next => exact live.finish
        next => exact live.advance found
      | notFound => exact live.conclude found fun u kept _ => kept.fail fun _ _ => by simp
      | networkError => exact live.conclude found fun u kept _ => kept.fail fun _ _ => by simp
    next => cases stepped
  | decrypted n =>
    simp only [UseMedia.step] at stepped
    split at stepped
    next found =>
      cases stepped
      split
      next => exact live.conclude found fun u kept mounted => (kept.present mounted).queue _
      next => exact live.conclude found fun u kept _ => kept.fail fun _ _ => by simp
      next => exact live.conclude found fun u kept _ => kept.fail fun _ _ => by simp
    next => cases stepped
  -- the cache holds bytes, not urls
  | store place canvas ok =>
    obtain ⟨job, _, rfl⟩ := Option.map_eq_some_iff.mp stepped
    exact ⟨live.shown, live.current, live.gone⟩
  | evict place ok =>
    obtain ⟨url, _, rfl⟩ := Option.map_eq_some_iff.mp stepped
    exact ⟨live.shown, live.current, live.gone⟩
  | forget url => cases stepped; exact ⟨live.shown, live.current, live.gone⟩

theorem live_of_run {mediaCache : ObjectMap Url StoredMediaBlob}
    (ran : (machine subtle observes).run (start mediaCache) acts = some s) : Live s := by
  refine Machine.invariant (I := Live) (fun _ _ _ live stepped => live.step stepped) ?_ ran
  refine ⟨fun _ _ _ _ ready => ?_, fun _ _ found => ?_, fun away => ?_⟩
  · cases ready
  · cases found
  · cases away

/-! ### Once the chat is gone -/

theorem conclude_gone {n : Nat} {l : Load Url} {result : State Url → State Url} (live : Live s)
    (away : s.mounted = false) (found : s.loads.get n = some l) :
    s.conclude n result = s.finish n := by
  refine if_pos ?_
  by_contra fresh
  rw [(live.current n l found fresh).1] at away
  cases away

theorem gone_step {a : Act Url} (live : Live s) (away : s.mounted = false)
    (stepped : step subtle observes s a = some t) : t.mounted = false ∧ t.blobs = s.blobs := by
  cases a with
  | render | effect | observe | request | unmount => simp [UseMedia.step, away] at stepped
  -- nothing is pending any more
  | intersect el =>
    cases stepped
    simp only [State.intersect, (live.gone away).2]
    exact ⟨away, trivial⟩
  | lookup n ok =>
    simp only [UseMedia.step] at stepped
    split at stepped
    next => cases stepped; exact ⟨away, rfl⟩
    next => cases stepped
  -- a load that goes on concludes without a trace
  | resume n =>
    simp only [UseMedia.step] at stepped
    split at stepped
    next found =>
      rw [conclude_gone live away found] at stepped
      cases stepped
      exact ⟨away, rfl⟩
    next =>
      cases stepped
      split
      next => exact ⟨away, rfl⟩
      next => exact ⟨away, rfl⟩
    next => cases stepped
  | response n r =>
    simp only [UseMedia.step] at stepped
    split at stepped
    next found =>
      simp only [conclude_gone live away found] at stepped
      cases stepped
      split
      next =>
        split
        next => exact ⟨away, rfl⟩
        next => exact ⟨away, rfl⟩
      next => exact ⟨away, rfl⟩
      next => exact ⟨away, rfl⟩
    next => cases stepped
  | decrypted n =>
    simp only [UseMedia.step] at stepped
    split at stepped
    next found =>
      simp only [conclude_gone live away found] at stepped
      cases stepped
      split
      next => exact ⟨away, rfl⟩
      next => exact ⟨away, rfl⟩
      next => exact ⟨away, rfl⟩
    next => cases stepped
  | store place canvas ok =>
    obtain ⟨job, _, rfl⟩ := Option.map_eq_some_iff.mp stepped
    exact ⟨away, rfl⟩
  | evict place ok =>
    obtain ⟨url, _, rfl⟩ := Option.map_eq_some_iff.mp stepped
    exact ⟨away, rfl⟩
  | forget url => cases stepped; exact ⟨away, rfl⟩

/-- In every run each object URL is revoked at most once, and until then is held for exactly one url;
what is shown is not revoked; and when the chat goes everything is revoked, and no load makes a new
one after that. -/
theorem object_urls_are_released {mediaCache : ObjectMap Url StoredMediaBlob}
    (ran : (machine subtle observes).run (start mediaCache) acts = some s) :
    s.blobs.released.Nodup ∧
      (∀ n < s.blobs.created.length, n ∉ s.blobs.released →
        ∃! url, s.blobs.held.get url = some n) ∧
      (s.mounted = true → ∀ url n mime, s.states.get url = some (.ready n mime) →
        n ∉ s.blobs.released ∧
          ∃ bytes, s.blobs.created[n]? = some bytes ∧ sniffInlineImageMime bytes = mime) ∧
      (s.mounted = false → (∀ n < s.blobs.created.length, n ∈ s.blobs.released) ∧
        ∀ more t, (machine subtle observes).run s more = some t → t.blobs = s.blobs) := by
  have live := live_of_run ran
  refine ⟨s.blobs.accounted.once, fun n low fresh => Slots.held_unique low fresh, ?_, ?_⟩
  · intro mounted url n mime ready
    obtain ⟨held, content⟩ := live.shown mounted url n mime ready
    exact ⟨(s.blobs.accounted.live url n held).2, Option.map_eq_some_iff.mp content⟩
  · intro away
    refine ⟨fun n low => Slots.released_of_empty (live.gone away).1 low, fun more t further => ?_⟩
    have still : (Live t ∧ t.mounted = false) ∧ t.blobs = s.blobs := by
      refine Machine.invariant (I := fun u => (Live u ∧ u.mounted = false) ∧ u.blobs = s.blobs)
        ?_ ⟨⟨live, away⟩, rfl⟩ further
      rintro u a v ⟨⟨live, away⟩, same⟩ stepped
      obtain ⟨gone, blobs⟩ := gone_step live away stepped
      exact ⟨⟨live.step stepped, gone⟩, blobs.trans same⟩
    exact still.2

/-! ### A photo with a preview -/

/-- A cipher that puts the key before the text. -/
def sampleSubtle : Subtle UInt8 where
  atob _ := none
  importKey
    | [k] => some k
    | _ => none
  decrypt k _
    | first :: text => if first = k then some text else none
    | [] => none

/-- It decodes nothing. -/
def noCanvas : CanvasApi := ⟨fun _ => none, fun edge _ _ => edge, fun _ _ _ _ => none⟩

def photo : File String := ⟨"full", [1], [], .str "a.png", some ⟨"preview", [2], []⟩⟩

/-- The preview comes into view and is cached, the photo is tapped, and the preview comes from the
cache when it is requested again. -/
def viewing : List (Act String) :=
  [.render [photo] (some "token"), .effect, .observe "preview" 7, .intersect 7, .lookup 0 true,
    .resume 0, .response 0 (.bytes [2, 5]), .decrypted 0, .store 0 noCanvas true,
    .request "full", .lookup 1 true, .resume 1, .response 1 (.bytes [1, 8]), .decrypted 1,
    .store 0 noCanvas true, .request "preview", .lookup 2 true, .resume 2]

theorem viewing_is_released : ∃ s, (machine sampleSubtle true).run (start .empty)
    (viewing ++ [.unmount]) = some s ∧ s.blobs.created.length = 3 ∧ s.blobs.released.Nodup ∧
      (∀ n < s.blobs.created.length, n ∉ s.blobs.released →
        ∃! url, s.blobs.held.get url = some n) ∧
      (s.mounted = true → ∀ url n mime, s.states.get url = some (.ready n mime) →
        n ∉ s.blobs.released ∧
          ∃ bytes, s.blobs.created[n]? = some bytes ∧ sniffInlineImageMime bytes = mime) ∧
      (s.mounted = false → (∀ n < s.blobs.created.length, n ∈ s.blobs.released) ∧
        ∀ more t, (machine sampleSubtle true).run s more = some t → t.blobs = s.blobs) := by
  obtain ⟨s, ran, three⟩ : ∃ s, (machine sampleSubtle true).run (start .empty)
      (viewing ++ [.unmount]) = some s ∧ decide (s.blobs.created.length = 3) = true := by
    refine (Option.any_eq_true _ _).mp ?_
    decide +kernel
  exact ⟨s, ran, of_decide_eq_true three, object_urls_are_released ran⟩

end Atmin.UseMedia
