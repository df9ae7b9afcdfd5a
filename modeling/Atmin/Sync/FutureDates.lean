import Atmin.Interaction.Heard
import Atmin.Sync.Clocks
import Atmin.Sync.Convergence
import Atmin.Sync.Rendering

/-!
# Messages from the future

The date of a message is its sender's, and the watermark of a chat is the date of its newest
message. Where no envelope is dated too far after the clock of the device that downloads it,
no watermark ever is; where one is, the watermark follows it.
-/

namespace Atmin.Web

open Interaction

variable {ι : Type} {account : Account} {skew bound : Int} {s t : Devices ι} {d : ι}

/-! ### What holds of the devices -/

/-- A valid date is not after `bound`. -/
def AtMost (bound : Int) (t : Timestamp) : Prop := ∀ x, t = some x → x ≤ bound

theorem AtMost.mono {bound' : Int} {t : Timestamp} (most : AtMost bound t) (le : bound ≤ bound') :
    AtMost bound' t :=
  fun x same => (most x same).trans le

/-- Time has passed, and chats were read. -/
structure Elapsed (s t : Devices ι) : Prop where
  clock : ∀ d, s.clock d ≤ t.clock d
  reads : ∀ r ∈ s.reads, r ∈ t.reads

theorem Elapsed.refl (s : Devices ι) : Elapsed s s := ⟨fun _ => le_rfl, fun _ member => member⟩

theorem Elapsed.until (elapsed : Elapsed s t) (d : ι) : s.clock d + skew ≤ t.clock d + skew :=
  Int.add_le_add_right (elapsed.clock d) skew

theorem Devices.Backed.later {id : ConversationId} {x : Int} (backed : s.Backed skew id x)
    (elapsed : Elapsed s t) : t.Backed skew id x := by
  obtain ⟨r, member, named, up, within, then_⟩ := backed
  exact ⟨r, elapsed.reads r member, named, up, within, then_.trans (elapsed.clock r.device)⟩

/-- What is stored on a device, and what its syncs returned, is dated in time. -/
structure Fits (skew : Int) (s : Devices ι) (d : ι) (u : State) : Prop where
  keyed : UnderOwnIds u.db
  messages : ∀ key m, u.db.messages.get key = some m → AtMost (s.clock d + skew) m.timestamp
  synced : ∀ (n : Nat) (result : SyncResult), u.memory.syncs[n]? = some (some (.ok result)) →
    ∀ m ∈ result.messages, AtMost (s.clock d + skew) m.timestamp
  marked : ∀ key row x, u.db.conversations.get key = some row → row.lastReadTimestamp = some x →
    ∃ id : ConversationId, key = [.str id.str] ∧ s.Backed skew id x

theorem Fits.later {u : State} (fits : Fits skew s d u) (elapsed : Elapsed s t) : Fits skew t d u where
  keyed := fits.keyed
  messages key m found := (fits.messages key m found).mono (elapsed.until d)
  synced n result found m member := (fits.synced n result found m member).mono (elapsed.until d)
  marked key row x found read := by
    obtain ⟨id, here, backed⟩ := fits.marked key row x found read
    exact ⟨id, here, backed.later elapsed⟩

/-- A local read went as far as each of the markers says. -/
def BackedAll (skew : Int) (s : Devices ι) (markers : Markers) : Prop :=
  ∀ e ∈ markers.entries, s.Backed skew e.1 e.2

structure OnTime (skew : Int) (s : Devices ι) : Prop where
  device : ∀ d, Fits skew s d (s.device d)
  blob : ∀ b, s.blob = some b → BackedAll skew s b.markers

/-! ### What the requests say and do -/

/-- The requests of a page that leave a device as it fits. -/
def AdmitsPage (bound : Int) : Act → Prop
  | .settleSync _ result => ∀ synced, result = .ok synced → ∀ m ∈ synced.messages, AtMost bound m.timestamp
  | .putMessages messages rows =>
    (∀ m ∈ messages, AtMost bound m.timestamp) ∧ ∀ row ∈ rows, row.lastReadTimestamp = none
  | .putConversations rows => ∀ row ∈ rows, row.lastReadTimestamp = none
  | .deliver .. | .archive .. | .remove _ | .changeBackups _ | .changeSharingKey _ => False
  | _ => True

/-- What a page learns. -/
def TellsPage [CborDecoder] (account : Account) (bound : Int) (act : Act) (r : Reply act) : Prop :=
  Honest act r ∧ match act, r with
    | .storeGet _, .ok data => ∀ e ∈ envelopesIn data, datedBy account bound e = true
    | .awaitSync _, .ok synced => ∀ m ∈ synced.messages, AtMost bound m.timestamp
    | _, _ => True

/-- The requests of a task. A read may go as far as the clock, a sync only as far as a read. -/
def AdmitsOwn (skew : Int) (s : Devices ι) (task : DeviceTask ι) : LocalAct → Prop
  | .saving act => AdmitsPage (s.clock task.device + skew) act
  | .putRead existing x => ∃ id : ConversationId, existing.conversationId = .str id.str ∧
    (s.Backed skew id x ∨ (task = .refresh task.device id ∧ x ≤ s.clock task.device + skew))
  | .putBlob blob => BackedAll skew s blob.markers
  | _ => True

def TellsOwn [CborDecoder] (account : Account) (skew : Int) (s : Devices ι) (d : ι) :
    (act : LocalAct) → LocalReply act → Prop
  | .saving act, r => TellsPage account (s.clock d + skew) act r
  | .getConversation id, .ok (some row) => row.conversationId = .str id.str
  | .loadReadMarkers, .ok markers => BackedAll skew s markers
  | .storeGet, .ok blob => BackedAll skew s blob.markers
  | _, _ => True

def AdmitsTask (skew : Int) (s : Devices ι) (task : DeviceTask ι) : DeviceAct → Prop
  | .own act => AdmitsOwn skew s task act
  | _ => True

def TellsTask [CborDecoder] (account : Account) (skew : Int) (s : Devices ι) (d : ι) :
    (act : DeviceAct) → DeviceReply act → Prop
  | .own act, r => TellsOwn account skew s d act r
  | .loadMessages _, .ok rows => ∀ m ∈ rows, AtMost (s.clock d + skew) m.timestamp
  | _, _ => True

/-! ### A page that syncs -/

section Page

variable {page : Page}

theorem decrypts_dated {e : Js} {m : DecryptedMessage} (dated : datedBy account bound e = true)
    (made : Decrypts account e m) : AtMost bound m.timestamp := by
  obtain ⟨_, _, _, _, _, made⟩ := made
  obtain ⟨_, _, _, _, _, sentAt, sent, date⟩ := decryptedMessage_ok made
  have known : envelopeDate account e = .ok m.timestamp := by
    rw [envelopeDate, sent]
    exact date
  intro x same
  rw [datedBy, known, same] at dated
  exact of_decide_eq_true dated

theorem fetchMessages_dated [CborDecoder] : Prog.Given (AdmitsPage bound)
    (TellsPage page.toAccount bound)
    (fun r => ∀ synced, r = .ok synced → ∀ m ∈ synced.messages, AtMost bound m.timestamp)
    (fetchMessages page).run := by
  have yields : Yields (TellsPage page.toAccount bound) (fun synced =>
      ∀ m ∈ synced.messages, ReadIn (TellsPage page.toAccount bound) page.toAccount m) (fetchMessages page) :=
    fetchMessages_yields (fun _ _ told => told.1) page
  refine ((yields.within (fetchMessages_fetches page)).mono fun act both => ?_).weaken
    fun r read synced same m member => ?_
  · cases act <;> first | trivial | cases both.2
  · obtain ⟨key, data, e, told, _, inside, made⟩ := read synced same m member
    exact decrypts_dated (told.2 e inside) made

theorem syncMessages_dated [CborDecoder] : Prog.Given (AdmitsPage bound)
    (TellsPage page.toAccount bound)
    (fun r => ∀ synced, r = .ok synced → ∀ m ∈ synced.messages, AtMost bound m.timestamp)
    (syncMessages page).run := by
  unfold syncMessages
  simp only [Async.run_bind (sync _), run_sync, step_bind, Prog.op_bind, Prog.ret_bind]
  refine .op trivial fun joined _ => ?_
  cases joined with
  | second n =>
    refine .op trivial fun r told => .ret fun synced same => ?_
    subst same
    exact told.2
  | first n =>
    simp only [Async.run_bind, run_attempt, Prog.bind_assoc, Prog.ret_bind]
    refine Prog.Given.bind fetchMessages_dated fun result dated => ?_
    simp only [run_sync, step_bind, Prog.op_bind, Prog.ret_bind, run_ofExcept]
    exact .op dated fun _ _ => .ret dated

theorem publish_dated {synced : SyncResult} (dated : ∀ m ∈ synced.messages, AtMost bound m.timestamp) :
    Within (AdmitsPage bound) (publish page synced) := by
  have marks (keys : List String) : Within (AdmitsPage bound) (markArchivesIngested keys) := by
    induction keys with
    | nil => exact .pure _
    | cons key rest ih => exact .bind (.attempt (.await (.op trivial fun _ => .ret trivial))) fun _ => ih
  have puts (rows : List StoredConversation) (unread : ∀ row ∈ rows, row.lastReadTimestamp = none) :
      AdmitsPage bound (.putMessages (synced.messages.map (storedMessage page.userId.str)) rows) := by
    refine ⟨fun m member => ?_, unread⟩
    obtain ⟨m', here, rfl⟩ := List.mem_map.mp member
    exact dated m' here
  refine .bind (.attempt (saveMessages_within (fun _ => trivial) (fun _ => trivial) puts
    (fun _ unread => unread) _ _)) fun saved => ?_
  cases saved with
  | error e => exact .pure _
  | ok _ =>
    exact .bind (marks _) fun _ => .bind (.attempt (.await (.op trivial fun _ => .ret trivial))) fun _ =>
      .pure _

theorem syncAndPublish_dated [CborDecoder] : Prog.Given (AdmitsPage bound)
    (TellsPage page.toAccount bound)
    (fun _ => True) (syncAndPublish page).run := by
  unfold syncAndPublish
  simp only [Async.run_bind, run_attempt, Prog.bind_assoc, Prog.ret_bind]
  refine Prog.Given.bind syncMessages_dated fun r dated => ?_
  cases r with
  | error e => exact .ret trivial
  | ok synced => exact (publish_dated (dated synced rfl)).given

end Page

/-! ### Marking and merging -/

section Markers

theorem mergeMarkers_backed {a b : Markers} (first : BackedAll skew s a) (second : BackedAll skew s b) :
    BackedAll skew s (mergeMarkers a b) := by
  rintro ⟨id, x⟩ member
  rcases (foldl_raise b.entries a id).2.2 x (ObjectMap.get_of_mem member) with old | new
  · exact first _ (ObjectMap.mem_of_get old)
  · exact second _ new

/-- The requests of a sync of the markers. -/
def AdmitsRead (skew : Int) (s : Devices ι) : ReadAct → Prop
  | .markConversationRead id x => s.Backed skew id x
  | .putBlob blob => BackedAll skew s blob.markers
  | _ => True

def TellsRead (skew : Int) (s : Devices ι) : (act : ReadAct) → ReadReply act → Prop
  | .loadReadMarkers, .ok markers => BackedAll skew s markers
  | .storeGet, .ok blob => BackedAll skew s blob.markers
  | _, _ => True

theorem applyMarkers_backed (local_ remote : Markers) {entries : List (ConversationId × Int)}
    (backed : ∀ e ∈ entries, s.Backed skew e.1 e.2) (localAdvanced aheadOfRemote : Bool) :
    Prog.Given (AdmitsRead skew s) (TellsRead skew s) (fun _ => True)
      (applyMarkers local_ remote entries localAdvanced aheadOfRemote).run := by
  induction entries generalizing localAdvanced aheadOfRemote with
  | nil => exact .ret trivial
  | cons e rest ih =>
    obtain ⟨id, x⟩ := e
    have later (advanced : Bool) := ih (fun e member => backed e (List.mem_cons_of_mem _ member))
      (localAdvanced || advanced) (aheadOfRemote || remote.below id x)
    rw [applyMarkers]
    split
    next =>
      rw [ReadM.run_bind]
      refine .op (backed _ List.mem_cons_self) fun r _ => ?_
      cases r with
      | ok advanced => exact later advanced
      | error e => exact .ret trivial
    next => exact later false

theorem syncReadMarkers_backed (keyVersion : Nat) : Prog.Given (AdmitsRead skew s) (TellsRead skew s)
    (fun _ => True) (syncReadMarkers keyVersion).run := by
  have nothing : BackedAll skew s .empty := fun _ member => nomatch member
  have fetched : Prog.Given (AdmitsRead skew s) (TellsRead skew s)
      (fun r => ∃ remote, r = .ok remote ∧ BackedAll skew s remote) (fetchReadMarkers keyVersion).run := by
    refine .op trivial fun r told => ?_
    cases r with
    | error e => exact .ret ⟨_, rfl, nothing⟩
    | ok blob =>
      refine .ret ⟨_, rfl, ?_⟩
      split
      next => exact nothing
      next => exact told
  unfold syncReadMarkers
  rw [ReadM.run_bind]
  refine fetched.bind fun r known => ?_
  obtain ⟨remote, rfl, known⟩ := known
  dsimp only
  rw [ReadM.run_bind]
  refine .op trivial fun r told => ?_
  cases r with
  | error e => exact .ret trivial
  | ok local_ =>
    have merged := mergeMarkers_backed told known
    dsimp only [Prog.ret_bind]
    rw [ReadM.run_bind]
    refine (applyMarkers_backed local_ remote merged false false).bind fun r _ => ?_
    cases r with
    | error e => exact .ret trivial
    | ok flags =>
      dsimp only
      split
      next =>
        rw [ReadM.run_bind]
        refine .op merged fun r _ => ?_
        cases r <;> exact .ret trivial
      next => exact .ret trivial

variable {task : DeviceTask ι}

theorem markConversationRead_backed [CborDecoder] {id : ConversationId} {x : Int}
    (may : s.Backed skew id x ∨
    (task = .refresh task.device id ∧ x ≤ s.clock task.device + skew)) :
    Prog.Given (AdmitsOwn skew s task) (TellsOwn account skew s task.device) (fun _ => True)
      (markConversationRead id x).run := by
  refine .op trivial fun found told => ?_
  cases found with
  | error e => exact .ret trivial
  | ok found =>
    cases found with
    | none => exact .ret trivial
    | some existing =>
      change Prog.Given _ _ _ (if x ≤ existing.lastRead then Prog.ret (Except.ok false) else _)
      split
      next => exact .ret trivial
      next =>
        refine .op ⟨id, told, may⟩ fun put _ => ?_
        cases put <;> exact .ret trivial

theorem exchangeMarkers_backed [CborDecoder] (keyVersion : Nat) : Prog.Given (AdmitsOwn skew s task)
    (TellsOwn account skew s task.device) (fun _ => True) (exchangeMarkers keyVersion) := by
  refine Prog.Given.bind (P := fun _ => True) ?_ fun _ _ => .ret trivial
  have synced := @syncReadMarkers_backed ι skew s keyVersion
  refine synced.expand fun act admitted => ?_
  cases act with
  | storeGet => exact .op trivial fun r told => .ret (by cases r <;> exact told)
  | loadReadMarkers => exact .op trivial fun r told => .ret (by cases r <;> exact told)
  | putBlob blob => exact .op admitted fun _ _ => .ret trivial
  | markConversationRead id x => exact markConversationRead_backed (.inl admitted)

end Markers

/-! ### The tasks -/

section Tasks

variable {task : DeviceTask ι}

theorem latestTimestamp_from (rows : List StoredMessage) : latestTimestamp rows = 0 ∨
    ∃ m ∈ rows, (m.timestamp.getD 0) = latestTimestamp rows := by
  suffices all : ∀ latest : Int, rows.foldl (fun latest m => max latest (m.timestamp.getD 0)) latest = latest ∨
      ∃ m ∈ rows, m.timestamp.getD 0 =
        rows.foldl (fun latest m => max latest (m.timestamp.getD 0)) latest from all 0
  induction rows with
  | nil => exact fun latest => .inl rfl
  | cons m rest ih =>
    intro latest
    rw [List.foldl_cons]
    rcases ih (max latest (m.timestamp.getD 0)) with same | ⟨m', member, same⟩
    · rw [same]
      rcases max_choice latest (m.timestamp.getD 0) with old | new
      · exact .inl old
      · exact .inr ⟨m, List.mem_cons_self, new.symm⟩
    · exact .inr ⟨m', List.mem_cons_of_mem _ member, same⟩

theorem owning_given [CborDecoder] {α : Type} {Q : α → Prop} {p : Prog LocalAct LocalReply α}
    (given : Prog.Given (AdmitsOwn skew s task) (TellsOwn account skew s task.device) Q p) :
    Prog.Given (AdmitsTask skew s task) (TellsTask account skew s task.device) Q (owning p) :=
  given.expand fun _ admitted => .op admitted fun _ told => .ret told

theorem refresh_given [CborDecoder] (userId : String) {convId : ConversationId}
    (opens : task = .refresh task.device convId) :
    Prog.Given (AdmitsTask skew s task) (TellsTask account skew s task.device) (fun _ => True)
      (refresh userId convId) := by
  refine .op trivial fun r told => ?_
  cases r with
  | error e => exact .ret trivial
  | ok all =>
    dsimp only
    split
    next => exact .ret trivial
    next some_ =>
      refine (owning_given (markConversationRead_backed (.inr ⟨opens, ?_⟩))).bind fun _ _ => .ret trivial
      rcases latestTimestamp_from (all.filter fun m => m.conversationId.same (.str convId.str)) with
        none_ | ⟨m, member, latest⟩
      · exact absurd none_.le some_
      · rw [← latest] at some_ ⊢
        cases date : m.timestamp with
        | none => simp [date] at some_
        | some x => exact told m (List.mem_of_mem_filter member) x date

theorem DeviceTask.given [CborDecoder] (task : DeviceTask ι) : Prog.Given (AdmitsTask skew s task)
    (TellsTask account skew s task.device) (fun _ => True) (task.prog account) := by
  cases task with
  | refresh d convId => exact refresh_given _ rfl
  | syncReadMarkers d keyVersion => exact owning_given (exchangeMarkers_backed keyVersion)
  | pass d ms => exact .op trivial fun _ _ => .ret trivial
  | reload d => exact .op trivial fun _ _ => .ret trivial
  | syncAndPublish d key backs keyVersion =>
    refine owning_given (Prog.Given.bind (P := fun _ => True) ?_ fun _ _ => .ret trivial)
    have synced := @syncAndPublish_dated (s.clock d + skew) ⟨account, key, backs⟩
    refine synced.expand fun act admitted => ?_
    have request : Prog.Given (AdmitsOwn skew s (.syncAndPublish d key backs keyVersion))
        (TellsOwn account skew s d) (TellsPage account (s.clock d + skew) act)
        (Prog.request (LocalAct.saving act)) := .op admitted fun _ told => .ret told
    cases act with
    | syncReadMarkers => exact (exchangeMarkers_backed keyVersion).weaken fun _ _ => ⟨trivial, trivial⟩
    | _ => exact request

end Tasks

theorem datedBy_mono {bound' : Int} {e : Js} (dated : datedBy account bound e = true)
    (le : bound ≤ bound') : datedBy account bound' e = true := by
  unfold datedBy at dated ⊢
  split at dated
  next => exact decide_eq_true ((of_decide_eq_true dated).trans le)
  next => rfl

/-- What a task was told stays true. -/
theorem TellsTask.later [CborDecoder] {act : DeviceAct} {r : DeviceReply act}
    (told : TellsTask account skew s d act r)
    (elapsed : Elapsed s t) : TellsTask account skew t d act r := by
  have all {markers : Markers} (backed : BackedAll skew s markers) : BackedAll skew t markers :=
    fun e member => (backed e member).later elapsed
  cases act with
  | pass ms => trivial
  | loadMessages userId =>
    cases r with
    | error e => trivial
    | ok rows => exact fun m member => (told m member).mono (elapsed.until d)
  | own act =>
    cases act with
    | putRead _ _ | putBlob _ => trivial
    | getConversation id =>
      cases r with
      | error e => trivial
      | ok found => cases found <;> exact told
    | loadReadMarkers | storeGet =>
      cases r with
      | error e => trivial
      | ok _ => exact all told
    | saving act =>
      refine ⟨told.1, ?_⟩
      have dated := told.2
      cases act with
      | storeGet key =>
        cases r with
        | error e => trivial
        | ok data => exact fun e inside => datedBy_mono (dated e inside) (elapsed.until d)
      | awaitSync n =>
        cases r with
        | error e => trivial
        | ok synced => exact fun m member => (dated m member).mono (elapsed.until d)
      | _ => trivial

/-! ### The steps -/

section Steps

variable {u u' : State}

/-- The messages, the rows and the results of the syncs are as before. -/
theorem Fits.frame (fits : Fits skew s d u) (messages : u'.db.messages = u.db.messages)
    (conversations : u'.db.conversations = u.db.conversations)
    (syncs : u'.memory.syncs = u.memory.syncs) : Fits skew s d u' where
  keyed key row found := fits.keyed key row (conversations ▸ found)
  messages key m found := fits.messages key m (messages ▸ found)
  synced n result found := fits.synced n result (syncs ▸ found)
  marked key row x found := fits.marked key row x (conversations ▸ found)

/-- A batch whose messages are dated in time, and whose watermarks were read up to. -/
theorem Fits.batch (fits : Fits skew s d u) {messages : List StoredMessage}
    {rows : List StoredConversation} {db : Database} (saved : u.db.saveBatch messages rows = some db)
    (dated : ∀ m ∈ messages, AtMost (s.clock d + skew) m.timestamp)
    (read : ∀ row ∈ rows, ∀ key, row.conversationId.key = some key → ∀ x,
      row.lastReadTimestamp = some x → ∃ id : ConversationId, key = [.str id.str] ∧ s.Backed skew id x) :
    Fits skew s d { u with db } where
  keyed key row found := by
    rcases putRows_get (saveBatch_conversations saved) key with ⟨kept, _⟩ | ⟨row', _, named, there⟩
    · exact fits.keyed key row (kept ▸ found)
    · cases there.symm.trans found
      exact named
  messages key m found := by
    rcases putRows_get (saveBatch_messages saved).1 key with ⟨kept, _⟩ | ⟨m', member, _, there⟩
    · exact fits.messages key m (kept ▸ found)
    · cases there.symm.trans found
      exact dated _ member
  synced := fits.synced
  marked key row x found read' := by
    rcases putRows_get (saveBatch_conversations saved) key with ⟨kept, _⟩ | ⟨row', member, named, there⟩
    · exact fits.marked key row x (kept ▸ found) read'
    · cases there.symm.trans found
      exact read _ member key named x read'

theorem Fits.writing {write : Database → Option Database} {c : Outcome} {r : Except Thrown Unit}
    (fits : Fits skew s d u) (done : writing write c u = some (r, u'))
    (after : ∀ db, write u.db = some db → Fits skew s d { u with db }) : Fits skew s d u' := by
  rcases writing_cases done with ⟨rfl, _⟩ | ⟨db, written, rfl, _⟩
  · exact fits
  · exact after db written

/-- A summary without a watermark says nothing of a read. -/
theorem unread_backed {rows : List StoredConversation} (unread : ∀ row ∈ rows, row.lastReadTimestamp = none) :
    ∀ row ∈ rows, ∀ key, row.conversationId.key = some key → ∀ x, row.lastReadTimestamp = some x →
      ∃ id : ConversationId, key = [.str id.str] ∧ s.Backed skew id x := by
  intro row member _ _ x read
  rw [unread row member] at read
  cases read

theorem perform_fits {act : Act} {c : Outcome} {r : Reply act} (fits : Fits skew s d u)
    (admitted : AdmitsPage (s.clock d + skew) act) (done : perform act c u = some (r, u')) :
    Fits skew s d u' := by
  cases act with
  | deliver _ _ _ | archive _ _ _ | remove _ | changeBackups _ | changeSharingKey _ => cases admitted
  -- reads and the other stores
  | storeList _ _ | storeGet _ | syncReadMarkers | loadSyncCursor _ | loadMessageIds _
  | loadIngestedArchiveKeys | loadInboundSession _ | getConversation _ | getAllMessages _ =>
    simp only [perform] at done
    obtain ⟨rfl, _⟩ := reading_cases done
    exact fits
  | saveSyncCursor _ _ | saveInboundSession _ | markArchiveIngested _ =>
    simp only [perform] at done
    refine fits.writing done fun db written => ?_
    cases written
    exact fits.frame rfl rfl rfl
  -- rows whose dates the page may store, and summaries without a watermark
  | putMessages messages rows =>
    simp only [perform] at done
    exact fits.writing done fun db saved => fits.batch saved admitted.1 (unread_backed admitted.2)
  | putConversations rows =>
    simp only [perform] at done
    exact fits.writing done fun db saved =>
      fits.batch saved (fun _ member => by cases member) (unread_backed admitted)
  | spawn _ | cachedInbound _ | cacheInbound _ =>
    cases c <;> simp only [perform, Option.some.injEq, Prod.mk.injEq, reduceCtorEq] at done
    obtain ⟨_, rfl⟩ := done
    exact fits.frame rfl rfl rfl
  -- the results of syncs in the memory of the page
  | awaitSync n =>
    cases c <;> simp only [perform, reduceCtorEq] at done
    split at done
    next => cases done; exact fits
    next => cases done
  | joinSync =>
    cases c <;> simp only [perform, reduceCtorEq] at done
    split at done
    next => cases done; exact fits
    next =>
      cases done
      refine { fits with synced := fun n result found => fits.synced n result ?_ }
      rw [List.getElem?_append] at found
      split at found
      next => exact found
      next =>
        have := List.mem_of_getElem? found
        simp at this
  | settleSync n result =>
    cases c <;> simp only [perform, Option.some.injEq, Prod.mk.injEq, reduceCtorEq] at done
    obtain ⟨_, rfl⟩ := done
    refine { fits with synced := fun m synced found => ?_ }
    rw [List.getElem?_set] at found
    split at found
    next =>
      split at found
      next => exact admitted synced (Option.some.inj (Option.some.inj found))
      next => cases found
    next => exact fits.synced m synced found
  | reload =>
    cases c <;> simp only [perform, Option.some.injEq, Prod.mk.injEq, reduceCtorEq] at done
    obtain ⟨_, rfl⟩ := done
    exact { fits with synced := fun n result found => by cases found }

/-- A request of the device alone keeps it fit, if it puts no watermark. -/
theorem performLocal_fits {act : LocalAct} {c : LocalChoice} {r : LocalReply act} (fits : Fits skew s d u)
    (page : ∀ act', act = .saving act' → AdmitsPage (s.clock d + skew) act')
    (puts : ∀ existing x, act ≠ .putRead existing x)
    (done : performLocal act c u = some (r, u')) : Fits skew s d u' := by
  cases act with
  | saving act => exact perform_fits fits (page act rfl) done
  | putRead existing x => exact absurd rfl (puts existing x)
  | getConversation _ | loadReadMarkers | storeGet | putBlob _ =>
    simp only [performLocal] at done
    obtain ⟨rfl, _⟩ := reading_cases done
    exact fits

theorem putRead_fits {existing : StoredConversation} {x : Int} {id : ConversationId} {c : LocalChoice}
    {r : Except Thrown Unit} (fits : Fits skew s d u) (named : existing.conversationId = .str id.str)
    (backed : r = .ok () → s.Backed skew id x)
    (done : performLocal (.putRead existing x) c u = some (r, u')) : Fits skew s d u' := by
  simp only [performLocal] at done
  rcases writing_cases done with ⟨rfl, _⟩ | ⟨db, saved, rfl, ok⟩
  · exact fits
  · refine fits.batch saved (fun _ member => by cases member) ?_
    rintro row member key here y same
    cases List.mem_singleton.mp member
    cases same
    have own : existing.conversationId.key = some [.str id.str] := by rw [named, Js.key_str]
    cases own.symm.trans here
    exact ⟨id, rfl, backed ok⟩

theorem performLocal_tells [CborDecoder] {act : LocalAct} {c : LocalChoice} {r : LocalReply act}
    (fits : Fits skew s d u)
    (downloads : act ≠ .storeGet)
    (dated : ∀ key, act = .saving (.storeGet key) → ∀ data ∈ u.objects.get key,
      ∀ e ∈ envelopesIn data, datedBy account (s.clock d + skew) e = true)
    (done : performLocal act c u = some (r, u')) : TellsOwn account skew s d act r := by
  cases act with
  | storeGet => exact absurd rfl downloads
  | putRead _ _ | putBlob _ => trivial
  -- the row is under the id that was asked for
  | getConversation id =>
    simp only [performLocal] at done
    obtain ⟨rfl, rfl | ⟨e, _, rfl⟩⟩ := reading_cases done
    · cases found : u'.db.conversation id.str with
      | none => trivial
      | some row => exact key_str_iff.mp (fits.keyed _ row found)
    · trivial
  -- a marker that is read is one that a row has
  | loadReadMarkers =>
    simp only [performLocal] at done
    obtain ⟨rfl, rfl | ⟨e, _, rfl⟩⟩ := reading_cases done
    · rintro ⟨id, x⟩ member
      obtain ⟨row, found, _, read, _⟩ := loadReadMarkers_source fits.keyed (ObjectMap.get_of_mem member)
      obtain ⟨id', here, backed⟩ := fits.marked _ row x found read
      rw [ConversationId.ext_str (show id.str = id'.str by simpa using here)]
      exact backed
    · trivial
  -- the inbox gives what was sent on time
  | saving act =>
    refine ⟨perform_honest done, ?_⟩
    cases act with
    | storeGet key =>
      simp only [performLocal, perform] at done
      obtain ⟨rfl, rfl | ⟨e, _, rfl⟩⟩ := reading_cases done
      · cases found : u'.objects.get key with
        | none => simp [State.lookup, found]
        | some data =>
          simp only [State.lookup, found]
          exact dated key rfl data found
      · trivial
    | awaitSync n =>
      obtain ⟨c, blob⟩ := c
      cases c <;> simp only [performLocal, perform, reduceCtorEq] at done
      split at done
      next settled =>
        cases done
        cases r with
        | ok synced => exact fits.synced n synced settled
        | error e => trivial
      next => cases done
    | _ => trivial

/-- What every device keeps while time passes, chats are read and one device moves on. -/
theorem OnTime.moved [DecidableEq ι] (on : OnTime skew s) (elapsed : Elapsed s t)
    (others : ∀ e, e ≠ d → t.device e = s.device e) (here : Fits skew t d (t.device d))
    (blob : ∀ b, t.blob = some b → s.blob = some b ∨ BackedAll skew t b.markers) : OnTime skew t where
  device e := by
    by_cases same : e = d
    · subst same
      exact here
    · rw [others e same]
      exact (on.device e).later elapsed
  blob b found := by
    rcases blob b found with old | new
    · exact fun e member => (on.blob b old e member).later elapsed
    · exact new

/-- Recording a read changes nothing but the record. -/
theorem recordRead_leaves (task : DeviceTask ι) (act : DeviceAct) (r : DeviceReply act) (t : Devices ι) :
    (recordRead task act r t).device = t.device ∧ (recordRead task act r t).clock = t.clock ∧
      (recordRead task act r t).blob = t.blob ∧ ∀ e ∈ t.reads, e ∈ (recordRead task act r t).reads := by
  unfold recordRead
  split
  next =>
    split
    next => exact ⟨rfl, rfl, rfl, fun e member => List.mem_cons_of_mem _ member⟩
    next => exact ⟨rfl, rfl, rfl, fun e member => member⟩
  next => exact ⟨rfl, rfl, rfl, fun e member => member⟩

/-- A watermark that is put was read up to, if only by the read that puts it. -/
theorem putRead_backed {task : DeviceTask ι} {existing : StoredConversation} {x : Int} {id : ConversationId}
    (may : s.Backed skew id x ∨ (task = .refresh task.device id ∧ x ≤ s.clock task.device + skew))
    (elapsed : Elapsed s t) (clock : t.clock = s.clock) :
    (recordRead task (.own (.putRead existing x)) (.ok ()) t).Backed skew id x := by
  rcases may with backed | ⟨opens, within⟩
  · obtain ⟨_, same, _, grows⟩ := recordRead_leaves task (.own (.putRead existing x)) (.ok ()) t
    exact (backed.later elapsed).later ⟨fun e => (congrFun same e).ge, grows⟩
  · rw [opens]
    refine ⟨⟨task.device, id, x, t.clock task.device⟩, List.mem_cons_self, rfl, rfl, ?_, le_rfl⟩
    rw [clock]
    exact within

/-- A request of the device that the blob is not part of. -/
theorem own_steps [CborDecoder] [DecidableEq ι] {task : DeviceTask ι} {act : LocalAct}
    {c : DeviceChoice}
    {r : LocalReply act} (on : OnTime skew s) (admitted : AdmitsOwn skew s task act)
    (timely : punctual account skew task.device (.own act) c s = true) (downloads : act ≠ .storeGet)
    (done : performLocal act (c.outcome, ⟨0, .empty⟩)
      { s.device task.device with objects := c.objects } = some (r, u))
    (same : t = recordRead task (.own act) r
      { s with device := Function.update s.device task.device u }) :
    OnTime skew t ∧ Elapsed s t ∧ TellsOwn account skew t task.device act r := by
  let moved : Devices ι := { s with device := Function.update s.device task.device u }
  obtain ⟨device, clock, blob, grows⟩ := recordRead_leaves task (.own act) r moved
  rw [← same] at device clock blob grows
  have elapsed : Elapsed s t := ⟨fun e => (congrFun clock e).ge, grows⟩
  have here : t.device task.device = u := by rw [device]; exact Function.update_self ..
  have seen : Fits skew s task.device { s.device task.device with objects := c.objects } :=
    (on.device task.device).frame rfl rfl rfl
  have fits := seen.later elapsed
  have known : t.clock task.device = s.clock task.device := congrFun clock _
  refine ⟨on.moved (d := task.device) elapsed (fun e other => ?_) (here ▸ ?_) fun b found => .inl ?_, elapsed,
    performLocal_tells fits downloads ?_ done⟩
  · rw [device]
    exact Function.update_of_ne other ..
  · -- a read puts what is backed already, or a date within the clock of its device
    by_cases puts : ∃ existing x, act = .putRead existing x
    · obtain ⟨existing, x, rfl⟩ := puts
      obtain ⟨id, named, may⟩ := admitted
      refine putRead_fits fits named (fun ok => ?_) done
      have elapsed' : Elapsed s moved := ⟨fun _ => le_rfl, fun _ member => member⟩
      rw [same, ok]
      exact putRead_backed may elapsed' rfl
    · -- no other request puts a watermark
      refine performLocal_fits fits ?_ (fun existing x same => puts ⟨existing, x, same⟩) done
      rintro act' rfl
      rw [known]
      exact admitted
  · rw [blob] at found
    exact found
  · -- what is downloaded was dated by a punctual sender
    rintro key rfl data found e inside
    have timely : (c.objects.get key).all (fun data =>
      (envelopesIn data).all (datedBy account (s.clock task.device + skew))) = true := timely
    rw [found, Option.all_some, List.all_eq_true] at timely
    rw [known]
    exact timely e inside

/-- One step of any task. -/
theorem performPunctual_steps [CborDecoder] [DecidableEq ι] {task : DeviceTask ι} {act : DeviceAct}
    {c : DeviceChoice}
    {r : DeviceReply act} (on : OnTime skew s) (admitted : AdmitsTask skew s task act)
    (done : performPunctual account skew task act c s = some (r, t)) :
    OnTime skew t ∧ Elapsed s t ∧ TellsTask account skew t task.device act r := by
  obtain ⟨timely, done⟩ := Option.ite_none_right_eq_some.mp done
  obtain ⟨⟨r', v⟩, performed, same⟩ := Option.map_eq_some_iff.mp done
  cases same
  cases act with
  | pass ms =>
    cases performed
    -- only time passes
    have elapsed : Elapsed s { s with clock := Function.update s.clock task.device (s.clock task.device + ms) } := by
      refine ⟨fun e => ?_, fun _ member => member⟩
      by_cases same : e = task.device
      · subst same
        simp
      · simp [same]
    exact ⟨on.moved elapsed (fun _ _ => rfl) ((on.device task.device).later elapsed) fun b found => .inl found,
      elapsed, trivial⟩
  -- what is read is bounded since it is stored
  | loadMessages userId =>
    obtain ⟨⟨r'', u⟩, read, same⟩ := Option.map_eq_some_iff.mp performed
    cases same
    refine ⟨on, .refl s, ?_⟩
    obtain ⟨rfl, rfl | ⟨e, _, rfl⟩⟩ := reading_cases read
    · intro m member
      obtain ⟨⟨key, found⟩, _⟩ := mem_loadMessages.mp member
      exact (on.device task.device).messages key m found
    · trivial
  | own act =>
    cases act with
    | storeGet =>
      cases performed
      refine ⟨on, .refl s, ?_⟩
      cases c.outcome with
      | fail e => trivial
      | ok =>
        cases found : s.blob with
        | none => trivial
        | some blob => exact on.blob blob found
    | putBlob blob =>
      -- a blob that is written was merged from bounded markers; the PUT may be lost
      have elapsed : Elapsed s { s with blob := some blob } := ⟨fun _ => le_rfl, fun _ member => member⟩
      have after : OnTime skew { s with blob := some blob } :=
        on.moved elapsed (fun _ _ => rfl) ((on.device task.device).later elapsed) fun b found => .inr <| by
          cases found
          exact fun e member => (admitted e member).later elapsed
      simp only [performAt] at performed
      split at performed
      next =>
        cases performed
        exact ⟨after, elapsed, trivial⟩
      next =>
        split at performed
        next => cases performed; exact ⟨after, elapsed, trivial⟩
        next => cases performed; exact ⟨on, .refl s, trivial⟩
    | saving _ | getConversation _ | putRead _ _ | loadReadMarkers =>
      obtain ⟨⟨r'', u⟩, ran, same⟩ := Option.map_eq_some_iff.mp performed
      cases same
      refine own_steps on ?_ timely (by simp) ran rfl
      exact admitted

end Steps

/-! ### Runs -/

section Runs

variable {κ : Type} [DecidableEq ι] {tasks : κ → DeviceTask ι}

/-- Tasks that keep everything dated in time. -/
def punctualRules (skew : Int) : Rules κ (Devices ι) where
  inv := OnTime skew
  rely _ := Elapsed
  guar _ := Elapsed
  compat _ _ _ _ _ _ _ elapsed := elapsed

theorem punctual_contracts [CborDecoder] : Contracts (punctualRules skew)
    (punctualDevices account skew tasks)
    (fun _ _ => True) fun _ _ _ => True := by
  refine ⟨fun _ _ _ _ _ _ _ => trivial, fun i s _ _ => ?_⟩
  have lasts (s t : Devices ι) (elapsed : Elapsed s t) (act : DeviceAct) (r : DeviceReply act)
      (told : TellsTask account skew s (tasks i).device act r) : TellsTask account skew t (tasks i).device act r :=
    told.later elapsed
  refine Safe.given lasts lasts (fun act s r t admitted on served => ?_) fun t _ => (tasks i).given
  obtain ⟨c, done⟩ := served
  exact performPunctual_steps on admitted done

/-- Devices on which nothing is stored yet, and no blob. -/
structure Unused (s : Devices ι) : Prop where
  messages : ∀ d, (s.device d).db.messages = .empty
  conversations : ∀ d, (s.device d).db.conversations = .empty
  syncs : ∀ d, (s.device d).memory.syncs = []
  blob : s.blob = none
  reads : s.reads = []

omit [DecidableEq ι] in
theorem Unused.onTime (unused : Unused s) : OnTime skew s where
  device d := by
    have none_ (key : Key) (row : StoredConversation) :
        (s.device d).db.conversations.get key ≠ some row := by
      rw [unused.conversations d]
      exact fun found => nomatch found
    refine ⟨fun key row found => absurd found (none_ key row), fun key m found => ?_, fun n result found => ?_,
      fun key row x found => absurd found (none_ key row)⟩
    · rw [unused.messages d] at found
      cases found
    · rw [unused.syncs d] at found
      cases found
  blob b found := by
    rw [unused.blob] at found
    cases found

omit [DecidableEq ι] in
/-- What holds of the devices bounds every watermark. -/
theorem OnTime.bounded (on : OnTime skew s) : s.Bounded skew := by
  have reader (d : ι) (id : ConversationId) (x : Int) (marked : s.Marked d id x) : s.Backed skew id x := by
    obtain ⟨row, found, read⟩ := marked
    obtain ⟨id', here, backed⟩ := (on.device d).marked _ row x found read
    rw [ConversationId.ext_str (show id.str = id'.str by simpa using here)]
    exact backed
  refine ⟨reader, fun d id x marked => ?_⟩
  obtain ⟨r, member, named, _, within, then_⟩ := reader d id x marked
  obtain ⟨last, latest⟩ : ∃ last, s.latestRead id = some last :=
    Option.isSome_iff_exists.mp (List.find?_isSome.mpr ⟨r, member, by simp [named]⟩)
  refine ⟨last, latest, fun drift close => ?_⟩
  have ahead := close r.device
  omega

/-- In every run whose downloads are all dated in time, every watermark is bounded by the clock
of the device that read. -/
theorem watermarks_bounded [CborDecoder] [DecidableEq κ] (unused : Unused s)
    {w : World κ DeviceAct DeviceReply (Except Thrown Unit) (Devices ι)}
    (reached : Reach (punctualDevices account skew tasks) s w) : w.sys.Bounded skew := by
  have start : Secured (punctualRules skew) (punctualDevices account skew tasks) (fun _ _ => True)
      (fun _ _ _ => True) (.init s) := .init unused.onTime fun _ => trivial
  exact (start.run punctual_contracts reached).1.bounded

end Runs

section Samples

open Demo

attribute [local instance] Demo.cbor

/-- Dates are read as they are written. -/
def calendar : Account :=
  { Demo.account with date := fun x => match x with
      | .num (.int n) => .ok (some n)
      | _ => .ok none }

def bobAndUser : ConversationId := .ofUsers bob.str user.str

def mailAt (sentAt : Int) : Json :=
  .obj [("to_user", .str user.str), ("from_user", .str bob.str), ("from_device", .str Demo.device.str),
    ("msg_id", .str "01AAA"), ("content_type", .str "megolm.message"), ("sent_at", .num (.int sentAt)),
    ("payload", .obj [("session_id", .str "S"), ("ciphertext", .str "S:hi")])]

example : (EnvelopeHeader.fromJson (mailAt 0)).isSome = true := by decide +kernel

/-- A device in 2023 that holds bob's session. -/
def morning : Devices Unit where
  device _ :=
    { db := { inbound := ObjectMap.empty.insert "S" ⟨.str bob.str, .str Demo.device.str, ⟨"S", 0⟩⟩ } }
  clock _ := 1700000000000

theorem morning_unused : Unused morning where
  messages _ := rfl
  conversations _ := rfl
  syncs _ := rfl
  blob := rfl
  reads := rfl

/-- A sync of the inbox, and bob's chat is opened. -/
def openBob : Fin 2 → DeviceTask Unit
  | 0 => .syncAndPublish () "" false 0
  | 1 => .refresh () bobAndUser

def timetable (sentAt : Int) : List (Fin 2 × DeviceChoice) :=
  List.replicate 22 (0, { objects := ObjectMap.empty.insert (keyInboxLive user.str "01AAA") (.json (mailAt sentAt)) })
    ++ List.replicate 5 (1, { outcome := .ok })

def markedTo (x : Int) (w : World (Fin 2) DeviceAct DeviceReply (Except Thrown Unit) (Devices Unit)) : Bool :=
  decide (w.sys.clock () = 1700000000000) && ((w.sys.device ()).db.conversation bobAndUser.str).any fun row =>
    decide (row.lastReadTimestamp = some x)

theorem markedTo_marked {x : Int} {w : World (Fin 2) DeviceAct DeviceReply (Except Thrown Unit) (Devices Unit)}
    (marked : markedTo x w = true) : w.sys.Marked () bobAndUser x ∧ w.sys.clock () = 1700000000000 := by
  obtain ⟨clock, read⟩ := Bool.and_eq_true_iff.mp marked
  obtain ⟨row, found, same⟩ := (Option.any_eq_true _ _).mp read
  exact ⟨⟨row, found, of_decide_eq_true same⟩, of_decide_eq_true clock⟩

/-- A message from the last day there is takes the watermark with it, 270 000 years ahead. -/
theorem future_read : Unused morning ∧ (EnvelopeHeader.fromJson (mailAt 8640000000000000)).isSome ∧
    ∃ w, Reach (devices calendar openBob) morning w ∧ w.sys.Marked () bobAndUser 8640000000000000 ∧
      w.sys.clock () = 1700000000000 ∧ ∀ skew ≤ 8600000000000000, ¬ w.sys.Bounded skew := by
  refine ⟨morning_unused, by decide +kernel, ?_⟩
  obtain ⟨w, reached, holds⟩ : ∃ w, World.follow (fun i => performBy (openBob i)) (devices calendar openBob).prog
      (timetable 8640000000000000) (.init morning) = some w ∧ markedTo 8640000000000000 w = true :=
    (Option.any_eq_true _ _).mp (by decide +kernel)
  obtain ⟨marked, clock⟩ := markedTo_marked holds
  refine ⟨w, steps_of_follow _ _ reached, marked, clock, fun skew small bounded => ?_⟩
  obtain ⟨r, _, close⟩ := bounded.latest () bobAndUser _ marked
  have within := close 0 fun e => (add_zero _).ge
  have here : w.sys.clock r.device = 1700000000000 := clock
  omega

/-- A message of the same morning is read in time. -/
theorem today_read : ∃ w, Reach (punctualDevices calendar 5000 openBob) morning w ∧
    w.sys.Marked () bobAndUser 1700000003000 ∧ w.sys.Bounded 5000 := by
  obtain ⟨w, reached, holds⟩ : ∃ w, World.follow (fun i => performPunctual calendar 5000 (openBob i))
      (punctualDevices calendar 5000 openBob).prog (timetable 1700000003000) (.init morning) = some w ∧
        markedTo 1700000003000 w = true := (Option.any_eq_true _ _).mp (by decide +kernel)
  have run : Reach (punctualDevices calendar 5000 openBob) morning w := steps_of_follow _ _ reached
  exact ⟨w, run, (markedTo_marked holds).1, watermarks_bounded morning_unused run⟩

end Samples

end Atmin.Web
