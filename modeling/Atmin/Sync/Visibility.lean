import Atmin.Interaction.Heard
import Atmin.Sync.Convergence
import Atmin.Sync.Rendering
import Atmin.Sync.Replays
import Atmin.Sync.Watermarks

/-!
# Messages that are seen

The chats and their messages are read from indexes on dates, and a row without a valid date is
in no index. The date of a message is its sender's. Where all of them are valid, whatever is
stored is seen; one that is not stays in the summary of its chat, and hides the honest messages
that come after it.
-/

namespace Atmin.Web

open Interaction

/-- In the range of the index on the dates of the messages. -/
def Timestamp.inIndex (t : Timestamp) : Bool := t.any fun t => decide (0 ≤ t ∧ t ≤ Database.latest)

/-- Every chat with an original is listed, and every original is loaded. -/
structure Visible (parse : String → Option Json) (db : Database) : Prop where
  conversations : ∀ key m, db.messages.get key = some m → isAmendment parse m.text = false →
    ∃ row ∈ db.loadConversations, row.conversationId.key = m.conversationId.key
  messages : ∀ key m, db.messages.get key = some m → isAmendment parse m.text = false →
    m ∈ db.loadMessages m.userId

/-- The originals of a batch are dated. -/
def Dated (parse : String → Option Json) (messages : List DecryptedMessage) : Prop :=
  ∀ m ∈ messages, isAmendment parse m.text = false → m.timestamp.inIndex = true

def LocalTask.Dated (parse : String → Option Json) : LocalTask → Prop
  | .save messages => Web.Dated parse messages
  | _ => True

/-! ### What holds of the database -/

section Database

variable {parse : String → Option Json} {db db' : Database}

/-- Originals are dated, and so are the summaries; each original is counted in one of them. -/
structure Indexed (parse : String → Option Json) (db : Database) : Prop where
  keyed : UnderOwnIds db
  dated : ∀ key m, db.messages.get key = some m → isAmendment parse m.text = false →
    m.timestamp.inIndex = true
  ranked : ∀ key row, db.conversations.get key = some row → row.lastMessageTimestamp.isSome = true
  counted : ∀ key m, db.messages.get key = some m → isAmendment parse m.text = false →
    ∃ id row, m.conversationId.key = some id ∧ db.conversations.get id = some row

theorem Indexed.empty : Indexed parse {} :=
  ⟨nofun, nofun, nofun, nofun⟩

theorem Indexed.visible (indexed : Indexed parse db) : Visible parse db where
  conversations key m found original := by
    obtain ⟨id, row, named, here⟩ := indexed.counted key m found original
    refine ⟨row, mem_loadConversations.mpr ⟨⟨id, here⟩, indexed.ranked id row here⟩, ?_⟩
    rw [indexed.keyed id row here, named]
  messages key m found original :=
    mem_loadMessages.mpr ⟨⟨key, found⟩, rfl, indexed.dated key m found original⟩

/-- The rows of a transaction: its originals are dated and counted, and its summaries dated. -/
structure WellDated (parse : String → Option Json) (messages : List StoredMessage)
    (rows : List StoredConversation) : Prop where
  dated : ∀ m ∈ messages, isAmendment parse m.text = false → m.timestamp.inIndex = true
  counted : ∀ m ∈ messages, isAmendment parse m.text = false →
    ∃ row ∈ rows, row.conversationId = m.conversationId
  ranked : ∀ row ∈ rows, row.lastMessageTimestamp.isSome = true

theorem WellDated.summaries {rows : List StoredConversation}
    (ranked : ∀ row ∈ rows, row.lastMessageTimestamp.isSome = true) : WellDated parse [] rows :=
  ⟨nofun, nofun, ranked⟩

theorem Indexed.batch (indexed : Indexed parse db) {messages : List StoredMessage}
    {rows : List StoredConversation} (saved : db.saveBatch messages rows = some db')
    (sound : WellDated parse messages rows) : Indexed parse db' := by
  have conversations := putRows_get (saveBatch_conversations saved)
  have stored := putRows_get (saveBatch_messages saved).1
  refine ⟨fun id row found => ?_, fun key m found original => ?_, fun id row found => ?_,
    fun key m found original => ?_⟩
  · rcases conversations id with ⟨kept, _⟩ | ⟨row', _, named, here⟩
    · exact indexed.keyed id row (kept ▸ found)
    · cases here.symm.trans found
      exact named
  · rcases stored key with ⟨kept, _⟩ | ⟨m', member, _, here⟩
    · exact indexed.dated key m (kept ▸ found) original
    · cases here.symm.trans found
      exact sound.dated _ member original
  · rcases conversations id with ⟨kept, _⟩ | ⟨row', member, _, here⟩
    · exact indexed.ranked id row (kept ▸ found)
    · cases here.symm.trans found
      exact sound.ranked _ member
  · rcases stored key with ⟨kept, _⟩ | ⟨m', member, _, here⟩
    · -- Its summary is still there, or was put anew.
      obtain ⟨id, row, named, before⟩ := indexed.counted key m (kept ▸ found) original
      rcases conversations id with ⟨same, _⟩ | ⟨row', _, _, now⟩
      · exact ⟨id, row, named, same.trans before⟩
      · exact ⟨id, row', named, now⟩
    · cases here.symm.trans found
      obtain ⟨row, inside, same⟩ := sound.counted _ member original
      rw [← same]
      exact putRows_there (saveBatch_conversations saved) inside

end Database

/-! ### What the transactions say and do -/

section Programs

variable {parse : String → Option Json} {render : Js → String} {userId : String}
  {messages : List DecryptedMessage}

/-- The transactions that keep the database as it is described. -/
def AdmitsDated (parse : String → Option Json) : Act → Prop
  | .putMessages messages rows => WellDated parse messages rows
  | .putConversations rows => WellDated parse [] rows
  | .getConversation _ | .getAllMessages _ => True
  | _ => False

/-- What a task reads in such a database. -/
def TellsDated (parse : String → Option Json) : (act : Act) → Reply act → Prop
  | .getConversation _, .ok (some row) => row.lastMessageTimestamp.isSome = true
  | .getAllMessages _, .ok rows =>
    ∀ m ∈ rows, isAmendment parse m.text = false → m.timestamp.inIndex = true
  | _, _ => True

def AdmitsLocal (parse : String → Option Json) : LocalAct → Prop
  | .saving act => AdmitsDated parse act
  | .putRead existing _ => existing.lastMessageTimestamp.isSome = true
  | _ => True

def TellsLocal (parse : String → Option Json) : (act : LocalAct) → LocalReply act → Prop
  | .saving act, r => TellsDated parse act r
  | .getConversation _, .ok (some row) => row.lastMessageTimestamp.isSome = true
  | _, _ => True

theorem inIndex_isSome {t : Timestamp} (dated : t.inIndex = true) : t.isSome = true := by
  cases t with
  | none => cases dated
  | some x => rfl

theorem bumpConversation_dated {m : DecryptedMessage} (dated : m.timestamp.isSome = true)
    {updates : List ConvUpdate} (before : ∀ u ∈ updates, u.ts.isSome = true) :
    ∀ u ∈ bumpConversation m updates, u.ts.isSome = true := by
  induction updates with
  | nil =>
    intro u member
    cases List.mem_singleton.mp member
    exact dated
  | cons u rest ih =>
    rw [List.forall_mem_cons] at before
    unfold bumpConversation
    split
    · split
      · exact List.forall_mem_cons.mpr ⟨dated, before.2⟩
      · exact List.forall_mem_cons.mpr before
    · exact List.forall_mem_cons.mpr ⟨before.1, ih before.2⟩

/-- Dated messages make dated updates. -/
theorem groupByConversation_dated (dated : Dated parse messages) {acc : List ConvUpdate × List Js}
    (before : ∀ u ∈ acc.1, u.ts.isSome = true) :
    ∀ u ∈ (groupByConversation parse messages acc).1, u.ts.isSome = true := by
  induction messages generalizing acc with
  | nil => exact before
  | cons m rest ih =>
    obtain ⟨updates, amended⟩ := acc
    have later : Dated parse rest := fun m' member => dated m' (List.mem_cons_of_mem _ member)
    unfold groupByConversation
    split
    · exact ih later before
    next plain =>
      have own := dated m List.mem_cons_self (by simpa using plain)
      exact ih later (bumpConversation_dated (inIndex_isSome own) before)

/-- Every original of a batch is counted in an update. -/
theorem groupByConversation_counts {m : DecryptedMessage} (member : m ∈ messages)
    (original : isAmendment parse m.text = false) (acc : List ConvUpdate × List Js) :
    ∃ u ∈ (groupByConversation parse messages acc).1, u.conversationId = m.conversationId := by
  by_contra none_
  push Not at none_
  have all := (groupByConversation_all parse (fun id => id ≠ m.conversationId) messages acc).1.mp none_
  exact all.2 m member original rfl

theorem summaryRow_dated {existing : Option StoredConversation} {u : ConvUpdate}
    (before : ∀ row, existing = some row → row.lastMessageTimestamp.isSome = true)
    (dated : u.ts.isSome = true) : (summaryRow existing u).lastMessageTimestamp.isSome = true := by
  obtain ⟨t, here⟩ := Option.isSome_iff_exists.mp dated
  cases existing with
  | none => simp [summaryRow, Timestamp.max, here]
  | some row =>
    obtain ⟨t', there⟩ := Option.isSome_iff_exists.mp (before row rfl)
    simp [summaryRow, Timestamp.max, here, there]

/-- The rows a program has read. -/
def RowsOf (ids : List Js) (rows : List (Option StoredConversation)) : Prop :=
  rows.length = ids.length ∧
    ∀ found ∈ rows, ∀ row, found = some row → row.lastMessageTimestamp.isSome = true

theorem getConversations_given (ids : List Js) : Prog.Given (AdmitsDated parse) (TellsDated parse)
    (fun r => ∀ rows, r = .ok rows → RowsOf ids rows) (getConversations ids).run := by
  induction ids with
  | nil =>
    refine .ret fun rows same => ?_
    cases same
    exact ⟨rfl, fun _ member => nomatch member⟩
  | cons id rest ih =>
    refine .op trivial fun r told => ?_
    cases r with
    | error e => exact .ret nofun
    | ok found =>
      change Prog.Given _ _ _ ((getConversations rest).run.bind _)
      refine Prog.Given.bind ih fun r read => ?_
      cases r with
      | error e => exact .ret nofun
      | ok rows =>
        refine .ret fun all same => ?_
        cases same
        obtain ⟨length, dated⟩ := read rows rfl
        refine ⟨by simp [length], List.forall_mem_cons.mpr ⟨fun row here => ?_, dated⟩⟩
        subst here
        exact told

/-- A summary has the date of an original. -/
theorem summarizeConversation_dated {msgs : List StoredMessage} {summary : Summary}
    (dated : ∀ m ∈ msgs, isAmendment parse m.text = false → m.timestamp.inIndex = true)
    (made : summarizeConversation parse render msgs = some summary) :
    summary.lastMessageTimestamp.isSome = true := by
  rw [summarizeConversation_eq] at made
  split at made
  next => cases made
  next first rest originals =>
    cases made
    rw [preview_timestamp]
    have member : latestOf first rest ∈ msgs.filter fun m => isOriginal parse m.text := by
      rw [originals]
      exact latestOf_mem first rest
    obtain ⟨inside, original⟩ := List.mem_filter.mp member
    refine inIndex_isSome (dated _ inside ?_)
    revert original
    unfold isOriginal isAmendment
    cases parseInner parse (latestOf first rest).text <;> simp [ParsedInner.isAmendment]

theorem correctedRow_dated {all : List StoredMessage} {id : Js} {current : Option StoredConversation}
    {row : StoredConversation}
    (dated : ∀ m ∈ all, isAmendment parse m.text = false → m.timestamp.inIndex = true)
    (corrected : correctedRow parse render all id current = some row) :
    row.lastMessageTimestamp.isSome = true := by
  simp only [correctedRow, Option.bind_eq_bind, Option.bind_eq_some_iff] at corrected
  obtain ⟨_, _, summary, made, rest⟩ := corrected
  split at rest
  next => cases rest
  next =>
    cases rest
    exact summarizeConversation_dated (fun m member => dated m (List.mem_of_mem_filter member)) made

theorem recomputeAmendedSummaries_given (ids : List Js) :
    Prog.Given (AdmitsDated parse) (TellsDated parse) (fun _ => True)
      (recomputeAmendedSummaries parse render userId ids).run := by
  refine .op trivial fun r told => ?_
  cases r with
  | error e => exact .ret trivial
  | ok all =>
    change Prog.Given _ _ _ ((getConversations ids).run.bind _)
    refine Prog.Given.bind (getConversations_given ids) fun r read => ?_
    cases r with
    | error e => exact .ret trivial
    | ok rows =>
      change Prog.Given _ _ _ (ite (List.isEmpty _ = true) (pure ()) _ : Async Unit).run
      split
      · exact .ret trivial
      · refine .op (.summaries ?_) fun r _ => ?_
        · intro row member
          obtain ⟨_, _, made⟩ := List.mem_filterMap.mp member
          exact correctedRow_dated told made
        · exact .ret trivial

/-- The batch that `saveMessages` puts. -/
theorem batch_sound (dated : Dated parse messages) {updates : List ConvUpdate}
    (grouped : (groupByConversation parse messages ([], [])).1 = updates)
    {rows : List (Option StoredConversation)}
    (read : RowsOf (updates.map ConvUpdate.conversationId) rows) :
    WellDated parse (messages.map (storedMessage userId))
      ((rows.zip updates).map fun (row, u) => summaryRow row u) := by
  subst grouped
  have updates : ∀ u ∈ (groupByConversation parse messages ([], [])).1, u.ts.isSome = true :=
    groupByConversation_dated dated fun _ member => nomatch member
  refine ⟨fun m member original => ?_, fun m member original => ?_, fun row member => ?_⟩
  · obtain ⟨m', inside, rfl⟩ := List.mem_map.mp member
    exact dated m' inside original
  · obtain ⟨m', inside, rfl⟩ := List.mem_map.mp member
    obtain ⟨u, here, same⟩ := groupByConversation_counts inside original ([], [])
    have zipped : u ∈ (rows.zip (groupByConversation parse messages ([], [])).1).map Prod.snd := by
      rw [List.map_snd_zip (by rw [read.1, List.length_map])]
      exact here
    obtain ⟨e, both, rfl⟩ := List.mem_map.mp zipped
    exact ⟨_, List.mem_map_of_mem both, same⟩
  · obtain ⟨⟨found, u⟩, both, rfl⟩ := List.mem_map.mp member
    obtain ⟨left, right⟩ := List.of_mem_zip both
    exact summaryRow_dated (read.2 found left) (updates u right)

theorem saveMessages_given (dated : Dated parse messages) :
    Prog.Given (AdmitsDated parse) (TellsDated parse) (fun _ => True)
      (saveMessages parse render userId messages).run := by
  unfold saveMessages
  split
  · exact .ret trivial
  · refine Prog.Given.bind (getConversations_given _) fun r read => ?_
    cases r with
    | error e => exact .ret trivial
    | ok rows =>
      refine .op (batch_sound dated rfl (read rows rfl)) fun r _ => ?_
      cases r with
      | error e => exact .ret trivial
      | ok _ =>
        dsimp only
        split
        · exact .ret trivial
        · exact recomputeAmendedSummaries_given _

theorem markConversationRead_given (id : ConversationId) (timestamp : Int) :
    Prog.Given (AdmitsLocal parse) (TellsLocal parse) (fun _ => True)
      (markConversationRead id timestamp).run := by
  refine .op trivial fun found told => ?_
  cases found with
  | error e => exact .ret trivial
  | ok found =>
    cases found with
    | none => exact .ret trivial
    | some existing =>
      change Prog.Given _ _ _ (if timestamp ≤ existing.lastRead then Prog.ret (Except.ok false) else _)
      split
      next => exact .ret trivial
      next =>
        refine .op told fun put _ => ?_
        cases put <;> exact .ret trivial

/-- Whatever a task does in such a database, it leaves one. -/
theorem LocalTask.given {account : Account} {task : LocalTask} (dated : task.Dated account.parse) :
    (task.prog account).Given (AdmitsLocal account.parse) (TellsLocal account.parse) fun _ => True := by
  have saves {h : Async Unit} (given : Prog.Given (AdmitsDated account.parse)
        (TellsDated account.parse) (fun _ => True) h.run) :
      (saving h).Given (AdmitsLocal account.parse) (TellsLocal account.parse) fun _ => True :=
    given.expand fun act admitted => .op admitted fun _ told => .ret told
  cases task with
  | save messages => exact saves (saveMessages_given dated)
  | recompute ids => exact saves (recomputeAmendedSummaries_given ids)
  | read id timestamp => exact (markConversationRead_given id timestamp).bind fun _ _ => .ret trivial
  | syncReadMarkers keyVersion =>
    refine Prog.Given.bind (P := fun _ => True) ?_ fun _ _ => .ret trivial
    have any := any_request (fun _ => trivial) (Web.syncReadMarkers keyVersion).run
    refine (Prog.Only.given (R := fun _ _ => True) any).expand fun act _ => ?_
    cases act with
    | markConversationRead id timestamp =>
      exact (markConversationRead_given id timestamp).weaken fun _ _ => trivial
    | _ => exact .op trivial fun _ _ => .ret trivial

end Programs

/-! ### Runs -/

section Runs

variable {ι : Type} {account : Account} {parse : String → Option Json} {s t : State}

theorem lookup_dated {db : Database} (indexed : Indexed parse db) {id : Js} {row : StoredConversation}
    (found : Database.lookup db.conversations id = .ok (some row)) :
    row.lastMessageTimestamp.isSome = true := by
  unfold Database.lookup at found
  split at found
  next key _ => exact indexed.ranked key row (Except.ok.inj found)
  next => cases found

/-- One transaction: the database stays as described, and the task is told so. -/
theorem performLocal_indexed {act : LocalAct} {c : LocalChoice} {r : LocalReply act}
    (admitted : AdmitsLocal parse act) (indexed : Indexed parse s.db)
    (done : performLocal act c s = some (r, t)) : Indexed parse t.db ∧ TellsLocal parse act r := by
  -- a write keeps the index if what it writes is dated
  have batch {messages : List StoredMessage} {rows : List StoredConversation} {r : Except Thrown Unit}
      (sound : WellDated parse messages rows)
      (wrote : writing (·.saveBatch messages rows) c.1 s = some (r, t)) : Indexed parse t.db := by
    rcases writing_cases wrote with ⟨rfl, _⟩ | ⟨db, saved, rfl, _⟩
    · exact indexed
    · exact indexed.batch saved sound
  cases act with
  -- what is read is dated since it is stored
  | getConversation id =>
    simp only [performLocal] at done
    obtain ⟨rfl, rfl | ⟨e, _, rfl⟩⟩ := reading_cases done
    · cases found : t.db.conversation id.str with
      | none => exact ⟨indexed, trivial⟩
      | some row => exact ⟨indexed, indexed.ranked _ row found⟩
    · exact ⟨indexed, trivial⟩
  | loadReadMarkers | storeGet | putBlob _ =>
    simp only [performLocal] at done
    obtain ⟨rfl, _⟩ := reading_cases done
    exact ⟨indexed, trivial⟩
  | putRead existing timestamp =>
    simp only [performLocal] at done
    refine ⟨batch (.summaries fun row member => ?_) done, trivial⟩
    rw [List.mem_singleton.mp member]
    exact admitted
  | saving act =>
    simp only [performLocal] at done
    cases act with
    | getConversation id =>
      simp only [perform] at done
      obtain ⟨rfl, rfl | ⟨e, _, rfl⟩⟩ := reading_cases done
      · cases found : Database.lookup t.db.conversations id with
        | error e => exact ⟨indexed, trivial⟩
        | ok found' =>
          cases found' with
          | none => exact ⟨indexed, trivial⟩
          | some row => exact ⟨indexed, lookup_dated indexed found⟩
      · exact ⟨indexed, trivial⟩
    | getAllMessages userId =>
      simp only [perform] at done
      obtain ⟨rfl, rfl | ⟨e, _, rfl⟩⟩ := reading_cases done
      · refine ⟨indexed, fun m member original => ?_⟩
        obtain ⟨⟨key, found⟩, _⟩ := mem_messagesOf.mp member
        exact indexed.dated key m found original
      · exact ⟨indexed, trivial⟩
    | putMessages messages rows =>
      simp only [perform] at done
      exact ⟨batch admitted done, trivial⟩
    | putConversations rows =>
      simp only [perform] at done
      exact ⟨batch admitted done, trivial⟩
    | _ => cases admitted

theorem device_contracts {tasks : ι → LocalTask} (dated : ∀ i, (tasks i).Dated account.parse) :
    Contracts (Rules.ofInvariant fun s => Indexed account.parse s.db) (device account tasks)
      (fun _ _ => True) fun _ _ _ => True := by
  refine ⟨fun _ _ _ _ _ _ _ => trivial, fun i s _ _ => ?_⟩
  have serves (act : LocalAct) (s : State) (r : LocalReply act) (t : State)
      (admitted : AdmitsLocal account.parse act) (indexed : Indexed account.parse s.db)
      (served : (device account tasks).exec i act s r t) :
      Indexed account.parse t.db ∧ True ∧ TellsLocal account.parse act r := by
    obtain ⟨c, done⟩ := served
    obtain ⟨kept, told⟩ := performLocal_indexed admitted indexed done
    exact ⟨kept, trivial, told⟩
  -- What a task has read stays true of what it has read.
  exact Safe.given (fun _ _ _ _ _ told => told) (fun _ _ _ _ _ told => told) serves
    fun _ _ => LocalTask.given (dated i)

/-- Where every original that is saved is dated, every chat is listed and every original loaded,
in every state that saves, reads and syncs reach in any order. -/
theorem visible_if_dated [DecidableEq ι] {tasks : ι → LocalTask}
    (dated : ∀ i, (tasks i).Dated account.parse)
    {w : World ι LocalAct LocalReply (Except Thrown Unit) State}
    (reached : Reach (device account tasks) {} w) : Visible account.parse w.sys.db := by
  have start : Secured (Rules.ofInvariant fun s => Indexed account.parse s.db) (device account tasks)
      (fun _ _ => True) (fun _ _ _ => True) (.init {}) :=
    .init Indexed.empty fun _ => trivial
  exact (start.run (device_contracts dated) reached).1.visible

end Runs

section Samples

open Demo

theorem device_follow {tasks : Fin 3 → LocalTask} (schedule : List (Fin 3 × LocalChoice))
    (P : World (Fin 3) LocalAct LocalReply (Except Thrown Unit) State → Bool)
    (followed : (World.follow (fun _ => performLocal) (device account tasks).prog schedule
      (.init {})).any P = true) : ∃ w, Reach (device account tasks) {} w ∧ P w = true := by
  obtain ⟨w, reached, holds⟩ := (Option.any_eq_true _ _).mp followed
  exact ⟨w, steps_of_follow _ _ reached, holds⟩

/-- Dated mail that is read afterwards. -/
theorem mail_visible : ∃ w, Reach (device account mailThenRead) {} w ∧
    (w.sys.db.messages.get [.str "m2"]).isSome = true ∧ Visible account.parse w.sys.db := by
  obtain ⟨w, reached, checked⟩ := @device_follow mailThenRead (steps [(0, 4), (1, 4)])
    (fun w => (w.sys.db.messages.get [.str "m2"]).isSome) (by decide)
  refine ⟨w, reached, checked, visible_if_dated (fun i => ?_) reached⟩
  match i with
  | 0 =>
    intro m member _
    rcases List.mem_pair.mp member with rfl | rfl <;> rfl
  | 1 => exact trivial
  | 2 => exact trivial

/-- A message with an invalid date, and an honest one after it. -/
def undatedThenMail : Fin 3 → LocalTask
  | 0 => .save [{ plainMail "m1" 0 with timestamp := none }]
  | 1 => .save [plainMail "m2" 7]
  | 2 => .recompute []

/-- The honest message is stored, and its chat is not listed. -/
theorem undated_hides : ∃ w, Reach (device account undatedThenMail) {} w ∧
    (w.sys.db.messages.get [.str "m2"]).isSome = true ∧ w.sys.db.loadConversations = [] ∧
      ¬ Visible account.parse w.sys.db := by
  obtain ⟨w, reached, checked⟩ := @device_follow undatedThenMail (steps [(0, 4), (1, 4)])
    (fun w => (w.sys.db.messages.get [.str "m2"]).any (fun m => !isAmendment account.parse m.text) &&
      w.sys.db.loadConversations.isEmpty) (by decide)
  obtain ⟨there, none_⟩ := Bool.and_eq_true_iff.mp checked
  obtain ⟨m, found, original⟩ := Option.any_eq_true _ _ |>.mp there
  have nothing := List.isEmpty_iff.mp none_
  refine ⟨w, reached, by rw [found]; rfl, nothing, fun visible => ?_⟩
  obtain ⟨row, listed, _⟩ := visible.conversations _ m found (by simpa using original)
  rw [nothing] at listed
  cases listed

end Samples

end Atmin.Web
