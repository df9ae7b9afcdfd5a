import Atmin.Sync.Saving
import Atmin.Web.ReadMarkers

/-!
# Read watermarks under concurrent transactions

Saves, recomputations, reads and marker syncs of one browser interleave transaction by
transaction. A summary is written without the watermark of its row, and a read writes the
row back that it found in an earlier transaction. As long as no summary is made of a row that
was read, and no task is overtaken between its transactions, watermarks only advance.
-/

namespace Atmin.Web

open Interaction

/-! ### The tasks of one browser -/

inductive LocalTask where
  | save (messages : List DecryptedMessage)
  | recompute (ids : List Js)
  | read (id : ConversationId) (timestamp : Int)
  | syncReadMarkers (keyVersion : Nat)

section Tasks

variable (account : Account)

def saving (h : Async Unit) : Prog LocalAct LocalReply (Except Thrown Unit) :=
  h.run.expand fun act => Prog.request (LocalAct.saving act)

/-- Each task, transaction by transaction. -/
def LocalTask.prog : LocalTask → Prog LocalAct LocalReply (Except Thrown Unit)
  | .save messages =>
    saving (saveMessages account.parse account.render account.userId.str messages)
  | .recompute ids =>
    saving (recomputeAmendedSummaries account.parse account.render account.userId.str ids)
  | .read id timestamp => (markConversationRead id timestamp).run.bind fun r => .ret (r.map fun _ => ())
  | .syncReadMarkers keyVersion =>
    ((Web.syncReadMarkers keyVersion).run.expand ReadAct.transactions).bind fun r => .ret (r.map fun _ => ())

end Tasks

/-- What the surroundings decide about a step: how it ends, and the blob that is downloaded. -/
abbrev LocalChoice := Outcome × ReadMarkersBlob

def performLocal : (act : LocalAct) → LocalChoice → State → Option (LocalReply act × State)
  | .saving act, c, s => perform act c.1 s
  | .getConversation id, c, s => reading (fun s => .ok (s.db.conversation id.str)) c.1 s
  | .putRead existing timestamp, c, s => writing (·.putRead existing timestamp) c.1 s
  | .loadReadMarkers, c, s => reading (fun s => .ok s.db.loadReadMarkers) c.1 s
  | .storeGet, c, s => reading (fun _ => .ok c.2) c.1 s
  | .putBlob _, c, s => reading (fun _ => .ok ()) c.1 s

/-- The watermark of a row; absent counts as zero. -/
def Database.lastRead (db : Database) (key : Key) : Int :=
  ((db.conversations.get key).map StoredConversation.lastRead).getD 0

/-- IndexedDB keeps each row under its own id. -/
def UnderOwnIds (db : Database) : Prop :=
  ∀ key row, db.conversations.get key = some row → row.conversationId.key = some key

variable {ι : Type}

/-- Any tasks, at any transactions of each other. -/
def device (account : Account) (tasks : ι → LocalTask) :
    System ι LocalAct LocalReply (Except Thrown Unit) State where
  prog i := (tasks i).prog account
  exec := execOf fun _ => performLocal

/-! ### What a task has seen and missed -/

/-- The rows that a transaction writes. -/
def LocalAct.rows : LocalAct → List StoredConversation
  | .saving (.putMessages _ rows) | .saving (.putConversations rows) => rows
  | .putRead existing timestamp => [{ existing with lastReadTimestamp := some timestamp }]
  | _ => []

/-- The watermarks it writes. -/
def LocalAct.marks (act : LocalAct) : List (Key × Int) :=
  act.rows.filterMap fun row => row.conversationId.key.map fun key => (key, row.lastRead)

/-- The database as it was when a task began to read, and the watermarks that the others have
written since. -/
structure Look where
  seen : Database
  missed : List (Key × Int) := []

/-- A device, and what each of its tasks looks at between its first read and its next write. -/
structure Watched (ι : Type) where
  state : State
  looks : ι → Option Look

namespace Watched

def init (s : State) : Watched ι := ⟨s, fun _ => none⟩

/-- A task that has read nothing looks at what is there now. -/
def look (w : Watched ι) (i : ι) : Look := (w.looks i).getD { seen := w.state.db }

/-- What the task itself looks at after a step. -/
def lookAfter (w : Watched ι) (i : ι) : LocalAct → Option Look
  | .getConversation _ => some { seen := w.state.db }
  | .saving (.getConversation _) | .saving (.getAllMessages _) => some (w.look i)
  | .saving _ | .putRead .. => none
  | .loadReadMarkers | .storeGet | .putBlob _ => w.looks i

variable [DecidableEq ι]

def next (w : Watched ι) (i : ι) (act : LocalAct) (c : LocalChoice) (t : State) : Watched ι where
  state := t
  looks j := if j = i then w.lookAfter i act else (w.looks j).map fun l =>
    { l with missed := l.missed ++ if c.1 = .ok then act.marks else [] }

variable {w : Watched ι} {i j : ι} {act : LocalAct} {c : LocalChoice} {t : State}

theorem looks_next_self : (w.next i act c t).looks i = w.lookAfter i act := if_pos rfl

theorem looks_next_other (other : j ≠ i) : (w.next i act c t).looks j = (w.looks j).map fun l =>
    { l with missed := l.missed ++ if c.1 = .ok then act.marks else [] } := if_neg other

end Watched

def LocalAct.readsBack : LocalAct → Bool
  | .putRead .. => true
  | _ => false

/-- A summary is written only of a row that had no watermark when the task began to read, and any
row only where no other task has put a later watermark since. -/
def Spares (i : ι) (act : LocalAct) (w : Watched ι) : Prop :=
  ∀ e ∈ act.marks, (act.readsBack = false → (w.look i).seen.lastRead e.1 ≤ 0) ∧
    ∀ m ∈ (w.look i).missed, m.1 = e.1 → m.2 ≤ e.2

instance (i : ι) (act : LocalAct) (w : Watched ι) : Decidable (Spares i act w) :=
  inferInstanceAs (Decidable (∀ _ ∈ _, _ ∧ _))

variable [DecidableEq ι]

def performSparing (i : ι) (act : LocalAct) (c : LocalChoice) (w : Watched ι) :
    Option (LocalReply act × Watched ι) :=
  if Spares i act w then (performLocal act c w.state).map fun done => (done.1, w.next i act c done.2)
  else none

/-- The tasks of the device, as long as each step meets the condition. -/
def sparing (account : Account) (tasks : ι → LocalTask) :
    System ι LocalAct LocalReply (Except Thrown Unit) (Watched ι) where
  prog i := (tasks i).prog account
  exec := execOf performSparing

theorem served_sparing {i : ι} {act : LocalAct} {w w' : Watched ι} {r : LocalReply act}
    (served : execOf performSparing i act w r w') : ∃ c, Spares i act w ∧
      performLocal act c w.state = some (r, w'.state) ∧ w' = w.next i act c w'.state := by
  obtain ⟨c, ran⟩ := served
  obtain ⟨spares, ran⟩ := Option.ite_none_right_eq_some.mp ran
  obtain ⟨done, performed, same⟩ := Option.map_eq_some_iff.mp ran
  cases same
  exact ⟨c, spares, performed, rfl⟩

/-- Its runs are runs of the device. -/
theorem sparing_runs {account : Account} {tasks : ι → LocalTask}
    {w w' : World ι LocalAct LocalReply (Except Thrown Unit) (Watched ι)}
    (run : Relation.ReflTransGen (Step (sparing account tasks)) w w') :
    Relation.ReflTransGen (Step (device account tasks)) ⟨w.sys.state, w.procs⟩ ⟨w'.sys.state, w'.procs⟩ := by
  refine steps_forget Watched.state (fun i act s r t served => ?_) run
  obtain ⟨c, _, done, _⟩ := served_sparing served
  exact ⟨c, done⟩

/-! ### What the tasks write -/

/-- Summaries have no watermark of their own. -/
def Plainly : Act → Prop
  | .putMessages _ rows | .putConversations rows => ∀ row ∈ rows, row.lastReadTimestamp = none
  | .getConversation _ | .getAllMessages _ => True
  | _ => False

def PlainlyLocal : LocalAct → Prop
  | .saving act => Plainly act
  | _ => True

theorem correctedRow_unread {parse : String → Option Json} {render : Js → String}
    {all : List StoredMessage} {id : Js} {current : Option StoredConversation} {row : StoredConversation}
    (made : correctedRow parse render all id current = some row) : row.lastReadTimestamp = none := by
  simp only [correctedRow, Option.bind_eq_bind, Option.bind_eq_some_iff] at made
  obtain ⟨_, _, _, _, rest⟩ := made
  split at rest
  next => cases rest
  next => cases rest; rfl

theorem recomputeAmendedSummaries_unread {ok : Act → Prop} (reads : ∀ id, ok (.getConversation id))
    (all : ∀ userId, ok (.getAllMessages userId))
    (writes : ∀ rows, (∀ row ∈ rows, row.lastReadTimestamp = none) → ok (.putConversations rows))
    (parse : String → Option Json) (render : Js → String) (userId : String) (ids : List Js) :
    Within ok (recomputeAmendedSummaries parse render userId ids) := by
  refine .bind (.await (.op (all userId) fun _ => .ret trivial)) fun _ =>
    .bind (getConversations_within reads ids) fun _ => ?_
  dsimp only
  split
  · exact .pure _
  · refine .await (.op (writes _ fun row member => ?_) fun _ => .ret trivial)
    obtain ⟨_, _, made⟩ := List.mem_filterMap.mp member
    exact correctedRow_unread made

/-- `saveMessages` stores the messages it is given, and summaries without a watermark. -/
theorem saveMessages_within {ok : Act → Prop} {userId : String} {messages : List DecryptedMessage}
    (reads : ∀ id, ok (.getConversation id)) (all : ∀ userId, ok (.getAllMessages userId))
    (puts : ∀ rows, (∀ row ∈ rows, row.lastReadTimestamp = none) →
      ok (.putMessages (messages.map (storedMessage userId)) rows))
    (writes : ∀ rows, (∀ row ∈ rows, row.lastReadTimestamp = none) → ok (.putConversations rows))
    (parse : String → Option Json) (render : Js → String) :
    Within ok (saveMessages parse render userId messages) := by
  unfold saveMessages
  split
  · exact .pure _
  · refine .bind (getConversations_within reads _) fun rows =>
      .bind (.await (.op (puts _ fun row member => ?_) fun _ => .ret trivial)) fun _ => ?_
    · obtain ⟨_, _, rfl⟩ := List.mem_map.mp member
      rfl
    · split
      · exact .pure _
      · exact recomputeAmendedSummaries_unread reads all writes _ _ _ _

theorem plain_rows {act : LocalAct} (plain : PlainlyLocal act) (summary : act.readsBack = false) :
    ∀ row ∈ act.rows, row.lastReadTimestamp = none := by
  cases act with
  | saving act =>
    cases act with
    | putMessages _ rows | putConversations rows => exact plain
    | _ => exact fun _ member => absurd member List.not_mem_nil
  | putRead _ _ => cases summary
  | _ => exact fun _ member => absurd member List.not_mem_nil

theorem any_request {Op : Type} {Res : Op → Type} {α : Type} {ok : Op → Prop} (all : ∀ o, ok o)
    (p : Prog Op Res α) : p.Only ok fun _ => True := by
  induction p with
  | ret a => exact .ret trivial
  | op o k ih => exact .op (all o) ih

/-! ### What a transaction does to the watermarks -/

theorem saveBatch_conversations {db db' : Database} {messages : List StoredMessage}
    {rows : List StoredConversation} (saved : db.saveBatch messages rows = some db') :
    Database.putRows StoredConversation.conversationId rows db.conversations =
      some db'.conversations := by
  unfold Database.saveBatch at saved
  split at saved
  next conversations => cases saved; exact conversations
  next => cases saved

/-- A transaction leaves the rows, or puts its own. -/
theorem performLocal_rows {act : LocalAct} {c : LocalChoice} {s t : State} {r : LocalReply act}
    (plain : PlainlyLocal act) (done : performLocal act c s = some (r, t)) :
    t.db.conversations = s.db.conversations ∨ c.1 = .ok ∧
      Database.putRows StoredConversation.conversationId act.rows s.db.conversations =
        some t.db.conversations := by
  have reads {α : Type} {reply : State → Except Thrown α} {r : Except Thrown α}
      (read : reading reply c.1 s = some (r, t)) : t.db.conversations = s.db.conversations := by
    rw [(reading_cases read).1]
  -- a transaction that throws writes nothing
  have writes {messages : List StoredMessage} {rows : List StoredConversation} {r : Except Thrown Unit}
      (wrote : writing (·.saveBatch messages rows) c.1 s = some (r, t)) :
      t.db.conversations = s.db.conversations ∨ c.1 = .ok ∧
        Database.putRows StoredConversation.conversationId rows s.db.conversations =
          some t.db.conversations := by
    rcases writing_cases wrote with ⟨rfl, _⟩ | ⟨db, written, rfl, answered⟩
    · exact .inl rfl
    · refine .inr ⟨?_, saveBatch_conversations written⟩
      by_contra failed
      cases outcome : c.1 with
      | ok => exact failed outcome
      | fail e =>
        rw [outcome, answered] at wrote
        cases wrote
  cases act with
  | getConversation _ | loadReadMarkers | storeGet | putBlob _ =>
    simp only [performLocal] at done
    exact .inl (reads done)
  -- the three that write rows
  | putRead existing timestamp =>
    simp only [performLocal] at done
    exact writes done
  | saving act =>
    simp only [performLocal] at done
    cases act with
    | getConversation _ | getAllMessages _ =>
      simp only [perform] at done
      exact .inl (reads done)
    | putMessages messages rows | putConversations rows =>
      simp only [perform] at done
      exact writes done
    | _ => cases plain

theorem mem_marks {act : LocalAct} {row : StoredConversation} {key : Key} (member : row ∈ act.rows)
    (named : row.conversationId.key = some key) : (key, row.lastRead) ∈ act.marks :=
  List.mem_filterMap.mpr ⟨row, member, by rw [named]; rfl⟩

/-- A watermark that is no longer what it was is one that the transaction writes. -/
theorem performLocal_mark {act : LocalAct} {c : LocalChoice} {s t : State} {r : LocalReply act}
    (plain : PlainlyLocal act) (done : performLocal act c s = some (r, t)) (key : Key) :
    t.db.lastRead key = s.db.lastRead key ∨ c.1 = .ok ∧ (key, t.db.lastRead key) ∈ act.marks := by
  rcases performLocal_rows plain done with kept | ⟨ok, put⟩
  · exact .inl (by rw [Database.lastRead, kept, Database.lastRead])
  · rcases putRows_get put key with ⟨kept, _⟩ | ⟨row, member, named, there⟩
    · exact .inl (by rw [Database.lastRead, kept, Database.lastRead])
    · have here : t.db.lastRead key = row.lastRead := by
        rw [Database.lastRead, there]
        rfl
      exact .inr ⟨ok, here ▸ mem_marks member named⟩

theorem performLocal_own {act : LocalAct} {c : LocalChoice} {s t : State} {r : LocalReply act}
    (plain : PlainlyLocal act) (done : performLocal act c s = some (r, t)) (own : UnderOwnIds s.db) :
    UnderOwnIds t.db := by
  intro key row found
  rcases performLocal_rows plain done with kept | ⟨_, put⟩
  · exact own key row (kept ▸ found)
  · rcases putRows_get put key with ⟨kept, _⟩ | ⟨other, _, named, there⟩
    · exact own key row (kept ▸ found)
    · rw [there] at found
      cases found
      exact named

/-! ### What is known of a look -/

/-- The others have not taken a watermark beyond what was seen and what was missed. -/
def Look.Bounds (l : Look) (db : Database) : Prop :=
  ∀ key, db.lastRead key ≤ l.seen.lastRead key ∨ ∃ m ∈ l.missed, m.1 = key ∧ db.lastRead key ≤ m.2

theorem Look.bounds_self (db : Database) : Look.Bounds { seen := db } db := fun _ => .inl le_rfl

/-- It holds of every look, whatever the task makes of it. -/
structure Watchful (w : Watched ι) : Prop where
  own : UnderOwnIds w.state.db
  seen : ∀ j l, w.looks j = some l → UnderOwnIds l.seen
  bounds : ∀ j l, w.looks j = some l → l.Bounds w.state.db

omit [DecidableEq ι] in
theorem Watchful.init {s : State} (own : UnderOwnIds s.db) : Watchful (.init s : Watched ι) where
  own := own
  seen _ _ here := by cases here
  bounds _ _ here := by cases here

omit [DecidableEq ι] in
theorem Watchful.look {w : Watched ι} (watchful : Watchful w) (i : ι) :
    UnderOwnIds (w.look i).seen ∧ (w.look i).Bounds w.state.db := by
  unfold Watched.look
  cases here : w.looks i with
  | none => exact ⟨watchful.own, Look.bounds_self _⟩
  | some l => exact ⟨watchful.seen i l here, watchful.bounds i l here⟩

/-- No watermark has gone down. -/
def Advances (s t : State) : Prop := ∀ key, s.db.lastRead key ≤ t.db.lastRead key

variable {w w' : Watched ι} {i : ι} {act : LocalAct} {c : LocalChoice} {t : State} {r : LocalReply act}

omit [DecidableEq ι] in
/-- What is written where the task was not overtaken, and is no less than what it saw. -/
theorem Watchful.advances (watchful : Watchful w) (plain : PlainlyLocal act) (spares : Spares i act w)
    (above : ∀ e ∈ act.marks, (w.look i).seen.lastRead e.1 ≤ e.2)
    (done : performLocal act c w.state = some (r, t)) : Advances w.state t := by
  intro key
  rcases performLocal_mark plain done key with same | ⟨_, mark⟩
  · exact same.ge
  · rcases (watchful.look i).2 key with saw | ⟨m, missed, rfl, late⟩
    · exact saw.trans (above _ mark)
    · exact late.trans ((spares _ mark).2 m missed rfl)

omit [DecidableEq ι] in
theorem lookAfter_bounds (watchful : Watchful w) (plain : PlainlyLocal act)
    (done : performLocal act c w.state = some (r, t)) {l : Look} (here : w.lookAfter i act = some l) :
    UnderOwnIds l.seen ∧ l.Bounds t.db := by
  have read {db : Database} (l : Look) (bounds : l.Bounds db)
      (same : db.conversations = t.db.conversations) : l.Bounds t.db := by
    intro key
    have kept : t.db.lastRead key = db.lastRead key := by rw [Database.lastRead, ← same, Database.lastRead]
    rw [kept]
    exact bounds key
  have nothing (rows : act.rows = []) : w.state.db.conversations = t.db.conversations := by
    rcases performLocal_rows plain done with same | ⟨_, put⟩
    · exact same.symm
    · rw [rows] at put
      exact Option.some.inj put
  cases act with
  | getConversation id =>
    cases here
    exact ⟨watchful.own, read _ (Look.bounds_self _) (nothing rfl)⟩
  | putRead existing timestamp => cases here
  | loadReadMarkers | storeGet | putBlob _ =>
    exact ⟨watchful.seen i l here, read _ (watchful.bounds i l here) (nothing rfl)⟩
  | saving act =>
    cases act with
    | getConversation _ | getAllMessages _ =>
      cases here
      exact ⟨(watchful.look i).1, read _ (watchful.look i).2 (nothing rfl)⟩
    | _ => cases here

/-- A step that is seen by all looks. -/
theorem Watchful.next (watchful : Watchful w) (plain : PlainlyLocal act)
    (done : performLocal act c w.state = some (r, t)) : Watchful (w.next i act c t) := by
  refine ⟨performLocal_own plain done watchful.own, fun j l here => ?_, fun j l here => ?_⟩
  · by_cases same : j = i
    · subst same
      rw [Watched.looks_next_self] at here
      exact (lookAfter_bounds watchful plain done here).1
    · rw [Watched.looks_next_other same] at here
      obtain ⟨before, there, rfl⟩ := Option.map_eq_some_iff.mp here
      exact watchful.seen j before there
  · by_cases same : j = i
    · subst same
      rw [Watched.looks_next_self] at here
      exact (lookAfter_bounds watchful plain done here).2
    · rw [Watched.looks_next_other same] at here
      obtain ⟨before, there, rfl⟩ := Option.map_eq_some_iff.mp here
      intro key
      rcases performLocal_mark plain done key with kept | ⟨ok, mark⟩
      · -- A watermark that stays is bounded as before.
        have still := watchful.bounds j before there key
        rw [← kept] at still
        refine still.imp_right ?_
        rintro ⟨m, missed, named, below⟩
        exact ⟨m, List.mem_append_left _ missed, named, below⟩
      · refine .inr ⟨(key, t.db.lastRead key), List.mem_append_right _ ?_, rfl, le_rfl⟩
        rw [if_pos ok]
        exact mark

/-! ### Runs -/

/-- The looks stay what they are, whatever else is missed. -/
def SameSight (j : ι) (w w' : Watched ι) : Prop :=
  (w'.looks j).map Look.seen = (w.looks j).map Look.seen

def advancing : Rules ι (Watched ι) where
  inv := Watchful
  rely := SameSight
  guar i w w' := Advances w.state w'.state ∧ ∀ j, j ≠ i → SameSight j w w'
  compat _ j apart _ _ _ _ guar := guar.2 j (Ne.symm apart)

theorem sameSight_next {j : ι} (other : j ≠ i) : SameSight j w (w.next i act c t) := by
  rw [SameSight, Watched.looks_next_other other, Option.map_map]
  rfl

section Runs

variable {account : Account} {tasks : ι → LocalTask}

/-- A step of which no more is known. -/
theorem serves_above {P : Watched ι → Prop} (plain : PlainlyLocal act)
    (above : ∀ w, Watchful w → P w → Spares i act w → ∀ e ∈ act.marks, (w.look i).seen.lastRead e.1 ≤ e.2) :
    Serves advancing (sparing account tasks).exec i act P fun _ _ => True := by
  intro w r w' watchful holds served
  obtain ⟨c, spares, done, same⟩ := served_sparing served
  have advances := watchful.advances plain spares (above w watchful holds spares) done
  refine ⟨same ▸ watchful.next plain done, ⟨advances, fun j other => ?_⟩, trivial⟩
  rw [same]
  exact sameSight_next other

/-- Summaries have no watermark, and the rows they are put over had none. -/
theorem serves_plain (plain : PlainlyLocal act) (summary : act.readsBack = false) :
    Serves advancing (sparing account tasks).exec i act (fun _ => True) fun _ _ => True := by
  refine serves_above plain fun w _ _ spares e member => ?_
  obtain ⟨row, inside, made⟩ := List.mem_filterMap.mp member
  obtain ⟨key, named, rfl⟩ := Option.map_eq_some_iff.mp made
  have unread : row.lastRead = 0 := by
    rw [StoredConversation.lastRead, plain_rows plain summary row inside]
    rfl
  rw [unread]
  exact (spares _ member).1 summary

/-- The row that a read found under an id. -/
def SawRow (i : ι) (id : ConversationId) (existing : StoredConversation) :
    (advancing : Rules ι (Watched ι)).Assertion i where
  holds w := ∃ seen, (w.looks i).map Look.seen = some seen ∧ seen.conversation id.str = some existing
  stable := by
    rintro w w' _ _ same ⟨seen, here, found⟩
    exact ⟨seen, same.trans here, found⟩

theorem serves_getConversation (id : ConversationId) :
    Serves advancing (sparing account tasks).exec i (.getConversation id) (fun _ => True)
      fun r w => ∀ existing, r = .ok (some existing) → SawRow i id existing w := by
  intro w r w' watchful _ served
  have plain : PlainlyLocal (.getConversation id) := trivial
  obtain ⟨kept, guar, _⟩ := serves_plain plain rfl w r w' watchful trivial served
  refine ⟨kept, guar, ?_⟩
  rintro existing rfl
  obtain ⟨c, _, done, same⟩ := served_sparing served
  simp only [performLocal] at done
  rcases (reading_cases done).2 with found | ⟨e, _, failed⟩
  · refine ⟨w.state.db, ?_, (Except.ok.inj found).symm⟩
    rw [same, Watched.looks_next_self]
    rfl
  · cases failed

/-- A read puts back the row it found, with a later watermark. -/
theorem serves_putRead {id : ConversationId} {existing : StoredConversation} {timestamp : Int}
    (later : existing.lastRead < timestamp) : Serves advancing (sparing account tasks).exec i
      (.putRead existing timestamp) (SawRow i id existing) fun _ _ => True := by
  refine serves_above trivial fun w watchful saw _ e member => ?_
  obtain ⟨seen, here, found⟩ := saw
  obtain ⟨l, looks, rfl⟩ := Option.map_eq_some_iff.mp here
  have look : w.look i = l := by rw [Watched.look, looks, Option.getD_some]
  have named := watchful.seen i l looks _ existing found
  have mark : e = ([.str id.str], timestamp) := by
    simpa [LocalAct.marks, LocalAct.rows, named, StoredConversation.lastRead] using member
  have was : l.seen.lastRead [.str id.str] = existing.lastRead := by
    rw [Database.lastRead]
    exact congrArg (fun row => (row.map StoredConversation.lastRead).getD 0) found
  rw [mark, look, was]
  exact later.le

theorem safe_read (id : ConversationId) (timestamp : Int) (w : Watched ι) :
    Safe advancing (sparing account tasks).exec i (fun _ _ => True)
      (markConversationRead id timestamp).run w := by
  refine .request (.pure True) trivial (serves_getConversation id) fun found w saw => ?_
  cases found with
  | error e => exact fun _ _ => trivial
  | ok found =>
    cases found with
    | none => exact fun _ _ => trivial
    | some existing =>
      change Safe advancing (sparing account tasks).exec i (fun _ _ => True)
        (if timestamp ≤ existing.lastRead then Prog.ret (Except.ok false) else _) w
      split
      next => exact fun _ _ => trivial
      next later =>
        refine .request (SawRow i id existing) (saw existing rfl) (serves_putRead (not_le.mp later))
          fun put w _ => ?_
        cases put <;> exact fun _ _ => trivial

theorem safe_saving {h : Async Unit} (within : Within Plainly h) (w : Watched ι) :
    Safe advancing (sparing account tasks).exec i (fun _ _ => True) (saving h) w := by
  have plain : (saving h).Only (fun act => PlainlyLocal act ∧ act.readsBack = false) fun _ => True := by
    apply Prog.Only.expand within
    intro act plain
    exact .op ⟨plain, rfl⟩ fun _ => .ret trivial
  exact (Safe.only (.pure True) (fun act ok => serves_plain ok.1 ok.2) plain trivial).weaken
    fun _ _ _ => trivial

theorem safe_task (task : LocalTask) (w : Watched ι) :
    Safe advancing (sparing account tasks).exec i (fun _ _ => True) (task.prog account) w := by
  have reads (id : Js) : Plainly (.getConversation id) := trivial
  have all (userId : String) : Plainly (.getAllMessages userId) := trivial
  have writes (rows : List StoredConversation) (unread : ∀ row ∈ rows, row.lastReadTimestamp = none) :
      Plainly (.putConversations rows) := unread
  cases task with
  | save messages => exact safe_saving (saveMessages_within reads all (fun _ unread => unread) writes _ _) w
  | recompute ids => exact safe_saving (recomputeAmendedSummaries_unread reads all writes _ _ _ _) w
  | read id timestamp => exact (safe_read id timestamp w).bind fun _ _ _ => fun _ _ => trivial
  | syncReadMarkers keyVersion =>
    refine Safe.bind (P := fun _ _ => True) (Safe.expand (.pure True) (fun act w _ => ?_) trivial)
      fun _ _ _ => fun _ _ => trivial
    cases act with
    | markConversationRead id timestamp => exact safe_read id timestamp w
    | _ => exact .request (.pure True) trivial (serves_plain trivial rfl) fun _ _ _ => fun _ _ => trivial

theorem sparing_contracts : Contracts advancing (sparing account tasks) (fun _ _ => True)
    fun _ _ _ => True :=
  ⟨fun _ _ _ _ _ _ _ => trivial, fun i w _ _ => safe_task (tasks i) w⟩

/-- In every run whose steps meet the condition, watermarks only advance. -/
theorem watermarks_advance (account : Account) (tasks : ι → LocalTask) {s : State}
    (own : UnderOwnIds s.db)
    {w w' : World ι LocalAct LocalReply (Except Thrown Unit) (Watched ι)}
    (reached : Reach (sparing account tasks) (.init s) w)
    (run : Relation.ReflTransGen (Step (sparing account tasks)) w w') (key : Key) :
    w.sys.state.db.lastRead key ≤ w'.sys.state.db.lastRead key := by
  have contracts : Contracts advancing (sparing account tasks) (fun _ _ => True) fun _ _ _ => True :=
    sparing_contracts
  have start : Secured advancing (sparing account tasks) (fun _ _ => True) (fun _ _ _ => True)
      (.init (.init s)) := .init (.init own) fun _ => trivial
  exact (start.run contracts reached).relates contracts (fun w w' => Advances w.state w'.state)
    (fun _ _ => le_rfl) (fun _ _ _ first last key => (first key).trans (last key))
    (fun _ _ _ _ _ guar => guar.1) run key

end Runs

section Samples

open Demo

def alice_bob : ConversationId := ⟨"dm:a:b"⟩

theorem alice_bob_plain : alice_bob.Plain := by decide

def plainMail (msgId : String) (date : Int) : DecryptedMessage where
  id := .str msgId
  conversationId := .str alice_bob.str
  fromUser := .str "b"
  fromDevice := .str "d"
  text := "hi"
  timestamp := some date

/-- Two messages that arrive unread, and two reads up to them. -/
def mailThenRead : Fin 3 → LocalTask
  | 0 => .save [plainMail "m1" 5, plainMail "m2" 7]
  | 1 => .read alice_bob 5
  | 2 => .read alice_bob 7

/-- Some steps of each task after the other, none of which fails. -/
def steps (tasks : List (Fin 3 × Nat)) : List (Fin 3 × LocalChoice) :=
  tasks.flatMap fun e => List.replicate e.2 (e.1, .ok, ⟨0, .empty⟩)

def markedAt (s : State) : Int := s.db.lastRead [.str alice_bob.str]

/-- Both reads find the chat unread, and the later watermark is put last. -/
theorem mail_read : ∃ w w', Reach (sparing account mailThenRead) (.init {}) w ∧
    Relation.ReflTransGen (Step (sparing account mailThenRead)) w w' ∧
    markedAt w.sys.state = 5 ∧ markedAt w'.sys.state = 7 ∧ markedAt w.sys.state ≤ markedAt w'.sys.state := by
  have own : UnderOwnIds ({} : State).db := fun _ _ found => by cases found
  obtain ⟨w, w', reached, run, checked⟩ := reach_twice_of_follow performSparing
    (sparing account mailThenRead).prog (.init {}) (steps [(0, 4), (1, 2), (2, 2), (1, 2)]) (steps [(2, 2)])
    (fun w w' => decide (markedAt w.sys.state = 5 ∧ markedAt w'.sys.state = 7)) (by decide +kernel)
  obtain ⟨first, last⟩ := of_decide_eq_true checked
  exact ⟨w, w', reached, run, first, last, watermarks_advance account mailThenRead own reached run _⟩

/-- A message that is saved after the chat was read. -/
def readThenMail : Fin 3 → LocalTask
  | 0 => .save [plainMail "m1" 5]
  | 1 => .read alice_bob 5
  | 2 => .save [plainMail "m2" 6]

/-- Its summary drops the watermark. -/
theorem mail_unreads : ∃ w w', Reach (device account readThenMail) {} w ∧
    Relation.ReflTransGen (Step (device account readThenMail)) w w' ∧
    markedAt w.sys = 5 ∧ markedAt w'.sys = 0 := by
  obtain ⟨w, w', reached, run, checked⟩ := reach_twice_of_follow (fun _ => performLocal)
    (device account readThenMail).prog {} (steps [(0, 4), (1, 4)]) (steps [(2, 4)])
    (fun w w' => decide (markedAt w.sys = 5 ∧ markedAt w'.sys = 0)) (by decide +kernel)
  obtain ⟨first, last⟩ := of_decide_eq_true checked
  exact ⟨w, w', reached, run, first, last⟩

end Samples

end Atmin.Web
