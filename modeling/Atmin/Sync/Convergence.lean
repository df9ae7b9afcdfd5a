import Atmin.Interaction.Register
import Atmin.Sync.Watermarks

/-!
# Read markers of many devices

The devices of one account read chats and exchange their watermarks through one blob that
is put whole, without any comparison. Whatever interleaves, the blob and the devices stay
below what was read, and each device keeps what it read; so once reading stops, two rounds
of syncs are an exchange of a join through a register.
-/

namespace Atmin.Web

open Interaction

/-! ### Devices and their tasks -/

structure Fleet (ι : Type) where
  device : ι → Database
  blob : Option ReadMarkersBlob := none
  /-- Every watermark a device recorded so far. -/
  recorded : List (ConversationId × Int) := []

variable {ι : Type} [DecidableEq ι]

/-- The steps of one device. No request fails, and a mark is one step. -/
def performOn (d : ι) : (act : ReadAct) → Fleet ι → Option (ReadReply act × Fleet ι)
  | .storeGet, s => some (match s.blob with | some blob => .ok blob | none => .error .failed, s)
  | .loadReadMarkers, s => some (.ok (s.device d).loadReadMarkers, s)
  | .markConversationRead id timestamp, s =>
    ((s.device d).markConversationRead id timestamp).map fun e => (.ok e.1,
      { s with
        device := Function.update s.device d e.2
        recorded := if e.1 then (id, timestamp) :: s.recorded else s.recorded })
  | .putBlob blob, s => some (.ok (), { s with blob := some blob })

/-- The id of a chat that the app opens. -/
structure ChatId extends ConversationId where
  plain : toConversationId.Plain

/-- A chat that is read on a device, or a sync of a device. -/
inductive FleetTask (ι : Type) where
  | read (d : ι) (id : ChatId) (timestamp : Int)
  | sync (d : ι)

def FleetTask.device : FleetTask ι → ι
  | .read d _ _ => d
  | .sync d => d

def FleetTask.prog (keyVersion : Nat) : FleetTask ι → Prog ReadAct ReadReply Unit
  | .read _ id timestamp => .op (.markConversationRead id.toConversationId timestamp) fun _ => .ret ()
  | .sync _ => (syncReadMarkers keyVersion).run.bind fun _ => .ret ()

def fleet {κ : Type} (keyVersion : Nat) (tasks : κ → FleetTask ι) :
    System κ ReadAct ReadReply Unit (Fleet ι) where
  prog i := (tasks i).prog keyVersion
  exec i act s r t := performOn (tasks i).device act s = some (r, t)

/-- Some devices sync, one after the other. -/
def syncAll (keyVersion : Nat) : List ι → Fleet ι → Option (Fleet ι)
  | [], s => some s
  | d :: rest, s => match (syncReadMarkers keyVersion).run.execute (performOn d) s with
    | some (.ok _, t) => syncAll keyVersion rest t
    | _ => none

def Database.watermark (db : Database) (id : ConversationId) : Int := db.lastRead [.str id.str]

def Fleet.blobAt (s : Fleet ι) (id : ConversationId) : Int :=
  ((s.blob.map ReadMarkersBlob.markers).getD .empty).at id

/-! ### Markers -/

theorem ConversationId.ofJs_iff {x : Js} {id : ConversationId} : ofJs x = some id ↔ x = .str id.str := by
  constructor
  · intro read
    unfold ofJs at read
    split at read
    next => cases read; rfl
    next => cases read
  · rintro rfl
    exact ofJs_str id

/-- What a row contributes to the markers. -/
def Says (row : StoredConversation) (id : ConversationId) (t : Int) : Prop :=
  row.conversationId = .str id.str ∧ row.lastReadTimestamp = some t ∧ t ≠ 0

theorem addMarker_get (markers : Markers) (row : StoredConversation) {id : ConversationId}
    (plain : id.Plain)
    (t : Int) : (Database.addMarker markers row).get id = some t ↔
      Says row id t ∨ (markers.get id = some t ∧ ∀ t', ¬ Says row id t') := by
  -- a row that says nothing of this id leaves its marker
  have silent (none_ : ∀ t', ¬ Says row id t') : markers.get id = some t ↔
      Says row id t ∨ (markers.get id = some t ∧ ∀ t', ¬ Says row id t') :=
    ⟨fun old => .inr ⟨old, none_⟩, fun either => either.elim (fun spoken => absurd spoken (none_ t)) And.left⟩
  unfold Database.addMarker
  split
  next id' t' named read =>
    have name := ConversationId.ofJs_iff.mp named
    split
    -- nor does a watermark of zero count
    next zero =>
      refine silent fun t'' spoken => spoken.2.2 ?_
      have same := spoken.2.1
      rw [read] at same
      exact (Option.some.inj same).symm.trans zero
    next some_ =>
      rw [Markers.get_assign]
      by_cases same : id = id'
      · -- the row is about this id; `__proto__` alone would be dropped
        subst same
        rw [if_pos ⟨rfl, fun dropped => plain.ne_proto dropped.2⟩]
        constructor
        · rintro ⟨⟩
          exact .inl ⟨name, read, some_⟩
        · rintro (spoken | ⟨_, none_⟩)
          · exact read.symm.trans spoken.2.1
          · exact absurd ⟨name, read, some_⟩ (none_ t')
      · rw [if_neg fun both => same both.1]
        refine silent fun t'' spoken => same ?_
        have equal : Js.str id.str = .str id'.str := spoken.1.symm.trans name
        obtain ⟨str⟩ := id
        obtain ⟨str'⟩ := id'
        cases equal
        rfl
  -- a row without a watermark, or under an id that is no string
  next unread =>
    refine silent fun t' spoken => ?_
    exact unread id t' (ConversationId.ofJs_iff.mpr spoken.1) spoken.2.1

theorem addMarker_source {markers : Markers} {row : StoredConversation} {id : ConversationId} {t : Int}
    (found : (Database.addMarker markers row).get id = some t) : Says row id t ∨ markers.get id = some t := by
  unfold Database.addMarker at found
  split at found
  next id' t' named read =>
    split at found
    next => exact .inr found
    next some_ =>
      rw [Markers.get_assign] at found
      split at found
      next same =>
        cases found
        exact .inl ⟨same.1 ▸ ConversationId.ofJs_iff.mp named, read, some_⟩
      next => exact .inr found
  next => exact .inr found

theorem foldl_markers_source {rows : List StoredConversation} {acc : Markers} {id : ConversationId}
    {t : Int}
    (found : (rows.foldl Database.addMarker acc).get id = some t) :
    (∃ row ∈ rows, Says row id t) ∨ acc.get id = some t := by
  induction rows generalizing acc with
  | nil => exact .inr found
  | cons row rest ih =>
    rcases ih found with ⟨r, member, spoken⟩ | old
    · exact .inl ⟨r, List.mem_cons_of_mem _ member, spoken⟩
    · rcases addMarker_source old with spoken | older
      · exact .inl ⟨row, List.mem_cons_self, spoken⟩
      · exact .inr older

theorem foldl_markers {id : ConversationId} (plain : id.Plain) {t : Int}
    (rows : List StoredConversation) (acc : Markers)
    (once : ∀ row ∈ rows, ∀ row' ∈ rows, row.conversationId = .str id.str →
      row'.conversationId = .str id.str → row = row') :
    (rows.foldl Database.addMarker acc).get id = some t ↔
      (∃ row ∈ rows, Says row id t) ∨ (acc.get id = some t ∧ ∀ row ∈ rows, ∀ t', ¬ Says row id t') := by
  induction rows generalizing acc with
  | nil => simp
  | cons row rest ih =>
    have once' : ∀ r ∈ rest, ∀ r' ∈ rest, r.conversationId = .str id.str →
        r'.conversationId = .str id.str → r = r' := fun r member r' member' =>
      once r (List.mem_cons_of_mem _ member) r' (List.mem_cons_of_mem _ member')
    rw [List.foldl_cons, ih _ once', addMarker_get _ _ plain]
    constructor
    · rintro (⟨r, member, spoken⟩ | ⟨spoken | ⟨old, none_⟩, silent⟩)
      · exact .inl ⟨r, List.mem_cons_of_mem _ member, spoken⟩
      · exact .inl ⟨row, List.mem_cons_self, spoken⟩
      · exact .inr ⟨old, List.forall_mem_cons.mpr ⟨none_, silent⟩⟩
    · rintro (⟨r, member, spoken⟩ | ⟨old, silent⟩)
      · rcases List.mem_cons.mp member with rfl | later
        · by_cases again : ∃ r' ∈ rest, ∃ t', Says r' id t'
          · obtain ⟨r', member', t', spoken'⟩ := again
            have same := once r List.mem_cons_self r' (List.mem_cons_of_mem _ member') spoken.1 spoken'.1
            exact .inl ⟨r', member', same ▸ spoken⟩
          · refine .inr ⟨.inl spoken, fun r' member' t' spoken' => again ⟨r', member', t', spoken'⟩⟩
        · exact .inl ⟨r, later, spoken⟩
      · obtain ⟨none_, silent'⟩ := List.forall_mem_cons.mp silent
        exact .inr ⟨.inr ⟨old, none_⟩, silent'⟩

theorem key_str_iff {x : Js} {s : String} : x.key = some [.str s] ↔ x = .str s := by
  constructor
  · intro named
    cases x with
    | str s' => simpa using named
    | arr xs =>
      simp only [Js.key, Option.map_eq_some_iff] at named
      obtain ⟨_, _, equal⟩ := named
      simp at equal
    | foreign v => cases v <;> simp [Js.key] at named
    | _ => simp [Js.key] at named
  · rintro rfl
    exact Js.key_str s

theorem mem_loadConversations {db : Database} {row : StoredConversation} :
    row ∈ db.loadConversations ↔
      (∃ key, db.conversations.get key = some row) ∧ row.lastMessageTimestamp.isSome := by
  have stored : (∃ e ∈ db.conversations.entries, e.2 = row) ↔
      ∃ key, db.conversations.get key = some row := by
    constructor
    · rintro ⟨e, member, rfl⟩
      exact ⟨e.1, ObjectMap.get_of_mem member⟩
    · rintro ⟨key, found⟩
      exact ⟨(key, row), ObjectMap.mem_of_get found, rfl⟩
  simp only [Database.loadConversations, List.mem_reverse, List.mem_insertionSort, List.mem_filter,
    List.mem_map, stored]

theorem UnderOwnIds.here {db : Database} (keyed : UnderOwnIds db) {row : StoredConversation}
    {id : ConversationId}
    (listed : row ∈ db.loadConversations) (name : row.conversationId = .str id.str) :
    db.conversation id.str = some row := by
  obtain ⟨⟨key, found⟩, _⟩ := mem_loadConversations.mp listed
  have named := keyed key row found
  rw [name, Js.key_str, Option.some.injEq] at named
  subst named
  exact found

theorem loadReadMarkers_source {db : Database} (keyed : UnderOwnIds db) {id : ConversationId} {t : Int}
    (found : db.loadReadMarkers.get id = some t) : ∃ row, db.conversation id.str = some row ∧
      row.lastMessageTimestamp.isSome ∧ row.lastReadTimestamp = some t ∧ t ≠ 0 := by
  rcases foldl_markers_source found with ⟨row, listed, name, read, some_⟩ | none_
  · exact ⟨row, keyed.here listed name, (mem_loadConversations.mp listed).2, read, some_⟩
  · cases none_

/-- The markers are those of the listed rows. -/
theorem loadReadMarkers_get {db : Database} (keyed : UnderOwnIds db) {id : ConversationId}
    (plain : id.Plain)
    (t : Int) : db.loadReadMarkers.get id = some t ↔ ∃ row, db.conversation id.str = some row ∧
      row.lastMessageTimestamp.isSome ∧ row.lastReadTimestamp = some t ∧ t ≠ 0 := by
  refine ⟨loadReadMarkers_source keyed, ?_⟩
  rintro ⟨row, found, dated, read, some_⟩
  rw [Database.loadReadMarkers, foldl_markers plain]
  · refine .inl ⟨row, mem_loadConversations.mpr ⟨⟨_, found⟩, dated⟩, ?_, read, some_⟩
    exact key_str_iff.mp (keyed _ row found)
  · intro row listed row' listed' name name'
    have first := keyed.here listed name
    rw [keyed.here listed' name'] at first
    exact (Option.some.inj first).symm

theorem raise_at (out : Markers) (e : ConversationId × Int) (id : ConversationId) :
    out.at id ≤ (out.raise e).at id ∧ (e.1.Plain → e.2 ≤ (out.raise e).at e.1) ∧
      ∀ t, (out.raise e).get id = some t → out.get id = some t ∨ (id, t) = e := by
  unfold Markers.raise
  split
  next later =>
    rw [Markers.assign_of_below later]
    refine ⟨?_, fun _ => by simp [Markers.at], fun t found => ?_⟩
    · by_cases same : id = e.1
      · subst same
        rw [Markers.at, Markers.at, ObjectMap.get_set, if_pos rfl]
        cases found : out.get e.1 with
        | none => exact ((Markers.below_of_absent found _).mp later).2.le
        | some t => exact ((Markers.below_of_get found _).mp later).le
      · simp [Markers.at, same]
    · rw [ObjectMap.get_set] at found
      split at found
      next same =>
        cases found
        exact .inr (by rw [same])
      next => exact .inl found
  next notLater =>
    exact ⟨le_rfl, fun plain => not_lt.mp fun later => notLater ((Markers.below_iff plain).mpr later),
      fun t found => .inl found⟩

/-- Merging joins: nothing is lost, and nothing is made up. -/
theorem foldl_raise (entries : List (ConversationId × Int)) (a : Markers) (id : ConversationId) :
    a.at id ≤ Markers.at (entries.foldl Markers.raise a) id ∧
      (id.Plain → ∀ t, (id, t) ∈ entries → t ≤ Markers.at (entries.foldl Markers.raise a) id) ∧
      ∀ t, (entries.foldl Markers.raise a).get id = some t → a.get id = some t ∨ (id, t) ∈ entries := by
  induction entries generalizing a with
  | nil => simp
  | cons e rest ih =>
    obtain ⟨kept, above, source⟩ := ih (a.raise e)
    obtain ⟨first, there, made⟩ := raise_at a e id
    refine ⟨first.trans kept, fun plain t member => ?_, fun t found => ?_⟩
    · rcases List.mem_cons.mp member with rfl | later
      · exact (there plain).trans kept
      · exact above plain t later
    · rcases source t found with old | later
      · rcases made t old with older | rfl
        · exact .inl older
        · exact .inr List.mem_cons_self
      · exact .inr (List.mem_cons_of_mem _ later)

def Positive (m : Markers) : Prop := ∀ id t, m.get id = some t → 0 < t

theorem Positive.nonneg {m : Markers} (positive : Positive m) (id : ConversationId) : 0 ≤ m.at id := by
  unfold Markers.at
  cases found : m.get id with
  | none => exact le_rfl
  | some t => exact (positive id t found).le

/-- The merge of two sets of markers is their pointwise maximum. -/
theorem mergeMarkers_at {a b : Markers} (positive : Positive a)
    (plain : ∀ e ∈ b.entries, e.1.Plain) (id : ConversationId) :
    (mergeMarkers a b).at id = max (a.at id) (b.at id) := by
  obtain ⟨kept, above, source⟩ := foldl_raise b.entries a id
  refine le_antisymm ?_ (max_le kept ?_)
  · cases found : (mergeMarkers a b).get id with
    | none =>
      have zero : (mergeMarkers a b).at id = 0 := by rw [Markers.at, found]; rfl
      rw [zero]
      exact le_max_of_le_left (positive.nonneg id)
    | some t =>
      have here : (mergeMarkers a b).at id = t := by rw [Markers.at, found]; rfl
      rw [here]
      rcases source t found with old | new
      · exact le_max_of_le_left (by rw [Markers.at, old]; exact le_rfl)
      · exact le_max_of_le_right (by rw [Markers.at, ObjectMap.get_of_mem new]; exact le_rfl)
  · unfold Markers.at
    cases found : b.get id with
    | none =>
      refine le_trans ?_ kept
      exact positive.nonneg id
    | some t =>
      have entry := ObjectMap.mem_of_get found
      exact above (plain _ entry) t entry

/-! ### What holds of the devices -/

variable (keyVersion : Nat) (chats : ConversationId → Prop)

/-- Every watermark, and every entry of the blob, was recorded; what was recorded is still on
some device. The conversations that are read have rows that are listed. -/
structure Sound (s : Fleet ι) : Prop where
  underOwnIds : ∀ d, UnderOwnIds (s.device d)
  plain : ∀ id, chats id → id.Plain
  listed : ∀ d id, chats id → ∃ row, (s.device d).conversation id.str = some row ∧
    row.lastMessageTimestamp.isSome
  marked : ∀ d key row t, (s.device d).conversations.get key = some row →
    row.lastReadTimestamp = some t → ∃ id, key = [.str id.str] ∧ (id, t) ∈ s.recorded
  recorded : ∀ e ∈ s.recorded, 0 < e.2 ∧ chats e.1 ∧ ∃ d, e.2 ≤ (s.device d).watermark e.1
  blob : ∀ b ∈ s.blob, b.v = keyVersion ∧ ∀ e ∈ b.markers.entries, e ∈ s.recorded

variable {keyVersion chats} {s t : Fleet ι}

/-- The database with one row replaced. -/
def Database.withRow (db : Database) (key : Key) (row : StoredConversation) : Database :=
  { db with conversations := db.conversations.insert key row }

/-- A device either leaves its row, or replaces it by one with a later watermark. -/
theorem markConversationRead_cases {db : Database} (own : UnderOwnIds db) (id : ConversationId)
    (timestamp : Int) :
    (db.markConversationRead id timestamp = some (false, db) ∧
      ((∃ row, db.conversation id.str = some row) → timestamp ≤ db.watermark id)) ∨
    ∃ row, db.conversation id.str = some row ∧ db.watermark id < timestamp ∧
      db.markConversationRead id timestamp =
        some (true, db.withRow [.str id.str] { row with lastReadTimestamp := some timestamp }) := by
  unfold Database.markConversationRead
  cases there : db.conversation id.str with
  | none =>
    left
    refine ⟨rfl, ?_⟩
    rintro ⟨row, some_⟩
    cases some_
  | some row =>
    have stored : db.conversations.get [.str id.str] = some row := there
    have mark : db.watermark id = row.lastRead := by
      rw [Database.watermark, Database.lastRead, stored]
      rfl
    rw [mark]
    by_cases early : timestamp ≤ row.lastRead
    · left
      exact ⟨if_pos early, fun _ => early⟩
    · right
      refine ⟨row, rfl, not_le.mp early, ?_⟩
      have named := own _ row stored
      simp only [if_neg early, Database.putRead, Database.saveBatch, Database.putRows, named]
      rfl

/-- What one mark on a device does. -/
structure Marked (d : ι) (id : ConversationId) (timestamp : Int) (s t : Fleet ι) : Prop where
  blob : t.blob = s.blob
  others : ∀ e, e ≠ d → t.device e = s.device e
  watermark : ∀ id', (t.device d).watermark id' =
    if id' = id then max ((s.device d).watermark id) timestamp else (s.device d).watermark id'
  grows : ∀ e ∈ s.recorded, e ∈ t.recorded
  new : ∀ e ∈ t.recorded, e ∈ s.recorded ∨ e = (id, timestamp)
  idle : timestamp ≤ (s.device d).watermark id → t = s

theorem Marked.mono {d : ι} {id : ConversationId} {timestamp : Int} (marked : Marked d id timestamp s t)
    (e : ι) (id' : ConversationId) : (s.device e).watermark id' ≤ (t.device e).watermark id' := by
  by_cases same : e = d
  · subst same
    rw [marked.watermark]
    split
    next here => rw [here]; exact le_max_left _ _
    next => exact le_rfl
  · rw [marked.others e same]

omit [DecidableEq ι] in
theorem Sound.nonneg (sound : Sound keyVersion chats s) (d : ι) (id : ConversationId) :
    0 ≤ (s.device d).watermark id := by
  rw [Database.watermark, Database.lastRead]
  cases there : (s.device d).conversations.get [.str id.str] with
  | none => exact le_rfl
  | some row =>
    cases read : row.lastReadTimestamp with
    | none => simp [StoredConversation.lastRead, read]
    | some t =>
      obtain ⟨_, _, recorded⟩ := sound.marked d _ row t there read
      simp [StoredConversation.lastRead, read, (sound.recorded _ recorded).1.le]

theorem ConversationId.ext_str {id id' : ConversationId} (same : id.str = id'.str) : id = id' := by
  obtain ⟨str⟩ := id
  obtain ⟨str'⟩ := id'
  cases same
  rfl

theorem Sound.mark (sound : Sound keyVersion chats s) (d : ι) {id : ConversationId} (chat : chats id)
    (timestamp : Int) : ∃ r t, performOn d (.markConversationRead id timestamp) s = some (.ok r, t) ∧
      Sound keyVersion chats t ∧ Marked d id timestamp s t := by
  obtain ⟨row, there, dated⟩ := sound.listed d id chat
  rcases markConversationRead_cases (sound.underOwnIds d) id timestamp with
    ⟨done, early⟩ | ⟨row', there', later, done⟩
  · -- the watermark is as late already
    refine ⟨false, s, ?_, sound, ⟨rfl, fun _ _ => rfl, fun id' => ?_, fun _ member => member,
      fun _ member => .inl member, fun _ => rfl⟩⟩
    · simp [performOn, done]
    · split
      next here => rw [here, max_eq_left (early ⟨row, there⟩)]
      next => rfl
  · -- the row gets the later watermark, and the marker is recorded
    rw [there] at there'
    cases there'
    have stored : (s.device d).conversations.get [.str id.str] = some row := there
    let db := (s.device d).withRow [.str id.str] { row with lastReadTimestamp := some timestamp }
    let t : Fleet ι := { s with
      device := Function.update s.device d db
      recorded := (id, timestamp) :: s.recorded }
    have here : t.device d = db := Function.update_self ..
    have others : ∀ e, e ≠ d → t.device e = s.device e := fun e other => Function.update_of_ne other ..
    have get (key : Key) : db.conversations.get key = if key = [.str id.str] then
        some { row with lastReadTimestamp := some timestamp } else (s.device d).conversations.get key :=
      ObjectMap.get_insert _ _ _ _
    -- what changes is this watermark alone
    have marked : Marked d id timestamp s t := by
      refine ⟨rfl, others, fun id' => ?_, fun e member => List.mem_cons_of_mem _ member,
        fun e member => (List.mem_cons.mp member).symm, fun early => absurd early (not_le.mpr later)⟩
      rw [here, Database.watermark, Database.lastRead, get]
      by_cases same : id' = id
      · subst same
        simp [StoredConversation.lastRead, later.le]
      · have other : ([.str id'.str] : Key) ≠ [.str id.str] := fun equal =>
          same (ConversationId.ext_str (by simpa using equal))
        rw [if_neg other, if_neg same]
        rfl
    -- the invariant: rows of this device and of the others, then the records
    refine ⟨true, t, by simp [performOn, done, t, db], ⟨fun e => ?_, sound.plain, fun e id' chat' => ?_,
      fun e key row' t' found read => ?_, fun e member => ?_, fun b some_ => ?_⟩, marked⟩
    · by_cases same : e = d
      · subst same
        rw [here]
        intro key row' found
        rw [get] at found
        split at found
        next key' =>
          cases found
          rw [key']
          exact sound.underOwnIds e _ row stored
        next => exact sound.underOwnIds e key row' found
      · rw [others e same]
        exact sound.underOwnIds e
    · by_cases same : e = d
      · subst same
        rw [here, Database.conversation, get]
        split
        next => exact ⟨_, rfl, dated⟩
        next => exact sound.listed e id' chat'
      · rw [others e same]
        exact sound.listed e id' chat'
    · by_cases same : e = d
      · subst same
        rw [here, get] at found
        split at found
        next key' =>
          cases found
          cases read
          exact ⟨id, key', List.mem_cons_self⟩
        next =>
          obtain ⟨id', key', recorded⟩ := sound.marked e key row' t' found read
          exact ⟨id', key', List.mem_cons_of_mem _ recorded⟩
      · rw [others e same] at found
        obtain ⟨id', key', recorded⟩ := sound.marked e key row' t' found read
        exact ⟨id', key', List.mem_cons_of_mem _ recorded⟩
    · rcases List.mem_cons.mp member with rfl | old
      · refine ⟨lt_of_le_of_lt (sound.nonneg d id) later, chat, d, ?_⟩
        rw [marked.watermark]
        simp
      · obtain ⟨positive, chat', e', below⟩ := sound.recorded e old
        exact ⟨positive, chat', e', below.trans (marked.mono e' e.1)⟩
    · obtain ⟨version, entries⟩ := sound.blob b some_
      exact ⟨version, fun e member => List.mem_cons_of_mem _ (entries e member)⟩

/-! ### One sync alone -/

@[simp] theorem ReadM.run_bind {α β : Type} (h : ReadM α) (f : α → ReadM β) :
    (h >>= f).run = Prog.bind h.run fun
      | .ok a => (f a).run
      | .error e => .ret (.error e) := by
  show Prog.bind h.run (ExceptT.bindCont f) = _
  congr 1
  funext r
  cases r <;> rfl

omit [DecidableEq ι] in
theorem ReadM.run_then {α β : Type} {run : (act : ReadAct) → Fleet ι → Option (ReadReply act × Fleet ι)}
    {h : ReadM α} {f : α → ReadM β} {a : α} (ran : h.run.execute run s = some (.ok a, t)) :
    (h >>= f).run.execute run s = (f a).run.execute run t := by
  rw [ReadM.run_bind, execute_bind, ran]
  rfl

/-- What applying the entries of a merge does to a device. -/
structure Applied (d : ι) (local_ : Markers) (entries : List (ConversationId × Int)) (s t : Fleet ι) :
    Prop where
  blob : t.blob = s.blob
  others : ∀ e, e ≠ d → t.device e = s.device e
  mono : ∀ id, (s.device d).watermark id ≤ (t.device d).watermark id
  reached : ∀ e ∈ entries, local_.below e.1 e.2 = true → e.2 ≤ (t.device d).watermark e.1
  source : ∀ id, (t.device d).watermark id = (s.device d).watermark id ∨
    (id, (t.device d).watermark id) ∈ entries
  grows : ∀ e ∈ s.recorded, e ∈ t.recorded
  new : ∀ e ∈ t.recorded, e ∈ s.recorded ∨ e ∈ entries
  idle : (∀ e ∈ entries, ¬ local_.below e.1 e.2 = true) → t = s

theorem Applied.mark {d : ι} {local_ : Markers} {id : ConversationId} {timestamp : Int}
    {rest : List (ConversationId × Int)} {u : Fleet ι} (behind : local_.below id timestamp = true)
    (marked : Marked d id timestamp s u) (applied : Applied d local_ rest u t) :
    Applied d local_ ((id, timestamp) :: rest) s t where
  blob := applied.blob.trans marked.blob
  others e other := (applied.others e other).trans (marked.others e other)
  mono id' := (marked.mono d id').trans (applied.mono id')
  reached e member ahead := by
    rcases List.mem_cons.mp member with rfl | others
    · refine le_trans ?_ (applied.mono id)
      rw [marked.watermark, if_pos rfl]
      exact le_max_right _ _
    · exact applied.reached e others ahead
  source id' := by
    rcases applied.source id' with kept | new
    · rw [kept, marked.watermark]
      split
      next same =>
        subst same
        rcases max_choice ((s.device d).watermark id') timestamp with old | new
        · exact .inl old
        · exact .inr (by rw [new]; exact List.mem_cons_self)
      next => exact .inl rfl
    · exact .inr (List.mem_cons_of_mem _ new)
  grows e member := applied.grows e (marked.grows e member)
  new e member := by
    rcases applied.new e member with old | new
    · rcases marked.new e old with older | rfl
      · exact .inl older
      · exact .inr List.mem_cons_self
    · exact .inr (List.mem_cons_of_mem _ new)
  idle none_ := absurd behind (none_ (id, timestamp) List.mem_cons_self)

omit [DecidableEq ι] in
theorem Applied.skip {d : ι} {local_ : Markers} {e : ConversationId × Int}
    {rest : List (ConversationId × Int)} (done : ¬ local_.below e.1 e.2 = true)
    (applied : Applied d local_ rest s t) : Applied d local_ (e :: rest) s t where
  blob := applied.blob
  others := applied.others
  mono := applied.mono
  reached e' member ahead := by
    rcases List.mem_cons.mp member with rfl | others
    · exact absurd ahead done
    · exact applied.reached e' others ahead
  source id' := (applied.source id').imp_right (List.mem_cons_of_mem _)
  grows := applied.grows
  new e' member := (applied.new e' member).imp_right (List.mem_cons_of_mem _)
  idle none_ := applied.idle fun e' member => none_ e' (List.mem_cons_of_mem _ member)

theorem applyMarkers_runs (sound : Sound keyVersion chats s) (d : ι) (local_ remote : Markers)
    (entries : List (ConversationId × Int)) (known : ∀ e ∈ entries, chats e.1)
    (localAdvanced aheadOfRemote : Bool) : ∃ r t,
      (applyMarkers local_ remote entries localAdvanced aheadOfRemote).run.execute (performOn d) s =
        some (.ok (r, aheadOfRemote || entries.any fun e => remote.below e.1 e.2), t) ∧
      Sound keyVersion chats t ∧ Applied d local_ entries s t := by
  induction entries generalizing s localAdvanced aheadOfRemote with
  | nil =>
    refine ⟨localAdvanced, s, ?_, sound, ⟨rfl, fun _ _ => rfl, fun _ => le_rfl,
      fun _ member => (nomatch member), fun _ => .inl rfl, fun _ member => member,
      fun _ member => .inl member, fun _ => rfl⟩⟩
    rw [List.any_nil, Bool.or_false]
    rfl
  | cons e rest ih =>
    obtain ⟨id, timestamp⟩ := e
    have later : ∀ e ∈ rest, chats e.1 := fun e member => known e (List.mem_cons_of_mem _ member)
    rw [applyMarkers]
    by_cases behind : local_.below id timestamp = true
    · obtain ⟨advanced, u, done, sound', marked⟩ := sound.mark d (known _ List.mem_cons_self) timestamp
      have ran : (advance id timestamp).run.execute (performOn d) s = some (.ok advanced, u) := by
        show ((performOn d (.markConversationRead id timestamp) s).bind _) = _
        rw [done]
        rfl
      obtain ⟨r, t, ran', sound'', applied⟩ := ih sound' later (localAdvanced || advanced)
        (aheadOfRemote || remote.below id timestamp)
      refine ⟨r, t, ?_, sound'', applied.mark behind marked⟩
      rw [if_pos behind, ReadM.run_then ran, ran', List.any_cons, Bool.or_assoc]
    · obtain ⟨r, t, ran', sound', applied⟩ := ih sound later (localAdvanced || false)
        (aheadOfRemote || remote.below id timestamp)
      refine ⟨r, t, ?_, sound', applied.skip behind⟩
      rw [if_neg behind]
      refine (ReadM.run_then (a := false) rfl).trans ?_
      rw [ran', List.any_cons, Bool.or_assoc]

/-- The markers that a sync reads from the blob. -/
def Fleet.remote (s : Fleet ι) : Markers := (s.blob.map ReadMarkersBlob.markers).getD .empty

omit [DecidableEq ι] in
theorem Sound.remote_recorded (sound : Sound keyVersion chats s) :
    ∀ e ∈ s.remote.entries, e ∈ s.recorded := by
  intro e member
  unfold Fleet.remote at member
  cases there : s.blob with
  | none =>
    rw [there] at member
    cases member
  | some b =>
    rw [there] at member
    exact (sound.blob b there).2 e member

omit [DecidableEq ι] in
theorem Sound.remote_plain (sound : Sound keyVersion chats s) : ∀ e ∈ s.remote.entries, e.1.Plain :=
  fun e member => sound.plain _ (sound.recorded e (sound.remote_recorded e member)).2.1

omit [DecidableEq ι] in
theorem Sound.local_recorded (sound : Sound keyVersion chats s) (d : ι) {id : ConversationId} {t : Int}
    (found : (s.device d).loadReadMarkers.get id = some t) : (id, t) ∈ s.recorded := by
  obtain ⟨row, there, _, read, _⟩ := loadReadMarkers_source (sound.underOwnIds d) found
  obtain ⟨id', key, recorded⟩ := sound.marked d _ row t there read
  have same : id = id' := ConversationId.ext_str (by simpa using key)
  exact same ▸ recorded

omit [DecidableEq ι] in
theorem Sound.positive (sound : Sound keyVersion chats s) (d : ι) :
    Positive (s.device d).loadReadMarkers :=
  fun _ _ found => (sound.recorded _ (sound.local_recorded d found)).1

omit [DecidableEq ι] in
/-- The rows that carry watermarks are all listed. -/
theorem Sound.local_at (sound : Sound keyVersion chats s) (d : ι) (id : ConversationId) :
    (s.device d).loadReadMarkers.at id = (s.device d).watermark id := by
  rw [Database.watermark, Database.lastRead]
  cases found : (s.device d).loadReadMarkers.get id with
  | some t =>
    obtain ⟨row, there, _, read, _⟩ := loadReadMarkers_source (sound.underOwnIds d) found
    have stored : (s.device d).conversations.get [.str id.str] = some row := there
    simp [Markers.at, found, stored, StoredConversation.lastRead, read]
  | none =>
    cases there : (s.device d).conversations.get [.str id.str] with
    | none => simp [Markers.at, found]
    | some row =>
      cases read : row.lastReadTimestamp with
      | none => simp [Markers.at, found, StoredConversation.lastRead, read]
      | some t =>
        -- A watermark was recorded for a chat, and chats are listed.
        obtain ⟨id', key, recorded⟩ := sound.marked d _ row t there read
        have same : id = id' := ConversationId.ext_str (by simpa using key)
        subst same
        obtain ⟨positive, chat, _⟩ := sound.recorded _ recorded
        obtain ⟨row', there', dated⟩ := sound.listed d id chat
        rw [Database.conversation, there] at there'
        cases there'
        have known := (loadReadMarkers_get (sound.underOwnIds d) (sound.plain id chat) t).mpr
          ⟨row, there, dated, read, positive.ne'⟩
        rw [found] at known
        cases known

omit [DecidableEq ι] in
theorem Sound.merged_recorded (sound : Sound keyVersion chats s) (d : ι) :
    ∀ e ∈ (mergeMarkers (s.device d).loadReadMarkers s.remote).entries, e ∈ s.recorded := by
  intro e member
  rcases (foldl_raise s.remote.entries (s.device d).loadReadMarkers e.1).2.2 e.2
    (ObjectMap.get_of_mem member) with own | other
  · exact sound.local_recorded d own
  · exact sound.remote_recorded _ other

omit [DecidableEq ι] in
theorem Sound.blob_nonneg (sound : Sound keyVersion chats s) (id : ConversationId) : 0 ≤ s.blobAt id :=
  Positive.nonneg (fun _ _ found =>
    (sound.recorded _ (sound.remote_recorded _ (ObjectMap.mem_of_get found))).1) id

/-- The watermarks of the devices, and the blob through which they meet. -/
def Fleet.meeting (s : Fleet ι) : Meeting ι (ConversationId → Int) where
  replica d := (s.device d).watermark
  register := s.blobAt

theorem at_of_mem {m : Markers} {e : ConversationId × Int} (member : e ∈ m.entries) : m.at e.1 = e.2 := by
  rw [Markers.at, ObjectMap.get_of_mem member]
  rfl

theorem mem_of_pos {m : Markers} {id : ConversationId} (positive : 0 < m.at id) :
    (id, m.at id) ∈ m.entries := by
  cases found : m.get id with
  | none =>
    rw [Markers.at, found] at positive
    exact absurd positive (lt_irrefl 0)
  | some t =>
    have here : m.at id = t := by rw [Markers.at, found]; rfl
    rw [here]
    exact ObjectMap.mem_of_get found

theorem fetchReadMarkers_runs (sound : Sound keyVersion chats s) (d : ι) :
    (fetchReadMarkers keyVersion).run.execute (performOn d) s = some (.ok s.remote, s) := by
  show ((performOn d .storeGet s).bind _) = _
  unfold Fleet.remote
  cases there : s.blob with
  | none =>
    simp only [performOn, there, Option.bind_some, execute_ret]
    rfl
  | some b =>
    have version := (sound.blob b there).1
    simp [performOn, there, version]

theorem loadReadMarkers_runs (d : ι) :
    loadReadMarkers.run.execute (performOn d) s = some (.ok (s.device d).loadReadMarkers, s) := rfl

omit [DecidableEq ι] in
/-- What applying a merge leaves of a device: the pointwise maximum. -/
theorem Applied.watermark (sound : Sound keyVersion chats s) {d : ι}
    (applied : Applied d (s.device d).loadReadMarkers
      (mergeMarkers (s.device d).loadReadMarkers s.remote).entries s t) (id : ConversationId) :
    (t.device d).watermark id = max ((s.device d).watermark id) (s.blobAt id) := by
  have joined := mergeMarkers_at (sound.positive d) sound.remote_plain id
  rw [sound.local_at] at joined
  refine le_antisymm ?_ (max_le (applied.mono id) ?_)
  · rcases applied.source id with kept | new
    · exact kept ▸ le_max_left _ _
    · have here : (mergeMarkers (s.device d).loadReadMarkers s.remote).at id = (t.device d).watermark id :=
        at_of_mem new
      exact (here.symm.trans joined).le
  · by_cases behind : (s.device d).watermark id < s.blobAt id
    · have above : (mergeMarkers (s.device d).loadReadMarkers s.remote).at id = s.blobAt id :=
        joined.trans (max_eq_right behind.le)
      have entry := mem_of_pos (above.symm ▸ lt_of_le_of_lt (sound.nonneg d id) behind)
      have plain := sound.plain id (sound.recorded _ (sound.merged_recorded d _ entry)).2.1
      have reached := applied.reached _ entry
        ((Markers.below_iff plain).mpr (by rw [sound.local_at, above]; exact behind))
      rwa [above] at reached
    · exact (not_lt.mp behind).trans (applied.mono id)

omit [DecidableEq ι] in
theorem Applied.sound_upload (sound : Sound keyVersion chats s) {d : ι}
    (sound' : Sound keyVersion chats t)
    (applied : Applied d (s.device d).loadReadMarkers
      (mergeMarkers (s.device d).loadReadMarkers s.remote).entries s t) :
    Sound keyVersion chats
      { t with blob := some ⟨keyVersion, mergeMarkers (s.device d).loadReadMarkers s.remote⟩ } where
  underOwnIds := sound'.underOwnIds
  plain := sound'.plain
  listed := sound'.listed
  marked := sound'.marked
  recorded := sound'.recorded
  blob b some_ := by
    cases some_
    exact ⟨rfl, fun e member => applied.grows e (sound.merged_recorded d e member)⟩

/-- One sync alone is one exchange; it records nothing new, and where the device and the blob
agree already it does nothing. -/
structure Synced (keyVersion : Nat) (chats : ConversationId → Prop) (d : ι) (s t : Fleet ι) : Prop where
  sound : Sound keyVersion chats t
  meeting : t.meeting = s.meeting.exchange d
  recorded : ∀ e, e ∈ t.recorded ↔ e ∈ s.recorded
  idle : (s.device d).watermark = s.blobAt → t = s

theorem sync_meets (sound : Sound keyVersion chats s) (d : ι) : ∃ r t,
    (syncReadMarkers keyVersion).run.execute (performOn d) s = some (.ok r, t) ∧
      Synced keyVersion chats d s t := by
  let merged := mergeMarkers (s.device d).loadReadMarkers s.remote
  have joined (id : ConversationId) : merged.at id = max ((s.device d).watermark id) (s.blobAt id) := by
    rw [← sound.local_at d id]
    exact mergeMarkers_at (sound.positive d) sound.remote_plain id
  have known : ∀ e ∈ merged.entries, chats e.1 := fun e member =>
    (sound.recorded e (sound.merged_recorded d e member)).2.1
  have plain : ∀ e ∈ merged.entries, e.1.Plain := fun e member => sound.plain _ (known e member)
  obtain ⟨r, t, ran, sound', applied⟩ := applyMarkers_runs sound d (s.device d).loadReadMarkers s.remote
    merged.entries known false false
  rw [Bool.false_or] at ran
  have replica (e : ι) : (t.device e).watermark = (s.meeting.exchange d).replica e := by
    by_cases same : e = d
    · subst same
      funext id
      simp [applied.watermark sound id, Meeting.exchange, Fleet.meeting]
    · simp [applied.others e same, Meeting.exchange, Fleet.meeting, same]
  have recorded (e : ConversationId × Int) : e ∈ t.recorded ↔ e ∈ s.recorded :=
    ⟨fun member => (applied.new e member).elim (fun old => old) (sound.merged_recorded d e), applied.grows e⟩
  have whole : (syncReadMarkers keyVersion).run.execute (performOn d) s =
      (do if merged.entries.any fun e => s.remote.below e.1 e.2 then
            uploadReadMarkers keyVersion merged
          pure r : ReadM Bool).run.execute (performOn d) t := by
    unfold syncReadMarkers
    rw [ReadM.run_then (fetchReadMarkers_runs sound d), ReadM.run_then (loadReadMarkers_runs d)]
    exact ReadM.run_then ran
  -- the upload is due exactly when the blob lacks something
  cases ahead : merged.entries.any fun e => s.remote.below e.1 e.2 with
  | true =>
    rw [ahead] at whole
    refine ⟨r, { t with blob := some ⟨keyVersion, merged⟩ }, ?_, applied.sound_upload sound sound', ?_,
      recorded, fun agreed => ?_⟩
    · rw [whole]
      rfl
    · have register : ({ t with blob := some ⟨keyVersion, merged⟩ } : Fleet ι).blobAt =
          s.blobAt ⊔ (s.device d).watermark := by
        funext id
        exact (joined id).trans (max_comm _ _)
      exact congrArg₂ Meeting.mk (funext replica) register
    · obtain ⟨e, member, later⟩ := List.any_eq_true.mp ahead
      have here : e.2 = s.blobAt e.1 := by
        rw [← at_of_mem member, joined, agreed, max_self]
      exact absurd ((Markers.below_iff (plain e member)).mp later) (not_lt.mpr here.le)
  | false =>
    rw [ahead] at whole
    refine ⟨r, t, ?_, sound', ?_, recorded, fun agreed => applied.idle fun e member later => ?_⟩
    · rw [whole]
      rfl
    · have register : t.blobAt = s.blobAt ⊔ (s.device d).watermark := by
        funext id
        have same : t.blobAt id = s.blobAt id := by rw [Fleet.blobAt, applied.blob]; rfl
        rw [same]
        refine (max_eq_left ?_).symm
        by_contra short
        have below := not_le.mp short
        have entry : (id, merged.at id) ∈ merged.entries := mem_of_pos (by
          rw [joined]
          exact lt_max_of_lt_left (lt_of_le_of_lt (sound.blob_nonneg id) below))
        have notAhead := List.any_eq_false.mp ahead _ entry
        rw [Markers.below_iff (plain _ entry), joined] at notAhead
        exact notAhead (lt_max_of_lt_left below)
      exact congrArg₂ Meeting.mk (funext replica) register
    · have here : e.2 = s.blobAt e.1 := by
        rw [← at_of_mem member, joined, agreed, max_self]
      rw [Markers.below_iff (plain e member), sound.local_at, agreed, here] at later
      exact lt_irrefl _ later

theorem syncAll_meets (sound : Sound keyVersion chats s) (order : List ι) : ∃ t,
    syncAll keyVersion order s = some t ∧ Sound keyVersion chats t ∧
      t.meeting = s.meeting.exchanges order := by
  induction order generalizing s with
  | nil => exact ⟨s, rfl, sound, rfl⟩
  | cons d rest ih =>
    obtain ⟨r, u, ran, synced⟩ := sync_meets sound d
    obtain ⟨t, ran', sound', meeting⟩ := ih synced.sound
    refine ⟨t, ?_, sound', meeting.trans (congrArg (Meeting.exchanges rest) synced.meeting)⟩
    rw [syncAll, ran]
    exact ran'

/-- Where everything agrees, syncs change nothing. -/
theorem syncAll_idle (sound : Sound keyVersion chats s) {m : ConversationId → Int}
    (agreed : Meeting.Agreed m s.meeting) (order : List ι) : syncAll keyVersion order s = some s := by
  induction order with
  | nil => rfl
  | cons d rest ih =>
    obtain ⟨r, t, ran, synced⟩ := sync_meets sound d
    obtain rfl := synced.idle ((agreed.replica d).trans agreed.register.symm)
    rw [syncAll, ran]
    exact ih

/-! ### Reads and syncs that interleave -/

variable (keyVersion chats) in
/-- The others may record more, and nothing else is known of them. -/
def fleetRules (κ : Type) : Rules κ (Fleet ι) where
  inv := Sound keyVersion chats
  rely _ s t := ∀ e ∈ s.recorded, e ∈ t.recorded
  guar _ s t := ∀ e ∈ s.recorded, e ∈ t.recorded
  compat _ _ _ _ _ _ _ grows := grows

section Interleaved

variable {κ : Type} {tasks : κ → FleetTask ι} {i : κ}

variable (keyVersion chats i) in
/-- Entries that were recorded. -/
def RecordedAll (entries : List (ConversationId × Int)) : (fleetRules (ι := ι) keyVersion chats κ).Assertion i :=
  ⟨fun s => ∀ e ∈ entries, chats e.1 ∧ e ∈ s.recorded,
    fun _ _ _ _ grows holds e member => (holds e member).imp_right (grows e)⟩

theorem serves_storeGet : Serves (fleetRules keyVersion chats κ) (fleet keyVersion tasks).exec i .storeGet
    (fun _ => True) fun r s => ∀ blob, r = .ok blob →
      RecordedAll keyVersion chats i blob.markers.entries s := by
  rintro s r t inv - served
  cases served
  refine ⟨inv, fun _ member => member, fun blob fetched => ?_⟩
  cases there : s.blob with
  | none => simp [there] at fetched
  | some b =>
    simp only [there, Except.ok.injEq] at fetched
    subst fetched
    intro e member
    have recorded := (inv.blob b there).2 e member
    exact ⟨(inv.recorded e recorded).2.1, recorded⟩

theorem serves_loadReadMarkers (A : (fleetRules (ι := ι) keyVersion chats κ).Assertion i) :
    Serves (fleetRules keyVersion chats κ) (fleet keyVersion tasks).exec i .loadReadMarkers A
      fun r s => A s ∧ ∃ markers, r = .ok markers ∧ RecordedAll keyVersion chats i markers.entries s := by
  rintro s r t inv holds served
  cases served
  refine ⟨inv, fun _ member => member, holds, _, rfl, fun e member => ?_⟩
  have recorded := inv.local_recorded _ (ObjectMap.get_of_mem member)
  exact ⟨(inv.recorded e recorded).2.1, recorded⟩

theorem serves_mark {id : ConversationId} (chat : chats id) (timestamp : Int)
    (A : (fleetRules (ι := ι) keyVersion chats κ).Assertion i) :
    Serves (fleetRules keyVersion chats κ) (fleet keyVersion tasks).exec i
      (.markConversationRead id timestamp) A fun _ => A := by
  rintro s r t inv holds served
  obtain ⟨r', t', done, sound, marked⟩ := inv.mark (tasks i).device chat timestamp
  have same := done.symm.trans served
  simp only [Option.some.injEq, Prod.mk.injEq] at same
  obtain ⟨-, rfl⟩ := same
  exact ⟨sound, marked.grows, A.stable s t' inv sound marked.grows holds⟩

theorem serves_putBlob {markers : Markers} : Serves (fleetRules keyVersion chats κ)
    (fleet keyVersion tasks).exec i (.putBlob ⟨keyVersion, markers⟩)
    (RecordedAll keyVersion chats i markers.entries) fun _ _ => True := by
  rintro s r t inv holds served
  cases served
  refine ⟨⟨inv.underOwnIds, inv.plain, inv.listed, inv.marked, inv.recorded, fun b some_ => ?_⟩,
    fun _ member => member, trivial⟩
  cases some_
  exact ⟨rfl, fun e member => (holds e member).2⟩

theorem applyMarkers_only (local_ remote : Markers) {entries : List (ConversationId × Int)}
    (known : ∀ e ∈ entries, chats e.1) (localAdvanced aheadOfRemote : Bool) :
    Prog.Only (fun act => ∃ id timestamp, chats id ∧ act = .markConversationRead id timestamp)
      (fun _ => True) (applyMarkers local_ remote entries localAdvanced aheadOfRemote).run := by
  induction entries generalizing localAdvanced aheadOfRemote with
  | nil => exact .ret trivial
  | cons e rest ih =>
    obtain ⟨id, timestamp⟩ := e
    have later := fun advanced => ih (fun e member => known e (List.mem_cons_of_mem _ member))
      (localAdvanced || advanced) (aheadOfRemote || remote.below id timestamp)
    rw [applyMarkers]
    split
    next =>
      rw [ReadM.run_bind]
      refine .op ⟨id, timestamp, known _ List.mem_cons_self, rfl⟩ fun r => ?_
      cases r with
      | ok advanced => exact later advanced
      | error e => exact .ret trivial
    next => exact later false

theorem safe_fetch (s : Fleet ι) : Safe (fleetRules keyVersion chats κ) (fleet keyVersion tasks).exec i
    (fun r s => ∃ markers, r = .ok markers ∧ RecordedAll keyVersion chats i markers.entries s)
    (fetchReadMarkers keyVersion).run s := by
  have nothing (t : Fleet ι) : RecordedAll keyVersion chats i (ObjectMap.empty : Markers).entries t :=
    fun _ member => nomatch member
  refine .request (.pure True) trivial serves_storeGet fun r t fetched => ?_
  cases r with
  | error e => exact fun u _ => ⟨_, rfl, nothing u⟩
  | ok blob =>
    intro u moved
    refine ⟨_, rfl, ?_⟩
    split
    next => exact nothing u
    next => exact (RecordedAll keyVersion chats i _).stable.others moved (fetched blob rfl)

theorem safe_sync (s : Fleet ι) : Safe (fleetRules keyVersion chats κ) (fleet keyVersion tasks).exec i
    (fun _ _ => True) (syncReadMarkers keyVersion).run s := by
  unfold syncReadMarkers
  rw [ReadM.run_bind]
  refine (safe_fetch s).bind fun r s fetched => ?_
  obtain ⟨remote, rfl, known⟩ := fetched
  dsimp only
  rw [ReadM.run_bind]
  refine .request _ known (serves_loadReadMarkers _) fun r s loaded => ?_
  obtain ⟨known, local_, rfl, own⟩ := loaded
  have merged : RecordedAll keyVersion chats i (mergeMarkers local_ remote).entries s := by
    intro e member
    rcases (foldl_raise remote.entries local_ e.1).2.2 e.2 (ObjectMap.get_of_mem member) with old | new
    · exact own e (ObjectMap.mem_of_get old)
    · exact known e new
  dsimp only [Prog.ret_bind]
  rw [ReadM.run_bind]
  refine Safe.bind (.only (RecordedAll keyVersion chats i (mergeMarkers local_ remote).entries) ?_
    (applyMarkers_only local_ remote (fun e member => (merged e member).1) false false) merged)
    fun r s after => ?_
  · rintro _ ⟨id, timestamp, chat, rfl⟩
    exact serves_mark chat timestamp _
  · cases r with
    | error e => exact fun _ _ => trivial
    | ok flags =>
      dsimp only
      split
      next =>
        rw [ReadM.run_bind]
        refine .request _ after.2 serves_putBlob fun r s _ => ?_
        cases r <;> exact fun _ _ => trivial
      next => exact fun _ _ => trivial

end Interleaved

/-- Devices with rows none of which was read yet, and no blob. -/
structure Fresh (s : Fleet ι) : Prop where
  underOwnIds : ∀ d, UnderOwnIds (s.device d)
  unread : ∀ d key row, (s.device d).conversations.get key = some row → row.lastReadTimestamp = none
  blob : s.blob = none
  recorded : s.recorded = []

/-- The row of a conversation is in the index through which the rows are read. -/
def Listed (s : Fleet ι) (id : ConversationId) : Prop :=
  ∀ d, ∃ row, (s.device d).conversation id.str = some row ∧ row.lastMessageTimestamp.isSome

/-- The conversations that the tasks read. -/
def ReadChats {κ : Type} (tasks : κ → FleetTask ι) (id : ConversationId) : Prop :=
  ∃ k d chat timestamp, tasks k = .read d chat timestamp ∧ chat.toConversationId = id

omit [DecidableEq ι] in
theorem ReadChats.plain {κ : Type} {tasks : κ → FleetTask ι} {id : ConversationId}
    (chat : ReadChats tasks id) : id.Plain := by
  obtain ⟨_, _, chat, _, _, rfl⟩ := chat
  exact chat.plain

omit [DecidableEq ι] in
theorem Fresh.sound (fresh : Fresh s) (plain : ∀ id, chats id → id.Plain)
    (listed : ∀ id, chats id → Listed s id) : Sound keyVersion chats s where
  underOwnIds := fresh.underOwnIds
  plain := plain
  listed d id chat := listed id chat d
  marked d key row t found read := by
    rw [fresh.unread d key row found] at read
    cases read
  recorded e member := by
    rw [fresh.recorded] at member
    cases member
  blob b some_ := by
    rw [fresh.blob] at some_
    cases some_

section Interleaved

variable {κ : Type} {tasks : κ → FleetTask ι}

theorem fleet_contracts : Contracts (fleetRules keyVersion (ReadChats tasks) κ) (fleet keyVersion tasks)
    (fun _ _ => True) fun _ _ _ => True := by
  refine ⟨fun _ _ _ _ _ _ h => h, fun k s _ _ => ?_⟩
  show Safe _ _ k _ ((tasks k).prog keyVersion) s
  cases task : tasks k with
  | read d id timestamp =>
    have chat : ReadChats tasks id.toConversationId := ⟨k, d, id, timestamp, task, rfl⟩
    refine .request (.pure True) trivial (serves_mark chat timestamp _) fun r t _ => ?_
    exact fun _ _ => trivial
  | sync d => exact (safe_sync s).bind fun _ _ _ => fun _ _ => trivial

theorem reach_sound [DecidableEq κ] (fresh : Fresh s) (listed : ∀ id, ReadChats tasks id → Listed s id)
    {w : World κ ReadAct ReadReply Unit (Fleet ι)} (reach : Reach (fleet keyVersion tasks) s w) :
    Sound keyVersion (ReadChats tasks) w.sys :=
  ((Secured.init (fresh.sound (fun _ => ReadChats.plain) listed) fun _ => trivial).run fleet_contracts reach).1

end Interleaved

/-- The greatest watermark of each conversation, or zero where none was recorded. -/
def Fleet.Maximum (s : Fleet ι) (m : ConversationId → Int) : Prop :=
  ∀ id, IsGreatest (insert 0 {timestamp | (id, timestamp) ∈ s.recorded}) (m id)

omit [DecidableEq ι] in
theorem Sound.maximum (sound : Sound keyVersion chats s) {order : List ι} (covers : ∀ d, d ∈ order) :
    s.Maximum (s.meeting.join order) := by
  intro id
  constructor
  · refine Meeting.join_induction
      (P := fun m : ConversationId → Int => m id ∈ insert 0 {timestamp | (id, timestamp) ∈ s.recorded})
      (fun a b first second => ?_) (fun d => ?_) ?_ order
    · show max (a id) (b id) ∈ _
      rcases max_choice (a id) (b id) with left | right
      · rw [left]; exact first
      · rw [right]; exact second
    · show (s.device d).watermark id ∈ _
      rw [← sound.local_at]
      rcases (sound.positive d).nonneg id |>.eq_or_lt with zero | positive
      · exact .inl zero.symm
      · exact .inr (sound.local_recorded d (ObjectMap.get_of_mem (mem_of_pos positive)))
    · rcases (sound.blob_nonneg id).eq_or_lt with zero | positive
      · exact .inl zero.symm
      · exact .inr (sound.remote_recorded _ (mem_of_pos positive))
  · rintro timestamp (rfl | recorded)
    · exact (sound.blob_nonneg id).trans (Meeting.register_le_join order s.meeting id)
    · obtain ⟨_, _, d, below⟩ := sound.recorded _ recorded
      exact below.trans (Meeting.replica_le_join (covers d) s.meeting id)

/-- Once reading has stopped, two rounds of syncs bring every device and the blob to the maximum
of all that was read, and nothing moves any more; if the conversations that are read have
listed rows. -/
theorem markers_converge {κ : Type} [DecidableEq κ] (keyVersion : Nat) (tasks : κ → FleetTask ι)
    {s : Fleet ι} (fresh : Fresh s) (listed : ∀ id, ReadChats tasks id → Listed s id)
    {w : World κ ReadAct ReadReply Unit (Fleet ι)} (reach : Reach (fleet keyVersion tasks) s w)
    {first second : List ι} (covers : ∀ d, d ∈ first) (covers' : ∀ d, d ∈ second) :
    ∃ t m, syncAll keyVersion (first ++ second) w.sys = some t ∧ w.sys.Maximum m ∧
      (∀ d id, (t.device d).watermark id = m id) ∧ (∀ id, t.blobAt id = m id) ∧
      ∀ order, syncAll keyVersion order t = some t := by
  have sound := reach_sound fresh listed reach
  obtain ⟨t, ran, sound', meeting⟩ := syncAll_meets sound (first ++ second)
  have agreed := Meeting.agreed_after (Meeting.isLUB_join covers w.sys.meeting) covers covers'
  rw [← meeting] at agreed
  exact ⟨t, w.sys.meeting.join first, ran, sound.maximum covers, fun d => congrFun (agreed.replica d),
    congrFun agreed.register, syncAll_idle sound' agreed⟩

section Samples

/-- The chat of two devices, with the date of its row. -/
def chatOf (date : Timestamp) : Fleet Bool where
  device _ := { conversations := ObjectMap.empty.insert [.str alice_bob.str] {
    conversationId := .str alice_bob.str
    lastMessageText := "hi"
    lastMessageTimestamp := date
    messageCount := 1 } }

/-- One device reads the chat, and the other may sync meanwhile. -/
def readElsewhere : Bool → FleetTask Bool
  | false => .read false ⟨alice_bob, alice_bob_plain⟩ 5
  | true => .sync true

/-- The chat was read. -/
theorem chat_read (date : Timestamp) (P : Fleet Bool → Bool)
    (checked : ((World.follow (fun i act (_ : Unit) => performOn (readElsewhere i).device act)
      (fleet 1 readElsewhere).prog [(false, ()), (false, ()), (false, ())] (.init (chatOf date))).any
        fun w => P w.sys) = true) :
    ∃ w, Reach (fleet 1 readElsewhere) (chatOf date) w ∧ P w.sys = true := by
  obtain ⟨w, followed, holds⟩ := (Option.any_eq_true _ _).mp checked
  exact ⟨w, steps_mono (fun _ _ _ _ _ ⟨_, served⟩ => served) (steps_of_follow _ _ followed), holds⟩

theorem chatOf_fresh (date : Timestamp) : Fresh (chatOf date) := by
  have only {key : Key} {row : StoredConversation} {d : Bool}
      (found : ((chatOf date).device d).conversations.get key = some row) :
      key = [.str alice_bob.str] ∧ row.conversationId = .str alice_bob.str ∧ row.lastReadTimestamp = none := by
    simp only [chatOf, ObjectMap.get_insert] at found
    split at found
    next here => cases found; exact ⟨here, rfl, rfl⟩
    next => cases found
  refine ⟨fun d key row found => ?_, fun d key row found => (only found).2.2, rfl, rfl⟩
  obtain ⟨rfl, name, _⟩ := only found
  rw [name, Js.key_str]

theorem chat_converges : ∃ w t, Reach (fleet 1 readElsewhere) (chatOf (some 4)) w ∧
    w.sys.recorded = [(alice_bob, 5)] ∧ syncAll 1 ([false, true] ++ [true, false]) w.sys = some t ∧
    (t.device true).watermark alice_bob = 5 ∧ t.blobAt alice_bob = 5 := by
  obtain ⟨w, reach, checked⟩ := chat_read (some 4) (fun s : Fleet Bool => decide (s.recorded = [(alice_bob, 5)]))
    (by decide)
  have recorded := of_decide_eq_true checked
  have firsts : ∀ d, d ∈ [false, true] := by decide
  have seconds : ∀ d, d ∈ [true, false] := by decide
  have listed : ∀ id, ReadChats readElsewhere id → Listed (chatOf (some 4)) id := by
    rintro id ⟨k, d, chat, timestamp, task, rfl⟩ e
    cases k <;> cases task
    exact ⟨_, ObjectMap.get_insert .. |>.trans (if_pos rfl), rfl⟩
  obtain ⟨t, m, ran, maximum, device, blob, _⟩ := markers_converge 1 readElsewhere (chatOf_fresh _)
    listed reach firsts seconds
  have five : m alice_bob = 5 := by
    obtain ⟨member, above⟩ := maximum alice_bob
    rw [recorded] at member above
    have atLeast : (5 : Int) ≤ m alice_bob := above (.inr (List.mem_singleton.mpr rfl))
    rcases member with zero | read
    · exact absurd atLeast (by rw [zero]; decide)
    · exact congrArg Prod.snd (List.mem_singleton.mp read)
  exact ⟨w, t, reach, recorded, ran, (device true _).trans five, (blob _).trans five⟩

/-- A row whose date is invalid is not listed, and its watermark stays where it is. -/
theorem chat_diverges : ∃ w t, Reach (fleet 1 readElsewhere) (chatOf none) w ∧
    w.sys.recorded = [(alice_bob, 5)] ∧ syncAll 1 ([false, true] ++ [true, false]) w.sys = some t ∧
    (t.device false).watermark alice_bob = 5 ∧ (t.device true).watermark alice_bob = 0 ∧
    t.blobAt alice_bob = 0 := by
  have ⟨w, reach, checked⟩ := chat_read none (fun s : Fleet Bool => decide (s.recorded = [(alice_bob, 5)]) &&
      (syncAll 1 ([false, true] ++ [true, false]) s).any fun t : Fleet Bool =>
        decide ((t.device false).watermark alice_bob = 5 ∧ (t.device true).watermark alice_bob = 0 ∧
          t.blobAt alice_bob = 0)) (by decide)
  obtain ⟨recorded, synced⟩ := (Bool.and_eq_true _ _).mp checked
  obtain ⟨t, ran, holds⟩ := (Option.any_eq_true _ _).mp synced
  exact ⟨w, t, reach, of_decide_eq_true recorded, ran, of_decide_eq_true holds⟩

end Samples

end Atmin.Web
