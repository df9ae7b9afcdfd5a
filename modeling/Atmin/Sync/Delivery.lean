import Atmin.Sync.Saving
import Atmin.Web.ReadMarkers

/-!
# Saves one after the other

What a save leaves of each row, for messages whose ids are strings, as the signature of
`saveMessages` has them.
-/

namespace Atmin.Web

open Interaction

/-- A message as `saveMessages` takes it. -/
structure ChatMessage where
  id : String
  conversationId : String
  fromUser : String
  fromDevice : String
  text : String
  timestamp : Timestamp
  deriving DecidableEq, Repr

def ChatMessage.decrypted (m : ChatMessage) : DecryptedMessage where
  id := .str m.id
  conversationId := .str m.conversationId
  fromUser := .str m.fromUser
  fromDevice := .str m.fromDevice
  text := m.text
  timestamp := m.timestamp

/-- The row that is put for a message. -/
def ChatMessage.row (userId : String) (m : ChatMessage) : StoredMessage :=
  storedMessage userId m.decrypted

namespace Database

def message (db : Database) (id : String) : Option StoredMessage := db.messages.get [.str id]

/-- The row of a conversation, if its id is a key at all. -/
def conversationAt (db : Database) (id : Js) : Option StoredConversation :=
  id.key.bind db.conversations.get

@[simp] theorem conversationAt_str (db : Database) (id : String) :
    db.conversationAt (.str id) = db.conversation id := by
  simp only [conversationAt, conversation, Js.key_str, Option.bind_some]

end Database

/-- The last row of a batch under a key is the one that stays. -/
theorem putRows_last {Row : Type} {id : Row → Js} {rows : List Row} {store store' : ObjectMap Key Row}
    (put : Database.putRows id rows store = some store') (key : Key) :
    store'.get key =
      (rows.reverse.find? fun row => decide ((id row).key = some key)).or (store.get key) := by
  induction rows generalizing store with
  | nil => cases put; rfl
  | cons row rest ih =>
    simp only [Database.putRows] at put
    split at put
    next first valid =>
      rw [ih put, ObjectMap.get_insert, List.reverse_cons, List.find?_append, Option.or_assoc]
      congr 1
      by_cases same : key = first
      · subst same
        simp [valid]
      · have other : (id row).key ≠ some key := by
          rw [valid]
          exact fun equal => same (Option.some.inj equal).symm
        simp [same, other]
    next => cases put

/-! ### The updates of a batch -/

section Updates

variable (parse : String → Option Json)

/-- The messages of a batch that count in a conversation. -/
def plainIn (c : String) (messages : List ChatMessage) : List ChatMessage :=
  messages.filter fun m => !isAmendment parse m.text && decide (m.conversationId = c)

/-- Whether the batch amends a conversation. -/
def amends (c : String) (messages : List ChatMessage) : Bool :=
  messages.any fun m => isAmendment parse m.text && decide (m.conversationId = c)

variable {parse}

theorem mem_plainIn {c : String} {messages : List ChatMessage} {m : ChatMessage} :
    m ∈ plainIn parse c messages ↔
      m ∈ messages ∧ isAmendment parse m.text = false ∧ m.conversationId = c := by
  simp [plainIn]

theorem amends_iff {c : String} {messages : List ChatMessage} : amends parse c messages = true ↔
    ∃ m ∈ messages, isAmendment parse m.text = true ∧ m.conversationId = c := by
  simp [amends]

/-- Count a message in with the update of its conversation. -/
def bump (update : Option ConvUpdate) (m : ChatMessage) : Option ConvUpdate :=
  match update with
  | none => some ⟨.str m.conversationId, m.text, m.timestamp, 1⟩
  | some u =>
    some (if m.timestamp.after u.ts then ⟨u.conversationId, m.text, m.timestamp, u.count + 1⟩
      else { u with count := u.count + 1 })

def updateOf (c : String) (updates : List ConvUpdate) : Option ConvUpdate :=
  updates.find? fun u => u.conversationId.same (.str c)

theorem updateOf_bump (c : String) (m : ChatMessage) (updates : List ConvUpdate) :
    updateOf c (bumpConversation m.decrypted updates) =
      if m.conversationId = c then bump (updateOf c updates) m else updateOf c updates := by
  induction updates with
  | nil =>
    by_cases here : m.conversationId = c
    · subst here
      simp [bumpConversation, updateOf, ChatMessage.decrypted, bump]
    · simp [bumpConversation, updateOf, ChatMessage.decrypted, here]
  | cons u rest ih =>
    simp only [bumpConversation]
    by_cases mine : m.decrypted.conversationId.same u.conversationId = true
    · rw [if_pos mine]
      have named : u.conversationId = .str m.conversationId := (Js.same_str _ _).mp mine
      by_cases here : m.conversationId = c
      · subst here
        have hit : u.conversationId.same (.str m.conversationId) = true := (Js.same_of_str _ _).mpr named
        have found : updateOf m.conversationId (u :: rest) = some u := by
          simp [updateOf, hit]
        rw [found, if_pos rfl]
        split <;> simp_all [updateOf, bump, ChatMessage.decrypted]
      · have miss : u.conversationId.same (.str c) = false := by
          rw [named]
          simpa [Js.same] using here
        rw [if_neg here]
        split <;> simp [updateOf, miss]
    · rw [if_neg mine]
      by_cases hit : u.conversationId.same (.str c) = true
      · have here : m.conversationId ≠ c := by
          rintro rfl
          exact mine ((Js.same_str _ _).mpr ((Js.same_of_str _ _).mp hit))
        simp [updateOf, hit, here]
      · simpa [updateOf, hit] using ih

/-- Grouping counts, for each conversation, the plain messages of it. -/
theorem updateOf_group (parse : String → Option Json) (c : String) (messages : List ChatMessage)
    (acc : List ConvUpdate × List Js) :
    updateOf c (groupByConversation parse (messages.map ChatMessage.decrypted) acc).1 =
      (plainIn parse c messages).foldl bump (updateOf c acc.1) := by
  induction messages generalizing acc with
  | nil => rfl
  | cons m rest ih =>
    obtain ⟨updates, amended⟩ := acc
    rw [List.map_cons, groupByConversation]
    by_cases amendment : isAmendment parse m.text = true
    · rw [if_pos (by exact amendment), ih]
      simp [plainIn, amendment]
    · rw [if_neg (by exact amendment), ih, updateOf_bump]
      by_cases here : m.conversationId = c
      · simp [plainIn, amendment, here]
      · simp [plainIn, here]

theorem amended_group (parse : String → Option Json) (messages : List ChatMessage)
    (acc : List ConvUpdate × List Js) (x : Js) :
    x ∈ (groupByConversation parse (messages.map ChatMessage.decrypted) acc).2 ↔
      x ∈ acc.2 ∨ ∃ c, x = .str c ∧ amends parse c messages = true := by
  induction messages generalizing acc with
  | nil => simp [groupByConversation, amends]
  | cons m rest ih =>
    obtain ⟨updates, amended⟩ := acc
    rw [List.map_cons, groupByConversation]
    by_cases amendment : isAmendment parse m.text = true
    · have added : ∀ y, y ∈ addOnce m.decrypted.conversationId amended ↔
          y ∈ amended ∨ y = .str m.conversationId := by
        intro y
        unfold addOnce
        split
        next known =>
          exact ⟨.inl, fun either => either.elim id fun same => same ▸ Js.isIn_str.mp known⟩
        next => simp [ChatMessage.decrypted]
      rw [if_pos (by exact amendment), ih, added]
      simp only [amends, List.any_cons, amendment, Bool.true_and, Bool.or_eq_true, decide_eq_true_eq]
      constructor
      · rintro ((old | rfl) | ⟨c, rfl, later⟩)
        · exact .inl old
        · exact .inr ⟨_, rfl, .inl rfl⟩
        · exact .inr ⟨c, rfl, .inr later⟩
      · rintro (old | ⟨c, rfl, rfl | later⟩)
        · exact .inl (.inl old)
        · exact .inl (.inr rfl)
        · exact .inr ⟨c, rfl, later⟩
    · have plain : isAmendment parse m.text = false := by simpa using amendment
      rw [if_neg (by exact amendment), ih]
      simp only [amends, List.any_cons, plain, Bool.false_and, Bool.false_or]

theorem updateOf_some {c : String} {updates : List ConvUpdate} {u : ConvUpdate}
    (found : updateOf c updates = some u) : u ∈ updates ∧ u.conversationId = .str c :=
  ⟨List.mem_of_find?_eq_some found, by simpa using List.find?_some found⟩

/-- Each conversation has one update. -/
structure OneEach (updates : List ConvUpdate) : Prop where
  named : ∀ u ∈ updates, ∃ c, u.conversationId = .str c
  nodup : (updates.map ConvUpdate.conversationId).Nodup

theorem OneEach.found {updates : List ConvUpdate} (each : OneEach updates) {u : ConvUpdate} {c : String}
    (member : u ∈ updates) (named : u.conversationId = .str c) : updateOf c updates = some u := by
  cases there : updateOf c updates with
  | none =>
    have miss := List.find?_eq_none.mp there u member
    simp [named, Js.same] at miss
  | some v =>
    obtain ⟨other, named'⟩ := updateOf_some there
    rw [List.inj_on_of_nodup_map each.nodup other member (named'.trans named.symm)]

theorem bumpConversation_ids (m : ChatMessage) (updates : List ConvUpdate) :
    ((bumpConversation m.decrypted updates).map ConvUpdate.conversationId =
      updates.map ConvUpdate.conversationId) ∨
    (.str m.conversationId ∉ updates.map ConvUpdate.conversationId ∧
      (bumpConversation m.decrypted updates).map ConvUpdate.conversationId =
        updates.map ConvUpdate.conversationId ++ [.str m.conversationId]) := by
  induction updates with
  | nil => exact .inr ⟨List.not_mem_nil, rfl⟩
  | cons u rest ih =>
    simp only [bumpConversation]
    by_cases mine : m.decrypted.conversationId.same u.conversationId = true
    · rw [if_pos mine]
      left
      split <;> rfl
    · rw [if_neg mine]
      rcases ih with same | ⟨new, ids⟩
      · left
        simp [same]
      · right
        refine ⟨fun member => ?_, by simp [ids]⟩
        rcases List.mem_cons.mp member with here | later
        · exact mine ((Js.same_str _ _).mpr here.symm)
        · exact new later

theorem OneEach.group {messages : List ChatMessage} {acc : List ConvUpdate × List Js}
    (each : OneEach acc.1) :
    OneEach (groupByConversation parse (messages.map ChatMessage.decrypted) acc).1 := by
  induction messages generalizing acc with
  | nil => exact each
  | cons m rest ih =>
    obtain ⟨updates, amended⟩ := acc
    rw [List.map_cons, groupByConversation]
    split
    next => exact ih each
    next =>
      apply ih
      constructor
      · have named := (bumpConversation_all (P := fun id => ∃ c, id = Js.str c) m.decrypted updates).mpr
          ⟨⟨_, rfl⟩, each.named⟩
        exact named
      · rcases bumpConversation_ids m updates with same | ⟨new, ids⟩
        · rw [same]
          exact each.nodup
        · rw [ids]
          exact List.nodup_append.mpr ⟨each.nodup, List.nodup_singleton _, fun x old y last => by
            rw [List.mem_singleton.mp last]
            exact fun equal => new (equal ▸ old)⟩

end Updates

/-! ### One save -/

section Save

variable (account : Account)

/-- The row of a conversation once the plain messages of a batch are counted in. -/
def counted (c : String) (messages : List ChatMessage) (row : Option StoredConversation) :
    Option StoredConversation :=
  match (plainIn account.parse c messages).foldl bump none with
  | none => row
  | some u => some (summaryRow row u)

/-- The row after a recomputation over all messages stored. -/
def corrected (c : String) (all : List StoredMessage) (row : Option StoredConversation) :
    Option StoredConversation :=
  (correctedRow account.parse account.render all (.str c) row).or row

/-- What a save leaves of the database. -/
structure SavedChat (messages : List ChatMessage) (db db' : Database) : Prop where
  messagesAt : ∀ key, db'.messages.get key =
    ((messages.map (ChatMessage.row account.userId.str)).reverse.find? fun row =>
      decide (row.id.key = some key)).or (db.messages.get key)
  conversation : ∀ c, db'.conversation c =
    if amends account.parse c messages then
      corrected account c (db'.messagesOf account.userId.str)
        (counted account c messages (db.conversation c))
    else counted account c messages (db.conversation c)
  elsewhere : ∀ key, (∀ c : String, key ≠ [.str c]) →
    db'.conversations.get key = db.conversations.get key

variable {account}

theorem getConversations_rows (s : State) {ids : List Js} (named : ∀ id ∈ ids, ∃ c, id = .str c) :
    (getConversations ids).run.execute calm s = some (.ok (ids.map s.db.conversationAt), s) := by
  induction ids with
  | nil => rfl
  | cons id rest ih =>
    obtain ⟨c, rfl⟩ := named id List.mem_cons_self
    have first : (await (step (.getConversation (.str c)))).run.execute calm s =
        some (.ok (s.db.conversation c), s) := by
      simp only [run_await, execute_step, calm, perform, reading, Database.lookup, Js.key_str]
      rfl
    have others := ih fun id member => named id (List.mem_cons_of_mem _ member)
    rw [getConversations, run_then first, run_then others, List.map_cons, Database.conversationAt_str]
    rfl

/-- The rows put for the updates, conversation by conversation. -/
theorem put_summaries {db : Database} {updates : List ConvUpdate} (each : OneEach updates)
    {store : ObjectMap Key StoredConversation}
    (put : Database.putRows StoredConversation.conversationId
      (updates.map fun u => summaryRow (db.conversationAt u.conversationId) u) db.conversations =
        some store) :
    (∀ c : String, store.get [.str c] = match updateOf c updates with
      | none => db.conversation c
      | some u => some (summaryRow (db.conversation c) u)) ∧
    ∀ key, (∀ c : String, key ≠ [.str c]) → store.get key = db.conversations.get key := by
  constructor
  · intro c
    rcases putRows_get put [.str c] with ⟨kept, absent⟩ | ⟨row, member, named, there⟩
    · cases found : updateOf c updates with
      | none => exact kept
      | some u =>
        obtain ⟨inside, id⟩ := updateOf_some found
        refine absurd ?_ (absent _ (List.mem_map_of_mem inside))
        simp [summaryRow, id]
    · obtain ⟨u, inside, rfl⟩ := List.mem_map.mp member
      obtain ⟨c', id⟩ := each.named u inside
      have same : c' = c := by simpa [summaryRow, id] using named
      subst same
      rw [each.found inside id, there, id, Database.conversationAt_str]
  · intro key strange
    rcases putRows_get put key with ⟨kept, _⟩ | ⟨row, member, named, _⟩
    · exact kept
    · obtain ⟨u, inside, rfl⟩ := List.mem_map.mp member
      obtain ⟨c', id⟩ := each.named u inside
      refine absurd ?_ (strange c')
      simpa [summaryRow, id] using named.symm

theorem recompute_runs (account : Account) (s : State) {ids : List Js} (named : ∀ id ∈ ids, ∃ c, id = .str c) :
    ∃ t, (recomputeAmendedSummaries account.parse account.render account.userId.str ids).run.execute
        calm s = some (.ok (), t) ∧ t.db.messages = s.db.messages ∧
      (∀ c, .str c ∈ ids → t.db.conversation c =
        corrected account c (s.db.messagesOf account.userId.str) (s.db.conversation c)) ∧
      (∀ c, .str c ∉ ids → t.db.conversation c = s.db.conversation c) ∧
      ∀ key, (∀ c : String, key ≠ [.str c]) →
        t.db.conversations.get key = s.db.conversations.get key := by
  have all : (await (step (.getAllMessages account.userId.str))).run.execute calm s =
      some (.ok (s.db.messagesOf account.userId.str), s) := rfl
  rw [recomputeAmendedSummaries, run_then all, run_then (getConversations_rows s named)]
  have zipped : ids.zip (ids.map s.db.conversationAt) = ids.map fun id => (id, s.db.conversationAt id) := by
    simpa using List.zip_map' (f := id) (g := s.db.conversationAt) (l := ids)
  generalize written : ((ids.zip (ids.map s.db.conversationAt)).filterMap fun e =>
    correctedRow account.parse account.render (s.db.messagesOf account.userId.str) e.1 e.2) = writes
  have mem_writes : ∀ row, row ∈ writes ↔ ∃ id ∈ ids, correctedRow account.parse account.render
      (s.db.messagesOf account.userId.str) id (s.db.conversationAt id) = some row := by
    intro row
    simp [← written, zipped, List.mem_filterMap]
  have keyed : ∀ row ∈ writes, ∃ c, row.conversationId = .str c := by
    intro row member
    obtain ⟨id, inside, made⟩ := (mem_writes row).mp member
    rw [correctedRow_id made]
    exact named id inside
  -- Nothing to write is as good as writing nothing.
  obtain ⟨store, put⟩ : ∃ store, Database.putRows StoredConversation.conversationId writes
      s.db.conversations = some store :=
    putRows_some _ fun row member => by
      obtain ⟨c, id⟩ := keyed row member
      exact ⟨_, by rw [id, Js.key_str]⟩
  refine ⟨{ s with db := { s.db with conversations := store } }, ?_, rfl, fun c amended => ?_,
    fun c other => ?_, fun key strange => ?_⟩
  · dsimp only
    split
    next none_ =>
      rw [List.isEmpty_iff.mp none_] at put
      cases put
      rfl
    next => simp only [run_await, execute_step, calm, perform, writing, Database.saveBatch,
      Database.putRows, put]
  · show store.get [.str c] = _
    rcases putRows_get put [.str c] with ⟨kept, absent⟩ | ⟨row, member, name, there⟩
    · cases made : correctedRow account.parse account.render (s.db.messagesOf account.userId.str)
          (.str c) (s.db.conversation c) with
      | none => rw [corrected, made]; exact kept
      | some row =>
        refine absurd ?_ (absent row ((mem_writes row).mpr ⟨.str c, amended, ?_⟩))
        · rw [correctedRow_id made, Js.key_str]
        · rw [Database.conversationAt_str, made]
    · obtain ⟨id, inside, made⟩ := (mem_writes row).mp member
      obtain ⟨c', rfl⟩ := named id inside
      have same : c' = c := by
        rw [correctedRow_id made, Js.key_str] at name
        simpa using name
      subst same
      rw [Database.conversationAt_str] at made
      rw [there, corrected, made]
      rfl
  · show store.get [.str c] = _
    rcases putRows_get put [.str c] with ⟨kept, _⟩ | ⟨row, member, name, _⟩
    · exact kept
    · obtain ⟨id, inside, made⟩ := (mem_writes row).mp member
      obtain ⟨c', rfl⟩ := named id inside
      rw [correctedRow_id made, Js.key_str] at name
      have same : c' = c := by simpa using name
      exact absurd (same ▸ inside) other
  · show store.get key = _
    rcases putRows_get put key with ⟨kept, _⟩ | ⟨row, member, name, _⟩
    · exact kept
    · obtain ⟨c, id⟩ := keyed row member
      refine absurd ?_ (strange c)
      simpa [id] using name.symm

theorem save_runs (account : Account) (s : State) (messages : List ChatMessage) : ∃ t,
    (saveMessages account.parse account.render account.userId.str
      (messages.map ChatMessage.decrypted)).run.execute calm s = some (.ok (), t) ∧
      SavedChat account messages s.db t.db := by
  unfold saveMessages
  split
  next empty =>
    have none_ : messages = [] := by simpa using empty
    subst none_
    refine ⟨s, rfl, fun key => rfl, fun c => ?_, fun _ _ => rfl⟩
    simp [amends, counted, plainIn]
  next =>
    -- the batch, by conversation
    generalize grouped : groupByConversation account.parse (messages.map ChatMessage.decrypted) ([], []) =
      groups
    obtain ⟨updates, amended⟩ := groups
    have each : OneEach updates := by
      have each : OneEach (groupByConversation account.parse (messages.map ChatMessage.decrypted)
          ([], [])).1 :=
        .group ⟨fun u member => (nomatch member), List.nodup_nil⟩
      rwa [grouped] at each
    have update : ∀ c, updateOf c updates = (plainIn account.parse c messages).foldl bump none := by
      intro c
      have found := updateOf_group account.parse c messages ([], [])
      rwa [grouped] at found
    have amended_iff : ∀ x, x ∈ amended ↔ ∃ c, x = .str c ∧ amends account.parse c messages = true := by
      intro x
      have member := amended_group account.parse messages ([], []) x
      rw [grouped] at member
      simpa using member
    dsimp only
    have ids : ∀ id ∈ updates.map ConvUpdate.conversationId, ∃ c, id = .str c := by
      intro id member
      obtain ⟨u, inside, rfl⟩ := List.mem_map.mp member
      exact each.named u inside
    -- the summaries are read before the batch is written
    rw [run_then (getConversations_rows s ids)]
    have rows : ((updates.map ConvUpdate.conversationId).map s.db.conversationAt).zip updates =
        updates.map fun u => (s.db.conversationAt u.conversationId, u) := by
      rw [List.map_map]
      simpa using List.zip_map' (f := s.db.conversationAt ∘ ConvUpdate.conversationId) (g := id) (l := updates)
    rw [rows, List.map_map (l := updates)]
    obtain ⟨stored, storedPut⟩ : ∃ stored, Database.putRows StoredMessage.id
        (messages.map (ChatMessage.row account.userId.str)) s.db.messages = some stored :=
      putRows_some _ fun row member => by
        obtain ⟨m, _, rfl⟩ := List.mem_map.mp member
        exact ⟨_, Js.key_str m.id⟩
    obtain ⟨summaries, summariesPut⟩ : ∃ summaries, Database.putRows StoredConversation.conversationId
        (updates.map fun u => summaryRow (s.db.conversationAt u.conversationId) u) s.db.conversations =
          some summaries :=
      putRows_some _ fun row member => by
        obtain ⟨u, inside, rfl⟩ := List.mem_map.mp member
        obtain ⟨c, id⟩ := each.named u inside
        exact ⟨_, by rw [summaryRow, id, Js.key_str]⟩
    -- the one transaction of the save
    have batch : (await (step (.putMessages ((messages.map ChatMessage.decrypted).map
        (storedMessage account.userId.str))
        (updates.map fun u => summaryRow (s.db.conversationAt u.conversationId) u)))).run.execute calm s =
          some (.ok (), { s with db := { s.db with messages := stored, conversations := summaries } }) := by
      rw [List.map_map]
      have same : (storedMessage account.userId.str ∘ ChatMessage.decrypted) =
        ChatMessage.row account.userId.str := rfl
      simp only [run_await, execute_step, calm, perform, writing, Database.saveBatch, same, storedPut,
        summariesPut]
    have comp : ((fun e : Option StoredConversation × ConvUpdate => summaryRow e.1 e.2) ∘
      fun u => (s.db.conversationAt u.conversationId, u)) =
        fun u => summaryRow (s.db.conversationAt u.conversationId) u := rfl
    rw [comp, run_then batch]
    obtain ⟨here, elsewhere⟩ := put_summaries each summariesPut
    -- every conversation now counts its new originals
    have countedHere : ∀ c, summaries.get [.str c] = counted account c messages (s.db.conversation c) := by
      intro c
      rw [here, counted, update]
    split
    -- no amendment: nothing is recomputed
    next none_ =>
      refine ⟨_, rfl, putRows_last storedPut, fun c => ?_, elsewhere⟩
      have unamended : amends account.parse c messages ≠ true := fun amends_ => by
        have member := (amended_iff (.str c)).mpr ⟨c, rfl, amends_⟩
        rw [List.isEmpty_iff.mp none_] at member
        cases member
      rw [if_neg unamended]
      exact countedHere c
    -- the amended conversations are recomputed from what is stored by now
    next =>
      obtain ⟨t, ran, kept, amendedRow, otherRow, others⟩ := recompute_runs account
        { s with db := { s.db with messages := stored, conversations := summaries } }
        fun x member => by
          obtain ⟨c, rfl, _⟩ := (amended_iff x).mp member
          exact ⟨c, rfl⟩
      refine ⟨t, ran, ?_, fun c => ?_, fun key strange => (others key strange).trans (elsewhere key strange)⟩
      · rw [kept]
        exact putRows_last storedPut
      · have all : t.db.messagesOf account.userId.str = Database.messagesOf
            { s.db with messages := stored, conversations := summaries } account.userId.str := by
          simp only [Database.messagesOf, kept]
        have member : (Js.str c ∈ amended) ↔ amends account.parse c messages = true := by
          simp [amended_iff]
        rw [all, ← countedHere]
        split
        next here => exact amendedRow c (member.mpr here)
        next other => exact otherRow c fun inside => other (member.mp inside)

/-! ### What a save does to a row -/

theorem foldl_bump_count (messages : List ChatMessage) (update : Option ConvUpdate) :
    ((messages.foldl bump update).map ConvUpdate.count).getD 0 =
      (update.map ConvUpdate.count).getD 0 + messages.length := by
  induction messages generalizing update with
  | nil => rfl
  | cons m rest ih =>
    rw [List.foldl_cons, ih, List.length_cons]
    have one : ((bump update m).map ConvUpdate.count).getD 0 = (update.map ConvUpdate.count).getD 0 + 1 := by
      cases update with
      | none => rfl
      | some u => simp only [bump, Option.map_some, Option.getD_some]; split <;> rfl
    omega

theorem bump_id {c : String} {update : Option ConvUpdate} {m : ChatMessage}
    (here : m.conversationId = c) (named : ∀ u ∈ update, u.conversationId = .str c) :
    ∀ u ∈ bump update m, u.conversationId = .str c := by
  intro u made
  cases update with
  | none => cases made; rw [here]
  | some old =>
    have same := named old rfl
    simp only [bump, Option.mem_def, Option.some.injEq] at made
    split at made <;> (subst made; exact same)

theorem foldl_bump_id {c : String} {messages : List ChatMessage}
    (here : ∀ m ∈ messages, m.conversationId = c) {update : Option ConvUpdate}
    (named : ∀ u ∈ update, u.conversationId = .str c) :
    ∀ u ∈ messages.foldl bump update, u.conversationId = .str c := by
  induction messages generalizing update with
  | nil => exact named
  | cons m rest ih =>
    exact ih (fun m' member => here m' (List.mem_cons_of_mem _ member))
      (bump_id (here m List.mem_cons_self) named)

/-- How many messages a row says its conversation has. -/
def countOf (row : Option StoredConversation) : Nat := (row.map StoredConversation.messageCount).getD 0

theorem counted_count (account : Account) (c : String) (messages : List ChatMessage)
    (row : Option StoredConversation) :
    countOf (counted account c messages row) = countOf row + (plainIn account.parse c messages).length := by
  have counts := foldl_bump_count (plainIn account.parse c messages) none
  unfold counted
  cases tallied : (plainIn account.parse c messages).foldl bump none with
  | none =>
    rw [tallied] at counts
    have none_ : (plainIn account.parse c messages).length = 0 := by simpa using counts.symm
    rw [none_]
    rfl
  | some u =>
    rw [tallied] at counts
    have total : u.count = (plainIn account.parse c messages).length := by simpa using counts
    simp [countOf, summaryRow, total]

theorem correctedRow_count {all : List StoredMessage} {id : Js} {row new : StoredConversation}
    (made : correctedRow account.parse account.render all id (some row) = some new) :
    new.messageCount = row.messageCount := by
  simp only [correctedRow, Option.bind_eq_bind, Option.bind_some, Option.bind_eq_some_iff] at made
  obtain ⟨_, _, rest⟩ := made
  split at rest
  next => cases rest
  next => cases rest; rfl

theorem corrected_count (c : String) (all : List StoredMessage) (row : Option StoredConversation) :
    countOf (corrected account c all row) = countOf row := by
  cases row with
  | none => rfl
  | some row =>
    cases made : correctedRow account.parse account.render all (.str c) (some row) with
    | none => rw [corrected, made]; rfl
    | some new =>
      rw [corrected, made]
      simp [countOf, correctedRow_count made]

theorem counted_id {c : String} {messages : List ChatMessage} {row : Option StoredConversation}
    (named : ∀ r ∈ row, r.conversationId = .str c) :
    ∀ r ∈ counted account c messages row, r.conversationId = .str c := by
  intro r made
  unfold counted at made
  split at made
  next => exact named r made
  next u tallied =>
    cases made
    exact foldl_bump_id (fun m member => (mem_plainIn.mp member).2.2) (fun _ none_ => absurd none_ (by simp)) u tallied

theorem corrected_id {c : String} {all : List StoredMessage} {row : Option StoredConversation}
    (named : ∀ r ∈ row, r.conversationId = .str c) :
    ∀ r ∈ corrected account c all row, r.conversationId = .str c := by
  intro r made
  unfold corrected at made
  cases changed : correctedRow account.parse account.render all (.str c) row with
  | none =>
    rw [changed] at made
    exact named r made
  | some new =>
    rw [changed] at made
    cases made
    exact correctedRow_id changed

end Save

/-! ### A history of saves and reads -/

/-- What is called on one browser: a save, or a chat that is opened and read. -/
inductive ChatEvent where
  | save (messages : List ChatMessage)
  | read (id : ConversationId) (timestamp : Int)

def ChatEvent.saved : ChatEvent → List ChatMessage
  | .save messages => messages
  | .read .. => []

/-- The messages saved by some calls, in order. -/
def delivered (events : List ChatEvent) : List ChatMessage := events.flatMap ChatEvent.saved

section History

variable (account : Account)

/-- A call that ends without an error. -/
def ChatEvent.run : ChatEvent → State → Option State
  | .save messages, s =>
    match (saveMessages account.parse account.render account.userId.str
      (messages.map ChatMessage.decrypted)).run.execute calm s with
    | some (.ok (), t) => some t
    | _ => none
  | .read id timestamp, s => (s.db.markConversationRead id timestamp).map fun e => { s with db := e.2 }

/-- Some calls, one after the other. -/
def runAll : List ChatEvent → State → Option State
  | [], s => some s
  | event :: rest, s => (event.run account s).bind (runAll rest)

/-- What the database holds once `saved` was saved, in this order. -/
structure Chats (saved : List ChatMessage) (db : Database) : Prop where
  messagesAt : ∀ key, db.messages.get key =
    (saved.map (ChatMessage.row account.userId.str)).reverse.find? fun row =>
      decide (row.id.key = some key)
  named : ∀ key row, db.conversations.get key = some row →
    ∃ c, key = [.str c] ∧ row.conversationId = .str c
  counts : ∀ c, countOf (db.conversation c) = (plainIn account.parse c saved).length

variable {account}

theorem Chats.start : Chats account [] {} :=
  ⟨fun _ => rfl, fun _ _ found => (nomatch found), fun _ => rfl⟩

theorem Chats.save {saved messages : List ChatMessage} {db db' : Database}
    (chats : Chats account saved db) (done : SavedChat account messages db db') :
    Chats account (saved ++ messages) db' := by
  constructor
  · intro key
    rw [done.messagesAt, chats.messagesAt, List.map_append, List.reverse_append, List.find?_append]
  · intro key row found
    by_cases plain : ∃ c : String, key = [.str c]
    · obtain ⟨c, rfl⟩ := plain
      have before : ∀ r ∈ db.conversation c, r.conversationId = .str c := by
        intro r there
        obtain ⟨c', same, named⟩ := chats.named _ r there
        simp only [List.cons.injEq, KeyToken.str.injEq, and_true] at same
        rw [named, same]
      refine ⟨c, rfl, ?_⟩
      have after := done.conversation c
      rw [Database.conversation, found] at after
      split at after
      next => exact corrected_id (counted_id before) row after.symm
      next => exact counted_id before row after.symm
    · rw [done.elsewhere key fun c same => plain ⟨c, same⟩] at found
      exact chats.named key row found
  · intro c
    rw [done.conversation, plainIn, List.filter_append, List.length_append]
    have both := counted_count account c messages (db.conversation c)
    rw [chats.counts] at both
    split
    next => rw [corrected_count]; exact both
    next => exact both

theorem Chats.read {saved : List ChatMessage} {db db' : Database} {id : ConversationId}
    {timestamp : Int} {advanced : Bool} (chats : Chats account saved db)
    (done : db.markConversationRead id timestamp = some (advanced, db')) : Chats account saved db' := by
  unfold Database.markConversationRead at done
  split at done
  next => cases done; exact chats
  next row there =>
    split at done
    next => cases done; exact chats
    next =>
      obtain ⟨_, put, same⟩ := Option.map_eq_some_iff.mp done
      cases same
      obtain ⟨c, key, named⟩ := chats.named _ row there
      simp only [List.cons.injEq, KeyToken.str.injEq, and_true] at key
      subst key
      simp only [Database.putRead, Database.saveBatch, Database.putRows, named, Js.key_str,
        Option.some.injEq] at put
      subst put
      refine ⟨chats.messagesAt, fun key row' found => ?_, fun c => ?_⟩
      · rw [ObjectMap.get_insert] at found
        split at found
        next same => cases found; exact ⟨_, same, rfl⟩
        next => exact chats.named key row' found
      · rw [← chats.counts c]
        simp only [Database.conversation, ObjectMap.get_insert]
        split
        next same =>
          rw [same]
          have old : db.conversations.get [.str id.str] = some row := there
          simp [countOf, old]
        next => rfl

theorem runAll_chats {events : List ChatEvent} {saved : List ChatMessage} {s t : State}
    (chats : Chats account saved s.db) (ran : runAll account events s = some t) :
    Chats account (saved ++ delivered events) t.db := by
  induction events generalizing saved s with
  | nil =>
    cases ran
    rw [delivered, List.flatMap_nil, List.append_nil]
    exact chats
  | cons event rest ih =>
    obtain ⟨u, first, later⟩ := Option.bind_eq_some_iff.mp ran
    rw [delivered, List.flatMap_cons, ← List.append_assoc]
    apply ih _ later
    cases event with
    | save messages =>
      obtain ⟨u', ran', done⟩ := save_runs account s messages
      simp only [ChatEvent.run, ran', Option.some.injEq] at first
      subst first
      exact chats.save done
    | read id timestamp =>
      obtain ⟨⟨advanced, db'⟩, read, rfl⟩ := Option.map_eq_some_iff.mp first
      rw [ChatEvent.saved, List.append_nil]
      exact chats.read read

/-- Saves and reads never fail. -/
theorem runAll_total (account : Account) (events : List ChatEvent) {saved : List ChatMessage} {s : State}
    (chats : Chats account saved s.db) : ∃ t, runAll account events s = some t := by
  induction events generalizing saved s with
  | nil => exact ⟨s, rfl⟩
  | cons event rest ih =>
    have first : ∃ u, event.run account s = some u := by
      cases event with
      | save messages =>
        obtain ⟨u, ran, _⟩ := save_runs account s messages
        exact ⟨u, by simp only [ChatEvent.run, ran]⟩
      | read id timestamp =>
        simp only [ChatEvent.run, Database.markConversationRead]
        split
        next => exact ⟨_, rfl⟩
        next row there =>
          split
          next => exact ⟨_, rfl⟩
          next =>
            obtain ⟨c, _, named⟩ := chats.named _ row there
            simp only [Database.putRead, Database.saveBatch, Database.putRows, named, Js.key_str]
            exact ⟨_, rfl⟩
    obtain ⟨u, first⟩ := first
    have before : runAll account [event] s = some u := by
      rw [runAll, first]
      rfl
    obtain ⟨t, later⟩ := ih (runAll_chats chats before)
    exact ⟨t, by rw [runAll, first]; exact later⟩

end History

end Atmin.Web
