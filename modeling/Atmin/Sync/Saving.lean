import Atmin.Sync.Eventually

/-!
# What a sync saves

Without faults `saveMessages` fails for one reason only: an id that IndexedDB does not take
for a key. The messages and the conversations they count in are written in one transaction,
and the amended conversations are read after it.
-/

namespace Atmin.Web

open Interaction

/-! ### Conversations of a batch -/

section Batch

variable {P : Js → Prop}

theorem bumpConversation_all (m : DecryptedMessage) (updates : List ConvUpdate) :
    (∀ u ∈ bumpConversation m updates, P u.conversationId) ↔
      P m.conversationId ∧ ∀ u ∈ updates, P u.conversationId := by
  induction updates with
  | nil => simp [bumpConversation]
  | cons u rest ih =>
    simp only [bumpConversation]
    split
    next same =>
      have equal := Js.eq_of_same same
      split <;> simp [equal]
    next => simp only [List.forall_mem_cons, ih]; exact and_left_comm

theorem addOnce_all (x : Js) (set : List Js) :
    (∀ y ∈ addOnce x set, P y) ↔ P x ∧ ∀ y ∈ set, P y := by
  unfold addOnce
  split
  next known => exact ⟨fun all => ⟨all x (Js.mem_of_isIn known), all⟩, And.right⟩
  next => simp [or_imp, forall_and, and_comm]

/-- The conversations a batch counts in, and those it amends. -/
theorem groupByConversation_all (parse : String → Option Json) (P : Js → Prop)
    (messages : List DecryptedMessage) (acc : List ConvUpdate × List Js) :
    ((∀ u ∈ (groupByConversation parse messages acc).1, P u.conversationId) ↔
      (∀ u ∈ acc.1, P u.conversationId) ∧
        ∀ m ∈ messages, isAmendment parse m.text = false → P m.conversationId) ∧
    ((∀ x ∈ (groupByConversation parse messages acc).2, P x) ↔
      (∀ x ∈ acc.2, P x) ∧ ∀ m ∈ messages, isAmendment parse m.text = true → P m.conversationId) := by
  induction messages generalizing acc with
  | nil => simp [groupByConversation]
  | cons m rest ih =>
    obtain ⟨updates, amended⟩ := acc
    rw [groupByConversation]
    split
    next amends =>
      obtain ⟨counted, corrected⟩ := ih (updates, addOnce m.conversationId amended)
      rw [counted, corrected]
      simp only [addOnce_all, List.forall_mem_cons, amends]
      constructor
      · simp
      · simp only [forall_const]; exact and_assoc.trans and_left_comm
    next plain =>
      have plain : isAmendment parse m.text = false := by simpa using plain
      obtain ⟨counted, corrected⟩ := ih (bumpConversation m updates, amended)
      rw [counted, corrected]
      simp only [bumpConversation_all, List.forall_mem_cons, plain]
      constructor
      · simp only [forall_const]; exact and_assoc.trans and_left_comm
      · simp

end Batch

section Save

variable {s : State}

/-- Whether IndexedDB takes the value for a key. -/
def HasKey (x : Js) : Prop := x.key.isSome = true

/-- The batch is written: each id, and each conversation it counts in, is a key. -/
def Storable (parse : String → Option Json) (messages : List DecryptedMessage) : Prop :=
  (∀ m ∈ messages, HasKey m.id) ∧
    ∀ m ∈ messages, isAmendment parse m.text = false → HasKey m.conversationId

/-- The amended conversations can be read. -/
def Correctable (parse : String → Option Json) (messages : List DecryptedMessage) : Prop :=
  ∀ m ∈ messages, isAmendment parse m.text = true → HasKey m.conversationId

theorem getConversations_runs (s : State) (ids : List Js) :
    ((∀ id ∈ ids, HasKey id) ∧ ∃ rows, (getConversations ids).run.execute calm s = some (.ok rows, s)) ∨
      (¬ (∀ id ∈ ids, HasKey id) ∧ (getConversations ids).run.execute calm s = some (.error .data, s)) := by
  induction ids with
  | nil => exact .inl ⟨fun _ member => (nomatch member), [], rfl⟩
  | cons id rest ih =>
    have first : (await (step (.getConversation id))).run.execute calm s =
        some (Database.lookup s.db.conversations id, s) := rfl
    cases named : id.key with
    | none =>
      refine .inr ⟨fun all => ?_, ?_⟩
      · have key := all id List.mem_cons_self
        simp [HasKey, named] at key
      · rw [Database.lookup, named] at first
        rw [getConversations, Async.run_bind, execute_bind, first]
        rfl
    | some key =>
      rw [Database.lookup, named] at first
      rw [getConversations, run_then first]
      rcases ih with ⟨all, rows, ran⟩ | ⟨some_, ran⟩
      · exact .inl ⟨List.forall_mem_cons.mpr ⟨by simp [HasKey, named], all⟩, _, (run_then ran).trans rfl⟩
      · refine .inr ⟨fun all => some_ fun other member => all other (List.mem_cons_of_mem _ member), ?_⟩
        rw [Async.run_bind, execute_bind, ran]
        rfl

theorem correctedRow_id {parse : String → Option Json} {render : Js → String}
    {all : List StoredMessage} {id : Js} {current : Option StoredConversation}
    {row : StoredConversation} (corrected : correctedRow parse render all id current = some row) :
    row.conversationId = id := by
  simp only [correctedRow, Option.bind_eq_bind, Option.bind_eq_some_iff] at corrected
  obtain ⟨_, _, _, _, rest⟩ := corrected
  split at rest
  next => cases rest
  next => cases rest; rfl

/-- What saving leaves of the messages and the ingested archives. -/
structure Kept (s t : State) : Prop where
  messages : t.db.messages = s.db.messages
  ingested : t.db.ingestedArchives = s.db.ingestedArchives

/-- Correcting the summaries leaves the messages alone. -/
theorem recomputeAmendedSummaries_runs (parse : String → Option Json) (render : Js → String)
    (userId : String) (s : State) (ids : List Js) : ∃ r t,
    (recomputeAmendedSummaries parse render userId ids).run.execute calm s = some (r, t) ∧
      Kept s t ∧ (r = .ok () ↔ ∀ id ∈ ids, HasKey id) := by
  have all : (await (step (.getAllMessages userId))).run.execute calm s =
      some (.ok (s.db.messagesOf userId), s) := rfl
  rw [recomputeAmendedSummaries, run_then all]
  rcases getConversations_runs s ids with ⟨valid, rows, ran⟩ | ⟨invalid, ran⟩
  · rw [run_then ran]
    generalize written : (ids.zip rows).filterMap
      (fun e => correctedRow parse render (s.db.messagesOf userId) e.1 e.2) = writes
    dsimp only
    split
    next => exact ⟨.ok (), s, rfl, ⟨rfl, rfl⟩, iff_of_true rfl valid⟩
    next =>
      have named : ∀ row ∈ writes, ∃ key, row.conversationId.key = some key := by
        intro row member
        rw [← written] at member
        obtain ⟨⟨id, current⟩, inside, corrected⟩ := List.mem_filterMap.mp member
        rw [correctedRow_id corrected]
        exact Option.isSome_iff_exists.mp (valid id (List.of_mem_zip inside).1)
      obtain ⟨conversations, put⟩ := putRows_some s.db.conversations named
      refine ⟨.ok (), { s with db := { s.db with conversations } }, ?_, ⟨rfl, rfl⟩, iff_of_true rfl valid⟩
      simp only [run_await, execute_step, calm, perform, writing, Database.saveBatch, Database.putRows, put]
  · refine ⟨.error .data, s, ?_, ⟨rfl, rfl⟩, iff_of_false (by simp) invalid⟩
    rw [Async.run_bind, execute_bind, ran]
    rfl

/-- What `saveMessages` does without faults. -/
structure Saved (account : Account) (messages : List DecryptedMessage) (s t : State) : Prop where
  ingested : t.db.ingestedArchives = s.db.ingestedArchives
  stored : Storable account.parse messages → Database.putRows StoredMessage.id
    (messages.map (storedMessage account.userId.str)) s.db.messages = some t.db.messages
  kept : ¬ Storable account.parse messages → t.db.messages = s.db.messages

theorem saveMessages_runs (account : Account) (s : State) (messages : List DecryptedMessage) : ∃ r t,
    (saveMessages account.parse account.render account.userId.str messages).run.execute calm s =
      some (r, t) ∧ Saved account messages s t ∧
      (r = .ok () ↔ Storable account.parse messages ∧ Correctable account.parse messages) := by
  unfold saveMessages
  split
  next empty =>
    rw [List.isEmpty_iff] at empty
    subst empty
    have storable : Storable account.parse [] :=
      ⟨fun _ member => (by cases member), fun _ member => by cases member⟩
    exact ⟨.ok (), s, rfl, ⟨rfl, fun _ => rfl, fun no => absurd storable no⟩,
      iff_of_true rfl ⟨storable, fun _ member => by cases member⟩⟩
  next =>
    generalize grouped : groupByConversation account.parse messages ([], []) = groups
    obtain ⟨updates, amended⟩ := groups
    have all := groupByConversation_all account.parse HasKey messages ([], [])
    rw [grouped] at all
    simp only [List.not_mem_nil, false_imp_iff, implies_true, true_and] at all
    obtain ⟨counted, corrected⟩ := all
    dsimp only
    -- the read fails where an id that is counted is no key
    rcases getConversations_runs s (updates.map ConvUpdate.conversationId) with ⟨valid, rows, ran⟩ | ⟨invalid, ran⟩
    · rw [run_then ran]
      have counts : ∀ u ∈ updates, HasKey u.conversationId :=
        fun u member => valid _ (List.mem_map_of_mem member)
      have summaries : ∀ row ∈ ((rows.zip updates).map fun e => summaryRow e.1 e.2),
          ∃ key, row.conversationId.key = some key := by
        intro row member
        obtain ⟨⟨current, u⟩, inside, rfl⟩ := List.mem_map.mp member
        exact Option.isSome_iff_exists.mp (counts u (List.of_mem_zip inside).2)
      obtain ⟨conversations, put⟩ := putRows_some s.db.conversations summaries
      -- the write fails where the id of a message is no key
      by_cases ids : ∀ m ∈ messages, HasKey m.id
      · have named : ∀ row ∈ messages.map (storedMessage account.userId.str),
            ∃ key, row.id.key = some key := by
          intro row member
          obtain ⟨m, inside, rfl⟩ := List.mem_map.mp member
          exact Option.isSome_iff_exists.mp (ids m inside)
        obtain ⟨stored, rowsPut⟩ := putRows_some s.db.messages named
        have storable : Storable account.parse messages := ⟨ids, counted.mp counts⟩
        have batch : (await (step (.putMessages (messages.map (storedMessage account.userId.str))
            ((rows.zip updates).map fun e => summaryRow e.1 e.2)))).run.execute calm s =
              some (.ok (), { s with db := { s.db with messages := stored, conversations } }) := by
          simp only [run_await, execute_step, calm, perform, writing, Database.saveBatch, rowsPut, put]
        rw [run_then batch]
        -- with amendments the rest is up to the recomputation
        split
        next none_ =>
          rw [List.isEmpty_iff] at none_
          subst none_
          exact ⟨.ok (), _, rfl, ⟨rfl, fun _ => rowsPut, fun no => absurd storable no⟩,
            iff_of_true rfl ⟨storable, corrected.mp fun _ member => by cases member⟩⟩
        next =>
          obtain ⟨r, t, ran', kept, good⟩ := recomputeAmendedSummaries_runs account.parse account.render
            account.userId.str { s with db := { s.db with messages := stored, conversations } } amended
          refine ⟨r, t, ran', ⟨kept.ingested, fun _ => ?_, fun no => absurd storable no⟩, ?_⟩
          · rw [kept.messages]
            exact rowsPut
          · rw [good, corrected]
            exact ⟨fun correctable => ⟨storable, correctable⟩, And.right⟩
      · have unput : Database.putRows StoredMessage.id (messages.map (storedMessage account.userId.str))
            s.db.messages = none := by
          cases put' : Database.putRows StoredMessage.id (messages.map (storedMessage account.userId.str))
              s.db.messages with
          | none => rfl
          | some stored =>
            exact absurd (fun m member => Option.isSome_iff_exists.mpr
              (putRows_valid put' _ (List.mem_map_of_mem member))) ids
        refine ⟨.error .data, s, ?_, ⟨rfl, fun storable => absurd storable.1 ids, fun _ => rfl⟩,
          iff_of_false (by simp) fun good => ids good.1.1⟩
        rw [Async.run_bind, execute_bind]
        simp only [run_await, execute_step, calm, perform, writing, Database.saveBatch, unput]
        rfl
    · have uncounted : ¬ Storable account.parse messages := fun storable => invalid fun id member => by
        obtain ⟨u, inside, rfl⟩ := List.mem_map.mp member
        exact counted.mpr storable.2 u inside
      refine ⟨.error .data, s, ?_, ⟨rfl, fun storable => absurd storable uncounted, fun _ => rfl⟩,
        iff_of_false (by simp) fun good => uncounted good.1⟩
      rw [Async.run_bind, execute_bind, ran]
      rfl

/-! ### A whole call -/

theorem markArchivesIngested_runs (s : State) (keys : List String) : ∃ t,
    (markArchivesIngested keys).run.execute calm s = some (.ok (), t) ∧
      t.db.messages = s.db.messages ∧
      ∀ key, key ∈ t.db.ingestedArchives ↔ key ∈ s.db.ingestedArchives ∨ key ∈ keys := by
  induction keys generalizing s with
  | nil => exact ⟨s, rfl, rfl, fun key => by simp⟩
  | cons key rest ih =>
    have first : (attempt (await (step (.markArchiveIngested key)))).run.execute calm s =
        some (.ok (.ok ()), { s with
          db := { s.db with ingestedArchives := key :: s.db.ingestedArchives } }) := rfl
    obtain ⟨t, ran, messages, ingested⟩ := ih { s with
      db := { s.db with ingestedArchives := key :: s.db.ingestedArchives } }
    refine ⟨t, (run_then first).trans ran, messages, fun other => ?_⟩
    simp only [ingested, List.mem_cons]
    rw [or_comm (a := other = key), or_assoc]

/-- What publishing does with a result. -/
structure Publishes (account : Account) (synced : SyncResult) (s t : State) (r : Published) : Prop where
  ends : r = .done ∨ r = .savingFailed
  done : r = .done ↔
    Storable account.parse synced.messages ∧ Correctable account.parse synced.messages
  stored : Storable account.parse synced.messages → Database.putRows StoredMessage.id
    (synced.messages.map (storedMessage account.userId.str)) s.db.messages = some t.db.messages
  kept : ¬ Storable account.parse synced.messages → t.db.messages = s.db.messages
  ingested : ∀ key, key ∈ t.db.ingestedArchives ↔
    key ∈ s.db.ingestedArchives ∨ r = .done ∧ key ∈ synced.ingestedCandidates

theorem publish_runs (page : Page) (synced : SyncResult) (s : State) : ∃ r t,
    (publish page synced).run.execute calm s = some (.ok r, t) ∧
      Publishes page.toAccount synced s t r := by
  obtain ⟨r, t, ran, saved, good⟩ := saveMessages_runs page.toAccount s synced.messages
  unfold publish
  rw [run_then (attempt_runs ran)]
  cases r with
  | error e =>
    have bad : ¬ (Storable page.parse synced.messages ∧ Correctable page.parse synced.messages) :=
      fun fine => nomatch good.mpr fine
    exact ⟨.savingFailed, t, rfl, .inr rfl, iff_of_false nofun bad, saved.stored, saved.kept,
      fun key => by simp [saved.ingested]⟩
  | ok =>
    obtain ⟨u, marked, messages, ingested⟩ := markArchivesIngested_runs t synced.ingestedCandidates
    refine ⟨.done, u, (run_then marked).trans rfl, .inl rfl, iff_of_true rfl (good.mp rfl), ?_, ?_, ?_⟩
    · rw [messages]; exact saved.stored
    · rw [messages]; exact saved.kept
    · simp [ingested, saved.ingested]

variable [CborDecoder]

/-- A call of `syncAndPublish` without faults. -/
structure Turn (page : Page) (s t : State) (r : Published) : Prop extends
    Ran page s t, Publishes page.toAccount (syncResult page s) s t r where
  coherent : Coherent t

theorem syncAndPublish_turn (page : Page) (idle : s.memory.syncInFlight = none) (coherent : Coherent s)
    (readable : Readable s.objects) : ∃ r t,
      (syncAndPublish page).run.execute calm s = some (.ok r, t) ∧ Turn page s t r := by
  obtain ⟨u, r', t, ran, published, saves, follows⟩ := syncAndPublish_runs page idle coherent readable
  obtain ⟨r, t', ran', publishes⟩ := publish_runs page (syncResult page s) u
  rw [published] at ran'
  cases ran'
  have messages : u.db.messages = s.db.messages := by
    rw [follows.frame.messages]
    cases (liveKeys page.userId s).getLast? <;> rfl
  have ingested : u.db.ingestedArchives = s.db.ingestedArchives := by
    rw [follows.frame.ingestedArchives]
    cases (liveKeys page.userId s).getLast? <;> rfl
  have coherent' : Coherent t := by
    rw [saves]
    exact ⟨follows.coherent.stored, follows.coherent.cached⟩
  refine ⟨r, t, ran, syncAndPublish_ran idle coherent readable ran,
    ⟨publishes.ends, publishes.done, ?_, ?_, ?_⟩, coherent'⟩
  · rw [← messages]; exact publishes.stored
  · rw [← messages]; exact publishes.kept
  · rw [← ingested]; exact publishes.ingested

/-- Some calls of `syncAndPublish`, one after the other, and how each ended. -/
def turns (page : Page) : Nat → State → Option (List (Except Thrown Published) × State)
  | 0, s => some ([], s)
  | n + 1, s => do
    let (r, t) ← (syncAndPublish page).run.execute calm s
    let (rs, u) ← turns page n t
    pure (r :: rs, u)

end Save

end Atmin.Web
