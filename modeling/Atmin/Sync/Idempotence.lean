import Atmin.Sync.Delivery
import Atmin.Sync.Rendering

/-!
# Saving what is stored already

Saving a batch again leaves the database as it was only if the batch is made of amendments
whose conversations are up to date: every other message is counted once more. So the
counter of a conversation is the number of its messages only where each was saved once.
-/

namespace Atmin.Web

open Interaction

section Resave

variable (account : Account)

/-- The messages of a conversation. -/
def Database.chat (db : Database) (c : String) : List StoredMessage :=
  (db.messagesOf account.userId.str).filter fun m => m.conversationId.same (.str c)

/-- Each message of the batch is stored, with the same content. -/
def AllStored (db : Database) (messages : List ChatMessage) : Prop :=
  ∀ m ∈ messages, db.message m.id = some (m.row account.userId.str)

/-- No message row and no conversation row has changed. -/
structure SameRows (db db' : Database) : Prop where
  messages : ∀ key, db'.messages.get key = db.messages.get key
  conversations : ∀ key, db'.conversations.get key = db.conversations.get key

/-- The row of a conversation shows what its messages summarize to. Under an invalid date
the row is written anew each time, and then without a read watermark. -/
def UpToDate (db : Database) (c : String) : Prop :=
  ∀ row summary, db.conversation c = some row →
    summarizeConversation account.parse account.render (db.chat account c) = some summary →
    row.lastMessageText = summary.lastMessageText ∧
      row.lastMessageTimestamp = summary.lastMessageTimestamp ∧
      row.lastMessageDeleted = summary.lastMessageDeleted ∧
      (summary.lastMessageTimestamp = none → row.lastReadTimestamp = none)

variable {account}

theorem Chats.namedRows {saved : List ChatMessage} {db : Database} (chats : Chats account saved db) :
    Named db.messages := by
  intro key row found
  rw [chats.messagesAt] at found
  have member := List.mem_of_find?_eq_some found
  have hit := List.find?_some found
  obtain ⟨m, _, rfl⟩ := List.mem_map.mp (List.mem_reverse.mp member)
  have here : [.str m.id] = key := by
    simpa [ChatMessage.row, storedMessage, ChatMessage.decrypted] using hit
  exact ⟨m.id, rfl, here.symm⟩

theorem mem_messagesOf {db : Database} {userId : String} {m : StoredMessage} :
    m ∈ db.messagesOf userId ↔ (∃ key, db.messages.get key = some m) ∧ m.userId = userId := by
  have stored : (∃ e ∈ db.messages.entries, e.2 = m) ↔ ∃ key, db.messages.get key = some m := by
    constructor
    · rintro ⟨e, member, rfl⟩
      exact ⟨e.1, ObjectMap.get_of_mem member⟩
    · rintro ⟨key, found⟩
      exact ⟨(key, m), ObjectMap.mem_of_get found, rfl⟩
  simp only [Database.messagesOf, List.mem_insertionSort, List.mem_filter, List.mem_map, stored,
    decide_eq_true_eq]

theorem messagesOf_sorted {db : Database} (named : Named db.messages) (userId : String) :
    (db.messagesOf userId).Pairwise fun a b => a.place ≤ b.place := by
  rw [← List.pairwise_map, Database.messagesOf,
    List.map_insertionSort (fun a b => Database.idLe a b = true) (· ≤ ·) StoredMessage.place]
  · exact List.pairwise_insertionSort _ _
  · have ids : ∀ m ∈ (db.messages.entries.map Prod.snd).filter fun m => decide (m.userId = userId),
        ∃ name, m.id = .str name := by
      intro m member
      obtain ⟨e, inside, rfl⟩ := List.mem_map.mp (List.mem_of_mem_filter member)
      obtain ⟨name, id, _⟩ := named e.1 e.2 (ObjectMap.get_of_mem inside)
      exact ⟨name, id⟩
    intro a first b second
    obtain ⟨name, id⟩ := ids a first
    obtain ⟨name', id'⟩ := ids b second
    simp [Database.idLe, StoredMessage.place, StoredMessage.name, id, id']

/-- The rows of one account depend on nothing but what is stored under each key. -/
theorem messagesOf_congr {db db' : Database} (same : ∀ key, db'.messages.get key = db.messages.get key)
    (named : Named db.messages) (userId : String) : db'.messagesOf userId = db.messagesOf userId := by
  have named' : Named db'.messages := fun key row found => named key row ((same key).symm.trans found)
  have entries : db'.messages.entries.Perm db.messages.entries := by
    refine (List.perm_ext_iff_of_nodup (.of_map _ db'.messages.nodup) (.of_map _ db.messages.nodup)).mpr
      fun e => ?_
    constructor
    · intro member
      exact ObjectMap.mem_of_get ((same e.1).symm.trans (ObjectMap.get_of_mem member))
    · intro member
      exact ObjectMap.mem_of_get ((same e.1).trans (ObjectMap.get_of_mem member))
  have perm : (db'.messagesOf userId).Perm (db.messagesOf userId) :=
    ((List.perm_insertionSort _ _).trans ((entries.map Prod.snd).filter _)).trans
      (List.perm_insertionSort _ _).symm
  refine perm.eq_of_pairwise ?_
    (messagesOf_sorted named' userId) (messagesOf_sorted named userId)
  intro a b inside inside' le le'
  obtain ⟨⟨key, there⟩, _⟩ := mem_messagesOf.mp (perm.mem_iff.mp inside)
  obtain ⟨⟨key', there'⟩, _⟩ := mem_messagesOf.mp inside'
  obtain ⟨name, id, rfl⟩ := named key a there
  obtain ⟨name', id', rfl⟩ := named key' b there'
  have equal : name = name' := by
    have same := Utf16.place_inj (le_antisymm le le')
    simpa [StoredMessage.name, id, id'] using same
  subst equal
  exact Option.some.inj (there.symm.trans there')

/-! ### One batch -/

theorem plainIn_nil {c : String} {messages : List ChatMessage}
    (amendments : ∀ m ∈ messages, isAmendment account.parse m.text = true) :
    plainIn account.parse c messages = [] := by
  rw [plainIn, List.filter_eq_nil_iff]
  intro m member
  simp [amendments m member]

/-- A row is written anew, or the conversation is up to date. -/
theorem correctedRow_same {db : Database} {c : String} {row : StoredConversation}
    (named : row.conversationId = .str c) :
    (correctedRow account.parse account.render (db.messagesOf account.userId.str) (.str c)
      (some row)).or (some row) = some row ↔
      ∀ summary, summarizeConversation account.parse account.render (db.chat account c) = some summary →
        row.lastMessageText = summary.lastMessageText ∧
        row.lastMessageTimestamp = summary.lastMessageTimestamp ∧
        row.lastMessageDeleted = summary.lastMessageDeleted ∧
        (summary.lastMessageTimestamp = none → row.lastReadTimestamp = none) := by
  simp only [correctedRow, Option.bind_eq_bind, Option.bind_some]
  have chat : ((db.messagesOf account.userId.str).filter fun m => m.conversationId.same (.str c)) =
      db.chat account c := rfl
  rw [chat]
  cases summarizeConversation account.parse account.render (db.chat account c) with
  | none => simp
  | some summary =>
    obtain ⟨id, text, date, number, deleted, read⟩ := row
    obtain ⟨text', date', deleted'⟩ := summary
    dsimp only at named
    subst named
    simp only [Option.bind_some]
    split
    -- the row already says what the chat does
    next same =>
      obtain ⟨rfl, dated, rfl, rfl⟩ := same
      simp only [Option.none_or, true_iff]
      rintro _ ⟨⟩
      refine ⟨rfl, rfl, rfl, fun invalid => ?_⟩
      have none_ : date' = none := invalid
      rw [none_] at dated
      cases dated
    -- else it is written, and the read watermark is not among what is written
    next differs =>
      simp only [Option.some_or, Option.some.injEq, StoredConversation.mk.injEq]
      constructor
      · rintro ⟨_, rfl, rfl, _, rfl, rfl⟩ _ ⟨⟩
        exact ⟨rfl, rfl, rfl, fun _ => rfl⟩
      · intro upToDate
        obtain ⟨rfl, rfl, rfl, unread⟩ := upToDate _ rfl
        have invalid : date = none := by
          by_contra valid
          exact differs ⟨rfl, Option.isSome_iff_ne_none.mpr valid, rfl, rfl⟩
        simp [unread invalid]

/-- Saving again what is stored changes nothing exactly where nothing is counted and every
amended conversation is up to date. -/
theorem resaved_same {saved messages : List ChatMessage} {db db' : Database}
    (chats : Chats account saved db) (stored : AllStored account db messages)
    (done : SavedChat account messages db db') : SameRows db db' ↔
      (∀ m ∈ messages, isAmendment account.parse m.text = true) ∧
        ∀ m ∈ messages, UpToDate account db m.conversationId := by
  -- the messages are stored already, so no row of theirs changes
  have rows : ∀ key, db'.messages.get key = db.messages.get key := by
    intro key
    rw [done.messagesAt]
    cases found : ((messages.map (ChatMessage.row account.userId.str)).reverse.find? fun row =>
        decide (row.id.key = some key)) with
    | none => rfl
    | some row =>
      have hit := List.find?_some found
      obtain ⟨m, member, rfl⟩ := List.mem_map.mp (List.mem_reverse.mp (List.mem_of_find?_eq_some found))
      have here : [.str m.id] = key := by
        simpa [ChatMessage.row, storedMessage, ChatMessage.decrypted] using hit
      rw [← here]
      exact (stored m member).symm
  have all : db'.messagesOf account.userId.str = db.messagesOf account.userId.str :=
    messagesOf_congr rows chats.namedRows _
  have named {c : String} {row : StoredConversation} (there : db.conversation c = some row) :
      row.conversationId = .str c := by
    obtain ⟨c', same, id⟩ := chats.named _ row there
    simp only [List.cons.injEq, KeyToken.str.injEq, and_true] at same
    rw [id, same]
  constructor
  · intro same
    -- an original would be counted again
    have amendments : ∀ m ∈ messages, isAmendment account.parse m.text = true := by
      intro m member
      by_contra plain
      have counts : countOf (db'.conversation m.conversationId) = countOf (db.conversation m.conversationId) +
          (plainIn account.parse m.conversationId messages).length := by
        rw [done.conversation]
        split
        next => rw [corrected_count, counted_count]
        next => rw [counted_count]
      have some_ : 0 < (plainIn account.parse m.conversationId messages).length :=
        List.length_pos_of_mem (mem_plainIn.mpr ⟨member, by simpa using plain, rfl⟩)
      rw [Database.conversation, same.conversations, Database.conversation] at counts
      omega
    refine ⟨amendments, fun m member row summary there => ?_⟩
    have amended : amends account.parse m.conversationId messages = true :=
      amends_iff.mpr ⟨m, member, amendments m member, rfl⟩
    have after := done.conversation m.conversationId
    rw [if_pos amended, counted, plainIn_nil amendments, all, there, Database.conversation,
      same.conversations] at after
    exact (correctedRow_same (named there)).mp
      (after.symm.trans there) summary
  · -- amendments alone count nothing, and a summary that is up to date is recomputed as it is
    rintro ⟨amendments, upToDate⟩
    refine ⟨rows, fun key => ?_⟩
    by_cases plain : ∃ c : String, key = [.str c]
    · obtain ⟨c, rfl⟩ := plain
      have after := done.conversation c
      rw [counted, plainIn_nil amendments, all] at after
      refine after.trans ?_
      split
      next amended =>
        obtain ⟨m, member, _, rfl⟩ := amends_iff.mp amended
        show corrected account m.conversationId _ (db.conversation m.conversationId) =
          db.conversation m.conversationId
        cases there : db.conversation m.conversationId with
        | none => rfl
        | some row =>
          exact (correctedRow_same (named there)).mpr fun summary => upToDate m member row summary there
      next => rfl
    · exact done.elsewhere key fun c same => plain ⟨c, same⟩

end Resave

/-! ### Counting -/

section Counting

variable (account : Account)

/-- The messages of a conversation that count, of those stored. -/
def storedIn (db : Database) (c : String) : List StoredMessage :=
  (db.messages.entries.map Prod.snd).filter fun m =>
    !isAmendment account.parse m.text && m.conversationId.same (.str c)

/-- No message that counts in the conversation is delivered again under its id. -/
def CountedOnce (events : List ChatEvent) (c : String) : Prop :=
  (delivered events).Pairwise fun m later =>
    isAmendment account.parse m.text = false → m.conversationId = c → m.id ≠ later.id

variable {account}

/-- The last delivery of each id. -/
def lasting (saved : List ChatMessage) : List ChatMessage :=
  saved.pwFilter fun m later => m.id ≠ later.id

theorem lasting_covers {saved : List ChatMessage} {m : ChatMessage} :
    (∀ later ∈ lasting saved, m.id ≠ later.id) ↔ ∀ later ∈ saved, m.id ≠ later.id := by
  refine List.forall_mem_pwFilter (fun {x y z} differ => ?_) m saved
  by_cases same : x.id = y.id
  · exact .inr (same ▸ differ)
  · exact .inl same

theorem mem_lasting {saved : List ChatMessage} {m : ChatMessage} :
    m ∈ lasting saved ↔ (saved.reverse.find? fun m' => decide (m'.id = m.id)) = some m := by
  induction saved with
  | nil => simp [lasting]
  | cons first rest ih =>
    rw [List.reverse_cons, List.find?_append, List.find?_singleton]
    -- the last of an id is found from behind
    have none_iff : (rest.reverse.find? fun m' => decide (m'.id = m.id)) = none ↔
        ∀ later ∈ rest, m.id ≠ later.id := by
      rw [List.find?_eq_none]
      simp only [List.mem_reverse, decide_eq_true_eq]
      exact ⟨fun absent later member same => absent later member same.symm,
        fun absent later member same => absent later member same.symm⟩
    -- the first message lasts where no later one has its id
    by_cases last : ∀ later ∈ lasting rest, first.id ≠ later.id
    · have added : lasting (first :: rest) = first :: lasting rest := List.pwFilter_cons_of_pos last
      rw [added, List.mem_cons, ih]
      constructor
      · rintro (rfl | found)
        · rw [none_iff.mpr (lasting_covers.mp last)]
          simp
        · rw [found, Option.some_or]
      · intro found
        cases inRest : rest.reverse.find? fun m' => decide (m'.id = m.id) with
        | none =>
          rw [inRest, Option.none_or] at found
          split at found
          next => exact .inl (Option.some.inj found).symm
          next => cases found
        | some m' =>
          rw [inRest, Option.some_or] at found
          exact .inr found
    · have dropped : lasting (first :: rest) = lasting rest := List.pwFilter_cons_of_neg last
      rw [dropped, ih]
      cases inRest : rest.reverse.find? fun m' => decide (m'.id = m.id) with
      | some m' => rw [Option.some_or]
      | none =>
        have other : first.id ≠ m.id := fun same =>
          last (lasting_covers.mpr fun later member => same ▸ none_iff.mp inRest later member)
        simp [other]

/-- Keeping the last delivery of each id loses none that counts exactly where each of those
is the last one. -/
theorem lasting_count (counts : ChatMessage → Bool) (saved : List ChatMessage) :
    (lasting saved).countP counts ≤ saved.countP counts ∧
      ((lasting saved).countP counts = saved.countP counts ↔
        saved.Pairwise fun m later => counts m = true → m.id ≠ later.id) := by
  induction saved with
  | nil => simp [lasting]
  | cons first rest ih =>
    obtain ⟨fewer, same_iff⟩ := ih
    rw [List.pairwise_cons, ← same_iff]
    by_cases last : ∀ later ∈ lasting rest, first.id ≠ later.id
    · have added : lasting (first :: rest) = first :: lasting rest := List.pwFilter_cons_of_pos last
      rw [added, List.countP_cons, List.countP_cons]
      refine ⟨Nat.add_le_add_right fewer _, ?_⟩
      constructor
      · intro same
        exact ⟨fun later member _ => lasting_covers.mp last later member, by omega⟩
      · rintro ⟨_, same⟩
        omega
    · have dropped : lasting (first :: rest) = lasting rest := List.pwFilter_cons_of_neg last
      rw [dropped, List.countP_cons]
      refine ⟨by omega, ?_⟩
      constructor
      · intro same
        have uncounted : counts first ≠ true := fun counted => by
          rw [if_pos counted] at same
          omega
        rw [if_neg uncounted] at same
        exact ⟨fun _ _ counted => absurd counted uncounted, same⟩
      · rintro ⟨once, same⟩
        have uncounted : counts first ≠ true := fun counted =>
          last (lasting_covers.mpr fun later member => once later member counted)
        rw [if_neg uncounted, same]
        rfl

/-- The rows stored are those of the last deliveries. -/
theorem Chats.entries {saved : List ChatMessage} {db : Database} (chats : Chats account saved db) :
    (db.messages.entries.map Prod.snd).Perm ((lasting saved).map (ChatMessage.row account.userId.str)) := by
  have find : ∀ id : String, db.messages.get [.str id] =
      (saved.reverse.find? fun m => decide (m.id = id)).map (ChatMessage.row account.userId.str) := by
    intro id
    rw [chats.messagesAt, ← List.map_reverse, List.find?_map]
    congr 2
    funext m
    simp [ChatMessage.row, storedMessage, ChatMessage.decrypted]
  have listed : db.messages.entries.Perm
      ((lasting saved).map fun m => ([KeyToken.str m.id], m.row account.userId.str)) := by
    have once : ((lasting saved).map fun m => ([KeyToken.str m.id], m.row account.userId.str)).Nodup := by
      rw [List.Nodup, List.pairwise_map]
      refine (List.pairwise_pwFilter saved).imp fun {m later} differ same => differ ?_
      simpa using (Prod.mk.inj same).1
    refine (List.perm_ext_iff_of_nodup (.of_map _ db.messages.nodup) once).mpr fun e => ?_
    constructor
    · intro member
      have there := ObjectMap.get_of_mem (K := Key) (k := e.1) (v := e.2) member
      obtain ⟨id, _, key⟩ := chats.namedRows e.1 e.2 there
      rw [key, find, Option.map_eq_some_iff] at there
      obtain ⟨m, found, row⟩ := there
      have hit : m.id = id := by simpa using List.find?_some found
      subst hit
      exact List.mem_map.mpr ⟨m, mem_lasting.mpr found, Prod.ext key.symm row⟩
    · intro member
      obtain ⟨m, lasts, rfl⟩ := List.mem_map.mp member
      apply ObjectMap.mem_of_get
      rw [find, mem_lasting.mp lasts]
      rfl
  have values := listed.map Prod.snd
  rwa [List.map_map] at values

theorem plainIn_count (c : String) (saved : List ChatMessage) :
    (plainIn account.parse c saved).length =
      saved.countP fun m => !isAmendment account.parse m.text && decide (m.conversationId = c) := by
  rw [List.countP_eq_length_filter]
  rfl

theorem Chats.storedRows {saved : List ChatMessage} {db : Database} (chats : Chats account saved db)
    (c : String) : (storedIn account db c).length = (lasting saved).countP fun m =>
      !isAmendment account.parse m.text && decide (m.conversationId = c) := by
  rw [storedIn, ← List.countP_eq_length_filter, chats.entries.countP_eq, List.countP_map]
  rfl

/-- The counter is right exactly where each message that counts was delivered once. -/
theorem Chats.counter {events : List ChatEvent} {db : Database}
    (chats : Chats account (delivered events) db) (c : String) :
    countOf (db.conversation c) = (storedIn account db c).length ↔ CountedOnce account events c := by
  rw [chats.counts, chats.storedRows, plainIn_count, eq_comm, (lasting_count _ _).2, CountedOnce]
  simp

/-- A batch that is stored already changes nothing exactly if it is made of amendments to
conversations that are up to date, and the counter of a conversation is right exactly if
each message that counts there was delivered once. -/
theorem resaving_harmless (account : Account) :
    (∀ events s messages, runAll account events {} = some s → AllStored account s.db messages →
      ∃ t, (ChatEvent.save messages).run account s = some t ∧
        (SameRows s.db t.db ↔
          (∀ m ∈ messages, isAmendment account.parse m.text = true) ∧
            ∀ m ∈ messages, UpToDate account s.db m.conversationId)) ∧
    ∀ events, ∃ t, runAll account events {} = some t ∧
      ∀ c, countOf (t.db.conversation c) = (storedIn account t.db c).length ↔
        CountedOnce account events c := by
  constructor
  · intro events s messages reached stored
    obtain ⟨t, ran, done⟩ := save_runs account s messages
    refine ⟨t, by simp only [ChatEvent.run, ran], ?_⟩
    exact resaved_same (runAll_chats Chats.start reached) stored done
  · intro events
    obtain ⟨t, reached⟩ := runAll_total account events (s := {}) Chats.start
    exact ⟨t, reached, (runAll_chats Chats.start reached).counter⟩

end Counting

section Samples

open Demo

/-- A message that is synced twice, as after a listing that failed. -/
def greeting : ChatMessage where
  id := "m1"
  conversationId := "dm:a:b"
  fromUser := "b"
  fromDevice := "d"
  text := "hi"
  timestamp := some 5

/-- The second save finds its message stored, and counts it again. -/
theorem greeting_twice : ∃ s t, runAll account [.save [greeting]] {} = some s ∧
    AllStored account s.db [greeting] ∧ (ChatEvent.save [greeting]).run account s = some t ∧
    ¬ SameRows s.db t.db ∧ countOf (t.db.conversation "dm:a:b") = 2 ∧
    (storedIn account t.db "dm:a:b").length = 1 := by
  obtain ⟨s, ran, first⟩ := save_runs account {} [greeting]
  obtain ⟨t, ran', second⟩ := save_runs account s [greeting]
  have chats := Chats.start.save first
  have plain : isAmendment account.parse greeting.text = false := by decide
  have stored : AllStored account s.db [greeting] := by
    intro m member
    rw [List.mem_singleton.mp member]
    exact first.messagesAt _
  refine ⟨s, t, by simp only [runAll, ChatEvent.run, ran]; rfl, stored,
    by simp only [ChatEvent.run, ran'], ?_, ?_, ?_⟩
  · rw [resaved_same chats stored second]
    rintro ⟨amendments, _⟩
    rw [amendments greeting (by simp)] at plain
    cases plain
  · rw [(chats.save second).counts]
    decide
  · rw [(chats.save second).storedRows]
    decide

end Samples

end Atmin.Web
