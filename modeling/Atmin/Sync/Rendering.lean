import Atmin.Web.Chat
import Atmin.Sync.Attribution

/-!
# Who changes what is rendered

A chat renders a message from the rows of its author alone, as long as the rows of the
others can be decoded. An author loses a row to somebody else only where the two used one
`msg_id`.
-/

namespace Atmin.Web

open Interaction

/-! ### The messages of a chat -/

section Entries

variable {account : Account} {atob : String → Option (List UInt8)}

/-- The message a row becomes, and none for an amendment. -/
def entry (account : Account) (atob : String → Option (List UInt8)) (msgs : List StoredMessage)
    (m : StoredMessage) : Option Message :=
  (baseMessage account atob m).join.map fun base =>
    amend account m.fromUser base (amendmentChain account.parse msgs m.id)

/-- A chat renders each of its rows on its own, or nothing at all. -/
theorem materialize_eq (msgs rows : List StoredMessage) : materialize account atob msgs rows =
    if rows.all fun m => (baseMessage account atob m).isSome then
      some (rows.filterMap (entry account atob msgs))
    else none := by
  induction rows with
  | nil => rfl
  | cons m rest ih =>
    simp only [materialize, ih]
    cases base : baseMessage account atob m with
    | none => simp [base]
    | some found => cases found <;> split <;> simp_all [entry]

theorem amend_id (author : Js) (base : Message) (chain : List StoredMessage) :
    (amend account author base chain).id = base.id := by
  fun_induction amend account author base chain <;> first | rfl | assumption

/-- Amendments of others are inert. -/
theorem amend_author (author : Js) (base : Message) (chain : List StoredMessage) :
    amend account author base chain =
      amend account author base (chain.filter fun am => am.fromUser.same author) := by
  induction chain generalizing base with
  | nil => rfl
  | cons am rest ih =>
    cases own : am.fromUser.same author with
    | false =>
      simp only [List.filter_cons, own, Bool.false_eq_true, if_false, ← ih, amend, Bool.not_false,
        if_true]
      split <;> rfl
    | true =>
      simp only [List.filter_cons, own, if_true, amend, Bool.not_true, Bool.false_eq_true, if_false,
        ← ih]

theorem baseMessage_id {m : StoredMessage} {base : Message}
    (made : baseMessage account atob m = some (some base)) : base.id = m.id := by
  unfold baseMessage at made
  dsimp only at made
  split at made
  next => cases made; rfl
  next =>
    simp only [Option.bind_eq_bind, Option.bind_eq_some_iff, Option.pure_def, Option.some.injEq] at made
    obtain ⟨media, _, rfl⟩ := made
    rfl
  all_goals cases made

theorem entry_id {msgs : List StoredMessage} {m : StoredMessage} {shown : Message}
    (made : entry account atob msgs m = some shown) : shown.id = m.id := by
  obtain ⟨base, found, rfl⟩ := Option.map_eq_some_iff.mp made
  rw [amend_id, baseMessage_id (Option.join_eq_some_iff.mp found)]

end Entries

/-! ### The rows a chat is rendered from -/

section Rows

/-- The text of an id. -/
def StoredMessage.name (m : StoredMessage) : String := m.id.asStr.getD ""

/-- Where the id stands in the order of strings. -/
def StoredMessage.place (m : StoredMessage) : List Nat := Utf16.place m.name

/-- Rows under distinct ids, all of them texts. -/
structure Distinct (rows : List StoredMessage) : Prop where
  nodup : rows.Nodup
  ids : ∀ m ∈ rows, m.id = .str m.name
  unique : ∀ m ∈ rows, ∀ m' ∈ rows, m.id = m'.id → m = m'

variable {parse : String → Option Json} {rows rows' : List StoredMessage}

theorem chain_sorted (distinct : Distinct rows) (target : Js) :
    (amendmentChain parse rows target).Pairwise fun a b => a.place ≤ b.place := by
  rw [← List.pairwise_map, amendmentChain,
    List.map_insertionSort (fun a b => Database.idLe a b = true) (· ≤ ·) StoredMessage.place]
  · exact List.pairwise_insertionSort _ _
  · intro a first b second
    rw [Database.idLe, distinct.ids a (List.mem_of_mem_filter first),
      distinct.ids b (List.mem_of_mem_filter second)]
    simp [StoredMessage.place]

theorem mem_chain {target : Js} {am : StoredMessage} :
    am ∈ amendmentChain parse rows target ↔ am ∈ rows ∧
      (match parseInner parse am.text with
        | .amendment id _ _ => id.same target
        | _ => false) = true := by
  unfold amendmentChain
  exact (List.mem_insertionSort _).trans List.mem_filter

/-- The amendments of one author depend on the rows of that author alone. -/
theorem chain_author {author : Js} (distinct : Distinct rows) (distinct' : Distinct rows')
    (common : ∀ m, m.fromUser.same author = true → (m ∈ rows ↔ m ∈ rows')) (target : Js) :
    ((amendmentChain parse rows target).filter fun am => am.fromUser.same author) =
      (amendmentChain parse rows' target).filter fun am => am.fromUser.same author := by
  have sorted {l : List StoredMessage} (h : Distinct l) :
      ((amendmentChain parse l target).filter fun am => am.fromUser.same author).Pairwise
        fun a b => a.place ≤ b.place := (chain_sorted h target).filter _
  have nodup {l : List StoredMessage} (h : Distinct l) :
      ((amendmentChain parse l target).filter fun am => am.fromUser.same author).Nodup := by
    refine List.Nodup.filter _ ?_
    rw [amendmentChain, (List.perm_insertionSort _ _).nodup_iff]
    exact h.nodup.filter _
  refine List.Perm.eq_of_pairwise (fun a b first second le ge => ?_) (sorted distinct)
    (sorted distinct') ((List.perm_ext_iff_of_nodup (nodup distinct) (nodup distinct')).mpr
      fun am => ?_)
  · obtain ⟨inside, _⟩ := List.mem_filter.mp first
    obtain ⟨inside', own⟩ := List.mem_filter.mp second
    have here := (mem_chain.mp inside).1
    have there := (common b own).mpr (mem_chain.mp inside').1
    refine distinct.unique a here b there ?_
    rw [distinct.ids a here, distinct.ids b there, Utf16.place_inj (le_antisymm le ge)]
  · simp only [List.mem_filter, mem_chain]
    constructor
    · rintro ⟨⟨here, names⟩, own⟩
      exact ⟨⟨(common am own).mp here, names⟩, own⟩
    · rintro ⟨⟨there, names⟩, own⟩
      exact ⟨⟨(common am own).mpr there, names⟩, own⟩

end Rows

/-! ### Chats -/

section Chats

variable {account : Account} {atob : String → Option (List UInt8)}

/-- What a chat renders for the message under an id, if it renders anything. -/
def rendered (account : Account) (atob : String → Option (List UInt8)) (db : Database)
    (convId : String) (id : Js) : Option (Option Message) :=
  (load account atob db convId).map fun shown => shown.find? fun m => m.id.same id

/-- The message under an id is rendered from the one row under it. -/
theorem find_entry {rows : List StoredMessage} {id : Js} {f : StoredMessage → Option Message}
    (keeps : ∀ m shown, f m = some shown → shown.id = m.id) {m : StoredMessage} (here : m ∈ rows)
    (named : m.id.same id = true) (only : ∀ m' ∈ rows, m'.id.same id = true → m' = m) :
    (rows.filterMap f).find? (fun shown => shown.id.same id) = f m := by
  cases made : f m with
  | none =>
    refine List.find?_eq_none.mpr fun shown member => ?_
    obtain ⟨m', inside, from_⟩ := List.mem_filterMap.mp member
    intro same
    rw [keeps m' shown from_] at same
    rw [only m' inside same, made] at from_
    cases from_
  | some shown =>
    cases found : (rows.filterMap f).find? (fun shown => shown.id.same id) with
    | none =>
      have missed := List.find?_eq_none.mp found shown (List.mem_filterMap.mpr ⟨m, here, made⟩)
      rw [keeps m shown made] at missed
      exact absurd named missed
    | some other =>
      have same := List.find?_some found
      obtain ⟨m', inside, from_⟩ := List.mem_filterMap.mp (List.mem_of_find?_eq_some found)
      rw [keeps m' other from_] at same
      rw [only m' inside same, made] at from_
      exact from_.symm

theorem find_none {rows : List StoredMessage} {id : Js} {f : StoredMessage → Option Message}
    (keeps : ∀ m shown, f m = some shown → shown.id = m.id)
    (absent : ∀ m ∈ rows, ¬ m.id.same id = true) :
    (rows.filterMap f).find? (fun shown => shown.id.same id) = none := by
  refine List.find?_eq_none.mpr fun shown member => ?_
  obtain ⟨m, inside, from_⟩ := List.mem_filterMap.mp member
  rw [keeps m shown from_]
  exact absent m inside

/-- A rendered message is the entry of a row of the chat. -/
theorem of_toMessages {rows : List StoredMessage} {id : Js} {shown : Message}
    (found : (toMessages account atob rows).map (fun shown => shown.find? fun m => m.id.same id) =
      some (some shown)) :
    ∃ m ∈ rows, m.id.same id = true ∧ entry account atob rows m = some shown := by
  rw [toMessages, materialize_eq] at found
  split at found
  next =>
    simp only [Option.map_some, Option.some.injEq] at found
    have same := List.find?_some found
    obtain ⟨m, inside, made⟩ := List.mem_filterMap.mp (List.mem_of_find?_eq_some found)
    rw [entry_id made] at same
    exact ⟨m, inside, same, made⟩
  next => cases found

/-- Rows of others that render, and that leave the ids of the author alone. -/
structure Bystanders (account : Account) (atob : String → Option (List UInt8)) (author id : Js)
    (rows : List StoredMessage) : Prop where
  renders : ∀ m ∈ rows, ¬ m.fromUser.same author = true → (baseMessage account atob m).isSome = true
  owned : ∀ m ∈ rows, m.id.same id = true → m.fromUser.same author = true

/-- What is rendered for a message depends on the rows of its author alone. -/
theorem toMessages_author {rows rows' : List StoredMessage} {author id : Js}
    (distinct : Distinct rows) (distinct' : Distinct rows')
    (common : ∀ m, m.fromUser.same author = true → (m ∈ rows ↔ m ∈ rows'))
    (others : Bystanders account atob author id rows)
    (others' : Bystanders account atob author id rows') :
    (toMessages account atob rows).map (fun shown => shown.find? fun m => m.id.same id) =
      (toMessages account atob rows').map fun shown => shown.find? fun m => m.id.same id := by
  -- one row that cannot be rendered hides all the others
  have all_iff : (rows.all fun m => (baseMessage account atob m).isSome) = true ↔
      (rows'.all fun m => (baseMessage account atob m).isSome) = true := by
    simp only [List.all_eq_true]
    constructor
    · intro each m there
      by_cases own : m.fromUser.same author = true
      · exact each m ((common m own).mpr there)
      · exact others'.renders m there own
    · intro each m here
      by_cases own : m.fromUser.same author = true
      · exact each m ((common m own).mp here)
      · exact others.renders m here own
  -- an entry depends on the rows of its own author
  have same_entry (m : StoredMessage) (own : m.fromUser.same author = true) :
      entry account atob rows m = entry account atob rows' m := by
    have by_author : m.fromUser = author := Js.eq_of_same own
    simp only [entry, by_author]
    congr 1
    funext base
    rw [amend_author, chain_author distinct distinct' common, ← amend_author]
  simp only [toMessages, materialize_eq]
  by_cases all : (rows.all fun m => (baseMessage account atob m).isSome) = true
  · rw [if_pos all, if_pos (all_iff.mp all)]
    simp only [Option.map_some, Option.some.injEq]
    have keeps (l : List StoredMessage) (m : StoredMessage) (shown : Message)
        (made : entry account atob l m = some shown) : shown.id = m.id := entry_id made
    by_cases present : ∃ m ∈ rows, m.id.same id = true
    · obtain ⟨m, here, named⟩ := present
      have own := others.owned m here named
      have there := (common m own).mp here
      -- ids are distinct, so the first entry of the id is this one
      have only {l : List StoredMessage} (h : Distinct l) (member : m ∈ l) (m' : StoredMessage)
          (inside : m' ∈ l) (same : m'.id.same id = true) : m' = m :=
        h.unique m' inside m member ((Js.eq_of_same same).trans (Js.eq_of_same named).symm)
      rw [find_entry (keeps rows) here named (only distinct here),
        find_entry (keeps rows') there named (only distinct' there), same_entry m own]
    · rw [find_none (keeps rows) fun m here named => present ⟨m, here, named⟩,
        find_none (keeps rows') fun m there named => present
          ⟨m, (common m (others'.owned m there named)).mpr there, named⟩]
  · rw [if_neg all, if_neg fun h => all (all_iff.mpr h)]

/-- Every row has its id for a key, and a text for an id. -/
def Named (store : ObjectMap Key StoredMessage) : Prop :=
  ∀ key row, store.get key = some row → ∃ name, row.id = .str name ∧ key = [.str name]

/-- The rows a chat is rendered from. -/
def chatRows (account : Account) (db : Database) (convId : String) : List StoredMessage :=
  (db.loadMessages account.userId.str).filter fun m => m.conversationId.same (.str convId)

theorem mem_loadMessages {db : Database} {userId : String} {m : StoredMessage} :
    m ∈ db.loadMessages userId ↔ (∃ key, db.messages.get key = some m) ∧ m.userId = userId ∧
      Database.dated m = true := by
  have stored : (∃ e ∈ db.messages.entries, e.2 = m) ↔ ∃ key, db.messages.get key = some m := by
    constructor
    · rintro ⟨e, member, rfl⟩
      exact ⟨e.1, ObjectMap.get_of_mem member⟩
    · rintro ⟨key, found⟩
      exact ⟨(key, m), ObjectMap.mem_of_get found, rfl⟩
  simp only [Database.loadMessages, Database.messagesOf, List.mem_filter, List.mem_insertionSort,
    List.mem_map, stored, decide_eq_true_eq, and_assoc]

theorem mem_chatRows {db : Database} {convId : String} {m : StoredMessage} :
    m ∈ chatRows account db convId ↔ (∃ key, db.messages.get key = some m) ∧
      m.userId = account.userId.str ∧ Database.dated m = true ∧ m.conversationId = .str convId := by
  simp only [chatRows, List.mem_filter, mem_loadMessages, Js.same_of_str, and_assoc]

theorem chatRows_distinct {db : Database} (named : Named db.messages) (convId : String) :
    Distinct (chatRows account db convId) where
  nodup := by
    refine List.Nodup.filter _ ?_
    rw [Database.loadMessages, (List.perm_insertionSort _ _).nodup_iff]
    refine List.Nodup.filter _ ?_
    rw [Database.messagesOf, (List.perm_insertionSort _ _).nodup_iff]
    refine List.Nodup.filter _ (db.messages.nodup.of_map.map_on fun e first e' last same => ?_)
    obtain ⟨name, id_, key_⟩ := named e.1 e.2 (ObjectMap.get_of_mem first)
    obtain ⟨name', id', key'⟩ := named e'.1 e'.2 (ObjectMap.get_of_mem last)
    rw [same] at id_
    have equal : name = name' := Js.str.inj (id_.symm.trans id')
    exact Prod.ext (by rw [key_, key', equal]) same
  ids m member := by
    obtain ⟨⟨key, found⟩, _⟩ := mem_chatRows.mp member
    obtain ⟨name, id_, _⟩ := named key m found
    simp [StoredMessage.name, id_]
  unique m first m' last same := by
    obtain ⟨⟨key, found⟩, _⟩ := mem_chatRows.mp first
    obtain ⟨⟨key', found'⟩, _⟩ := mem_chatRows.mp last
    obtain ⟨name, id_, rfl⟩ := named key m found
    obtain ⟨name', id', rfl⟩ := named key' m' found'
    rw [id_, id'] at same
    cases same
    exact Option.some.inj (found.symm.trans found')

end Chats

/-! ### Authors and strangers -/

section Authors

variable {account : Account} {atob : String → Option (List UInt8)} {reliable : Prop} {s t : State}

/-- The rows of one sender. -/
def rowsBy (store : ObjectMap Key StoredMessage) (author : Js) : List StoredMessage :=
  (store.entries.map Prod.snd).filter fun b => b.fromUser.same author

theorem mem_rowsBy {store : ObjectMap Key StoredMessage} {sender : String} {b : StoredMessage} :
    b ∈ rowsBy store (.str sender) ↔ (∃ key, store.get key = some b) ∧ b.fromUser = .str sender := by
  simp only [rowsBy, List.mem_filter, List.mem_map, Js.same_of_str, and_congr_left_iff]
  intro _
  constructor
  · rintro ⟨e, member, rfl⟩
    exact ⟨e.1, ObjectMap.get_of_mem member⟩
  · rintro ⟨key, found⟩
    exact ⟨(key, b), ObjectMap.mem_of_get found, rfl⟩

variable [CborDecoder]

/-- A row that a sync stores for an envelope of this sender. -/
def WrittenBy (account : Account) (s : State) (author : Js) (row : StoredMessage) : Prop :=
  ∃ e m, Delivered account.userId s e ∧ e.member "from_user" = .ok author ∧
    Materializes account e m ∧ row = storedMessage account.userId.str m

/-- No message of anybody else reuses an id of the author, and those of the conversation
can be decoded. -/
structure LeavesAlone (account : Account) (atob : String → Option (List UInt8)) (s : State)
    (author : Js) (convId : String) : Prop where
  ids : ∀ m m', From account s m → From account s m' → m.id = m'.id → m.fromUser = author →
    m'.fromUser = author
  decodes : ∀ m, From account s m → m.fromUser ≠ author → m.conversationId = .str convId →
    (baseMessage account atob (storedMessage account.userId.str m)).isSome = true

/-- What is rendered for the message is what it was, but for some rows of its author. -/
def ChangedByAuthor (account : Account) (atob : String → Option (List UInt8)) (s t : State)
    (row : StoredMessage) (convId : String) : Prop :=
  ∃ batch messages, (∀ b ∈ batch, WrittenBy account t row.fromUser b) ∧
    Database.putRows StoredMessage.id batch s.db.messages = some messages ∧
    rendered account atob t.db convId row.id =
      rendered account atob { s.db with messages } convId row.id

theorem From.id_ {m : DecryptedMessage} (from_ : From account s m) :
    m.id = .undefined ∨ ∃ name, m.id = .str name := by
  obtain ⟨e, delivered, message, _⟩ := from_
  exact (delivered_header delivered message).2

theorem From.sender {m : DecryptedMessage} (from_ : From account s m) :
    ∃ sender, m.fromUser = .str sender := by
  obtain ⟨e, delivered, message, k, text, _, made⟩ := from_
  obtain ⟨⟨sender, named⟩, _⟩ := delivered_header delivered message
  exact ⟨sender.str, Except.ok.inj ((decryptedMessage_ok made).2.1.symm.trans named)⟩

theorem Sourced.named (inv : Sourced account reliable s) : Named s.db.messages := by
  intro key row found
  obtain ⟨valid, m, from_, rfl⟩ := inv.rows key row found
  rcases from_.id_ with none_ | ⟨name, text⟩
  · simp [storedMessage, none_, Js.key] at valid
  · simp only [storedMessage, text, Js.key_str, Option.some.injEq] at valid
    exact ⟨name, text, valid.symm⟩

theorem From.writtenBy {m : DecryptedMessage} (from_ : From account s m) :
    WrittenBy account s m.fromUser (storedMessage account.userId.str m) := by
  obtain ⟨e, delivered, message, k, text, opens, made⟩ := from_
  exact ⟨e, m, delivered, (decryptedMessage_ok made).2.1, ⟨message, k, text, opens, made⟩, rfl⟩

/-- Rows that come from the inbox, under ids of their own. -/
structure Inboxed (account : Account) (t : State) (store : ObjectMap Key StoredMessage) : Prop where
  named : Named store
  from_ : ∀ key row, store.get key = some row →
    ∃ m, From account t m ∧ row = storedMessage account.userId.str m

theorem Sourced.inboxed (inv : Sourced account reliable s) (grows : Grows s t) :
    Inboxed account t s.db.messages where
  named := inv.named
  from_ key row found := by
    obtain ⟨_, m, from_, rfl⟩ := inv.rows key row found
    exact ⟨m, from_.grows grows, rfl⟩

/-- Rows put from one store of the inbox over another. -/
theorem Inboxed.put {store store' messages : ObjectMap Key StoredMessage} {sender : String}
    (first : Inboxed account t store) (last : Inboxed account t store')
    (put : Database.putRows StoredMessage.id (rowsBy store' (.str sender)) store = some messages) :
    Inboxed account t messages := by
  have each (key : Key) (row : StoredMessage) (found : messages.get key = some row) :
      store.get key = some row ∨ store'.get key = some row := by
    rcases putRows_get put key with ⟨kept, _⟩ | ⟨b, member, named, there⟩
    · exact .inl (kept.symm.trans found)
    · cases there.symm.trans found
      obtain ⟨⟨key', found'⟩, _⟩ := mem_rowsBy.mp member
      obtain ⟨name, id_, rfl⟩ := last.named key' row found'
      rw [id_, Js.key_str] at named
      cases named
      exact .inr found'
  refine ⟨fun key row found => ?_, fun key row found => ?_⟩
  · rcases each key row found with h | h
    · exact first.named key row h
    · exact last.named key row h
  · rcases each key row found with h | h
    · exact first.from_ key row h
    · exact last.from_ key row h

/-- Strangers whose envelopes leave the author alone are no matter to a chat. -/
theorem Inboxed.bystanders {db : Database} {m : DecryptedMessage} {convId : String}
    (stored : Inboxed account t db.messages) (from_ : From account t m)
    (alone : LeavesAlone account atob t m.fromUser convId) :
    Bystanders account atob m.fromUser m.id (chatRows account db convId) where
  renders row member stranger := by
    obtain ⟨⟨key, found⟩, _, _, inside⟩ := mem_chatRows.mp member
    obtain ⟨other, sent, rfl⟩ := stored.from_ key row found
    refine alone.decodes other sent (fun own => stranger ?_) inside
    obtain ⟨sender, by_⟩ := sent.sender
    simp only [storedMessage, ← own, by_, Js.same_of_str]
  owned row member same := by
    obtain ⟨⟨key, found⟩, _⟩ := mem_chatRows.mp member
    obtain ⟨other, sent, rfl⟩ := stored.from_ key row found
    have own := alone.ids m other from_ sent (Js.eq_of_same same).symm rfl
    obtain ⟨sender, by_⟩ := from_.sender
    simp only [storedMessage, own, by_, Js.same_of_str]

/-- An author keeps each row while nobody else uses its id. -/
theorem row_kept (grows : Grows s t) (first : Inboxed account t s.db.messages)
    (last : Inboxed account t t.db.messages) {author : Js} {convId : String}
    (alone : LeavesAlone account atob t author convId) {key : Key} {row : StoredMessage}
    (found : s.db.messages.get key = some row) (own : row.fromUser = author) :
    ∃ row', t.db.messages.get key = some row' ∧ row'.fromUser = author := by
  obtain ⟨row', found'⟩ := grows.rows key row found
  obtain ⟨m, from_, rfl⟩ := first.from_ key row found
  obtain ⟨m', from', rfl⟩ := last.from_ key row' found'
  obtain ⟨name, id_, rfl⟩ := first.named _ _ found
  obtain ⟨name', id', equal⟩ := last.named _ _ found'
  cases equal
  exact ⟨_, found', alone.ids m m' from_ from' (id_.trans id'.symm) own⟩

/-- Over the rows stored earlier, the rows an author has now are all the rows of the author. -/
theorem merged_iff (grows : Grows s t) (first : Inboxed account t s.db.messages)
    (last : Inboxed account t t.db.messages) {sender : String} {convId : String}
    (alone : LeavesAlone account atob t (.str sender) convId)
    {messages : ObjectMap Key StoredMessage}
    (put : Database.putRows StoredMessage.id (rowsBy t.db.messages (.str sender)) s.db.messages
      = some messages)
    {b : StoredMessage} (own : b.fromUser = .str sender) :
    (∃ key, t.db.messages.get key = some b) ↔ ∃ key, messages.get key = some b := by
  constructor
  · rintro ⟨key, found⟩
    obtain ⟨name, id_, rfl⟩ := last.named key b found
    have member := mem_rowsBy.mpr ⟨⟨_, found⟩, own⟩
    rcases putRows_get put [.str name] with ⟨_, absent⟩ | ⟨b', member', named', there⟩
    · exact absurd (by rw [id_, Js.key_str]) (absent b member)
    · obtain ⟨⟨key', found'⟩, _⟩ := mem_rowsBy.mp member'
      obtain ⟨name', id', rfl⟩ := last.named key' b' found'
      rw [id', Js.key_str] at named'
      cases named'
      cases found.symm.trans found'
      exact ⟨_, there⟩
  · rintro ⟨key, found⟩
    rcases putRows_get put key with ⟨kept, absent⟩ | ⟨b', member', _, there⟩
    · obtain ⟨row', later, own'⟩ := row_kept grows first last alone (kept.symm.trans found) own
      obtain ⟨name, id_, rfl⟩ := last.named key row' later
      exact absurd (by rw [id_, Js.key_str]) (absent row' (mem_rowsBy.mpr ⟨⟨_, later⟩, own'⟩))
    · cases there.symm.trans found
      exact (mem_rowsBy.mp member').1

/-- Between two states of a run, what is rendered for a message changes only by rows of its
author. -/
theorem changed_by_author (inv : Sourced account reliable s) (inv' : Sourced account reliable t)
    (grows : Grows s t) {key : Key} {row : StoredMessage} (found : s.db.messages.get key = some row)
    {convId : String} (alone : LeavesAlone account atob t row.fromUser convId) :
    ChangedByAuthor account atob s t row convId := by
  have first : Inboxed account t s.db.messages := inv.inboxed grows
  have last : Inboxed account t t.db.messages := inv'.inboxed (.refl t)
  obtain ⟨m, from_, rfl⟩ := first.from_ key row found
  obtain ⟨sender, author⟩ := from_.sender
  obtain ⟨messages, put⟩ : ∃ messages, Database.putRows StoredMessage.id
      (rowsBy t.db.messages (.str sender)) s.db.messages = some messages := by
    refine putRows_some _ fun b member => ?_
    obtain ⟨⟨key', found'⟩, _⟩ := mem_rowsBy.mp member
    obtain ⟨name, id_, _⟩ := last.named key' b found'
    exact ⟨[.str name], by rw [id_, Js.key_str]⟩
  have merged : Inboxed account t messages := first.put last put
  refine ⟨_, messages, fun b member => ?_, put, ?_⟩
  · obtain ⟨⟨key', found'⟩, own⟩ := mem_rowsBy.mp member
    obtain ⟨m', from', rfl⟩ := last.from_ key' b found'
    have same : m'.fromUser = m.fromUser := own.trans author.symm
    rw [show (storedMessage account.userId.str m).fromUser = m'.fromUser from same.symm]
    exact from'.writtenBy
  · refine toMessages_author (chatRows_distinct last.named convId)
      (chatRows_distinct merged.named convId) (fun b own => ?_) (last.bystanders from_ alone)
      (merged.bystanders from_ alone)
    have alone' : LeavesAlone account atob t (.str sender) convId := author ▸ alone
    show b ∈ chatRows account t.db convId ↔ b ∈ chatRows account { s.db with messages } convId
    rw [mem_chatRows, mem_chatRows,
      merged_iff grows first last alone' put ((Js.eq_of_same own).trans author)]

/-- In every run, once a message is stored, only its author changes what is rendered for it,
as long as the envelopes of others leave the author alone. -/
theorem author_changes {ι : Type} [DecidableEq ι] {allow : Act → Outcome → Bool} {tasks : Tasks ι}
    {w w' : World ι Act Reply Unit State} (run : Reach (browser account allow tasks) {} w)
    (more : Relation.ReflTransGen (Step (browser account allow tasks)) w w')
    {key : Key} {row : StoredMessage} (found : w.sys.db.messages.get key = some row) {convId : String}
    (alone : LeavesAlone account atob w'.sys row.fromUser convId) :
    ChangedByAuthor account atob w.sys w'.sys row convId :=
  changed_by_author (browser_sourced run) (browser_sourced (run.trans more)) (browser_grows run more)
    found alone

end Authors

section Samples

open Demo

attribute [local instance] Demo.cbor

theorem parseInner_plain (text : String) : parseInner account.parse text = .text (.str text) := by
  unfold parseInner
  split <;> rfl

/-- Bob's message as a device finds it in an archive, and then other mail. -/
def archivedThen (mail : List Task) : List Task :=
  [delivery bob (keyShare bob user "a" "s"), delivery bob (message bob user "b" "s" "hi" .null)] ++
    compaction "x" [0, 1] [keyInboxLive user.str "a", keyInboxLive user.str "b"] ++
    .sync "" false :: mail ++ [.sync "" false]

/-- A message of Mallory in her own session. -/
def malloryTo (msgId : String) : List Task :=
  [delivery mallory (keyShare mallory user "c" "m"), delivery mallory (message mallory user msgId "m"
    "evil" (.str (conversationId bob.str user.str)))]

def bobsChat : String := conversationId bob.str user.str

example : bobsChat = conversationId user.str bob.str := by decide +kernel

/-- A test that Bob posts as `b` only, and Mallory as something else. -/
def ownIds (e : Js) : Bool :=
  match e.member "content_type", e.member "msg_id", e.member "from_user" with
  | .ok type_, .ok id, .ok fromUser => !type_.same (.str "megolm.message") ||
      (fromUser.same (.str bob.str) && id.same (.str "b") ||
        fromUser.same (.str mallory.str) && !id.same (.str "b"))
  | _, _, _ => true

theorem from_ownIds {t : State} (checked : t.accepted.all (bothViews ownIds) = true)
    {m : DecryptedMessage} (from_ : From account t m) :
    m.fromUser = .str bob.str ∧ m.id = .str "b" ∨
      m.fromUser = .str mallory.str ∧ m.id ≠ .str "b" := by
  obtain ⟨e, delivered, message, k, text, _, made⟩ := from_
  obtain ⟨named, sent, _⟩ := decryptedMessage_ok made
  have own := of_bothViews checked delivered
  have type_ : (Js.str "megolm.message").same (.str "megolm.message") = true := by simp
  simp only [ownIds, message.1, named, sent, type_, Bool.not_true, Bool.false_or, Bool.or_eq_true,
    Bool.and_eq_true, Js.same_of_str, Bool.not_eq_true'] at own
  rcases own with own | ⟨by_, other⟩
  · exact .inl own
  · refine .inr ⟨by_, fun same => ?_⟩
    rw [(Js.same_of_str "b" m.id).mpr same] at other
    cases other

/-- Mallory's message under an id of its own leaves Bob's alone. -/
theorem otherMail_alone : ∃ w w' row,
    Reach (browser account (fun _ _ => true) (script (archivedThen (malloryTo "d")))) {} w ∧
    Relation.ReflTransGen
      (Step (browser account (fun _ _ => true) (script (archivedThen (malloryTo "d"))))) w w' ∧
    w.sys.db.messages.get [.str "b"] = some row ∧
    (w'.sys.db.messages.get [.str "d"]).isSome = true ∧
    ChangedByAuthor account (fun _ => none) w.sys w'.sys row bobsChat := by
  obtain ⟨w, w', run, more, holds⟩ := reach_of_follow_twice account (fun _ _ => true)
    (script (archivedThen (malloryTo "d"))) (inTurn _ [3, 3, 3, 3, 21])
    (inTurn _ [0, 0, 0, 0, 0, 3, 3, 24])
    (fun w w' => w'.sys.accepted.all (bothViews ownIds) &&
      (w'.sys.db.messages.get [.str "d"]).isSome &&
      (w.sys.db.messages.get [.str "b"]).any fun row => row.fromUser.same (.str bob.str))
    (by decide +kernel)
  simp only [Bool.and_eq_true] at holds
  obtain ⟨⟨checked, other⟩, stored⟩ := holds
  obtain ⟨row, found, by_⟩ := (Option.any_eq_true _ _).mp stored
  refine ⟨w, w', row, run, more, found, other, author_changes run more found ⟨?_, ?_⟩⟩
  · intro m m' from_ from' same own
    rw [Js.eq_of_same by_] at own ⊢
    have apart : (Js.str bob.str) ≠ .str mallory.str := fun h =>
      absurd (Js.str.inj h) (by decide +kernel)
    rcases from_ownIds checked from_ with ⟨_, id_⟩ | ⟨stranger, _⟩
    · rcases from_ownIds checked from' with ⟨sender, _⟩ | ⟨_, other⟩
      · exact sender
      · exact absurd (same.symm.trans id_) other
    · exact absurd (own.symm.trans stranger) apart
  · intro m _ _ _
    simp [baseMessage, parseInner_plain]

/-- Everything Bob wrote tells hi. -/
def bobSaysHi (e : Js) : Bool :=
  match e.member "content_type", e.member "from_user", e.member "payload" with
  | .ok type_, .ok fromUser, .ok payload =>
    !(type_.same (.str "megolm.message") && fromUser.same (.str bob.str)) ||
      match payload.member "session_id", payload.member "ciphertext" with
      | .ok sessionId, .ok ciphertext =>
        sessionId.same (.str "s") && ciphertext.same (.str "s:hi")
      | _, _ => false
  | _, _, _ => true

theorem text_of_bobSaysHi {t : State} (checked : t.accepted.all (bothViews bobSaysHi) = true)
    {row : StoredMessage} (written : WrittenBy account t (.str bob.str) row) : row.text = "hi" := by
  obtain ⟨e, m, delivered, sent, ⟨message, k, text, opens, made⟩, rfl⟩ := written
  obtain ⟨payload, ciphertext, inside, session, sealed_, decrypted⟩ := opens
  have tells := of_bothViews checked delivered
  have ours : ((Js.str "megolm.message").same (.str "megolm.message") &&
      (Js.str bob.str).same (.str bob.str)) = true := by simp
  simp only [bobSaysHi, message.1, sent, inside, session, sealed_, ours, Bool.not_true,
    Bool.false_or, Bool.and_eq_true, Js.same_of_str, Js.str.injEq] at tells
  obtain ⟨same, rfl⟩ := tells
  obtain ⟨_, _, _, same_text, _⟩ := decryptedMessage_ok made
  rw [storedMessage, same_text]
  simp only [Inbound.decrypt, same] at decrypted
  have opened : account.crypto.opens "s" "s:hi" = some (0, "hi") := by decide +kernel
  rw [opened] at decrypted
  simp only [Option.ite_none_right_eq_some, Option.some.injEq] at decrypted
  exact decrypted.2.symm

theorem amend_plain (author : Js) (base : Message) (chain : List StoredMessage) :
    amend account author base chain = base := by
  induction chain generalizing base with
  | nil => rfl
  | cons am rest ih => simp only [amend, parseInner_plain, ih]

/-- Mallory's message under Bob's id takes the place of Bob's. -/
theorem reusedId_changes : ∃ w w' row,
    Reach (browser account (fun _ _ => true) (script (archivedThen (malloryTo "b")))) {} w ∧
    Relation.ReflTransGen
      (Step (browser account (fun _ _ => true) (script (archivedThen (malloryTo "b"))))) w w' ∧
    w.sys.db.messages.get [.str "b"] = some row ∧
    ¬ ChangedByAuthor account (fun _ => none) w.sys w'.sys row bobsChat := by
  obtain ⟨w, w', run, more, holds⟩ := reach_of_follow_twice account (fun _ _ => true)
    (script (archivedThen (malloryTo "b"))) (inTurn _ [3, 3, 3, 3, 21])
    (inTurn _ [0, 0, 0, 0, 0, 3, 3, 24])
    (fun w w' => w'.sys.accepted.all (bothViews bobSaysHi) &&
      ((w.sys.db.messages.get [.str "b"]).any fun row => row.fromUser.same (.str bob.str) &&
        row.id.same (.str "b") && decide (row.text = "hi")) &&
      (rendered account (fun _ => none) w'.sys.db bobsChat (.str "b")).any fun shown =>
        shown.any fun shown => shown.text.same (.str "evil"))
    (by decide +kernel)
  simp only [Bool.and_eq_true] at holds
  obtain ⟨⟨checked, stored⟩, shows⟩ := holds
  obtain ⟨row, found, about⟩ := (Option.any_eq_true _ _).mp stored
  simp only [Bool.and_eq_true, Js.same_of_str, decide_eq_true_eq] at about
  obtain ⟨⟨by_, id_⟩, hi⟩ := about
  refine ⟨w, w', row, run, more, found, ?_⟩
  -- what changed the bubble would be a row whose text Bob wrote
  rintro ⟨batch, messages, written, put, same⟩
  obtain ⟨inner, renders, shown⟩ := (Option.any_eq_true _ _).mp shows
  obtain ⟨shown, rfl, evil⟩ := (Option.any_eq_true _ _).mp shown
  rw [id_, renders] at same
  obtain ⟨m, inside, named, made⟩ := of_toMessages same.symm
  obtain ⟨⟨key, there⟩, _⟩ := mem_chatRows.mp inside
  -- but Bob has only ever said "hi" under this id
  have tells : m.text = "hi" := by
    rcases putRows_get put key with ⟨kept, _⟩ | ⟨b, member, _, here⟩
    · have before := kept.symm.trans there
      obtain ⟨name, id', rfl⟩ := (browser_sourced run).named key m before
      rw [Js.eq_of_same named] at id'
      cases id'
      cases found.symm.trans before
      exact hi
    · cases here.symm.trans there
      exact text_of_bobSaysHi checked (by_ ▸ written m member)
  simp only [entry, baseMessage, parseInner_plain, Option.join_some, Option.map_some, amend_plain,
    Option.some.injEq] at made
  rw [← made, tells] at evil
  simp at evil

end Samples

end Atmin.Web
