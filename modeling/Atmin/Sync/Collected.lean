import Atmin.Sync.Rereading

/-!
# The messages of one sync

Each message that a sync returns was read from an envelope in the store, no two of them have
one id, and what a sync has seen is what was stored together with what it returns.
-/

namespace Atmin.Web

open Interaction

variable {page : Page} {K : Sessions} {s t : State}

/-- The ids of the stored messages of the account. -/
def storedIds (page : Page) (s : State) : List Js :=
  (s.db.messagesOf page.userId.str).map StoredMessage.id

/-- The messages gathered so far from the envelopes `among`, and the ids seen so far. -/
structure Collected (account : Account) (among : Js → Prop) (start : List Js)
    (messages : List DecryptedMessage) (seen : List Js) : Prop where
  origin : ∀ m ∈ messages, ∃ e, among e ∧ Materializes account e m
  seen : ∀ x : Js, x.isIn seen = true ↔ x.isIn start = true ∨ ∃ m ∈ messages, x.same m.id = true
  once : messages.Pairwise fun a b => a.id ≠ b.id

/-- Every message that is read has an id as the server accepts it. -/
def PlainAmong (among : Js → Prop) : Prop := ∀ e id, among e → IsMessage e id → Plain id

section Collecting

variable {account : Account} {among : Js → Prop} {start : List Js}

theorem Collected.push {messages : List DecryptedMessage} {seen : List Js} {e : Js}
    {m : DecryptedMessage} (collected : Collected account among start messages seen)
    (plain : PlainAmong among) (here : among e) (becomes : Materializes account e m)
    (unseen : m.id.isIn seen = false) :
    Collected account among start (messages ++ [m]) (addOnce m.id seen) where
  origin := fun m' member => by
    rcases List.mem_append.mp member with old | new
    · exact collected.origin m' old
    · rw [List.mem_singleton.mp new]
      exact ⟨e, here, becomes⟩
  seen := fun x => by
    rw [isIn_addOnce_iff, collected.seen, or_assoc]
    simp [or_and_right, exists_or]
  once := by
    refine List.pairwise_append.mpr ⟨collected.once, List.pairwise_singleton _ _, ?_⟩
    intro a old b new same
    rw [List.mem_singleton.mp new] at same
    -- an id that was collected before would have been seen
    have found : m.id.isIn seen = true := (collected.seen m.id).mpr (.inr ⟨a, old, by
      rw [same]
      exact (plain e m.id here becomes.1).same⟩)
    rw [unseen] at found
    cases found

theorem readAll_collected {es : List Js} (acc : Gathered) (before : List DecryptedMessage)
    (proper : Proper K)
    (plain : PlainAmong among) (inside : ∀ e ∈ es, among e)
    (collected : Collected account among start (before ++ acc.messages) acc.seen) :
    Collected account among start (before ++ (es.foldl (readOne account K) acc).messages)
      (es.foldl (readOne account K) acc).seen := by
  induction es generalizing acc with
  | nil => exact collected
  | cons e rest ih =>
    refine @ih (readOne account K acc e) (fun e member => inside e (List.mem_cons_of_mem _ member)) ?_
    rw [readOne_eq]
    split
    next unread =>
      obtain ⟨id, message, unseen⟩ := isUnread_iff.mp unread
      cases effect : effectOf account K e with
      | push sessionId m =>
        have becomes := effectOf_push proper message effect
        have same : m.id = id := Except.ok.inj (becomes.1.2.symm.trans message.2)
        have more := collected.push plain (inside e List.mem_cons_self) becomes (by rw [same]; exact unseen)
        rwa [List.append_assoc] at more
      | _ => exact collected
    next => exact collected

variable [CborDecoder]

theorem readArchives_collected {before : List DecryptedMessage} {objects : ObjectMap String Data}
    {ingested : List String}
    {keys : List String} {acc : ArchiveResult × Sessions} (proper : Proper acc.2)
    (plain : PlainAmong among) (inside : ∀ key ∈ keys, ∀ entries, objects.get key = some (.cbor entries) →
      ∀ e ∈ Js.ofValues entries, among e)
    (collected : Collected page.toAccount among start (before ++ acc.1.gathered.messages)
      acc.1.gathered.seen) :
    Collected page.toAccount among start
      (before ++ (keys.foldl (readArchive page objects ingested) acc).1.gathered.messages)
      (keys.foldl (readArchive page objects ingested) acc).1.gathered.seen := by
  induction keys generalizing acc with
  | nil => exact collected
  | cons key rest ih =>
    refine ih (readArchive_proper proper key)
      (fun key member => inside key (List.mem_cons_of_mem _ member)) ?_
    unfold readArchive
    split
    next => exact collected
    next =>
      split
      -- a new archive is read with what was seen so far
      next entries found =>
        have read := readAll_collected { seen := acc.1.gathered.seen }
          (before ++ acc.1.gathered.messages) (learnAll_proper page proper acc.1.gathered.seen (Js.ofValues entries)) plain
          (inside key List.mem_cons_self entries found)
          (by rw [List.append_nil]; exact collected)
        rw [List.append_assoc] at read
        exact read
      next => exact collected

end Collecting

theorem isIn_foldl_addOnce {x : Js} {xs set : List Js} :
    x.isIn (xs.foldl (fun set x => addOnce x set) set) = true ↔
      x.isIn set = true ∨ ∃ y ∈ xs, x.same y = true := by
  induction xs generalizing set with
  | nil => simp
  | cons y rest ih =>
    rw [List.foldl_cons, ih, isIn_addOnce_iff, or_assoc]
    simp

theorem mem_storedIds {x : Js} : x ∈ storedIds page s ↔
    ∃ key row, s.db.messages.get key = some row ∧ row.userId = page.userId.str ∧ row.id = x := by
  simp only [storedIds, Database.messagesOf, List.mem_map, List.mem_insertionSort, List.mem_filter,
    decide_eq_true_eq]
  constructor
  · rintro ⟨row, ⟨⟨⟨key, row'⟩, entry, rfl⟩, own⟩, named⟩
    exact ⟨key, row', ObjectMap.get_of_mem entry, own, named⟩
  · rintro ⟨key, row, found, own, named⟩
    exact ⟨row, ⟨⟨(key, row), ObjectMap.mem_of_get found, rfl⟩, own⟩, named⟩

variable [CborDecoder]

/-- What a sync has seen in the end. -/
def seenLast (page : Page) (s : State) : List Js := (bothPasses page s).1.gathered.seen

/-- One sync collects its messages from the store, beyond those stored. -/
theorem sync_collected (coherent : Coherent s) (plain : PlainAmong (InStore page.userId s)) :
    Collected page.toAccount (InStore page.userId s) (storedIds page s)
      ((livePass page s).1.messages ++ (bothPasses page s).1.gathered.messages) (seenLast page s) := by
  have live : Collected page.toAccount (InStore page.userId s) [] (livePass page s).1.messages
      (livePass page s).1.seen := by
    have nothing : Collected page.toAccount (InStore page.userId s) [] ([] ++ []) [] :=
      ⟨fun _ member => (nomatch member), fun x => by simp [Js.isIn], List.Pairwise.nil⟩
    exact readAll_collected { seen := [] } [] (learnAll_proper page coherent.proper [] _) plain
      (fun e member => mem_liveEnvelopes member) nothing
  -- between the passes the stored ids join those seen
  have between : Collected page.toAccount (InStore page.userId s) (storedIds page s)
      ((livePass page s).1.messages ++ []) (seenAfter page s) := by
    rw [List.append_nil]
    refine ⟨live.origin, fun x => ?_, live.once⟩
    rw [seenAfter, isIn_foldl_addOnce]
    simp only [storedIds, List.mem_map, exists_exists_and_eq_and]
  unfold seenLast bothPasses archivePass
  cases all : listAll s (prefixInboxArchive page.userId.str) page.pages none with
  | none => exact between
  | some keys =>
    exact readArchives_collected (learnAll_proper page coherent.proper [] _) plain
      (fun key member entries found e inside => .archived found (mem_listAll all key member) inside) between

theorem mem_syncResult {m : DecryptedMessage} : m ∈ (syncResult page s).messages ↔
    m ∈ (livePass page s).1.messages ++ (bothPasses page s).1.gathered.messages := by
  simp only [syncResult, List.mem_insertionSort]

/-- No two messages of a result have one id. -/
theorem syncResult_once (coherent : Coherent s) (plain : PlainAmong (InStore page.userId s)) :
    (syncResult page s).messages.Pairwise fun a b => a.id ≠ b.id := by
  have collected := (sync_collected coherent plain).once
  rw [syncResult]
  exact (List.perm_insertionSort _ _).symm.pairwise collected fun differ => differ.symm

/-! ### Rows after a call -/

/-- The rows after a call are those from before and those of the messages. -/
theorem Turn.row {r : Published} (turn : Turn page s t r) (key : Key) :
    t.db.messages.get key = s.db.messages.get key ∨
      ∃ m ∈ (syncResult page s).messages, m.id.key = some key ∧
        t.db.messages.get key = some (storedMessage page.userId.str m) := by
  by_cases storable : Storable page.parse (syncResult page s).messages
  · rcases putRows_get (turn.stored storable) key with ⟨same, _⟩ | ⟨row, member, named, found⟩
    · exact .inl same
    · obtain ⟨m, inside, rfl⟩ := List.mem_map.mp member
      exact .inr ⟨m, inside, named, found⟩
  · exact .inl (by rw [turn.kept storable])

theorem plain_of_result (coherent : Coherent s) (plain : PlainAmong (InStore page.userId s))
    {m : DecryptedMessage} (member : m ∈ (syncResult page s).messages) : Plain m.id := by
  obtain ⟨e, inside, becomes⟩ := (sync_collected coherent plain).origin m (mem_syncResult.mp member)
  exact plain e m.id inside becomes.1

theorem Turn.named {r : Published} (turn : Turn page s t r) (coherent : Coherent s)
    (plain : PlainAmong (InStore page.userId s)) (named : Named s.db.messages) :
    Named t.db.messages := by
  intro key row found
  rcases turn.row key with same | ⟨m, member, valid, found'⟩
  · exact named key row (same ▸ found)
  · cases found'.symm.trans found
    exact (plain_of_result coherent plain member).key valid

/-- A row of the account is not taken away. -/
theorem Turn.sees_stored {r : Published} (turn : Turn page s t r) (coherent : Coherent s)
    (plain : PlainAmong (InStore page.userId s)) (named : Named s.db.messages) :
    Sees (storedIds page s) (storedIds page t) := by
  intro x known
  obtain ⟨key, row, found, own, rfl⟩ := mem_storedIds.mp (Js.mem_of_isIn known)
  obtain ⟨name, text, rfl⟩ := named key row found
  rw [text, Js.isIn_str]
  rcases turn.row [.str name] with same | ⟨m, member, valid, found'⟩
  · exact mem_storedIds.mpr ⟨_, row, same.trans found, own, text⟩
  · obtain ⟨name', text', key_⟩ := (plain_of_result coherent plain member).key valid
    cases key_
    exact mem_storedIds.mpr ⟨_, _, found', rfl, text'⟩

/-- No session is forgotten. -/
theorem Turn.extends {r : Published} (turn : Turn page s t r) :
    Extends (sessionOf s) (sessionOf t) := by
  have live : Extends (sessionOf s) (livePass page s).2 := learnAll_extends page [] _ _
  rw [turn.sessions]
  unfold bothPasses archivePass
  cases listAll s (prefixInboxArchive page.userId.str) page.pages none with
  | none => exact live
  | some keys =>
    exact live.trans (readArchives_extends page s.objects s.db.ingestedArchives keys
      ({ gathered := { seen := seenAfter page s } }, (livePass page s).2))

/-- Once all live keys fit into a page, a call leaves none above the cursor. -/
theorem Turn.lists {r : Published} (turn : Turn page s t r)
    (fits : (s.objects.keysAfter (startsWith · (prefixInboxLive page.userId.str))
        (s.db.syncCursors.get (prefixInboxLive page.userId.str))).length ≤ STORE_LIST_LIMIT ∨
      liveKeys page.userId s = []) : liveKeys page.userId t = [] := by
  have cursors := turn.syncCursors
  cases listed : (liveKeys page.userId s).getLast? with
  -- nothing was listed, and nothing is
  | none =>
    rw [listed] at cursors
    have same : t.db.syncCursors = s.db.syncCursors := cursors
    have keys : liveKeys page.userId t = liveKeys page.userId s := by
      simp only [liveKeys, State.listing, turn.objects, same]
    rw [keys]
    exact List.getLast?_eq_none_iff.mp listed
  -- the cursor goes to the last key, and all fitted on the page
  | some last =>
    have fits := fits.resolve_right fun none_ => by rw [none_] at listed; cases listed
    have whole : liveKeys page.userId s = s.objects.keysAfter (startsWith · (prefixInboxLive page.userId.str))
        (s.db.syncCursors.get (prefixInboxLive page.userId.str)) := by
      simp only [liveKeys, State.listing, ObjectMap.page, if_pos fits]
    rw [listed] at cursors
    have cursor : t.db.syncCursors.get (prefixInboxLive page.userId.str) = some last := by
      rw [cursors]
      simp [State.advance]
    have rest : s.objects.keysAfter (startsWith · (prefixInboxLive page.userId.str)) (some last) = [] := by
      rw [whole] at listed
      rw [ObjectMap.keysAfter_last (n := STORE_LIST_LIMIT) (by rw [List.take_of_length_le fits]; exact listed)]
      exact List.drop_of_length_le fits
    simp only [liveKeys, State.listing, ObjectMap.page, turn.objects, cursor, rest, List.length_nil,
      Nat.zero_le, if_true]

/-- After a call that succeeded, what it has seen is stored. -/
theorem Turn.sees_last (turn : Turn page s t .done) (coherent : Coherent s)
    (plain : PlainAmong (InStore page.userId s)) (named : Named s.db.messages) :
    Sees (seenLast page s) (storedIds page t) := by
  intro x seen
  rcases ((sync_collected coherent plain).seen x).mp seen with old | ⟨m, member, same⟩
  · exact turn.sees_stored coherent plain named x old
  · -- a message of the result has been stored under its id
    have member := mem_syncResult.mpr member
    have storable := (turn.done.mp rfl).1
    obtain ⟨key, row, valid, found⟩ := putRows_there (turn.stored storable)
      (List.mem_map_of_mem (f := storedMessage page.userId.str) member)
    obtain ⟨name, text, rfl⟩ := (plain_of_result coherent plain member).key valid
    have equal := Js.eq_of_same same
    rw [text] at equal
    rw [equal, Js.isIn_str]
    rcases turn.row [.str name] with unchanged | ⟨m', member', valid', found'⟩
    · obtain ⟨name', text', key_⟩ := named [.str name] row (unchanged ▸ found)
      rcases putRows_get (turn.stored storable) [.str name] with ⟨_, absent⟩ | ⟨row', inside, _, found'⟩
      · exact absurd valid (absent _ (List.mem_map_of_mem member))
      · obtain ⟨m', _, rfl⟩ := List.mem_map.mp inside
        cases found'.symm.trans found
        cases key_
        exact mem_storedIds.mpr ⟨_, _, found', rfl, text'⟩
    · obtain ⟨name', text', key_⟩ := (plain_of_result coherent plain member').key valid'
      cases key_
      exact mem_storedIds.mpr ⟨_, _, found', rfl, text'⟩

/-- After a call that succeeded, each archive it recorded is done with. -/
theorem Turn.candidates (turn : Turn page s t .done) (coherent : Coherent s)
    (plain : PlainAmong (InStore page.userId s)) (named : Named s.db.messages)
    (archives : PlainArchives s.objects) :
    ∀ key ∈ (syncResult page s).ingestedCandidates,
      DoneWith page s.objects (sessionOf t) (storedIds page t) key := by
  intro key member
  have done : DoneWith page s.objects (bothPasses page s).2 (seenLast page s) key := by
    unfold seenLast
    simp only [syncResult, bothPasses, archivePass] at member ⊢
    cases all : listAll s (prefixInboxArchive page.userId.str) page.pages none with
    | none => rw [all] at member; cases member
    | some keys =>
      rw [all] at member
      exact readArchives_candidates (learnAll_proper page coherent.proper [] _) archives
        (fun _ none_ => absurd none_ List.not_mem_nil) key member
  rw [turn.sessions]
  exact done.later (.refl _) (turn.sees_last coherent plain named)

end Atmin.Web
