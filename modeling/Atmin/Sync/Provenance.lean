import Atmin.Sync.Browser

/-!
# Where stored messages come from

Everything a browser stores or is about to store was read from an envelope the server
accepted into the inbox, and an archive is recorded as ingested only when each of its
messages is stored or was passed over. Both are kept by every step of every task.
-/

namespace Atmin.Web

open Interaction

/-! ### Envelopes and what they hold -/

/-- The envelope names the account it was accepted from. -/
def Truthful (raw : Json) : Prop :=
  ∃ header, EnvelopeHeader.fromJson raw = some header ∧ ∃ sender : UserId, header.fromUser = sender.str

/-- The server accepted the envelope into the inbox. -/
def InInbox (user : UserId) (s : State) (raw : Json) : Prop :=
  (raw ∈ s.accepted ∧ Truthful raw) ∧ ∃ header, EnvelopeHeader.fromJson raw = some header ∧
    startsWith (keyInboxLive header.toUser header.msgId) (prefixInboxLive user.str) = true

/-- A `megolm.message` envelope with this `msg_id`. -/
def IsMessage (e id : Js) : Prop :=
  e.member "content_type" = .ok (.str "megolm.message") ∧ e.member "msg_id" = .ok id

/-- The session key opens the envelope to the text. -/
def Opens (crypto : Crypto) (k : Inbound) (e : Js) (text : String) : Prop :=
  ∃ payload ciphertext, e.member "payload" = .ok payload ∧
    payload.member "session_id" = .ok (.str k.sessionId) ∧
    payload.member "ciphertext" = .ok (.str ciphertext) ∧
    k.decrypt crypto ciphertext = some text

/-- The message that the envelope becomes once some key opens it. -/
def Materializes (account : Account) (e : Js) (m : DecryptedMessage) : Prop :=
  IsMessage e m.id ∧ ∃ k text, Opens account.crypto k e text ∧ decryptedMessage account e text = .ok m

/-- The envelope was passed over although a key opens it: the device held the session under a
key that does not, or its date cannot be converted. -/
def PassedOver (account : Account) (s : State) (e : Js) : Prop :=
  ∀ k text, Opens account.crypto k e text →
    (∃ k' ∈ s.held, k'.sessionId = k.sessionId ∧ ∀ text', ¬ Opens account.crypto k' e text') ∨
      ∃ thrown, decryptedMessage account e text = .error thrown

/-- A message row with this id is stored. -/
def HasRow (s : State) (id : Js) : Prop := ∃ key row, id.key = some key ∧ s.db.messages.get key = some row

/-- A sync is done with the envelope once `messages` are stored. -/
def Accounted (account : Account) (s : State) (messages : List DecryptedMessage) (e : Js) : Prop :=
  ∀ id, IsMessage e id → HasRow s id ∨ (∃ m ∈ messages, m.id = id) ∨ PassedOver account s e

/-- What no step takes back. -/
structure Grows (s t : State) : Prop where
  accepted : s.accepted <+: t.accepted
  archived : s.archived <+: t.archived
  held : s.held ⊆ t.held
  rows : ∀ key row, s.db.messages.get key = some row → ∃ row', t.db.messages.get key = some row'

section Growth

variable {account : Account} {s t u : State}

theorem Grows.refl (s : State) : Grows s s :=
  ⟨List.prefix_refl _, List.prefix_refl _, fun _ h => h, fun _ row h => ⟨row, h⟩⟩

theorem Grows.trans (first : Grows s t) (last : Grows t u) : Grows s u where
  accepted := first.accepted.trans last.accepted
  archived := first.archived.trans last.archived
  held := fun k h => last.held (first.held h)
  rows := fun key row h => by
    obtain ⟨row', h⟩ := first.rows key row h
    exact last.rows key row' h

theorem HasRow.grows {id : Js} (row : HasRow s id) (grows : Grows s t) : HasRow t id := by
  obtain ⟨key, row, valid, present⟩ := row
  obtain ⟨row', present⟩ := grows.rows key row present
  exact ⟨key, row', valid, present⟩

theorem PassedOver.grows {e : Js} (passed : PassedOver account s e) (grows : Grows s t) :
    PassedOver account t e := by
  intro k text opens
  rcases passed k text opens with ⟨k', held, rest⟩ | thrown
  · exact .inl ⟨k', grows.held held, rest⟩
  · exact .inr thrown

theorem Accounted.grows {messages : List DecryptedMessage} {e : Js}
    (accounted : Accounted account s messages e) (grows : Grows s t) : Accounted account t messages e := by
  intro id message
  rcases accounted id message with row | pending | passed
  · exact .inl (row.grows grows)
  · exact .inr (.inl pending)
  · exact .inr (.inr (passed.grows grows))

theorem archivable_grows {user : UserId} {n : Nat} {v : Value} (grows : Grows s t)
    (found : s.archivable user n = some v) : t.archivable user n = some v := by
  obtain ⟨more, accepted⟩ := grows.accepted
  simp only [State.archivable, Option.bind_eq_bind, Option.bind_eq_some_iff] at found ⊢
  obtain ⟨raw, here, rest⟩ := found
  refine ⟨raw, ?_, rest⟩
  rw [← accepted, List.getElem?_append_left (List.getElem?_eq_some_iff.mp here).1]
  exact here

end Growth

/-- Each result of a successful `mapM` is the result of one element. -/
theorem of_mapM {α β : Type} {f : α → Option β} {xs : List α} {ys : List β}
    (all : xs.mapM f = some ys) : ∀ y ∈ ys, ∃ x, f x = some y := by
  induction xs generalizing ys with
  | nil => cases all; intro y member; cases member
  | cons x rest ih =>
    simp only [List.mapM_cons, Option.pure_def, Option.bind_eq_bind, Option.bind_eq_some_iff,
      Option.some.injEq] at all
    obtain ⟨y, first, ys', others, rfl⟩ := all
    intro z member
    rcases List.mem_cons.mp member with rfl | later
    · exact ⟨x, first⟩
    · exact ih others z later

/-! ### The invariant -/

variable [CborDecoder]

/-- The two forms in which an accepted envelope is read: as a live object, and as an entry
of an archive. -/
inductive View (raw : Json) : Js → Prop where
  | live : View raw (Js.ofJson raw)
  | archived {v : Value} : Value.ofJson jsonDepth raw = some v → View raw (Js.ofValue v)

def Delivered (user : UserId) (s : State) (e : Js) : Prop :=
  ∃ raw, InInbox user s raw ∧ View raw e

def From (account : Account) (s : State) (m : DecryptedMessage) : Prop :=
  ∃ e, Delivered account.userId s e ∧ Materializes account e m

/-- A row that `saveMessages` writes for a message read from the inbox. -/
def SourcedRow (account : Account) (s : State) (key : Key) (row : StoredMessage) : Prop :=
  row.id.key = some key ∧ ∃ m, From account s m ∧ row = storedMessage account.userId.str m

/-- An archive of the inbox was written under `key`, and every message of it is accounted for. -/
def AccountedArchive (account : Account) (s : State) (messages : List DecryptedMessage) (key : String) :
    Prop :=
  ∃ entries, (key, entries) ∈ s.archived ∧ ∀ v ∈ entries,
    Delivered account.userId s (Js.ofValue v) ∧ Accounted account s messages (Js.ofValue v)

structure GoodResult (account : Account) (reliable : Prop) (s : State) (result : SyncResult) : Prop where
  messages : ∀ m ∈ result.messages, From account s m
  candidates : reliable → ∀ key ∈ result.ingestedCandidates,
    AccountedArchive account s result.messages key

/-- What is stored, cached or settled comes from envelopes of the inbox. -/
structure Sourced (account : Account) (reliable : Prop) (s : State) : Prop where
  truthful : ∀ raw ∈ s.accepted, Truthful raw
  live : ∀ key raw, s.objects.get key = some (.json raw) → raw ∈ s.accepted ∧
    ∃ header, EnvelopeHeader.fromJson raw = some header ∧ key = keyInboxLive header.toUser header.msgId
  archives : ∀ key entries, s.objects.get key = some (.cbor entries) → (key, entries) ∈ s.archived
  entries : ∀ key entries, (key, entries) ∈ s.archived → ∃ (user : UserId) (name : String),
    key = prefixInboxArchive user.str ++ name ∧ ∀ v ∈ entries, ∃ n, s.archivable user n = some v
  once : (s.archived.map Prod.fst).Nodup
  stored : ∀ id stored, s.db.inbound.get id = some stored → stored.session.sessionId = id
  cached : ∀ id stored, s.memory.inboundCache.get id = some stored →
    stored.session.sessionId = id ∧ stored.session ∈ s.held
  rows : ∀ key row, s.db.messages.get key = some row → SourcedRow account s key row
  results : ∀ result, some (.ok result) ∈ s.memory.syncs → GoodResult account reliable s result
  ingested : reliable → ∀ key ∈ s.db.ingestedArchives, AccountedArchive account s [] key

section Sources

variable {account : Account} {reliable : Prop} {s t : State}

theorem Delivered.grows {user : UserId} {e : Js} (delivered : Delivered user s e)
    (grows : Grows s t) : Delivered user t e := by
  obtain ⟨raw, ⟨⟨accepted, truthful⟩, header⟩, view⟩ := delivered
  exact ⟨raw, ⟨⟨grows.accepted.subset accepted, truthful⟩, header⟩, view⟩

theorem From.grows {m : DecryptedMessage} (from_ : From account s m) (grows : Grows s t) :
    From account t m := by
  obtain ⟨e, delivered, becomes⟩ := from_
  exact ⟨e, delivered.grows grows, becomes⟩

theorem AccountedArchive.grows {messages : List DecryptedMessage} {key : String}
    (accounted : AccountedArchive account s messages key) (grows : Grows s t) :
    AccountedArchive account t messages key := by
  obtain ⟨entries, written, each⟩ := accounted
  exact ⟨entries, grows.archived.subset written, fun v member =>
    ⟨(each v member).1.grows grows, (each v member).2.grows grows⟩⟩

theorem GoodResult.grows {result : SyncResult} (good : GoodResult account reliable s result)
    (grows : Grows s t) : GoodResult account reliable t result :=
  ⟨fun m member => (good.messages m member).grows grows,
    fun h key member => (good.candidates h key member).grows grows⟩

theorem SourcedRow.grows {key : Key} {row : StoredMessage} (sourced : SourcedRow account s key row)
    (grows : Grows s t) : SourcedRow account t key row := by
  obtain ⟨valid, m, from_, rfl⟩ := sourced
  exact ⟨valid, m, from_.grows grows, rfl⟩

end Sources

/-! ### Steps that need no precondition -/

/-- The steps that record nothing about messages. -/
def Act.quiet : Act → Bool
  | .markArchiveIngested _ | .putMessages .. | .settleSync .. => false
  | _ => true

section Quiet

variable {account : Account} {reliable : Prop} {s t : State}

theorem Sourced.cacheInbound (h : Sourced account reliable s) (stored : StoredInbound)
    (done : perform (.cacheInbound stored) .ok s = some ((), t)) :
    Sourced account reliable t ∧ Grows s t := by
  simp only [perform, Option.some.injEq, Prod.mk.injEq, true_and] at done
  subst done
  have grows : Grows s { s with
      memory := { s.memory with
        inboundCache := s.memory.inboundCache.insert stored.session.sessionId stored }
      held := stored.session :: s.held } :=
    ⟨List.prefix_refl _, List.prefix_refl _, fun _ member => List.mem_cons_of_mem _ member,
      fun _ row found => ⟨row, found⟩⟩
  refine ⟨{ truthful := h.truthful, live := h.live, archives := h.archives, entries := h.entries, once := h.once
            stored := h.stored, rows := h.rows
            cached := fun id other found => ?_
            results := fun result settled => (h.results result settled).grows grows
            ingested := fun reliable key member => (h.ingested reliable key member).grows grows },
    grows⟩
  rw [ObjectMap.get_insert] at found
  split at found
  next same => cases found; exact ⟨same.symm, List.mem_cons_self⟩
  next => exact ⟨(h.cached id other found).1, List.mem_cons_of_mem _ (h.cached id other found).2⟩

theorem Sourced.deliver (h : Sourced account reliable s) {raw : Json} {header : EnvelopeHeader}
    {sender : UserId} (parsed : EnvelopeHeader.fromJson raw = some header)
    (truthful : header.fromUser = sender.str) :
    Sourced account reliable (s.accept raw header) ∧ Grows s (s.accept raw header) := by
  have grows : Grows s (s.accept raw header) :=
    ⟨List.prefix_append _ _, List.prefix_refl _, fun _ member => member,
      fun _ row found => ⟨row, found⟩⟩
  refine ⟨{ truthful := fun other member => ?_
            live := fun key other found => ?_
            archives := fun key entries found => ?_
            entries := fun key entries written => ?_
            once := h.once, stored := h.stored, cached := h.cached
            rows := fun key row found => (h.rows key row found).grows grows
            results := fun result settled => (h.results result settled).grows grows
            ingested := fun reliable key member => (h.ingested reliable key member).grows grows },
    grows⟩
  · rcases List.mem_append.mp member with old | new
    · exact h.truthful other old
    · rw [List.mem_singleton.mp new]
      exact ⟨header, parsed, sender, truthful⟩
  · simp only [State.accept, ObjectMap.get_insert] at found ⊢
    split at found
    next same =>
      cases found
      exact ⟨List.mem_append_right _ List.mem_cons_self, header, parsed, same⟩
    next =>
      obtain ⟨accepted, rest⟩ := h.live key other found
      exact ⟨List.mem_append_left _ accepted, rest⟩
  · simp only [State.accept, ObjectMap.get_insert] at found
    split at found
    next => cases found
    next => exact h.archives key entries found
  · obtain ⟨user, name, same, each⟩ := h.entries key entries written
    refine ⟨user, name, same, fun v member => ?_⟩
    obtain ⟨n, found⟩ := each v member
    exact ⟨n, archivable_grows grows found⟩

theorem Sourced.archive (h : Sourced account reliable s) {user : UserId} {name : String}
    {picks : List Nat} {entries : List Value}
    (fresh : prefixInboxArchive user.str ++ name ∉ s.archived.map Prod.fst)
    (picked : picks.mapM (s.archivable user) = some entries) :
    Sourced account reliable (s.writeArchive (prefixInboxArchive user.str ++ name) entries) ∧
      Grows s (s.writeArchive (prefixInboxArchive user.str ++ name) entries) := by
  have grows : Grows s (s.writeArchive (prefixInboxArchive user.str ++ name) entries) :=
    ⟨List.prefix_refl _, List.prefix_append _ _, fun _ member => member,
      fun _ row found => ⟨row, found⟩⟩
  refine ⟨{ truthful := h.truthful
            live := fun key other found => ?_
            archives := fun key es found => ?_
            entries := fun key es written => ?_
            once := ?_
            stored := h.stored, cached := h.cached, rows := h.rows
            results := fun result settled => (h.results result settled).grows grows
            ingested := fun reliable key member => (h.ingested reliable key member).grows grows },
    grows⟩
  · simp only [State.writeArchive, ObjectMap.get_insert] at found
    split at found
    next => cases found
    next => exact h.live key other found
  · simp only [State.writeArchive, ObjectMap.get_insert] at found ⊢
    split at found
    next same =>
      cases found
      rw [same]
      exact List.mem_append_right _ List.mem_cons_self
    next => exact List.mem_append_left _ (h.archives key es found)
  · rcases List.mem_append.mp written with old | new
    · exact h.entries key es old
    · obtain ⟨rfl, rfl⟩ := Prod.mk.inj (List.mem_singleton.mp new)
      refine ⟨user, name, rfl, fun v member => ?_⟩
      exact of_mapM picked v member
  · simp only [State.writeArchive, List.map_append, List.map_cons, List.map_nil]
    exact List.nodup_append.mpr ⟨h.once, List.nodup_singleton _, fun a old b new same =>
      fresh (by rw [← List.mem_singleton.mp new, ← same]; exact old)⟩

/-- A change of IndexedDB that leaves messages, sessions and archives alone. -/
theorem Sourced.otherStores (h : Sourced account reliable s) {db : Database}
    (messages : db.messages = s.db.messages) (inbound : db.inbound = s.db.inbound)
    (ingested : db.ingestedArchives = s.db.ingestedArchives) :
    Sourced account reliable { s with db } ∧ Grows s { s with db } := by
  have grows : Grows s { s with db } :=
    ⟨List.prefix_refl _, List.prefix_refl _, fun _ member => member,
      fun key row found => ⟨row, by rw [messages]; exact found⟩⟩
  refine ⟨{ truthful := h.truthful, live := h.live, archives := h.archives, entries := h.entries, once := h.once
            stored := by rw [inbound]; exact h.stored
            cached := h.cached
            rows := fun key row found => ?_
            results := fun result settled => (h.results result settled).grows grows
            ingested := fun reliable key member => ?_ }, grows⟩
  · rw [messages] at found
    exact (h.rows key row found).grows grows
  · rw [ingested] at member
    exact (h.ingested reliable key member).grows grows

theorem Sourced.saveInbound (h : Sourced account reliable s) (stored : StoredInbound) :
    Sourced account reliable { s with db := s.db.saveInbound stored } ∧
      Grows s { s with db := s.db.saveInbound stored } := by
  have grows : Grows s { s with db := s.db.saveInbound stored } :=
    ⟨List.prefix_refl _, List.prefix_refl _, fun _ member => member,
      fun _ row found => ⟨row, found⟩⟩
  refine ⟨{ truthful := h.truthful, live := h.live, archives := h.archives, entries := h.entries, once := h.once
            stored := fun id other found => ?_
            cached := h.cached, rows := h.rows
            results := fun result settled => (h.results result settled).grows grows
            ingested := fun reliable key member => (h.ingested reliable key member).grows grows },
    grows⟩
  simp only [Database.saveInbound, ObjectMap.get_insert] at found
  split at found
  next same => cases found; exact same.symm
  next => exact h.stored id other found

/-- A change of the memory that drops or keeps what is cached and settled. -/
theorem Sourced.memory (h : Sourced account reliable s) {memory : Memory} (epoch : Nat)
    (cache : ∀ id stored, memory.inboundCache.get id = some stored →
      s.memory.inboundCache.get id = some stored)
    (syncs : ∀ result, some (.ok result) ∈ memory.syncs → GoodResult account reliable s result) :
    Sourced account reliable { s with memory, epoch } ∧ Grows s { s with memory, epoch } := by
  have grows : Grows s { s with memory, epoch } :=
    ⟨List.prefix_refl _, List.prefix_refl _, fun _ member => member,
      fun _ row found => ⟨row, found⟩⟩
  exact ⟨{ truthful := h.truthful, live := h.live, archives := h.archives, entries := h.entries, once := h.once
           stored := h.stored, rows := h.rows, ingested := h.ingested
           cached := fun id stored found => h.cached id stored (cache id stored found)
           results := fun result settled => (syncs result settled).grows grows }, grows⟩

/-- The keys the account has elsewhere play no part. -/
theorem Sourced.elsewhere (h : Sourced account reliable s) (backups : List Inbound)
    (sharingKey : String) : Sourced account reliable { s with backups, sharingKey } ∧
      Grows s { s with backups, sharingKey } := by
  have grows : Grows s { s with backups, sharingKey } :=
    ⟨List.prefix_refl _, List.prefix_refl _, fun _ member => member,
      fun _ row found => ⟨row, found⟩⟩
  exact ⟨{ truthful := h.truthful, live := h.live, archives := h.archives, entries := h.entries, once := h.once
           stored := h.stored, cached := h.cached, rows := h.rows, ingested := h.ingested
           results := fun result settled => (h.results result settled).grows grows }, grows⟩

theorem Sourced.remove (h : Sourced account reliable s) (keys : List String) :
    Sourced account reliable { s with objects := s.objects.eraseAll keys } ∧
      Grows s { s with objects := s.objects.eraseAll keys } := by
  have grows : Grows s { s with objects := s.objects.eraseAll keys } :=
    ⟨List.prefix_refl _, List.prefix_refl _, fun _ member => member,
      fun _ row found => ⟨row, found⟩⟩
  refine ⟨{ truthful := h.truthful
            live := fun key raw found => ?_, archives := fun key entries found => ?_
            entries := h.entries, once := h.once, stored := h.stored, cached := h.cached
            rows := h.rows, ingested := h.ingested
            results := fun result settled => (h.results result settled).grows grows }, grows⟩
  · simp only [ObjectMap.get_eraseAll, Option.ite_none_left_eq_some] at found
    exact h.live key raw found.2
  · simp only [ObjectMap.get_eraseAll, Option.ite_none_left_eq_some] at found
    exact h.archives key entries found.2

omit [CborDecoder] in
theorem saveBatch_nil {db db' : Database} {conversations : List StoredConversation}
    (saved : db.saveBatch [] conversations = some db') :
    db'.messages = db.messages ∧ db'.inbound = db.inbound ∧
      db'.ingestedArchives = db.ingestedArchives := by
  unfold Database.saveBatch at saved
  split at saved
  next ms cs messages _ => cases saved; cases messages; exact ⟨rfl, rfl, rfl⟩
  next => cases saved

theorem quiet_step (h : Sourced account reliable s) {act : Act} {c : Outcome} {r : Reply act}
    (quiet : act.quiet = true) (done : perform act c s = some (r, t)) :
    Sourced account reliable t ∧ Grows s t := by
  cases act with
  | markArchiveIngested _ | putMessages _ _ | settleSync _ _ => cases quiet
  -- reads change nothing
  | storeList _ _ | storeGet _ | syncReadMarkers | loadSyncCursor _ | loadMessageIds _
  | loadIngestedArchiveKeys | loadInboundSession _ | getConversation _ | getAllMessages _ =>
    simp only [perform] at done
    obtain ⟨rfl, _⟩ := reading_cases done
    exact ⟨h, .refl _⟩
  -- writes to the other stores of the device
  | saveSyncCursor pre cursor =>
    simp only [perform] at done
    rcases writing_cases done with ⟨rfl, _⟩ | ⟨db, wrote, rfl, _⟩
    · exact ⟨h, .refl _⟩
    · cases wrote; exact h.otherStores rfl rfl rfl
  | saveInboundSession stored =>
    simp only [perform] at done
    rcases writing_cases done with ⟨rfl, _⟩ | ⟨db, wrote, rfl, _⟩
    · exact ⟨h, .refl _⟩
    · cases wrote; exact h.saveInbound stored
  | putConversations rows =>
    simp only [perform] at done
    rcases writing_cases done with ⟨rfl, _⟩ | ⟨db, wrote, rfl, _⟩
    · exact ⟨h, .refl _⟩
    · obtain ⟨messages, inbound, ingested⟩ := saveBatch_nil wrote
      exact h.otherStores messages inbound ingested
  -- the memory of the page
  | spawn task =>
    cases c <;> simp only [perform, Option.some.injEq, Prod.mk.injEq, reduceCtorEq] at done
    obtain ⟨_, rfl⟩ := done
    exact h.memory s.epoch (fun _ _ found => found) h.results
  | cachedInbound id =>
    cases c <;> simp only [perform, Option.some.injEq, Prod.mk.injEq, reduceCtorEq] at done
    obtain ⟨_, rfl⟩ := done
    exact ⟨h, .refl _⟩
  | cacheInbound stored =>
    cases c with
    | ok => exact h.cacheInbound stored done
    | fail e => cases done
  | joinSync =>
    cases c <;> simp only [perform, reduceCtorEq] at done
    split at done
    next => cases done; exact ⟨h, .refl _⟩
    next =>
      cases done
      refine h.memory s.epoch (fun _ _ found => found) fun result settled => ?_
      rcases List.mem_append.mp settled with old | new
      · exact h.results result old
      · cases List.mem_singleton.mp new
  | awaitSync n =>
    cases c <;> simp only [perform, reduceCtorEq] at done
    split at done
    next => cases done; exact ⟨h, .refl _⟩
    next => cases done
  -- what happens outside the device
  | deliver sender device raw =>
    cases c <;> simp only [perform, Option.map_eq_some_iff, Option.filter_eq_some_iff, Prod.mk.injEq,
      decide_eq_true_eq, reduceCtorEq] at done
    obtain ⟨header, ⟨parsed, truthful, _⟩, _, rfl⟩ := done
    exact h.deliver parsed truthful
  | archive user name picks =>
    cases c <;> simp only [perform, reduceCtorEq] at done
    split at done
    next => cases done
    next fresh =>
      simp only [Option.map_eq_some_iff, Prod.mk.injEq] at done
      obtain ⟨entries, picked, _, rfl⟩ := done
      exact h.archive fresh picked
  | remove keys =>
    cases c <;> simp only [perform, Option.some.injEq, Prod.mk.injEq, reduceCtorEq] at done
    obtain ⟨_, rfl⟩ := done
    exact h.remove keys
  | changeBackups keys =>
    cases c <;> simp only [perform, Option.some.injEq, Prod.mk.injEq, reduceCtorEq] at done
    obtain ⟨_, rfl⟩ := done
    exact h.elsewhere keys s.sharingKey
  | changeSharingKey key =>
    cases c <;> simp only [perform, Option.some.injEq, Prod.mk.injEq, reduceCtorEq] at done
    obtain ⟨_, rfl⟩ := done
    exact h.elsewhere s.backups key
  | reload =>
    cases c <;> simp only [perform, Option.some.injEq, Prod.mk.injEq, reduceCtorEq] at done
    obtain ⟨_, rfl⟩ := done
    refine h.memory _ (fun _ _ found => ?_) fun _ settled => ?_
    · simp at found
    · cases settled

end Quiet

end Atmin.Web
