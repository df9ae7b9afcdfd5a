import Mathlib.Logic.Equiv.List
import Atmin.Data.Base64
import Atmin.Sync.Convergence
import Atmin.Web.MarkerBlob

/-!
# What a sync of the read markers loses

A GET that fails and a blob under a newer key look like a blob without markers. If the device
has read anything, it puts its own markers in the place of the whole blob, and what only the
blob knew is gone.
-/

namespace Atmin.Web

open Interaction

/-! ### Merging, entry by entry -/

theorem raise_get (out : Markers) (e : ConversationId × Int) (id : ConversationId) :
    (out.raise e).get id = if e.1 = id ∧ out.below id e.2 = true then some e.2 else out.get id := by
  unfold Markers.raise
  by_cases same : e.1 = id
  · subst same
    by_cases later : out.below e.1 e.2 = true
    · rw [if_pos later, if_pos ⟨rfl, later⟩, Markers.assign_of_below later, ObjectMap.get_set, if_pos rfl]
    · rw [if_neg later, if_neg fun both => later both.2]
  · rw [if_neg (c := e.1 = id ∧ _) fun both => same both.1]
    split
    next later => rw [Markers.assign_of_below later, ObjectMap.get_set, if_neg (Ne.symm same)]
    next => rfl

theorem foldl_raise_get (entries : List (ConversationId × Int)) (nodup : (entries.map Prod.fst).Nodup)
    (a : Markers) (id : ConversationId) :
    (entries.foldl Markers.raise a).get id =
      match entries.find? fun e => decide (e.1 = id) with
      | some e => if a.below id e.2 = true then some e.2 else a.get id
      | none => a.get id := by
  induction entries generalizing a with
  | nil => rfl
  | cons e rest ih =>
    rw [List.map_cons, List.nodup_cons] at nodup
    rw [List.foldl_cons, ih nodup.2]
    by_cases same : e.1 = id
    · have absent : (rest.find? fun e => decide (e.1 = id)) = none := by
        rw [List.find?_eq_none]
        intro e' member
        simp only [decide_eq_true_eq]
        rintro here
        exact nodup.1 (same.trans here.symm ▸ List.mem_map_of_mem member)
      rw [List.find?_cons_of_pos (by simp [same]), absent]
      simp only [raise_get, same, true_and]
    · have kept : (a.raise e).get id = a.get id := by rw [raise_get, if_neg fun both => same both.1]
      have still (ts : Int) : (a.raise e).below id ts = a.below id ts := by
        rw [Markers.below, kept, Markers.below]
      rw [List.find?_cons_of_neg (by simp [same]), kept]
      simp only [still]

/-- An entry of `b` counts where it is ahead of `a`. -/
theorem mergeMarkers_get (a b : Markers) (id : ConversationId) :
    (mergeMarkers a b).get id = match b.get id with
      | some t => if a.below id t = true then some t else a.get id
      | none => a.get id := by
  have entry : b.get id = (b.entries.find? fun e => decide (e.1 = id)).map Prod.snd := rfl
  rw [mergeMarkers, foldl_raise_get b.entries b.nodup, entry]
  cases b.entries.find? fun e => decide (e.1 = id) <;> rfl

theorem mergeMarkers_empty (a : Markers) : mergeMarkers a .empty = a := rfl

/-- Every entry is there, with a value at least as large. -/
def Covers (m m' : Markers) : Prop := ∀ id t, m.get id = some t → ∃ t', m'.get id = some t' ∧ t ≤ t'

theorem Covers.refl (m : Markers) : Covers m m := fun _ t found => ⟨t, found, le_rfl⟩

/-- An entry that is not local is merged if it is positive, and under no inherited name. -/
theorem covers_merge (a b : Markers) : Covers b (mergeMarkers a b) ↔
    ∀ id t, b.get id = some t → (id.Plain ∧ 0 < t) ∨ (a.get id).isSome := by
  constructor
  · intro covers id t found
    obtain ⟨t', there, _⟩ := covers id t found
    rw [mergeMarkers_get, found] at there
    cases old : a.get id with
    | some x => exact .inr rfl
    | none =>
      simp only [old, Option.ite_none_right_eq_some] at there
      exact .inl ((Markers.below_of_absent old t).mp there.1)
  · intro merged id t found
    rw [mergeMarkers_get, found]
    by_cases later : a.below id t = true
    · exact ⟨t, if_pos later, le_rfl⟩
    · dsimp only
      rw [if_neg later]
      cases old : a.get id with
      | some x =>
        rw [Markers.below_of_get old, not_lt] at later
        exact ⟨x, rfl, later⟩
      | none =>
        rw [Markers.below_of_absent old] at later
        have absent : ¬ (a.get id).isSome = true := by simp [old]
        exact absurd ((merged id t found).resolve_right absent) later

/-- The local markers are ahead of the remote ones. -/
def Ahead (local_ remote : Markers) : Prop := ∃ id t, local_.get id = some t ∧ remote.below id t = true

theorem any_ahead (local_ remote : Markers) :
    ((mergeMarkers local_ remote).entries.any fun e => remote.below e.1 e.2) = true ↔
      Ahead local_ remote := by
  have entries : ((mergeMarkers local_ remote).entries.any fun e => remote.below e.1 e.2) = true ↔
      ∃ id t, (mergeMarkers local_ remote).get id = some t ∧ remote.below id t = true := by
    simp only [List.any_eq_true]
    constructor
    · rintro ⟨e, member, ahead⟩
      exact ⟨e.1, e.2, ObjectMap.get_of_mem member, ahead⟩
    · rintro ⟨id, t, found, ahead⟩
      exact ⟨(id, t), ObjectMap.mem_of_get found, ahead⟩
  rw [entries]
  refine exists₂_congr fun id t => and_congr_left fun ahead => ?_
  rw [mergeMarkers_get]
  cases there : remote.get id with
  | none => rfl
  | some x =>
    rw [Markers.below_of_get there] at ahead
    by_cases later : local_.below id x = true
    · -- Where the remote marker wins it is not behind, and neither is the local one ahead.
      have behind : local_.get id ≠ some t := by
        intro found
        rw [Markers.below_of_get found] at later
        exact absurd (ahead.trans later) (lt_irrefl x)
      dsimp only
      rw [if_pos later]
      exact iff_of_false (fun same => absurd (Option.some.inj same) ahead.ne) behind
    · dsimp only
      rw [if_neg later]

/-! ### The steps after the GET -/

section Loss

variable {CryptoKey : Type} {crypto : BlobCrypto CryptoKey} {session : MarkerSession CryptoKey}
  {outcomes : MarkerOutcomes} {iv : List UInt8} {s : MarkerState CryptoKey}

/-- One of the two PUTs writes the object. -/
def lands : PutOutcome → PutOutcome → Bool
  | .done, _ => true
  | .refused, _ => false
  | .failed written, second => written || match second with
    | .done => true
    | .refused => false
    | .failed written => written

theorem putWithRetry_stored (stored : Option ChainFile) (body : ChainFile) (first second : PutOutcome) :
    (putWithRetry stored body [first, second]).2 = if lands first second then some body else stored := by
  rcases first with _ | _ | ⟨_ | _⟩ <;> rcases second with _ | _ | ⟨_ | _⟩ <;> rfl

/-- A step that answers goes on with the rest. -/
theorem ReadM.execute_then {σ α β : Type} {run : (act : ReadAct) → σ → Option (ReadReply act × σ)} {s t : σ}
    {h : ReadM α} {f : α → ReadM β} {a : α} (ran : h.run.execute run s = some (.ok a, t)) :
    (h >>= f).run.execute run s = (f a).run.execute run t := by
  rw [ReadM.run_bind, execute_bind, ran]
  rfl

theorem UnderOwnIds.withRow {db : Database} (own : UnderOwnIds db) {key : Key} {row row' : StoredConversation}
    (found : db.conversations.get key = some row) (same : row'.conversationId = row.conversationId) :
    UnderOwnIds (db.withRow key row') := by
  intro key' other stored
  simp only [Database.withRow, ObjectMap.get_insert] at stored
  split at stored
  next here =>
    cases stored
    rw [here, same]
    exact own key row found
  next => exact own key' other stored

theorem advance_stored (own : UnderOwnIds s.db) (id : ConversationId) (timestamp : Int) : ∃ advanced db,
    UnderOwnIds db ∧ (advance id timestamp).run.execute (performStored crypto session outcomes iv) s =
      some (.ok advanced, { s with db }) := by
  rcases markConversationRead_cases own id timestamp with ⟨same, _⟩ | ⟨row, found, _, moved⟩
  · refine ⟨false, s.db, own, ?_⟩
    show (performStored crypto session outcomes iv (.markConversationRead id timestamp) s).bind _ = _
    rw [performStored, same]
    rfl
  · let read : StoredConversation := { row with lastReadTimestamp := some timestamp }
    refine ⟨true, s.db.withRow [.str id.str] read, UnderOwnIds.withRow own found rfl, ?_⟩
    show (performStored crypto session outcomes iv (.markConversationRead id timestamp) s).bind _ = _
    rw [performStored, moved]
    rfl

/-- The rows change, the stored files do not. -/
theorem applyMarkers_stored (own : UnderOwnIds s.db) (local_ remote : Markers)
    (entries : List (ConversationId × Int)) (localAdvanced aheadOfRemote : Bool) : ∃ r db,
      (applyMarkers local_ remote entries localAdvanced aheadOfRemote).run.execute
        (performStored crypto session outcomes iv) s =
          some (.ok (r, aheadOfRemote || entries.any fun e => remote.below e.1 e.2), { s with db }) := by
  induction entries generalizing s localAdvanced aheadOfRemote with
  | nil =>
    refine ⟨localAdvanced, s.db, ?_⟩
    rw [List.any_nil, Bool.or_false]
    rfl
  | cons e rest ih =>
    obtain ⟨id, timestamp⟩ := e
    rw [applyMarkers]
    by_cases behind : local_.below id timestamp = true
    · obtain ⟨advanced, db, own', ran⟩ := advance_stored own id timestamp
      obtain ⟨r, db', ran'⟩ := @ih { s with db } own' (localAdvanced || advanced)
        (aheadOfRemote || remote.below id timestamp)
      refine ⟨r, db', ?_⟩
      rw [if_pos behind, ReadM.execute_then ran, ran', List.any_cons, Bool.or_assoc]
    · obtain ⟨r, db, ran⟩ := ih own (localAdvanced || false) (aheadOfRemote || remote.below id timestamp)
      refine ⟨r, db, ?_⟩
      rw [if_neg behind]
      refine (ReadM.execute_then (a := false) rfl).trans ?_
      rw [ran, List.any_cons, Bool.or_assoc]

variable (crypto session outcomes iv) in
/-- The blob that an upload leaves, if it writes any. -/
def writtenBlob (markers : Markers) : Option Js :=
  if outcomes.presigned && lands outcomes.first outcomes.second then
    sealMarkers crypto session iv session.keyVersion markers
  else none

variable (crypto session outcomes iv) in
theorem upload_stored (s : MarkerState CryptoKey) (markers : Markers) : ∃ r,
    (uploadReadMarkers session.keyVersion markers).run.execute (performStored crypto session outcomes iv) s =
      some (r, { s with
        readMarkers := ((writtenBlob crypto session outcomes iv markers).map some).or s.readMarkers }) := by
  show ∃ r, (performStored crypto session outcomes iv (.putBlob ⟨session.keyVersion, markers⟩) s).bind _ = _
  rw [performStored, writtenBlob]
  cases sealed_ : sealMarkers crypto session iv session.keyVersion markers with
  | none => exact ⟨.error .range, by cases outcomes.presigned && lands outcomes.first outcomes.second <;> rfl⟩
  | some env =>
    cases outcomes.presigned with
    | false => exact ⟨.error .failed, rfl⟩
    | true =>
      refine ⟨(putWithRetry s.readMarkers (some env) [outcomes.first, outcomes.second]).1, ?_⟩
      simp only [if_true, Option.bind_some, execute_ret, putWithRetry_stored, Bool.true_and]
      cases lands outcomes.first outcomes.second <;> rfl

variable (crypto session outcomes iv) in
/-- The local markers are put in the place of the blob. -/
def Uploads (local_ remote : Markers) : Prop :=
  Ahead local_ remote ∧ (writtenBlob crypto session outcomes iv (mergeMarkers local_ remote)).isSome

variable (crypto session outcomes iv) in
/-- The blob after a sync that got as far as merging `remote`. -/
theorem reconcile_stored (own : UnderOwnIds s.db) (remote : Markers) : ∃ r t,
    (reconcile session.keyVersion remote).run.execute (performStored crypto session outcomes iv) s = some (r, t) ∧
      (Ahead s.db.loadReadMarkers remote → ∀ env, writtenBlob crypto session outcomes iv
        (mergeMarkers s.db.loadReadMarkers remote) = some env → t.readMarkers = some (some env)) ∧
      (¬ Uploads crypto session outcomes iv s.db.loadReadMarkers remote → t.readMarkers = s.readMarkers) := by
  let local_ := s.db.loadReadMarkers
  have loaded : loadReadMarkers.run.execute (performStored crypto session outcomes iv) s =
      some (.ok local_, s) := rfl
  obtain ⟨advanced, db, ran⟩ := @applyMarkers_stored CryptoKey crypto session outcomes iv s own local_ remote
    (mergeMarkers local_ remote).entries false false
  rw [reconcile, ReadM.execute_then loaded, ReadM.execute_then ran, Bool.false_or]
  by_cases ahead : Ahead local_ remote
  · rw [(any_ahead local_ remote).mpr ahead]
    obtain ⟨r, put⟩ := upload_stored crypto session outcomes iv { s with db } (mergeMarkers local_ remote)
    have last : ∃ r', ((uploadReadMarkers session.keyVersion (mergeMarkers local_ remote) >>= fun _ =>
        pure advanced : ReadM Bool)).run.execute (performStored crypto session outcomes iv) { s with db } =
          some (r', { s with
            db
            readMarkers := ((writtenBlob crypto session outcomes iv (mergeMarkers local_ remote)).map some).or
              s.readMarkers }) := by
      rw [ReadM.run_bind, execute_bind, put]
      cases r with
      | error e => exact ⟨.error e, rfl⟩
      | ok _ => exact ⟨.ok advanced, rfl⟩
    obtain ⟨r', ran'⟩ := last
    refine ⟨r', _, ran', fun _ env put => ?_, fun none_ => ?_⟩
    · have here : writtenBlob crypto session outcomes iv (mergeMarkers local_ remote) = some env := put
      simp only [here, Option.map_some, Option.some_or]
    · have nothing : writtenBlob crypto session outcomes iv (mergeMarkers local_ remote) = none := by
        by_contra some_
        exact none_ ⟨ahead, Option.isSome_iff_ne_none.mpr some_⟩
      simp only [nothing, Option.map_none, Option.none_or]
  · have level : ((mergeMarkers local_ remote).entries.any fun e => remote.below e.1 e.2) = false :=
      Bool.eq_false_iff.mpr fun some_ => ahead ((any_ahead local_ remote).mp some_)
    rw [level]
    exact ⟨.ok advanced, { s with db }, rfl, fun all => absurd all ahead, fun _ => rfl⟩

/-! ### What a stored blob says -/

/-- What the client relies on: its own encryption and encoding can be undone, and a ciphertext
that authenticates under some key has the plaintext it was made of. -/
structure BlobCrypto.Lawful (crypto : BlobCrypto CryptoKey) : Prop where
  opens : ∀ key iv plain, crypto.decrypt key iv (crypto.encrypt key iv plain) = some plain
  authentic : ∀ key key' iv ciphertext plain plain', crypto.decrypt key iv ciphertext = some plain →
    crypto.decrypt key' iv ciphertext = some plain' → plain = plain'
  base64 : ∀ bytes text, crypto.bytesToB64 bytes = some text → crypto.atob text = some bytes
  /-- The properties may come in another order. -/
  json : ∀ markers, ∃ read, crypto.parseMarkers (crypto.printMarkers markers) = some read ∧
    ∀ id, read.get id = markers.get id

variable (crypto) in
/-- A device that can decrypt the blob finds these markers in it. -/
def Carries (file : Option ChainFile) (m : Markers) : Prop :=
  ∃ raw parsed key, file = some (some raw) ∧ parseKeyBackupEnvelope crypto.atob raw = some parsed ∧
    openMarkers crypto key parsed = some m

variable (crypto) in
/-- Every entry of the blob before is in the blob after, with a value at least as large, for
every device able to decrypt it. -/
def MarkersKept (before after : Option ChainFile) : Prop :=
  ∀ m, Carries crypto before m → (∃ m', Carries crypto after m') ∧ ∀ m', Carries crypto after m' → Covers m m'

theorem carries_unique (lawful : crypto.Lawful) {file : Option ChainFile} {m m' : Markers}
    (first : Carries crypto file m) (last : Carries crypto file m') : m = m' := by
  obtain ⟨raw, parsed, key, rfl, envelope, opened⟩ := first
  obtain ⟨raw', parsed', key', same, envelope', opened'⟩ := last
  cases same
  cases envelope.symm.trans envelope'
  obtain ⟨plain, decrypted, printed⟩ := Option.bind_eq_some_iff.mp opened
  obtain ⟨plain', decrypted', printed'⟩ := Option.bind_eq_some_iff.mp opened'
  cases lawful.authentic _ _ _ _ _ _ decrypted decrypted'
  exact Option.some.inj (printed.symm.trans printed')

theorem parse_wrap (lawful : crypto.Lawful) {v : Nat} {iv ciphertext : List UInt8} {env : Js}
    (wrapped : wrapKeyBackupEnvelope crypto.bytesToB64 v iv ciphertext = some env) :
    parseKeyBackupEnvelope crypto.atob env =
      some ⟨if Number.positive (.int v) then .int v else .int 1, iv, ciphertext⟩ := by
  simp only [wrapKeyBackupEnvelope, Option.bind_eq_bind, Option.bind_eq_some_iff, Option.pure_def,
    Option.some.injEq] at wrapped
  obtain ⟨nonce, first, text, second, rfl⟩ := wrapped
  simp [parseKeyBackupEnvelope, Js.lastOf, lawful.base64 _ _ first, lawful.base64 _ _ second]

theorem carries_seal (lawful : crypto.Lawful) {m : Markers} {env : Js}
    (sealed_ : sealMarkers crypto session iv session.keyVersion m = some env) :
    ∃ read, Carries crypto (some (some env)) read ∧ ∀ id, read.get id = m.get id := by
  obtain ⟨read, printed, same⟩ := lawful.json m
  refine ⟨read, ⟨_, _, session.backupKey, rfl, parse_wrap lawful sealed_, ?_⟩, same⟩
  rw [openMarkers, lawful.opens, Option.bind_some, printed]

theorem kept_refl (lawful : crypto.Lawful) (file : Option ChainFile) : MarkersKept crypto file file :=
  fun m carries => ⟨⟨m, carries⟩, fun _ carries' => carries_unique lawful carries carries' ▸ .refl m⟩

/-- The blob after an upload. -/
theorem kept_seal (lawful : crypto.Lawful) (file : Option ChainFile) {markers : Markers} {env : Js}
    (sealed_ : sealMarkers crypto session iv session.keyVersion markers = some env) :
    MarkersKept crypto file (some (some env)) ↔ ∀ m, Carries crypto file m → Covers m markers := by
  obtain ⟨read, carried, same⟩ := carries_seal lawful sealed_
  have covers (m : Markers) : Covers m read ↔ Covers m markers := by
    simp only [Covers, same]
  constructor
  · intro kept m carries
    exact (covers m).mp ((kept m carries).2 read carried)
  · intro above m carries
    refine ⟨⟨read, carried⟩, fun m' carries' => ?_⟩
    rw [← carries_unique lawful carried carries']
    exact (covers m).mpr (above m carries)

/-! ### What the GET finds -/

variable (crypto session outcomes) in
/-- The GET fails, or the blob is under a newer key: either way an empty map. -/
def Blind (s : MarkerState CryptoKey) : Prop :=
  (∃ e, storeGet s.readMarkers outcomes.get = .error e) ∨
    ∃ raw parsed, storeGet s.readMarkers outcomes.get = .ok (some raw) ∧
      parseKeyBackupEnvelope crypto.atob raw = some parsed ∧ parsed.v.exceeds session.keyVersion = true

variable (crypto session outcomes) in
/-- The blob is under a key that the device finds, and says `m`. -/
def Sighted (s : MarkerState CryptoKey) (m : Markers) : Prop :=
  ∃ raw parsed key, storeGet s.readMarkers outcomes.get = .ok (some raw) ∧
    parseKeyBackupEnvelope crypto.atob raw = some parsed ∧ parsed.v.exceeds session.keyVersion = false ∧
    (decryptor crypto session outcomes s parsed.v).1 = .ok key ∧ openMarkers crypto key parsed = some m

theorem storeGet_stored {stored : Option ChainFile} {get : GetOutcome} {raw : Js}
    (got : storeGet stored get = .ok (some raw)) : stored = some (some raw) := by
  cases get with
  | answered =>
    cases stored with
    | none => cases got
    | some file => cases got; rfl
  | undecodable => cases got
  | refused status => cases got
  | lost => cases got

theorem Sighted.carries {m : Markers} (sighted : Sighted crypto session outcomes s m) :
    Carries crypto s.readMarkers m := by
  obtain ⟨raw, parsed, key, got, envelope, _, _, opened⟩ := sighted
  exact ⟨raw, parsed, key, storeGet_stored got, envelope, opened⟩

theorem Sighted.not_blind {m : Markers} (sighted : Sighted crypto session outcomes s m) :
    ¬ Blind crypto session outcomes s := by
  obtain ⟨raw, parsed, key, got, envelope, older, _⟩ := sighted
  rintro (⟨e, failed⟩ | ⟨raw', parsed', got', envelope', newer⟩)
  · rw [got] at failed
    cases failed
  · cases got.symm.trans got'
    cases envelope.symm.trans envelope'
    rw [older] at newer
    cases newer

/-- What the fetch returns, and what it then has seen. -/
theorem fetch_cases (crypto : BlobCrypto CryptoKey) (session : MarkerSession CryptoKey)
    (outcomes : MarkerOutcomes) (s : MarkerState CryptoKey) :
    ((fetchStoredMarkers crypto session outcomes s).1 = .ok .empty ∧ Blind crypto session outcomes s) ∨
    (∃ m, (fetchStoredMarkers crypto session outcomes s).1 = .ok m ∧ Sighted crypto session outcomes s m) ∨
    (∃ e, (fetchStoredMarkers crypto session outcomes s).1 = .error e ∧ ¬ Blind crypto session outcomes s ∧
      ∀ m, ¬ Sighted crypto session outcomes s m) := by
  unfold fetchStoredMarkers
  cases got : storeGet s.readMarkers outcomes.get with
  -- every failure of the GET is caught, and nothing counts as read
  | error e => exact .inl ⟨rfl, .inl ⟨e, got⟩⟩
  | ok file =>
    cases file with
    -- a file that is no JSON, an envelope that does not parse: the sync throws
    | none =>
      refine .inr (.inr ⟨_, rfl, ?_, ?_⟩)
      · simp [Blind, got]
      · simp [Sighted, got]
    | some raw =>
      cases envelope : parseKeyBackupEnvelope crypto.atob raw with
      | none =>
        refine .inr (.inr ⟨.crypto, by simp [envelope], ?_, ?_⟩)
        · simp [Blind, got, envelope]
        · simp [Sighted, got, envelope]
      | some parsed =>
        cases newer : parsed.v.exceeds session.keyVersion with
        -- a newer version is skipped in the same way as a failure
        | true => exact .inl ⟨by simp [envelope, newer], .inr ⟨raw, parsed, got, envelope, newer⟩⟩
        | false =>
          cases resolved : (decryptor crypto session outcomes s parsed.v).1 with
          | error e =>
            refine .inr (.inr ⟨.crypto, by simp [envelope, newer, resolved], ?_, ?_⟩)
            · simp [Blind, got, envelope, newer]
            · simp [Sighted, got, envelope, resolved]
          -- a blob that opens is read
          | ok key =>
            cases opened : openMarkers crypto key parsed with
            | none =>
              refine .inr (.inr ⟨.crypto, by simp [envelope, newer, resolved, opened], ?_, ?_⟩)
              · simp [Blind, got, envelope, newer]
              · simp [Sighted, got, envelope, resolved, opened]
            | some m =>
              refine .inr (.inl ⟨m, by simp [envelope, newer, resolved, opened], ?_⟩)
              exact ⟨raw, parsed, key, got, envelope, newer, resolved, opened⟩

/-! ### Exactly when nothing is lost -/

variable (crypto session outcomes iv) in
/-- Something is lost: the blob was not read, and the markers put in its place lack an entry of
it; or it was read, and has an entry that is not local and that no merge takes over. -/
def Loses (s : MarkerState CryptoKey) : Prop :=
  (Blind crypto session outcomes s ∧ Uploads crypto session outcomes iv s.db.loadReadMarkers .empty ∧
    ∃ m, Carries crypto s.readMarkers m ∧ ¬ Covers m s.db.loadReadMarkers) ∨
  ∃ m, Sighted crypto session outcomes s m ∧ Uploads crypto session outcomes iv s.db.loadReadMarkers m ∧
    ∃ id t, m.get id = some t ∧ ¬ (id.Plain ∧ 0 < t) ∧ s.db.loadReadMarkers.get id = none

theorem Uploads.seals {local_ remote : Markers}
    (uploads : Uploads crypto session outcomes iv local_ remote) :
    ∃ env, writtenBlob crypto session outcomes iv (mergeMarkers local_ remote) = some env ∧
      sealMarkers crypto session iv session.keyVersion (mergeMarkers local_ remote) = some env := by
  obtain ⟨env, put⟩ := Option.isSome_iff_exists.mp uploads.2
  exact ⟨env, put, (Option.ite_none_right_eq_some.mp put).2⟩

theorem sync_keeps_markers (lawful : crypto.Lawful) (own : UnderOwnIds s.db) : ∃ r t,
    syncStoredMarkers crypto session outcomes iv s = some (r, t) ∧
      (MarkersKept crypto s.readMarkers t.readMarkers ↔ ¬ Loses crypto session outcomes iv s) := by
  unfold syncStoredMarkers
  rcases pair : fetchStoredMarkers crypto session outcomes s with ⟨fetched, backupKeys⟩
  have cases_ := fetch_cases crypto session outcomes s
  rw [pair] at cases_
  rcases cases_ with ⟨rfl, blind⟩ | ⟨m, rfl, sighted⟩ | ⟨e, rfl, seeing, unread⟩
  · -- nothing was read: the merge starts from no markers at all
    obtain ⟨r, t, ran, put, stays⟩ :=
      @reconcile_stored CryptoKey crypto session outcomes iv { s with backupKeys } own .empty
    refine ⟨r, t, ran, ?_⟩
    have sighted_ (m : Markers) : ¬ Sighted crypto session outcomes s m := fun sighted => sighted.not_blind blind
    by_cases uploads : Uploads crypto session outcomes iv s.db.loadReadMarkers .empty
    · obtain ⟨env, writes, sealed_⟩ := uploads.seals
      rw [put uploads.1 env writes, kept_seal lawful _ sealed_, mergeMarkers_empty]
      simp only [Loses, blind, uploads, true_and, sighted_, false_and, exists_false, or_false, not_exists,
        not_and, not_not]
    · rw [stays uploads]
      refine iff_of_true (kept_refl lawful _) ?_
      rintro (⟨_, wrong, _⟩ | ⟨m, wrong, _⟩)
      · exact uploads wrong
      · exact sighted_ m wrong
  · -- the blob was read: what the merge leaves out must be local
    obtain ⟨r, t, ran, put, stays⟩ :=
      @reconcile_stored CryptoKey crypto session outcomes iv { s with backupKeys } own m
    refine ⟨r, t, ran, ?_⟩
    have only (m' : Markers) (carries : Carries crypto s.readMarkers m') : m' = m :=
      carries_unique lawful carries sighted.carries
    by_cases uploads : Uploads crypto session outcomes iv s.db.loadReadMarkers m
    · obtain ⟨env, writes, sealed_⟩ := uploads.seals
      rw [put uploads.1 env writes, kept_seal lawful _ sealed_]
      constructor
      · rintro covers (⟨blind, _⟩ | ⟨m', sighted', _, id, t, found, dropped, absent⟩)
        · exact sighted.not_blind blind
        · cases only m' sighted'.carries
          rcases (covers_merge _ m).mp (covers m sighted.carries) id t found with merged | known
          · exact dropped merged
          · rw [absent] at known
            cases known
      · intro none_ m' carries
        cases only m' carries
        refine (covers_merge _ m).mpr fun id t found => ?_
        by_contra lost
        rw [not_or] at lost
        exact none_ (.inr ⟨m, sighted, uploads, id, t, found, lost.1, by simpa using lost.2⟩)
    · rw [stays uploads]
      refine iff_of_true (kept_refl lawful _) ?_
      rintro (⟨blind, _⟩ | ⟨m', sighted', uploads', _⟩)
      · exact sighted.not_blind blind
      · rw [only m' sighted'.carries] at uploads'
        exact uploads uploads'
  · -- the fetch threw before anything was written
    refine ⟨.error e, { s with backupKeys }, rfl, iff_of_true (kept_refl lawful _) ?_⟩
    rintro (⟨blind, _⟩ | ⟨m, sighted, _⟩)
    · exact seeing blind
    · exact unread m sighted

end Loss

section Samples

def printEntry (e : ConversationId × Int) : List Nat × Int := (e.1.str.toList.map Char.toNat, e.2)

def parseEntry (e : List Nat × Int) : ConversationId × Int :=
    (⟨String.ofList (e.1.map Char.ofNat)⟩, e.2)

/-- Markers written as a row of zeros. -/
def printZeros (m : Markers) : List UInt8 := List.replicate (Encodable.encode (m.entries.map printEntry)) 0

def parseZeros (bytes : List UInt8) : Option Markers := do
  let codes : List (List Nat × Int) ← Encodable.decode bytes.length
  let entries := codes.map parseEntry
  if nodup : (entries.map Prod.fst).Nodup then some ⟨entries, nodup⟩ else none

theorem parseEntry_printEntry (e : ConversationId × Int) : parseEntry (printEntry e) = e := by
  have chars : (e.1.str.toList.map Char.toNat).map Char.ofNat = e.1.str.toList := by
    rw [List.map_map]
    exact List.map_id'' Char.ofNat_toNat _
  rw [parseEntry, printEntry, chars, String.ofList_toList]

theorem parseZeros_printZeros (m : Markers) : parseZeros (printZeros m) = some m := by
  have entries : (m.entries.map printEntry).map parseEntry = m.entries := by
    rw [List.map_map]
    exact List.map_id'' parseEntry_printEntry _
  simp only [parseZeros, printZeros, List.length_replicate, Encodable.encodek, Option.bind_eq_bind,
    Option.bind_some, entries]
  exact dif_pos m.nodup

/-- Encryption without secrets. -/
def openCrypto : BlobCrypto Unit where
  atob := Base64.decode
  bytesToB64 bytes := some (Base64.encode bytes)
  decrypt _ _ ciphertext := some ciphertext
  importKey _ := some ()
  encrypt _ _ plain := plain
  printMarkers := printZeros
  parseMarkers := parseZeros

theorem openCrypto_lawful : openCrypto.Lawful where
  opens _ _ _ := rfl
  authentic _ _ _ _ _ _ first last := Option.some.inj (first.symm.trans last)
  base64 bytes text written := by
    cases written
    exact Base64.decode_encode bytes
  json m := ⟨m, parseZeros_printZeros m, fun _ => rfl⟩

def owner : MarkerSession Unit := ⟨"01AAAAAAAAAAAAAAAAAAAAAAAA", (), 1⟩

/-- All requests succeed but, perhaps, the GET of the blob. -/
def around (get : GetOutcome) : MarkerOutcomes := ⟨get, .answered, true, .done, .done⟩

/-- The blob says 9, the device has read up to 5. -/
def behind : MarkerState Unit where
  readMarkers := (sealMarkers openCrypto owner [] 1 (ObjectMap.empty.set alice_bob 9)).map some
  keyChain := none
  db := { conversations := ObjectMap.empty.insert [.str alice_bob.str] {
    conversationId := .str alice_bob.str
    lastMessageText := "hi"
    lastMessageTimestamp := some 9
    messageCount := 1
    lastReadTimestamp := some 5 } }
  backupKeys := .empty

theorem behind_own : UnderOwnIds behind.db := by
  intro key row found
  simp only [behind, ObjectMap.get_insert] at found
  split at found
  next here =>
    cases found
    rw [here, Js.key_str]
  next => cases found

theorem behind_local : behind.db.loadReadMarkers.get alice_bob = some 5 := by decide

theorem behind_carries : Carries openCrypto behind.readMarkers (ObjectMap.empty.set alice_bob 9) := by
  refine ⟨_, _, (), rfl, parse_wrap openCrypto_lawful rfl, ?_⟩
  rw [openMarkers, openCrypto_lawful.opens, Option.bind_some]
  exact parseZeros_printZeros _

/-- The GET is lost, and the 9 of the other devices gives way to a 5. -/
theorem markers_clobbered : openCrypto.Lawful ∧ UnderOwnIds behind.db ∧ ∃ r t,
    syncStoredMarkers openCrypto owner (around .lost) [] behind = some (r, t) ∧
      ¬ MarkersKept openCrypto behind.readMarkers t.readMarkers := by
  refine ⟨openCrypto_lawful, behind_own, ?_⟩
  obtain ⟨r, t, ran, put, _⟩ := reconcile_stored openCrypto owner (around .lost) [] behind_own .empty
  refine ⟨r, t, ran, fun kept => ?_⟩
  have ahead : Ahead behind.db.loadReadMarkers .empty := ⟨alice_bob, 5, behind_local, by decide⟩
  have sealed_ : sealMarkers openCrypto owner [] owner.keyVersion behind.db.loadReadMarkers =
    some (.obj [("v", .num (.int 1)), ("iv", .str (Base64.encode [])),
      ("ciphertext", .str (Base64.encode (printZeros behind.db.loadReadMarkers)))]) := rfl
  rw [put ahead _ sealed_, kept_seal openCrypto_lawful _ sealed_] at kept
  obtain ⟨t', here, le⟩ := kept _ behind_carries alice_bob 9 (by simp)
  rw [behind_local] at here
  cases here
  exact absurd le (by decide)

/-- Had the GET been answered, the 9 would have stayed. -/
theorem markers_merged : ∃ r t,
    syncStoredMarkers openCrypto owner (around .answered) [] behind = some (r, t) ∧
      MarkersKept openCrypto behind.readMarkers t.readMarkers := by
  have kept : ∃ r t, syncStoredMarkers openCrypto owner (around .answered) [] behind = some (r, t) ∧
      (MarkersKept openCrypto behind.readMarkers t.readMarkers ↔
        ¬ Loses openCrypto owner (around .answered) [] behind) :=
    sync_keeps_markers openCrypto_lawful behind_own
  obtain ⟨r, t, ran, exact_⟩ := kept
  refine ⟨r, t, ran, exact_.mpr ?_⟩
  have sighted : Sighted openCrypto owner (around .answered) behind (ObjectMap.empty.set alice_bob 9) := by
    refine ⟨_, _, (), rfl, parse_wrap openCrypto_lawful rfl, rfl, rfl, ?_⟩
    rw [openMarkers, openCrypto_lawful.opens, Option.bind_some]
    exact parseZeros_printZeros _
  rintro (⟨blind, _⟩ | ⟨m, seen, _, id, value, found, dropped, _⟩)
  · exact sighted.not_blind blind
  · cases carries_unique openCrypto_lawful sighted.carries seen.carries
    rw [ObjectMap.get_set] at found
    split at found
    next here =>
      cases found
      exact dropped ⟨here ▸ alice_bob_plain, by decide⟩
    next => cases found

end Samples

end Atmin.Web
