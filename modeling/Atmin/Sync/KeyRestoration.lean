import Atmin.Interaction.Intake
import Atmin.Rotation.KeyVersions
import Atmin.Sync.Calm

/-!
# What a restore brings back

A restore is the intake of the entries it lists: the session manager keeps what it has, takes what
opens, and counts what does not.
-/

namespace Atmin.Web

open Interaction

variable {CryptoKey : Type}

/-! ### The entries -/

section Offers

variable (r : Restorer CryptoKey)

/-- The session of a backup, under a key. -/
def openBackup (key : CryptoKey) (parsed : KeyBackup.ParsedEnvelope) : Option Inbound :=
  (backupDecrypt r key parsed).bind r.crypto.importSession

/-- What an entry offers, opened under a key. -/
def offerUnder (key : CryptoKey) (parsed : KeyBackup.ParsedEnvelope) : Offer String Inbound :=
  match parsed.named with
  | none => .nameless
  | some id => .named id.asStr ((openBackup r key parsed).map fun k => (k.sessionId, k))

/-- What an entry offers, by the keys of the versions. -/
def offerOf (keyOf : Number → Option CryptoKey) (raw : Option Js) : Offer String Inbound :=
  match raw.bind KeyBackup.parseKeyBackupEnvelope with
  | none => .broken
  | some parsed => match keyOf parsed.v with
    | none => .broken
    | some key => offerUnder r key parsed

/-- The backup under a live key. -/
def liveBackup (objects : ObjectMap String Data) (key : String) : Option Js :=
  match objects.get key with
  | some (.json j) => some (Js.ofJson j)
  | _ => none

variable [CborDecoder]

/-- The backups in an archive. -/
def archivedBackups (objects : ObjectMap String Data) (key : String) : List Js :=
  match objects.get key with
  | some (.cbor entries) => Js.ofValues entries
  | _ => []

/-- The chain that a restore works with. -/
def chainOf (objects : ObjectMap String Data) : Option (List KeyChainLink) :=
  if r.currentVersion > 1 then
    match objects.get (Paths.keyChain r.userId.str) with
    | some d => some (readLinks (fetchChain (some (parseEnvelope d).toOption) .answered))
    | none => some (readLinks emptyChain)
  else none

/-- The key of a version, from what IndexedDB holds at the start. -/
def keyOf (objects : ObjectMap String Data) (memo : BackupKeys CryptoKey)
    (v : Number) : Option CryptoKey :=
  (getKey r (chainOf r objects) v (startRestoring r memo)).1

def liveOffers (s : State) (memo : BackupKeys CryptoKey) : List (Offer String Inbound) :=
  (s.listing (Paths.keysLive r.userId.str) none).keys.map fun key =>
    offerOf r (keyOf r s.objects memo) (liveBackup s.objects key)

def archiveOffers (s : State) (memo : BackupKeys CryptoKey) : List (Offer String Inbound) :=
  (s.listing (Paths.keysArchive r.userId.str) none).keys.flatMap fun key =>
    (archivedBackups s.objects key).map fun raw => offerOf r (keyOf r s.objects memo) (some raw)

/-- The first page of live backups, then those of the first page of archives. -/
def offers (s : State) (memo : BackupKeys CryptoKey) : List (Offer String Inbound) :=
  liveOffers r s memo ++ archiveOffers r s memo

end Offers

/-! ### One entry -/

section Entry

variable {r : Restorer CryptoKey} {s : State}

/-- From the state that the first function left. -/
theorem Does.following {α β : Type} {h : Async α} {f : α → Async β} {a : α} {K K' : Sessions}
    {t : State}
    {r' : Except Thrown β} (ran : h.run.execute calm s = some (.ok a, t)) (follows : Follows K s t)
    (rest : Does (f a) t r' K') : Does (h >>= f) s r' K' := by
  obtain ⟨u, last, further⟩ := rest
  exact ⟨u, (run_then ran).trans last, follows.frame.trans further.frame, further.coherent,
    further.sessions⟩

/-- As `addInbound_does`, with what is returned. -/
theorem addInbound_returns (coherent : Coherent s) {crypto : Crypto} {sessionKey : String} {k : Inbound}
    (imported : crypto.importSession sessionKey = some k) (fromUser fromDevice : Js) :
    ∃ k', Does (addInbound crypto fromUser fromDevice sessionKey) s
      (.ok (k', !(sessionOf s k.sessionId).isSome)) (learn (sessionOf s) k) := by
  unfold addInbound
  rw [imported]
  have first : (sync (step (.cachedInbound k.sessionId))).run.execute calm s =
      some (.ok (s.memory.inboundCache.get k.sessionId), s) := rfl
  have second : (await (step (.loadInboundSession (.str k.sessionId)))).run.execute calm s =
      some (.ok (s.db.inbound.get k.sessionId), s) := rfl
  cases cached : s.memory.inboundCache.get k.sessionId with
  | some stored =>
    have known : sessionOf s k.sessionId = some stored.session := by
      simp only [sessionOf, cached, Option.some_or, Option.map_some]
    rw [learn_known ⟨_, known⟩, known]
    rw [cached] at first
    exact ⟨_, Does.after (a := k) rfl (Does.after first (Does.ret coherent))⟩
  | none =>
    rw [cached] at first
    cases found : s.db.inbound.get k.sessionId with
    | some stored =>
      have named := coherent.stored _ stored found
      have known : sessionOf s k.sessionId = some stored.session := by
        rw [sessionOf_stored cached, found, Option.map_some]
      rw [learn_known ⟨_, known⟩, known]
      rw [found] at second
      refine ⟨stored.session, Does.after (a := k) rfl (Does.after first (Does.after second ?_))⟩
      refine Does.bind (cacheKnown_does coherent (by rw [named, known])) fun t follows => ?_
      rw [← follows.sessions]
      exact Does.ret follows.coherent
    | none =>
      have new : sessionOf s k.sessionId = none := by
        rw [sessionOf_stored cached, found, Option.map_none]
      rw [learn_new new, new]
      rw [found] at second
      refine ⟨k, Does.after (a := k) rfl (Does.after first (Does.after second ?_))⟩
      exact keepInbound_does coherent ⟨fromUser, fromDevice, k⟩

/-- The version that is read is positive, and the session id a string. -/
theorem parse_shape {raw : Js} {parsed : KeyBackup.ParsedEnvelope}
    (read : KeyBackup.parseKeyBackupEnvelope raw = some parsed) :
    parsed.v.positive = true ∧ ∀ id, parsed.named = some id → id.isString = true := by
  simp only [KeyBackup.parseKeyBackupEnvelope, Option.bind_eq_bind, Option.bind_eq_some_iff] at read
  obtain ⟨obj, _, read⟩ := read
  split at read
  next => cases read
  next =>
    simp only [Option.bind_eq_some_iff, Option.pure_def, Option.some.injEq] at read
    obtain ⟨iv, _, ciphertext, _, rfl⟩ := read
    refine ⟨?_, fun id named => ?_⟩
    · simp only
      split
      next n _ =>
        split
        next positive => exact positive
        next => rfl
      next => rfl
    · rw [KeyBackup.ParsedEnvelope.named, Option.filter_eq_some_iff] at named
      have typed : Js.ifTyped Js.isString (obj "session_id") = some id := named.1
      rw [Js.ifTyped] at typed
      split at typed
      next string => exact Option.some.inj typed ▸ string
      next => cases typed

theorem got_string {K : Sessions} {id : Js} (string : id.isString = true) :
    got K id = .ok (id.asStr.bind K) := by
  cases id with
  | str _ | badStr _ => rfl
  | _ => cases string

/-- What was returned or thrown is what the intake has counted. -/
def Counted (i j : Intake String Inbound) : Except Thrown Nat → Prop
  | .ok n => j.taken = i.taken + n ∧ j.failed = i.failed
  | .error _ => j.taken = i.taken ∧ j.failed = i.failed + 1

/-- An entry whose id is not known: it is opened, and taken unless its session is known. -/
theorem takeEntry_does (coherent : Coherent s) (key : CryptoKey) (parsed : KeyBackup.ParsedEnvelope)
    {i : Intake String Inbound} (held : sessionOf s = i.held) {name : Option String}
    (new : knows i.held name = false) :
    ∃ result, Does (do
        let sessionKey ← orThrow .crypto (backupDecrypt r key parsed)
        let (_, isNew) ← addInbound r.crypto (.str "unknown") (.str "unknown") sessionKey
        pure (if isNew then 1 else 0)) s result
        (i.step (.named name ((openBackup r key parsed).map fun k => (k.sessionId, k)))).held ∧
      Counted i (i.step (.named name ((openBackup r key parsed).map fun k =>
        (k.sessionId, k)))) result := by
  have closed (none_ : openBackup r key parsed = none) :
      i.step (.named name ((openBackup r key parsed).map fun k => (k.sessionId, k))) = i.fail := by
    simp [none_, Intake.step, new]
  cases decrypted : backupDecrypt r key parsed with
  -- it does not decrypt
  | none =>
    rw [closed (by rw [openBackup, decrypted, Option.bind_none])]
    refine ⟨.error .crypto, ?_, rfl, rfl⟩
    rw [Intake.fail, ← held]
    exact Does.throws (Does.ofExcept (r := .error .crypto) coherent)
  | some sessionKey =>
    cases imported : r.crypto.importSession sessionKey with
    -- what it decrypts to is no session key
    | none =>
      rw [closed (by rw [openBackup, decrypted, Option.bind_some, imported])]
      refine ⟨.error .crypto, ?_, rfl, rfl⟩
      rw [Intake.fail, ← held]
      refine Does.after (a := sessionKey) rfl (Does.throws ?_)
      rw [addInbound, imported]
      exact Does.throws (Does.ofExcept (r := .error .crypto) coherent)
    -- the session is taken unless it is held under the id it opens to
    | some k =>
      have opened : openBackup r key parsed = some k := by
        rw [openBackup, decrypted, Option.bind_some, imported]
      obtain ⟨k', added⟩ := addInbound_returns coherent imported (.str "unknown") (.str "unknown")
      have stepped : i.step (.named name ((openBackup r key parsed).map fun k => (k.sessionId, k))) =
          if (i.held k.sessionId).isSome then i else i.take k.sessionId k := by
        simp [opened, Intake.step, new]
      have learned : learn (sessionOf s) k =
          (if (i.held k.sessionId).isSome then i else i.take k.sessionId k).held := by
        rw [learn, held]
        split <;> rfl
      rw [stepped, ← learned]
      refine ⟨.ok (if !(sessionOf s k.sessionId).isSome then 1 else 0),
        Does.after (a := sessionKey) rfl (Does.bind added fun t follows => ?_), ?_⟩
      · rw [← follows.sessions]
        exact Does.ret follows.coherent
      · rw [held]
        cases i.held k.sessionId with
        | none => exact ⟨rfl, rfl⟩
        | some _ => exact ⟨rfl, rfl⟩

/-- An entry that opens under a key is an offer to the sessions held. -/
theorem restoreEntry_does (coherent : Coherent s) {raw : Js} {parsed : KeyBackup.ParsedEnvelope}
    (read : KeyBackup.parseKeyBackupEnvelope raw = some parsed) (key : CryptoKey)
    {i : Intake String Inbound} (held : sessionOf s = i.held) :
    ∃ result, Does (restoreEntry r parsed key) s result (i.step (offerUnder r key parsed)).held ∧
      Counted i (i.step (offerUnder r key parsed)) result := by
  unfold restoreEntry offerUnder
  cases named : parsed.named with
  | none =>
    refine ⟨.ok 0, ?_, rfl, rfl⟩
    rw [Intake.step, ← held]
    exact Does.ret coherent
  | some id =>
    have got := getInbound_does coherent id
    rw [got_string ((parse_shape read).2 id named), held] at got
    cases known : id.asStr.bind i.held with
    | some k =>
      rw [known] at got
      have passed (content : Option (String × Inbound)) : i.step (.named id.asStr content) = i := by
        have here : knows i.held id.asStr = true := by
          obtain ⟨name, string, found⟩ := Option.bind_eq_some_iff.mp known
          simp [knows, string, found]
        simp [Intake.step, here]
      simp only [passed]
      refine ⟨.ok 0, Does.bind got fun t follows => ?_, rfl, rfl⟩
      rw [← follows.sessions]
      exact Does.ret follows.coherent
    | none =>
      rw [known] at got
      have new : knows i.held id.asStr = false := by
        cases string : id.asStr with
        | none => rfl
        | some name =>
          rw [string, Option.bind_some] at known
          simp [knows, known]
      obtain ⟨t, ran, follows⟩ := got
      obtain ⟨result, does, counted⟩ := takeEntry_does follows.coherent key parsed follows.sessions new
      exact ⟨result, .following ran follows does, counted⟩

end Entry

/-! ### The loops -/

section Loops

variable {r : Restorer CryptoKey} {s : State} {objects : ObjectMap String Data}
  {memo : BackupKeys CryptoKey} {i : Intake String Inbound} {acc : Restoring CryptoKey}

/-- The sessions and the counts of a restore are those of an intake. -/
structure Matches (r : Restorer CryptoKey) (objects : ObjectMap String Data)
  (memo : BackupKeys CryptoKey)
    (i : Intake String Inbound) (acc : Restoring CryptoKey) : Prop where
  sound : SoundAnswers r (chainOf r objects) memo acc
  restored : acc.restored = i.taken
  failed : acc.failed = i.failed

theorem restoreRaw_does (coherent : Coherent s) (held : sessionOf s = i.held)
    (same : Matches r objects memo i acc) (raw : Option Js) :
    ∃ acc', Does (restoreRaw r (chainOf r objects) raw acc) s (.ok acc')
        (i.step (offerOf r (keyOf r objects memo) raw)).held ∧
      Matches r objects memo (i.step (offerOf r (keyOf r objects memo) raw)) acc' := by
  unfold restoreRaw offerOf
  cases read : raw.bind KeyBackup.parseKeyBackupEnvelope with
  -- an entry that cannot be read counts as failed
  | none =>
    refine ⟨acc.fail, ?_, ⟨same.sound.versions, same.sound.kept⟩, same.restored,
      congrArg (· + 1) same.failed⟩
    show Does _ s _ i.held
    rw [← held]
    exact Does.ret coherent
  | some parsed =>
    obtain ⟨json, _, read⟩ := Option.bind_eq_some_iff.mp read
    have nonneg := floor_nonneg (parse_shape read).1
    have answered := getKey_same nonneg same.sound
    obtain ⟨_, sound, counts⟩ := getKey_answers nonneg same.sound
    have restored : (getKey r (chainOf r objects) parsed.v acc).2.restored = i.taken :=
      (congrArg RestoreResult.restored counts).trans same.restored
    have failed : (getKey r (chainOf r objects) parsed.v acc).2.failed = i.failed :=
      (congrArg RestoreResult.failed counts).trans same.failed
    simp only [keyOf, ← answered]
    cases keyed : getKey r (chainOf r objects) parsed.v acc with
    | mk found acc' =>
      rw [keyed] at sound restored failed
      cases found with
      -- and so does one whose key the chain does not give
      | none =>
        refine ⟨acc'.fail, ?_, ⟨sound.versions, sound.kept⟩, restored,
          congrArg (· + 1) failed⟩
        show Does _ s _ i.held
        rw [← held]
        exact Does.ret coherent
      -- the rest is up to the entry itself
      | some key =>
        obtain ⟨result, does, counted⟩ := restoreEntry_does coherent read key held
        have attempted := does.attempt
        cases result with
        | ok n =>
          refine ⟨acc'.add n, Does.bind attempted fun t follows => ?_,
            ⟨sound.versions, sound.kept⟩, ?_, ?_⟩
          · rw [← follows.sessions]
            exact Does.ret follows.coherent
          · rw [counted.1, ← restored]
            rfl
          · rw [counted.2, ← failed]
            rfl
        | error e =>
          refine ⟨acc'.fail, Does.bind attempted fun t follows => ?_,
            ⟨sound.versions, sound.kept⟩, ?_, ?_⟩
          · rw [← follows.sessions]
            exact Does.ret follows.coherent
          · rw [counted.1, ← restored]
            rfl
          · rw [counted.2, ← failed]
            rfl

theorem fetchBackup_runs (s : State) (key : String) :
    (fetchBackup key).run.execute calm s = some (.ok (liveBackup s.objects key), s) := by
  have ran : (attempt (await (step (.storeGet key)))).run.execute calm s =
    some (.ok (s.lookup key), s) :=
    attempt_runs (h := await (step (.storeGet key))) (r := s.lookup key) (t := s) rfl
  rw [fetchBackup, run_then ran, State.lookup, liveBackup]
  cases s.objects.get key with
  | none => rfl
  | some d => cases d <;> rfl

theorem restoreLive_does (keys : List String) (coherent : Coherent s) (there : s.objects = objects)
    (held : sessionOf s = i.held) (same : Matches r objects memo i acc) :
    ∃ acc', Does (restoreLive r (chainOf r objects) keys acc) s (.ok acc')
        (i.run (keys.map fun key => offerOf r (keyOf r objects memo) (liveBackup objects key))).held ∧
      Matches r objects memo
        (i.run (keys.map fun key => offerOf r (keyOf r objects memo)
          (liveBackup objects key))) acc' := by
  induction keys generalizing s i acc with
  | nil =>
    refine ⟨acc, ?_, same⟩
    rw [List.map_nil, Intake.run, List.foldl_nil, ← held]
    exact Does.ret coherent
  | cons key rest ih =>
    have fetched := fetchBackup_runs s key
    rw [there] at fetched
    obtain ⟨acc', ⟨t, ran, follows⟩, same'⟩ :=
      restoreRaw_does coherent held same (liveBackup objects key)
    obtain ⟨acc'', does, last⟩ :=
      ih follows.coherent (follows.frame.objects.trans there) follows.sessions same'
    rw [List.map_cons, Intake.run_cons]
    exact ⟨acc'', Does.after fetched (.following ran follows does), last⟩

theorem restoreEntries_does (raws : List Js) (coherent : Coherent s) (held : sessionOf s = i.held)
    (same : Matches r objects memo i acc) :
    ∃ acc', Does (restoreEntries r (chainOf r objects) raws acc) s (.ok acc')
        (i.run (raws.map fun raw => offerOf r (keyOf r objects memo) (some raw))).held ∧
      Matches r objects memo (i.run (raws.map fun raw => offerOf r (keyOf r objects memo)
        (some raw))) acc' := by
  induction raws generalizing s i acc with
  | nil =>
    refine ⟨acc, ?_, same⟩
    rw [List.map_nil, Intake.run, List.foldl_nil, ← held]
    exact Does.ret coherent
  | cons raw rest ih =>
    obtain ⟨acc', ⟨t, ran, follows⟩, same'⟩ := restoreRaw_does coherent held same (some raw)
    obtain ⟨acc'', does, last⟩ := ih follows.coherent follows.sessions same'
    rw [List.map_cons, Intake.run_cons]
    exact ⟨acc'', .following ran follows does, last⟩

variable [CborDecoder]

/-- An archive that cannot be read has no entries. -/
theorem fetchArchive_backups (s : State) (key : String) :
    (attempt (fetchArchive key)).run.execute calm s =
      some (.ok (.ok (archivedBackups s.objects key)), s) ∨
    archivedBackups s.objects key = [] ∧
      ∃ e, (attempt (fetchArchive key)).run.execute calm s = some (.ok (.error e), s) := by
  have fetched := attempt_runs (fetchArchive_runs s key)
  rw [State.lookup] at fetched
  unfold archivedBackups
  cases found : s.objects.get key with
  | none =>
    rw [found] at fetched
    exact .inr ⟨rfl, .failed, fetched⟩
  | some d =>
    rw [found] at fetched
    cases d with
    | cbor entries => exact .inl fetched
    | json j => exact .inr ⟨rfl, .crypto, fetched⟩
    | raw bytes => exact .inr ⟨rfl, .crypto, fetched⟩

theorem restoreArchives_does (keys : List String) (coherent : Coherent s) (there : s.objects = objects)
    (held : sessionOf s = i.held) (same : Matches r objects memo i acc) :
    ∃ acc', Does (restoreArchives r (chainOf r objects) keys acc) s (.ok acc')
        (i.run (keys.flatMap fun key => (archivedBackups objects key).map fun raw =>
          offerOf r (keyOf r objects memo) (some raw))).held ∧
      Matches r objects memo (i.run (keys.flatMap fun key => (archivedBackups objects key).map
        fun raw =>
          offerOf r (keyOf r objects memo) (some raw))) acc' := by
  induction keys generalizing s i acc with
  | nil =>
    refine ⟨acc, ?_, same⟩
    rw [List.flatMap_nil, Intake.run, List.foldl_nil, ← held]
    exact Does.ret coherent
  | cons key rest ih =>
    rw [List.flatMap_cons, Intake.run_append]
    have fetched := fetchArchive_backups s key
    rw [there] at fetched
    rcases fetched with read | ⟨none_, e, failed⟩
    · obtain ⟨acc', ⟨t, ran, follows⟩, same'⟩ :=
        restoreEntries_does (archivedBackups objects key) coherent held same
      obtain ⟨acc'', does, last⟩ :=
        ih follows.coherent (follows.frame.objects.trans there) follows.sessions same'
      exact ⟨acc'', Does.after read (.following ran follows does), last⟩
    · obtain ⟨acc'', does, last⟩ := ih coherent there held same
      rw [none_]
      exact ⟨acc'', Does.after failed does, last⟩

/-! ### The restore -/

omit [CborDecoder] in
theorem chainFor_runs (s : State) :
    (chainFor r).run.execute calm s = some (.ok (chainOf r s.objects), s) := by
  unfold chainFor chainOf
  split
  next =>
    have ran : (attempt (await (step (.storeGet (Paths.keyChain r.userId.str))))).run.execute calm s =
        some (.ok (s.lookup (Paths.keyChain r.userId.str)), s) :=
      attempt_runs (h := await (step (.storeGet (Paths.keyChain r.userId.str)))) (t := s) rfl
    rw [Async.run_bind, execute_bind, loadChain, run_then ran, State.lookup]
    cases s.objects.get (Paths.keyChain r.userId.str) <;> rfl
  next => rfl

omit [CborDecoder] in
theorem restoreFromLive_does (coherent : Coherent s) (held : sessionOf s = i.held)
    (same : Matches r s.objects memo i acc) :
    ∃ acc', Does (restoreFromLive r (chainOf r s.objects) acc) s
        (.ok (acc', !(s.listing (Paths.keysLive r.userId.str) none).keys.isEmpty))
        (i.run (liveOffers r s memo)).held ∧
      Matches r s.objects memo (i.run (liveOffers r s memo)) acc' := by
  have listed :
      (attempt (await (step (.storeList (Paths.keysLive r.userId.str) none)))).run.execute calm s =
        some (.ok (.ok (s.listing (Paths.keysLive r.userId.str) none)), s) := rfl
  obtain ⟨acc', ⟨t, ran, follows⟩, same'⟩ :=
    restoreLive_does (s.listing (Paths.keysLive r.userId.str) none).keys coherent rfl held same
  refine ⟨acc', Does.after listed (.following ran follows ?_), same'⟩
  have done := Does.ret
    (a := (acc', !(s.listing (Paths.keysLive r.userId.str) none).keys.isEmpty)) follows.coherent
  rw [follows.sessions] at done
  exact done

theorem restoreFromArchives_does (coherent : Coherent s) (held : sessionOf s = i.held)
    (same : Matches r s.objects memo i acc) :
    ∃ acc', Does (restoreFromArchives r (chainOf r s.objects) acc) s (.ok acc')
        (i.run (archiveOffers r s memo)).held ∧
      Matches r s.objects memo (i.run (archiveOffers r s memo)) acc' := by
  have listed : (attempt (await (step (.storeList (Paths.keysArchive r.userId.str) none)))).run.execute
      calm s = some (.ok (.ok (s.listing (Paths.keysArchive r.userId.str) none)), s) := rfl
  obtain ⟨acc', does, same'⟩ :=
    restoreArchives_does (s.listing (Paths.keysArchive r.userId.str) none).keys coherent rfl held same
  exact ⟨acc', Does.after listed does, same'⟩

/-- The compaction that is asked for in the end, if there were live backups. -/
def State.restored (s : State) (user : UserId) : State :=
  if (s.listing (Paths.keysLive user.str) none).keys.isEmpty then s
  else { s with memory := { s.memory with
    background := .storeCompact (Paths.keysLive user.str) "~" :: s.memory.background } }

/-- The sessions before a restore, none of them counted. -/
def intakeOf (s : State) : Intake String Inbound := ⟨sessionOf s, 0, 0⟩

theorem archiveOffers_congr {t : State} (same : t.objects = s.objects) :
    archiveOffers r t memo = archiveOffers r s memo := by
  simp only [archiveOffers, State.listing, same]

theorem offers_congr {t : State} (same : t.objects = s.objects) : offers r t memo =
    offers r s memo := by
  simp only [offers, liveOffers, archiveOffers, State.listing, same]

/-- A restore is the intake of what it lists. -/
theorem restoreSessionKeys_runs (r : Restorer CryptoKey) (memo : BackupKeys CryptoKey)
    (coherent : Coherent s) :
    ∃ acc t, (restoreSessionKeys r memo).run.execute calm s = some (.ok acc, t) ∧
      Matches r s.objects memo ((intakeOf s).run (offers r s memo)) acc ∧
      Follows ((intakeOf s).run (offers r s memo)).held (s.restored r.userId) t := by
  have start : Matches r s.objects memo (intakeOf s)
    (startRestoring r memo) := ⟨.start r _ memo, rfl, rfl⟩
  obtain ⟨acc, ⟨t, live, first⟩, same⟩ := restoreFromLive_does coherent rfl start
  have objects := first.frame.objects
  rw [← objects] at same
  obtain ⟨acc', ⟨u, archives, second⟩, same'⟩ :=
    restoreFromArchives_does first.coherent first.sessions same
  rw [archiveOffers_congr objects, ← Intake.run_append, objects] at same'
  rw [archiveOffers_congr objects, ← Intake.run_append] at second
  rw [objects] at archives
  have whole := first.frame.trans second.frame
  rw [restoreSessionKeys, run_then (chainFor_runs s), run_then live, run_then archives]
  unfold State.restored
  cases (s.listing (Paths.keysLive r.userId.str) none).keys.isEmpty with
  | true => exact ⟨acc', u, rfl, same', whole, second.coherent, second.sessions⟩
  | false =>
    refine ⟨acc', _, rfl, same', ⟨whole.objects, whole.archived, whole.accepted, whole.messages,
      whole.conversations, whole.syncCursors, whole.ingestedArchives, whole.syncs, whole.syncInFlight,
      whole.epoch, ?_⟩, ⟨second.coherent.stored, second.coherent.cached⟩, second.sessions⟩
    exact congrArg (List.cons _) whole.compactions

/-- What a restore has learned of the chain changes no offer. -/
theorem offers_later {s : State} (sound : SoundAnswers r (chainOf r s.objects) memo acc) :
    offers r s acc.backupKeys = offers r s memo := by
  have each (raw : Option Js) : offerOf r (keyOf r s.objects acc.backupKeys) raw =
      offerOf r (keyOf r s.objects memo) raw := by
    unfold offerOf
    cases read : raw.bind KeyBackup.parseKeyBackupEnvelope with
    | none => rfl
    | some parsed =>
      obtain ⟨json, _, read⟩ := Option.bind_eq_some_iff.mp read
      have same := getKey_later sound.kept (floor_nonneg (parse_shape read).1)
      simp only [keyOf, same]
  simp only [offers, liveOffers, archiveOffers, each]

/-- What has become of a device and its sessions after a restore that said `result`. -/
structure Restores (r : Restorer CryptoKey) (memo : BackupKeys CryptoKey) (s : State)
    (result : RestoreResult) (t : State) : Prop where
  /-- No session is replaced. -/
  kept : ∀ id k, sessionOf s id = some k → sessionOf t id = some k
  /-- Every backup that opens is held, or the id that it is filed under is. -/
  recovered : ∀ name id k, .named name (some (id, k)) ∈ offers r s memo →
    knows (sessionOf t) name = true ∨ (sessionOf t id).isSome = true
  /-- Nothing else is. -/
  origin : ∀ id k, sessionOf t id = some k →
    sessionOf s id = some k ∨ ∃ name, .named name (some (id, k)) ∈ offers r s memo
  restored : ∃ fresh : List String, fresh.Nodup ∧ result.restored = fresh.length ∧
    ∀ id, id ∈ fresh ↔ sessionOf s id = none ∧ (sessionOf t id).isSome = true
  /-- Every listed backup that is still missing is reported, unless it has no session id. -/
  reported : (offers r s memo).countP (fun o => !o.passed (sessionOf t)) ≤ result.failed
  /-- A backup without a session id, or filed under one that was held, counts for nothing. -/
  skipped : result.restored + result.failed ≤
    (offers r s memo).countP fun o => o.opened (sessionOf s)
  frame : Frame (s.restored r.userId) t

/-- A restore on an undisturbed device is complete over what it lists, and reports what it looks into
and misses; a backup without a session id it passes over. A second one restores nothing, and fails on
exactly what is still missing. -/
theorem restore_complete (r : Restorer CryptoKey) (memo : BackupKeys CryptoKey) {s : State}
    (coherent : Coherent s) :
    ∃ acc t, (restoreSessionKeys r memo).run.execute calm s = some (.ok acc, t) ∧
      Restores r memo s acc.result t ∧
      ∃ acc' u, (restoreSessionKeys r acc.backupKeys).run.execute calm t = some (.ok acc', u) ∧
        sessionOf u = sessionOf t ∧
        acc'.result = ⟨0, (offers r s memo).countP fun o => !o.passed (sessionOf t)⟩ := by
  obtain ⟨acc, t, ran, same, follows⟩ := restoreSessionKeys_runs r memo coherent
  obtain ⟨acc', u, again, same', follows'⟩ := restoreSessionKeys_runs r acc.backupKeys follows.coherent
  -- a restore writes no object, so the second sees the same offers
  have objects : t.objects = s.objects := by
    rw [follows.frame.objects, State.restored]
    split <;> rfl
  rw [intakeOf, follows.sessions, offers_congr objects, offers_later same.sound,
    Intake.run_again] at same' follows'
  -- each part is the library rule on the intake
  refine ⟨acc, t, ran, ⟨?_, ?_, ?_, ?_, ?_, ?_, follows.frame⟩, acc', u, again, ?_, ?_⟩
  · intro id k held
    rw [follows.sessions]
    exact Intake.run_held (offers r s memo) (intakeOf s) held
  · intro name id k offered
    have passed := Intake.run_offered (offers r s memo) (intakeOf s) offered
    rw [follows.sessions]
    simpa [Offer.passed] using passed
  · intro id k held
    rw [follows.sessions] at held
    exact Intake.run_origin (offers r s memo) (intakeOf s) held
  · obtain ⟨fresh, apart, count, covers⟩ := Intake.run_taken (offers r s memo) (intakeOf s)
    refine ⟨fresh, apart, ?_, fun id => ?_⟩
    · rw [Restoring.result, same.restored, count, intakeOf, Nat.zero_add]
    · rw [covers, follows.sessions, intakeOf]
  · have counted := Intake.run_counted (offers r s memo) (intakeOf s)
    rw [follows.sessions, Restoring.result, same.failed]
    rw [intakeOf, Nat.zero_add] at counted
    exact counted
  · have bounded := Intake.run_bounded (offers r s memo) (intakeOf s)
    simp only [intakeOf, Nat.zero_add] at bounded
    rw [Restoring.result, same.restored, same.failed]
    exact bounded
  · rw [follows'.sessions, follows.sessions]
  · rw [Restoring.result, same'.restored, same'.failed, follows.sessions]

end Loops

section Sample

attribute [local instance] Demo.cbor

/-- A device that signs in after one password change; a session key is its session's id. -/
def signedIn : Restorer (List UInt8) where
  subtle := plainSubtle
  crypto := { Demo.crypto with importSession := fun key => if key = "S" then some ⟨"S", 0⟩ else none }
  userId := Sample.user
  backupKey := [2]
  currentVersion := 2

/-- A backup from before the change in an archive, one live object that is no backup, and one that is
filed under no session id. -/
def afterRotation : State where
  objects := (((ObjectMap.empty.insert (Paths.keyChain Sample.user.str)
      (.json (.obj [("links", .arr [.obj [("from", .num (.int 1)), ("to", .num (.int 2)),
        ("iv", .str "AA=="), ("ciphertext", .str "AgE=")]])]))).insert
    (Paths.keysArchive Sample.user.str ++ "2026-01-01")
      (.cbor [KeyBackup.entry .ONE [9] [1, 83] "S"])).insert
    (Paths.keysLive Sample.user.str ++ "x") (.json .null)).insert
    (Paths.keysLive Sample.user.str ++ "y")
      (.json (.obj [("iv", .str "AA=="), ("ciphertext", .str "AVM=")]))

/-- The session is recovered along the chain, one object is reported, and the nameless backup is not. -/
theorem rotated_session_restored : ∃ acc t,
    (restoreSessionKeys signedIn .empty).run.execute calm afterRotation = some (.ok acc, t) ∧
      sessionOf t "S" = some ⟨"S", 0⟩ ∧ acc.restored = 1 ∧ acc.failed = 1 := by
  have coherent : Coherent afterRotation := by
    constructor
    · intro id stored found
      cases found
    · intro id stored found
      cases found
  obtain ⟨acc, t, ran, restores, _⟩ := restore_complete signedIn .empty coherent
  have listed : offers signedIn afterRotation .empty =
      [.broken, .nameless, .named (some "S") (some ("S", ⟨"S", 0⟩))] := by decide +kernel
  have found : (sessionOf t "S").isSome = true := by
    have recovered := restores.recovered (some "S") "S" ⟨"S", 0⟩ (by rw [listed]; simp)
    simpa [knows] using recovered
  refine ⟨acc, t, ran, ?_, ?_⟩
  · obtain ⟨k, here⟩ := Option.isSome_iff_exists.mp found
    rcases restores.origin "S" k here with before | ⟨name, offered⟩
    · cases before
    · rw [listed] at offered
      have same : name = some "S" ∧ k = ⟨"S", 0⟩ := by simpa using offered
      rw [here, same.2]
  · have failed : 1 ≤ acc.failed := by
      have reported := restores.reported
      rw [listed] at reported
      refine Nat.le_trans ?_ reported
      simp [List.countP_cons, Offer.passed]
    have restored : 1 ≤ acc.restored := by
      obtain ⟨fresh, _, count, covers⟩ := restores.restored
      exact (List.length_pos_of_mem ((covers "S").mpr ⟨rfl, found⟩)).trans_eq count.symm
    have bounded : acc.restored + acc.failed ≤ 2 := by
      refine restores.skipped.trans ?_
      rw [listed]
      decide
    omega

end Sample

end Atmin.Web
