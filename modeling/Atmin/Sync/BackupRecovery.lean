import Atmin.Sync.BackupDurability

/-!
# What a device gets back when it signs in

On a device with the true key of the current version and an intact chain, a restore opens every
backup of the vault. Nothing fails, and every session that was ever retained is there, unless its
key still waits in a queue.
-/

namespace Atmin.Web.KeyVault

open Interaction

variable {ι CryptoKey : Type} {a : Keyring CryptoKey} {r : Restorer CryptoKey}
  {memo : BackupKeys CryptoKey} {s : State} {v : Vault ι}

/-! ### The keys -/

/-- The chain leads down to the key of every version. -/
def Intact (a : Keyring CryptoKey) (r : Restorer CryptoKey) (memo : BackupKeys CryptoKey)
    (chain : Option (List KeyChainLink)) : Prop :=
  ∃ links, chain = some links ∧ Wraps r.subtle a.trueKey r.userId.str links ∧
    ∀ version, 1 ≤ version → version ≤ r.currentVersion →
      Resolvable r.subtle a.trueKey r.userId.str links memo r.currentVersion version

/-- A device of the account signs in. -/
structure SignsIn (a : Keyring CryptoKey) (r : Restorer CryptoKey) (memo : BackupKeys CryptoKey)
    (v : Vault ι) (s : State) : Prop where
  coherent : Coherent s
  objects : s.objects = v.sys.objects
  user : r.userId = a.user
  crypto : r.crypto = a.crypto
  key : r.backupKey = a.trueKey r.userId.str r.currentVersion
  newest : a.newest ≤ r.currentVersion
  opens : ∀ key iv plain, r.subtle.decrypt key iv (a.encrypt key iv plain) = some plain
  stored : TrueMemo a.trueKey memo
  chain : 1 < r.currentVersion → Intact a r memo (chainOf r s.objects)

/-- A page of live backups and a page of archives are all there is. -/
structure Fits (user : UserId) (s : State) : Prop where
  live : (s.objects.keysAfter (startsWith · (Paths.keysLive user.str)) none).length ≤ STORE_LIST_LIMIT
  archives : (s.objects.keysAfter (startsWith · (Paths.keysArchive user.str)) none).length ≤
    STORE_LIST_LIMIT

theorem version_positive (version : KeyVersion) : 1 ≤ version.get.toNat := by
  have positive := KeyBackup.positive_version version
  simp only [Number.positive, decide_eq_true_eq] at positive
  omega

/-- The key of every version is found. -/
theorem key_found (signs : SignsIn a r memo v s) {version : Nat} (positive : 1 ≤ version)
    (known : version ≤ a.newest) :
    keyOf r s.objects memo (.int version) = some (a.trueKey r.userId.str version) := by
  have below : version ≤ r.currentVersion := known.trans signs.newest
  unfold keyOf getKey
  by_cases current : version = r.currentVersion
  · -- the current version has the key of the session
    subst current
    rw [if_pos (equals_iff.mpr ⟨rfl, rfl⟩), signs.key]
  · -- an older one has what the chain resolves to
    have old : ¬ (Number.int version).equals r.currentVersion = true := by
      intro same
      have floor : ((version : Int)) = r.currentVersion := (equals_iff.mp same).2
      omega
    have apart : Number.int version ≠ .int r.currentVersion := by
      intro same
      have floor : (version : Int) = r.currentVersion := Number.int.inj same
      omega
    obtain ⟨links, given, wraps, resolvable⟩ := signs.chain (by omega)
    have resolved := (resolveBackupKey_correct wraps below signs.stored).1
      (resolvable version positive below)
    rw [← signs.key] at resolved
    rw [if_neg old, startRestoring, ObjectMap.get_insert, if_neg apart, ObjectMap.get_empty]
    have whole : (Number.int version).whole = true := rfl
    have floor : (Number.int version).floor.toNat = version := Int.toNat_natCast version
    simp only [given, resolveVersion, whole, if_true, floor, resolved, Except.toOption]

/-! ### The backups -/

/-- The text comes back as it was encoded. -/
theorem decode_encode {cs : List Char} (unmarked : cs.head? ≠ some '\uFEFF') :
    Utf8.decode (Utf8.encode cs) = cs := by
  have whole := Utf8.decode_append cs []
  rw [List.append_nil] at whole
  rw [Utf8.decode, whole]
  have ended : Utf8.decodeFrom none [] = [] := rfl
  rw [ended, List.append_nil]
  cases cs with
  | nil => rfl
  | cons c rest =>
    rw [Utf8.dropMark, if_neg]
    rintro rfl
    exact unmarked rfl

/-- A sound backup opens to its session. -/
theorem backup_opens (signs : SignsIn a r memo v s) {b : Backup} (sound : Sound a b) :
    ∃ k, k.sessionId = b.sessionId ∧ openBackup r (a.trueKey r.userId.str b.v.get.toNat)
      (KeyBackup.parsed b.v b.iv b.ciphertext b.sessionId) = some k := by
  obtain ⟨_, text, key, sealed_⟩ := sound
  obtain ⟨k, imported, named⟩ := key.imported
  refine ⟨k, named, ?_⟩
  have decrypted : r.subtle.decrypt (a.trueKey r.userId.str b.v.get.toNat) b.iv b.ciphertext =
      some (Utf8.encode text.toList) := by
    rw [sealed_, signs.user]
    exact signs.opens _ _ _
  have read : backupDecrypt r (a.trueKey r.userId.str b.v.get.toNat)
      (KeyBackup.parsed b.v b.iv b.ciphertext b.sessionId) = some text := by
    rw [backupDecrypt, KeyBackup.parsed, decrypted, Option.map_some, decode_encode key.unmarked,
      String.ofList_toList]
  rw [openBackup, read, Option.bind_some, signs.crypto, imported]

/-- What is read as a sound backup is an offer of its session. -/
theorem backup_offered (signs : SignsIn a r memo v s) {b : Backup} (sound : Sound a b) {raw : Js}
    (read : KeyBackup.parseKeyBackupEnvelope raw =
      some (KeyBackup.parsed b.v b.iv b.ciphertext b.sessionId)) :
    ∃ k, offerOf r (keyOf r s.objects memo) (some raw) =
      .named (some b.sessionId) (some (b.sessionId, k)) := by
  obtain ⟨k, named, opened⟩ := backup_opens signs sound
  refine ⟨k, ?_⟩
  have found := key_found signs (version_positive b.v) sound.1
  have id : (KeyBackup.parsed b.v b.iv b.ciphertext b.sessionId).named =
      some (.str b.sessionId) := by
    rw [KeyBackup.ParsedEnvelope.named, KeyBackup.parsed, Option.filter_some, if_pos]
    simp [Js.same, sound.session.nonempty]
  have version : (KeyBackup.parsed b.v b.iv b.ciphertext b.sessionId).v = .int b.v.get.toNat := rfl
  rw [offerOf, Option.bind_some, read]
  simp only [version, found, offerUnder, id, opened, Option.map_some, named, Js.asStr]

theorem live_offered (signs : SignsIn a r memo v s) {b : Backup} (sound : Sound a b) :
    ∃ k, offerOf r (keyOf r s.objects memo) (some (Js.ofJson b.json)) =
      .named (some b.sessionId) (some (b.sessionId, k)) :=
  backup_offered signs sound (KeyBackup.parse_envelope b.v b.iv b.ciphertext sound.session.nonempty)

theorem keysLive_eq (uid : String) : Paths.keysLive uid = prefixKeysLive uid := rfl

theorem of_listed {pre key : String} (listed : key ∈ (s.listing pre none).keys) :
    (∃ d, s.objects.get key = some d) ∧ startsWith key pre = true :=
  ObjectMap.mem_page _ _ _ _ _ listed

section Decoding

variable [CborDecoder]

theorem archived_offered (signs : SignsIn a r memo v s) {b : Backup} (sound : Sound a b) :
    ∃ k, offerOf r (keyOf r s.objects memo) (some (Js.ofValue b.entry)) =
      .named (some b.sessionId) (some (b.sessionId, k)) :=
  backup_offered signs sound (KeyBackup.parse_entry b.v b.iv b.ciphertext b.sessionId)

/-! ### The offers -/

/-- A session in the vault is offered. -/
def Offered (r : Restorer CryptoKey) (memo : BackupKeys CryptoKey) (s : State) (sid : String) : Prop :=
  ∃ k, .named (some sid) (some (sid, k)) ∈ offers r s memo

theorem mem_ofValues_iff {e : Js} {values : List Value} :
    e ∈ Js.ofValues values ↔ ∃ x ∈ values, e = Js.ofValue x := by
  induction values with
  | nil => simp [Js.ofValues]
  | cons x rest ih => simp [Js.ofValues, ih]

/-- Everything a restore lists is the offer of a session. -/
theorem offers_open (signs : SignsIn a r memo v s) (sealed_ : Sealed a v) :
    ∀ o ∈ offers r s memo, ∃ name k x, o = .named name (some (k, x)) := by
  intro o member
  rcases List.mem_append.mp member with live | archive
  · -- a live backup is named by the id in its key
    obtain ⟨key, listed, rfl⟩ := List.mem_map.mp live
    obtain ⟨⟨d, found⟩, within⟩ := of_listed listed
    have here : LiveKey a key := by
      rw [signs.user, keysLive_eq] at within
      exact within
    obtain ⟨b, sound, _, rfl⟩ := sealed_.live key d here (signs.objects ▸ found)
    obtain ⟨k, offered⟩ := live_offered signs sound
    refine ⟨some b.sessionId, b.sessionId, k, ?_⟩
    simp only [liveBackup, found]
    exact offered
  · -- an archived one by the id in its entry
    obtain ⟨key, listed, inside⟩ := List.mem_flatMap.mp archive
    obtain ⟨raw, entry, rfl⟩ := List.mem_map.mp inside
    obtain ⟨⟨d, found⟩, within⟩ := of_listed listed
    have here : ArchiveKey a key := by
      rw [signs.user] at within
      exact within
    obtain ⟨entries, rfl, genuine⟩ := sealed_.archive key d here (signs.objects ▸ found)
    simp only [archivedBackups, found] at entry
    obtain ⟨x, inArchive, rfl⟩ := mem_ofValues_iff.mp entry
    obtain ⟨b, sound, rfl⟩ := genuine x inArchive
    obtain ⟨k, offered⟩ := archived_offered signs sound
    exact ⟨_, _, k, offered⟩

/-- Everything in the vault is listed. -/
theorem vaulted_offered (signs : SignsIn a r memo v s) (sealed_ : Sealed a v)
    (fits : Fits r.userId s) {sid : String} (session : IsSession sid) (here : Vaulted a sid v) :
    Offered r memo s sid := by
  rcases here with live | ⟨key, entries, e, archive, _, found, member, named⟩
  · obtain ⟨d, found⟩ := Option.isSome_iff_exists.mp live
    obtain ⟨b, sound, same, rfl⟩ := sealed_.live _ d (live_backup sid) found
    cases backup_inj session sound.session same
    obtain ⟨k, offered⟩ := live_offered signs sound
    rw [← signs.objects] at found
    -- all live keys are on the page
    have listed : Paths.keyBackup a.user.str b.sessionId ∈
        (s.listing (Paths.keysLive r.userId.str) none).keys := by
      refine ObjectMap.page_complete _ _ _ fits.live _ ⟨_, found⟩ ?_
      rw [signs.user, keysLive_eq]
      exact live_backup b.sessionId
    refine ⟨k, List.mem_append_left _ (List.mem_map.mpr ⟨_, listed, ?_⟩)⟩
    simp only [liveBackup, found]
    exact offered
  · obtain ⟨entries', same, genuine⟩ := sealed_.archive key _ archive found
    cases same
    obtain ⟨b, sound, rfl⟩ := genuine e member
    rw [b.entry_msgId] at named
    cases named
    obtain ⟨k, offered⟩ := archived_offered signs sound
    rw [← signs.objects] at found
    -- and so are all archives
    have listed : key ∈ (s.listing (Paths.keysArchive r.userId.str) none).keys := by
      refine ObjectMap.page_complete _ _ _ fits.archives _ ⟨_, found⟩ ?_
      rw [signs.user]
      exact archive
    refine ⟨k, List.mem_append_right _ (List.mem_flatMap.mpr ⟨key, listed, ?_⟩)⟩
    refine List.mem_map.mpr ⟨Js.ofValue b.entry, ?_, offered⟩
    simp only [archivedBackups, found]
    exact mem_ofValues_iff.mpr ⟨b.entry, member, rfl⟩

/-! ### The restore -/

/-- What a sign-in brings back from a vault. -/
structure Recovers (a : Keyring CryptoKey) (v : Vault ι) (s : State) (result : RestoreResult)
    (t : State) : Prop where
  failed : result.failed = 0
  kept : ∀ id k, sessionOf s id = some k → sessionOf t id = some k
  vaulted : Fits a.user s → ∀ sid, IsSession sid → Vaulted a sid v → (sessionOf t sid).isSome = true

theorem vault_restores (signs : SignsIn a r memo v s) (sealed_ : Sealed a v) :
    ∃ acc t, (restoreSessionKeys r memo).run.execute calm s = some (.ok acc, t) ∧
      Recovers a v s acc.result t := by
  obtain ⟨acc, t, ran, same, follows⟩ := restoreSessionKeys_runs r memo signs.coherent
  refine ⟨acc, t, ran, ?_, fun id k held => ?_, fun fits sid session here => ?_⟩
  · rw [Restoring.result, same.failed, Intake.run_open _ _ (offers_open signs sealed_)]
    rfl
  · rw [follows.sessions]
    exact Intake.run_held (offers r s memo) (intakeOf s) held
  · rw [← signs.user] at fits
    obtain ⟨k, offered⟩ := vaulted_offered signs sealed_ fits session here
    have passed := Intake.run_offered (offers r s memo) (intakeOf s) offered
    rw [follows.sessions]
    simpa [Offer.passed, knows] using passed

variable [DecidableEq ι] {env : Env} {tasks : UploadTasks ι CryptoKey} {s0 : Vault ι}

/-- Whoever signs in at any moment of the run, and whose restore is undisturbed, finds no backup that
fails to open, and has every session that a task has kept, unless its key still waits in a queue or
was lost with one. -/
theorem retained_session_restored (prepared : Prepared a s0)
    (faithful : ∀ i, Faithful a env (tasks.task i))
    {w : World ι VaultOp VaultRes (Except Thrown Unit) (History ι)}
    (reached : Reach (uploads env tasks) (Traced.init s0) w)
    (signs : SignsIn a r memo w.sys.state s) :
    ∃ acc t, (restoreSessionKeys r memo).run.execute calm s = some (.ok acc, t) ∧
      Recovers a w.sys.state s acc.result t ∧
      (Fits a.user s → ∀ i sid, session (tasks.task i) = some sid → IsSession sid →
        w.procs i = .done (.ok ()) → (sessionOf t sid).isSome = true ∨ Queued sid w.sys.state ∨
          Lost tasks.device s0 sid w.sys) := by
  have secured := reached_secured prepared faithful reached
  obtain ⟨acc, t, ran, recovers⟩ := vault_restores signs secured.1.sealed_
  refine ⟨acc, t, ran, recovers, fun fits i sid backs known done => ?_⟩
  rcases retained_of_done secured backs known done with (stored | queued) | lost
  · exact .inl (recovers.vaulted fits sid known stored)
  · exact .inr (.inl queued)
  · exact .inr (.inr lost)

/-! ### A device that signs in -/

end Decoding

section Sample

attribute [local instance] Demo.cbor

/-- A new device, beside a vault. -/
def newDevice (v : Vault (Fin 4)) : State where
  objects := v.sys.objects

theorem newDevice_signsIn {v : Vault (Fin 4)}
    (chain : chainOf signedIn v.sys.objects = some [firstHop]) :
    SignsIn keyring signedIn .empty v (newDevice v) where
  coherent := ⟨fun _ _ found => (by cases found), fun _ _ found => (by cases found)⟩
  objects := rfl
  user := rfl
  crypto := rfl
  key := by decide
  newest := by decide
  opens key iv plain := by simp [signedIn, plainSubtle, keyring]
  stored _ _ _ found := by cases found
  chain _ := by
    refine ⟨[firstHop], chain, ?_, fun version positive below => .inr fun older above under => ?_⟩
    · intro link member older plain hop opened
      cases List.mem_singleton.mp member
      have first : older = 1 := by
        simp only [KeyChainLink.hops, firstHop, Bool.and_eq_true, decide_eq_true_eq,
          Number.int.injEq] at hop
        omega
      subst first
      have here : firstHop.opened signedIn.subtle (keyring.trueKey signedIn.userId.str 2) =
        some [1] := by decide
      cases opened.symm.trans here
      rfl
    · have first : older = 1 := by
        have current : signedIn.currentVersion = 2 := rfl
        omega
      subst first
      exact .inr ⟨firstHop, List.mem_singleton_self _, by decide, by decide⟩

/-- What the new device finds in the vault. -/
def restorable (v : Vault (Fin 4)) : Bool :=
  decide (chainOf signedIn v.sys.objects = some [firstHop]) &&
    (v.sys.objects.get (Paths.keyBackup Sample.user.str "S")).isSome &&
    decide ((v.sys.objects.keysAfter (startsWith · (Paths.keysLive Sample.user.str)) none).length ≤
      STORE_LIST_LIMIT) &&
    decide ((v.sys.objects.keysAfter (startsWith · (Paths.keysArchive Sample.user.str)) none).length ≤
      STORE_LIST_LIMIT)

/-- The queued key of the sample is restored on a new device, along the chain. -/
theorem flushed_key_restored :
    ∃ w, Reach (uploads Sample.env sampleTasks) (Traced.init rotatedVault) w ∧
      ∃ acc t, (restoreSessionKeys signedIn .empty).run.execute calm (newDevice w.sys.state) =
        some (.ok acc, t) ∧ acc.result.failed = 0 ∧ (sessionOf t "S").isSome = true := by
  obtain ⟨w, w', reached, later, holds⟩ := reach_twice_of_follow
    (tracedRun (performVault sampleTasks.device)) (uploads Sample.env sampleTasks).prog
    (Traced.init rotatedVault) queueing flushing (fun _ w' => restorable w'.sys.state)
    (by decide +kernel)
  have reached' : Reach (uploads Sample.env sampleTasks) (Traced.init rotatedVault) w' :=
    steps_mono (fun _ _ _ _ _ ran => traced_of_tracedRun ran) (reached.trans later)
  simp only [restorable, Bool.and_eq_true, decide_eq_true_eq] at holds
  obtain ⟨⟨⟨chain, live⟩, page⟩, archives⟩ := holds
  obtain ⟨acc, t, ran, recovers, _⟩ := retained_session_restored rotated_prepared sampleTasks_faithful
    reached' (newDevice_signsIn chain)
  refine ⟨w', reached', acc, t, ran, recovers.failed, ?_⟩
  exact recovers.vaulted ⟨page, archives⟩ "S" sample_session (.inl live)

end Sample

end Atmin.Web.KeyVault
