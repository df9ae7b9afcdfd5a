import Atmin.Sync.BackupRequests
import Atmin.Sync.KeyRestoration

/-!
# No session key is lost

A session whose key was uploaded or queued stays in the vault or in a queue, whatever the devices
and the server do after that, unless the database of its device is deleted while the key waits there.
-/

namespace Atmin.Web.KeyVault

open Interaction

section Durability

variable {ι CryptoKey : Type} {a : Keyring CryptoKey} {device : ι → Nat} {s0 : Vault ι} {i : ι}

/-! ### The requests of a device -/

section Requests

abbrev DeviceServes (a : Keyring CryptoKey) (s0 : Vault ι) (device : ι → Nat) (i : ι) (o : VaultOp)
    (P : History ι → Prop) (R : VaultRes o → History ι → Prop) : Prop :=
  Serves (vaultRules a device s0) (Serving device) i o P R

/-- A backup of the session is in the vault. -/
def vaulted {sid : String} (session : IsSession sid) : VaultAssertion a device s0 i :=
  ⟨fun s => Vaulted a sid s.state, fun _ _ _ _ change => change.vaulted sid session⟩

/-- It is, or its key is in a queue, or was lost there. -/
def retained {sid : String} (session : IsSession sid) : VaultAssertion a device s0 i :=
  ⟨Kept a device s0 sid, fun _ _ _ _ change => change.kept sid session⟩

/-- A request that neither writes nor queues. -/
theorem quiet_unnoticed {o : VaultOp} (quiet : o = .getRandomValues ∨
    (∃ key, o = .storePresign key) ∨ o = .listPendingKeyBackups) :
    Unnoticed (vaultRules a device s0) (Serving device) i o := by
  rcases quiet with rfl | ⟨key, rfl⟩ | rfl
  · exact idle_unnoticed (fun h => by cases h) rfl (fun _ _ => rfl) fun _ _ => rfl
  · exact idle_unnoticed (fun h => by cases h) rfl (fun _ _ => rfl) fun _ _ => rfl
  · exact idle_unnoticed (fun h => by cases h) rfl (fun _ _ => rfl) fun _ _ => rfl

theorem lists_pending : DeviceServes a s0 device i .listPendingKeyBackups (fun _ => True)
    fun r _ => ∀ entries, r = .ok entries → ∀ e ∈ entries, KeyOf a e.1 e.2 := by
  refine (quiet_unnoticed (.inr (.inr rfl))).serves (.pure True) fun s r t vault _ served => ?_
  rintro entries listed ⟨sid, text⟩ member
  obtain ⟨_, same⟩ := served_list served.1
  rw [same entries listed] at member
  exact vault.sealed_.pending _ sid text (ObjectMap.get_of_mem member)

/-- A sound backup is uploaded under the key of its session. -/
theorem uploads_backup {b : Backup} (sound : Sound a b) :
    DeviceServes a s0 device i (.put (Paths.keyBackup a.user.str b.sessionId) b.json)
      (fun _ => True) fun r t => r = .done → Vaulted a b.sessionId t.state := by
  intro s r t vault _ served
  have written {k : String} {d : Data}
      (put : puts k (.put (Paths.keyBackup a.user.str b.sessionId) b.json) = some d) :
      k = Paths.keyBackup a.user.str b.sessionId ∧ d = .json b.json := by
    simp only [puts, Option.ite_none_right_eq_some, Option.some.injEq] at put
    exact ⟨put.1, put.2.symm⟩
  have allowed :
      Allowed a s0 i s (.put (Paths.keyBackup a.user.str b.sessionId) b.json) := by
    refine ⟨fun k d put _ => ?_, fun k d put archive => ?_, fun _ _ removed => (by cases removed),
      fun _ _ _ filed => keeps_filed (fun _ _ => rfl) filed⟩
    · exact ⟨b, sound, written put⟩
    · rw [(written put).1] at archive
      exact absurd archive (live_not_archive (live_backup b.sessionId))
  have step := allowed_step vault served (fun h => by cases h) rfl allowed
    (fun j k own _ _ => own : ∀ j k, j ≠ i → ArchiveKey a k → _ → j ≠ i)
  refine ⟨step.1, step.2, ?_⟩
  rintro rfl
  rcases served_put served.1 with after | ⟨_, failed⟩
  · rw [after]
    exact .inl (by simp [Vault.put, Sys.put])
  · exact absurd rfl failed

/-- The key chain is not part of the vault. -/
theorem chain_unnoticed (body : Json) : Unnoticed (vaultRules a device s0) (Serving device) i
    (.put (Paths.keyChain a.user.str) body) := by
  refine idle_unnoticed (fun h => by cases h) rfl (fun key within => ?_) fun _ _ => rfl
  refine if_neg fun same => ?_
  subst same
  exact within.elim chain_elsewhere.1 chain_elsewhere.2

/-- An entry may leave its queue once its session is in the vault. -/
theorem deletes_pending (sid : String) :
    DeviceServes a s0 device i (.deletePendingKeyBackup sid) (fun s => Vaulted a sid s.state)
      fun _ _ => True := by
  intro s r t vault stored served
  have step := queue_step vault served rfl (fun d id text found => ?_) (fun id here => ?_)
    fun j => j ≠ i
  · exact ⟨step.1, step.2, trivial⟩
  · -- What is in a queue now was there before.
    have before : (s.state.pending d).get id = some text := by
      rcases served_delete served.1 with after | same
      · rw [after, Vault.get_onDevice_erase] at found
        split at found
        next => cases found
        next => exact found
      · exact same ▸ found
    refine ⟨vault.sealed_.pending d id text before, ?_⟩
    rcases vault.waiting d id (by rw [before]; rfl) with vaulted | lost | waits
    · exact .inl vaulted
    · exact .inr (.inl (lost.later served))
    · by_cases own : id = sid
      · exact .inl (own ▸ stored)
      · rw [served.2]
        exact .inr (.inr ⟨fun both => own both.2.symm, waits⟩)
  · obtain ⟨d, here⟩ := here
    rcases served_delete served.1 with after | same
    · by_cases own : id = sid
      · exact .inl (own ▸ stored)
      · refine .inr (.inl ⟨d, ?_⟩)
        rw [after, Vault.get_onDevice_erase, if_neg fun both => own both.2]
        exact here
    · exact .inr (.inl ⟨d, same ▸ here⟩)

theorem enqueues_pending {sid text : String} (key : KeyOf a sid text) :
    DeviceServes a s0 device i (.enqueuePendingKeyBackup sid text) (fun _ => True)
      fun r t => r = .ok () → Kept a device s0 sid t := by
  intro s r t vault _ served
  have older {d : Nat} {id text' : String} (before : (s.state.pending d).get id = some text') :
      KeyOf a id text' ∧ (Vaulted a id s.state ∨ Lost device s0 id t ∨
        Waiting device s0 d id t.trace) := by
    refine ⟨vault.sealed_.pending d id text' before, ?_⟩
    rw [served.2]
    refine (vault.waiting d id (by rw [before]; rfl)).imp_right fun here => ?_
    exact here.imp (fun lost => lost.later served) fun waits => .inr waits
  have step := queue_step vault served rfl (fun d id text' found => ?_) (fun id here => ?_)
    fun j => j ≠ i
  · refine ⟨step.1, step.2, fun ok => .inl (.inr ⟨device i, ?_⟩)⟩
    rcases served_enqueue served.1 with ⟨after, _⟩ | ⟨_, failed⟩
    · rw [after, Vault.get_onDevice_insert, if_pos ⟨rfl, rfl⟩]
      rfl
    · exact absurd ok failed
  · rcases served_enqueue served.1 with ⟨after, ok⟩ | ⟨same, _⟩
    · rw [after, Vault.get_onDevice_insert] at found
      split at found
      next here =>
        obtain ⟨rfl, rfl⟩ := here
        cases found
        refine ⟨key, .inr (.inr ?_)⟩
        rw [served.2]
        exact .inl ⟨rfl, rfl, ok⟩
      next => exact older found
    · exact older (same ▸ found)
  · obtain ⟨d, here⟩ := here
    refine .inr (.inl ⟨d, ?_⟩)
    rcases served_enqueue served.1 with ⟨after, _⟩ | ⟨same, _⟩
    · rw [after, Vault.get_onDevice_insert]
      split
      · rfl
      · exact here
    · exact same ▸ here

/-- With the database goes the queue: a key that was only there is lost. -/
theorem wipes_queue :
    DeviceServes a s0 device i .deleteDatabase (fun _ => True) fun _ _ => True := by
  intro s r t vault _ served
  have step := queue_step vault served rfl (fun d id text found => ?_) (fun id here => ?_)
    fun j => j ≠ i
  · exact ⟨step.1, step.2, trivial⟩
  · have before : (s.state.pending d).get id = some text := by
      rcases served_wipe served.1 with after | same
      · rw [after, Vault.get_onDevice_empty] at found
        split at found
        next => cases found
        next => exact found
      · exact same ▸ found
    refine ⟨vault.sealed_.pending d id text before, ?_⟩
    rw [served.2]
    refine (vault.waiting d id (by rw [before]; rfl)).imp_right fun here => ?_
    exact here.imp_left fun lost => lost.later served
  · obtain ⟨d, here⟩ := here
    by_cases own : d = device i
    · subst own
      rcases vault.waiting (device i) id here with stored | lost | waits
      · exact .inl stored
      · exact .inr (.inr (lost.later served))
      · exact .inr (.inr ⟨[], i, r, s.trace, served.2, waits⟩)
    · refine .inr (.inl ⟨d, ?_⟩)
      rcases served_wipe served.1 with after | same
      · rw [after, Vault.get_onDevice_empty, if_neg own]
        exact here
      · exact same ▸ here

end Requests

/-! ### The functions -/

section Functions

/-- The page encrypts under the key of the version that it names. -/
structure Uses (a : Keyring CryptoKey) (u : Uploader CryptoKey) : Prop where
  user : u.userId = a.user
  key : u.backupKey = a.trueKey a.user.str u.keyVersion.get.toNat
  encrypts : u.encrypt = a.encrypt
  known : u.keyVersion.get.toNat ≤ a.newest

variable {sid text : String} {u : Uploader CryptoKey}

/-- A success means that the session is in the vault. -/
def stored (session : IsSession sid) (r : Except Thrown Unit) : VaultAssertion a device s0 i :=
  ⟨fun s => r = .ok () → Vaulted a sid s.state, .imp (vaulted session).stable⟩

theorem putRepeatedly_safe {b : Backup} (sound : Sound a b) (attempts : Nat) (s : History ι) :
    Safe (vaultRules a device s0) (Serving device) i
      (fun r => (stored sound.session r : VaultAssertion a device s0 i))
      (putRepeatedly (Paths.keyBackup a.user.str b.sessionId) b.json attempts) s := by
  have none_ (t : History ι) :
      (stored sound.session (.error .failed) : VaultAssertion a device s0 i) t := by
    intro same
    cases same
  induction attempts generalizing s with
  | zero => exact Safe.ret (none_ s)
  | succ attempts ih =>
    refine Safe.request (.pure True) trivial (uploads_backup sound) fun r t after => ?_
    cases r with
    | done => exact Safe.ret fun _ => after rfl
    | refused => exact Safe.ret (none_ t)
    | failed => exact ih t

theorem backupSessionKey_safe (uses : Uses a u) (key : KeyOf a sid text) (s : History ι) :
    Safe (vaultRules a device s0) (Serving device) i
      (fun r => (stored key.session r : VaultAssertion a device s0 i)) (backupSessionKey u sid text) s := by
  have quiet {o : VaultOp} (reads : o = .getRandomValues ∨ (∃ key, o = .storePresign key) ∨
      o = .listPendingKeyBackups) : Unnoticed (vaultRules a device s0) (Serving device) i o :=
    quiet_unnoticed reads
  unfold backupSessionKey
  refine Safe.request (.pure True) trivial (quiet (.inl rfl) (.pure True)) fun iv t _ => ?_
  dsimp only
  split
  next =>
    refine Safe.ret ?_
    intro same
    cases same
  next env wrapped =>
    refine Safe.request (.pure True) trivial (quiet (.inr (.inl ⟨_, rfl⟩)) (.pure True)) fun r t _ => ?_
    cases r with
    | error e =>
      refine Safe.ret ?_
      intro same
      cases same
    | ok =>
      let b : Backup := ⟨u.keyVersion, iv,
        u.encrypt u.backupKey iv (Utf8.encode text.toList), sid⟩
      have sound : Sound a b := by
        refine ⟨uses.known, text, key, ?_⟩
        rw [← uses.key, ← uses.encrypts]
      have json : b.json = env.toJson := congrArg KeyBackupEnvelopeV2.toJson (KeyBackup.wrap_iff.mp wrapped).2
      rw [uses.user, ← json]
      exact putRepeatedly_safe sound 2 t

/-- A success means that it is in the vault or in a queue, or was lost there. -/
def kept (session : IsSession sid) (r : Except Thrown Unit) : VaultAssertion a device s0 i :=
  ⟨fun s => r = .ok () → Kept a device s0 sid s, .imp (retained session).stable⟩

theorem backupReceived_safe (uses : Uses a u) (key : KeyOf a sid text) (s : History ι) :
    Safe (vaultRules a device s0) (Serving device) i
      (fun r => (kept key.session r : VaultAssertion a device s0 i)) (backupReceived u sid text) s := by
  refine Safe.bind (backupSessionKey_safe uses key s) fun r t after => ?_
  cases r with
  | ok => exact Safe.ret fun _ => .inl (.inl (after rfl))
  | error e =>
    refine Safe.request (.pure True) trivial (enqueues_pending key) fun r t after => ?_
    exact Safe.ret after

theorem retryPending_safe (uses : Uses a u) {entries : List (String × String)}
    (keys : ∀ e ∈ entries, KeyOf a e.1 e.2) (s : History ι) :
    Safe (vaultRules a device s0) (Serving device) i (fun _ _ => True) (retryPending u entries) s := by
  induction entries generalizing s with
  | nil => exact fun _ _ => trivial
  | cons e rest ih =>
    have later := ih fun e' member => keys e' (List.mem_cons_of_mem _ member)
    have key := keys e List.mem_cons_self
    refine Safe.bind (backupSessionKey_safe uses key s) fun r t after => ?_
    cases r with
    | error _ => exact later t
    | ok =>
      -- The entry is in the vault by now, and stays there until the delete.
      refine Safe.request (vaulted key.session) (after rfl) (deletes_pending e.1) fun _ t _ => ?_
      exact later t

theorem flush_safe (uses : Uses a u) (s : History ι) :
    Safe (vaultRules a device s0) (Serving device) i (fun _ _ => True) (flushPendingKeyBackups u) s := by
  refine Safe.request (.pure True) trivial lists_pending fun r t listed => ?_
  cases r with
  | error e => exact fun _ _ => trivial
  | ok entries => exact retryPending_safe uses (listed entries rfl) t

theorem chain_safe (body : Json) (attempts : Nat) (s : History ι) :
    Safe (vaultRules a device s0) (Serving device) i (fun _ _ => True)
      (putRepeatedly (Paths.keyChain a.user.str) body attempts) s := by
  induction attempts generalizing s with
  | zero => exact fun _ _ => trivial
  | succ attempts ih =>
    refine Safe.request (.pure True) trivial (chain_unnoticed body (.pure True)) fun r t _ => ?_
    cases r with
    | failed => exact ih t
    | _ => exact fun _ _ => trivial

end Functions

/-! ### All tasks together -/

section Tasks

/-- What is asked of a task: pages encrypt under true keys, and a request leaves the account and its
backups be. -/
def Faithful (a : Keyring CryptoKey) (env : Env) : UploadTask CryptoKey → Prop
  | .created u sid text | .received u sid text => Uses a u ∧ KeyOf a sid text
  | .flush u => Uses a u
  | .chain userId _ => userId = a.user
  | .deleteDatabase => True
  | .request r => Leaves a env r

/-- The session that a task is to keep. -/
def session : UploadTask CryptoKey → Option String
  | .created _ sid _ | .received _ sid _ => some sid
  | _ => none

/-- What a success of a task is worth. -/
def answer (task : UploadTask CryptoKey) (r : Except Thrown Unit) : VaultAssertion a device s0 i where
  holds s := r = .ok () → ∀ sid, session task = some sid → IsSession sid → Kept a device s0 sid s
  stable _ _ _ _ change here ok sid backs known := change.kept sid known (here ok sid backs known)

def uploads (env : Env) (tasks : UploadTasks ι CryptoKey) :
    System ι VaultOp VaultRes (Except Thrown Unit) (History ι) where
  prog i := (tasks.task i).prog env
  exec := Serving tasks.device

variable {env : Env} {tasks : UploadTasks ι CryptoKey}

/-- A task that keeps the vault and has no session to keep. -/
theorem answer_none {task : UploadTask CryptoKey} (none_ : session task = none)
    (r : Except Thrown Unit) (s : History ι) : (answer task r : VaultAssertion a device s0 i) s := by
  intro _ sid backs
  rw [none_] at backs
  cases backs

theorem answer_some {task : UploadTask CryptoKey} {sid : String} (some_ : session task = some sid)
    {r : Except Thrown Unit} {s : History ι} (here : r = .ok () → Kept a device s0 sid s) :
    (answer task r : VaultAssertion a device s0 i) s := by
  intro ok sid' backs _
  cases some_.symm.trans backs
  exact here ok

theorem task_safe {task : UploadTask CryptoKey} (faithful : Faithful a env task) (s : History ι) :
    Safe (vaultRules a device s0) (Serving device) i (fun r => (answer task r : VaultAssertion a device s0 i))
      (task.prog env) s := by
  cases task with
  | created u sid text =>
    refine (backupSessionKey_safe faithful.1 faithful.2 s).weaken fun r t after => ?_
    exact answer_some rfl fun ok => .inl (.inl (after ok))
  | received u sid text =>
    refine (backupReceived_safe faithful.1 faithful.2 s).weaken fun r t after => ?_
    exact answer_some rfl after
  | flush u => exact (flush_safe faithful s).weaken fun r t _ => answer_none rfl r t
  | chain userId body =>
    cases faithful
    exact (chain_safe body 2 s).weaken fun r t _ => answer_none rfl r t
  | deleteDatabase =>
    refine Safe.request (.pure True) trivial wipes_queue fun r t _ => ?_
    exact Safe.ret (answer_none rfl r t)
  | request req =>
    refine Safe.bind (onServer_safe (request_harmless faithful s)) fun r t _ => ?_
    exact Safe.ret (answer_none rfl _ t)

theorem uploadContracts (faithful : ∀ i, Faithful a env (tasks.task i)) :
    Contracts (vaultRules a tasks.device s0) (uploads env tasks) (fun _ _ => True)
      fun i r => (answer (tasks.task i) r : VaultAssertion a tasks.device s0 i) where
  stable _ := .const True
  arrives i s _ _ := task_safe (faithful i) s

abbrev SecuredVault (a : Keyring CryptoKey) (s0 : Vault ι) (env : Env)
    (tasks : UploadTasks ι CryptoKey)
    (w : World ι VaultOp VaultRes (Except Thrown Unit) (History ι)) : Prop :=
  Secured (vaultRules a tasks.device s0) (uploads env tasks) (fun _ _ => True)
    (fun i r => (answer (tasks.task i) r : VaultAssertion a tasks.device s0 i)) w

theorem retained_of_done {w : World ι VaultOp VaultRes (Except Thrown Unit) (History ι)}
    (secured : SecuredVault a s0 env tasks w) {i : ι} {sid : String}
    (backs : session (tasks.task i) = some sid) (known : IsSession sid)
    (done : w.procs i = .done (.ok ())) : Kept a tasks.device s0 sid w.sys := by
  have slot := secured.2 i
  rw [done] at slot
  exact slot.post rfl sid backs known

variable [DecidableEq ι]

theorem reached_secured (prepared : Prepared a s0) (faithful : ∀ i, Faithful a env (tasks.task i))
    {w : World ι VaultOp VaultRes (Except Thrown Unit) (History ι)}
    (reached : Reach (uploads env tasks) (Traced.init s0) w) : SecuredVault a s0 env tasks w :=
  (Secured.init (vault_init prepared) fun _ => trivial).run (uploadContracts faithful) reached

/-- A session whose key was uploaded, or else queued, is retained from then on, unless the database of
a device is deleted while the key waits there. -/
theorem session_key_retained (prepared : Prepared a s0)
    (faithful : ∀ i, Faithful a env (tasks.task i))
    {w w' : World ι VaultOp VaultRes (Except Thrown Unit) (History ι)}
    (reached : Reach (uploads env tasks) (Traced.init s0) w) {i : ι} {sid : String}
    (backs : session (tasks.task i) = some sid) (known : IsSession sid)
    (done : w.procs i = .done (.ok ()))
    (later : Relation.ReflTransGen (Step (uploads env tasks)) w w') :
    Retained a sid w'.sys.state ∨ Lost tasks.device s0 sid w'.sys := by
  have contracts : Contracts (vaultRules a tasks.device s0) (uploads env tasks) (fun _ _ => True)
      fun i r => (answer (tasks.task i) r : VaultAssertion a tasks.device s0 i) :=
    uploadContracts faithful
  have secured : SecuredVault a s0 env tasks w := reached_secured prepared faithful reached
  exact secured.relates contracts
    (fun s t => Kept a tasks.device s0 sid s → Kept a tasks.device s0 sid t)
    (fun _ => id) (fun _ _ _ first second h => second (first h))
    (fun _ _ _ _ _ change => change.kept sid known) later
    (retained_of_done secured backs known done)

end Tasks

end Durability

/-! ### A key that is queued -/

section Sample

/-- An account with the keys of two versions. -/
def keyring : Keyring (List UInt8) where
  user := Sample.user
  trueKey := plainKey
  encrypt key _ plain := key ++ plain
  crypto := signedIn.crypto
  newest := 2

def uploader : Uploader (List UInt8) := ⟨Sample.user, [1], .ONE, keyring.encrypt, 65535⟩

/-- A compaction of the account's live backups. -/
def compactBackups : UserRequest := .storeCompact 1 Sample.token
  (some (.obj [("prefix", .str (prefixKeysLive Sample.uid)), ("up_to", .str "~")]))

/-- A session key is received on a device, its queue is flushed, the backups are compacted, and the
database of the device is deleted. -/
def sampleTasks : UploadTasks (Fin 4) (List UInt8) where
  task
    | 0 => .received uploader "S" "S"
    | 1 => .flush uploader
    | 2 => .request compactBackups
    | 3 => .deleteDatabase
  device _ := 0

/-- The chain of an account whose key was changed once. -/
def rotatedChain : Data :=
  .json (.obj [("links", .arr [.obj [("from", .num (.int 1)), ("to", .num (.int 2)),
    ("iv", .str "AA=="), ("ciphertext", .str "AgE=")]])])

def rotatedVault : Vault (Fin 4) where
  sys := { Sample.sys (Fin 4) with
    objects := Sample.store.insert (Paths.keyChain Sample.user.str) rotatedChain }

theorem rotated_prepared : Prepared keyring rotatedVault := by
  have absent (key : String) (d : Data) (within : LiveKey keyring key ∨ ArchiveKey keyring key)
      (found : rotatedVault.sys.objects.get key = some d) : False := by
    simp only [rotatedVault, ObjectMap.get_insert] at found
    split at found
    next same =>
      subst same
      have chain : ¬ LiveKey keyring (Paths.keyChain keyring.user.str) ∧
        ¬ ArchiveKey keyring (Paths.keyChain keyring.user.str) := chain_elsewhere
      exact within.elim chain.1 chain.2
    next =>
      have outside : Outside keyring key := by
        simp only [Sample.store, ObjectMap.get_insert] at found
        split at found
        next same => exact same ▸ outside_of_head (by simp [keyHandle])
        next =>
          split at found
          next same => exact same ▸ outside_of_head (by simp [keyDevice])
          next =>
            split at found
            next same => exact same ▸ outside_of_head (by simp [keyProfile])
            next => cases found
      exact within.elim outside.1 outside.2
  refine ⟨⟨fun key d live found => ?_, fun key d archive found => ?_, fun _ _ _ found => ?_⟩,
    fun key archive present => ?_⟩
  · exact (absent key d (.inl live) found).elim
  · exact (absent key d (.inr archive) found).elim
  · cases found
  · obtain ⟨d, found⟩ := Option.isSome_iff_exists.mp present
    exact (absent key d (.inr archive) found).elim

theorem sample_session : IsSession "S" where
  base64 := ⟨['S'], 0, by decide, by decide, List.all_eq_true.mp (by decide)⟩
  unpadded := by decide

theorem sample_key : KeyOf keyring "S" "S" where
  session := sample_session
  imported := ⟨⟨"S", 0⟩, by decide, rfl⟩
  unmarked := by decide

theorem sampleTasks_faithful (i : Fin 4) : Faithful keyring Sample.env (sampleTasks.task i) := by
  have uses : Uses keyring uploader := ⟨rfl, by decide, rfl, by decide⟩
  match i with
  | 0 => exact ⟨uses, sample_key⟩
  | 1 => exact uses
  | 2 => trivial
  | 3 => trivial

/-- The presigned URL is refused, so the key is queued. -/
def queueing : List (Fin 4 × VaultChoice) :=
  [(0, .ok), (0, .drawn [9]), (0, .failed false), (0, .ok), (0, .ok)]

/-- The flush uploads it, and its queue is empty again. -/
def flushing : List (Fin 4 × VaultChoice) :=
  [(1, .ok), (1, .ok), (1, .drawn [9]), (1, .ok), (1, .ok), (1, .ok), (1, .ok)]

/-- The backup is archived, and the live one is deleted. -/
def compacting : List (Fin 4 × VaultChoice) :=
  (2, .ok) :: List.replicate 6 (2, .server .ok) ++ [(2, .server (.read 0)), (2, .server .ok),
    (2, .server (.mint "01BX5ZZKBKACTAV9WEVGEMMVS1"))] ++ List.replicate 3 (2, .server .ok)

def wiping : List (Fin 4 × VaultChoice) := List.replicate 3 (3, .ok)

def succeeded (i : Fin 4)
    (w : World (Fin 4) VaultOp VaultRes (Except Thrown Unit) (History (Fin 4))) : Bool :=
  match w.procs i with
  | .done (.ok _) => true
  | _ => false

theorem done_of_succeeded {i : Fin 4}
    {w : World (Fin 4) VaultOp VaultRes (Except Thrown Unit) (History (Fin 4))}
    (success : succeeded i w = true) : w.procs i = .done (.ok ()) := by
  unfold succeeded at success
  split at success
  next done => exact done
  next => cases success

/-- It is in a queue first, then in the vault, and still there when its live backup is gone and the
database as well. -/
theorem queued_key_retained :
    ∃ w w', Reach (uploads Sample.env sampleTasks) (Traced.init rotatedVault) w ∧
      Relation.ReflTransGen (Step (uploads Sample.env sampleTasks)) w w' ∧
      w'.procs 2 = .done (.ok ()) ∧ w'.procs 3 = .done (.ok ()) ∧
      w'.sys.state.sys.objects.get (Paths.keyBackup Sample.user.str "S") = none ∧
      (Retained keyring "S" w'.sys.state ∨ Lost sampleTasks.device rotatedVault "S" w'.sys) := by
  obtain ⟨w, w', reached, later, holds⟩ := reach_twice_of_follow
    (tracedRun (performVault sampleTasks.device)) (uploads Sample.env sampleTasks).prog
    (Traced.init rotatedVault) queueing (flushing ++ compacting ++ wiping)
    (fun w w' => succeeded 0 w && succeeded 2 w' && succeeded 3 w' &&
      (w'.sys.state.sys.objects.get (Paths.keyBackup Sample.user.str "S")).isNone)
    (by decide +kernel)
  simp only [Bool.and_eq_true, Option.isNone_iff_eq_none] at holds
  obtain ⟨⟨⟨queued, compacted⟩, wiped⟩, gone⟩ := holds
  have reached' : Reach (uploads Sample.env sampleTasks) (Traced.init rotatedVault) w :=
    steps_mono (fun _ _ _ _ _ ran => traced_of_tracedRun ran) reached
  have later' : Relation.ReflTransGen (Step (uploads Sample.env sampleTasks)) w w' :=
    steps_mono (fun _ _ _ _ _ ran => traced_of_tracedRun ran) later
  exact ⟨w, w', reached', later', done_of_succeeded compacted, done_of_succeeded wiped, gone,
    session_key_retained rotated_prepared sampleTasks_faithful reached' rfl sample_session
      (done_of_succeeded queued) later'⟩

end Sample

end Atmin.Web.KeyVault
