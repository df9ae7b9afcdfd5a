import Atmin.Interaction.RelyGuarantee
import Atmin.Inbox.Merging
import Atmin.Server.Log
import Atmin.Web.KeyUpload

/-!
# The vault invariant

What holds of the key backups of one account and of the queues of its devices while uploads,
retries and compactions interleave and may fail at any request. As with mail, an archive is
written once, and deleted only after a later one has an entry of every session it had.
-/

namespace Atmin.Web.KeyVault

open Interaction

/-! ### What is stored -/

/-- An account with the true backup keys of all versions, and the built-ins of its devices. -/
structure Keyring (CryptoKey : Type) where
  user : UserId
  trueKey : String → Nat → CryptoKey
  encrypt : CryptoKey → List UInt8 → List UInt8 → List UInt8
  crypto : Crypto
  /-- The newest version. -/
  newest : Nat

/-- The id of a Megolm session. -/
structure IsSession (sid : String) : Prop where
  base64 : IsBase64 sid
  unpadded : '=' ∉ sid.toList

/-- One upload, as it was sealed. -/
structure Backup where
  v : KeyVersion
  iv : List UInt8
  ciphertext : List UInt8
  sessionId : String

namespace Backup

def json (b : Backup) : Json :=
  (KeyBackup.envelope b.v.get.toNat (btoa b.iv) (btoa b.ciphertext) (some b.sessionId)).toJson

def entry (b : Backup) : Value := KeyBackup.entry b.v b.iv b.ciphertext b.sessionId

theorem entry_msgId (b : Backup) : Cbor.msgId b.entry = some b.sessionId := rfl

end Backup

theorem IsSession.nonempty {sid : String} (session : IsSession sid) : sid ≠ "" := by
  rintro rfl
  obtain ⟨symbols, pad, shape, some_, _⟩ := session.base64
  rw [String.toList_empty, eq_comm, List.append_eq_nil_iff] at shape
  exact some_ shape.1

variable {ι CryptoKey : Type} (a : Keyring CryptoKey)

/-- The text of a session key. `TextDecoder` would drop a byte order mark. -/
structure KeyOf (sid text : String) : Prop where
  session : IsSession sid
  imported : ∃ k, a.crypto.importSession text = some k ∧ k.sessionId = sid
  unmarked : text.toList.head? ≠ some '\uFEFF'

/-- A session key sealed under the true key of its version. -/
def Sound (b : Backup) : Prop :=
  b.v.get.toNat ≤ a.newest ∧ ∃ text, KeyOf a b.sessionId text ∧
    b.ciphertext = a.encrypt (a.trueKey a.user.str b.v.get.toNat) b.iv (Utf8.encode text.toList)

theorem Sound.session {a : Keyring CryptoKey} {b : Backup} (sound : Sound a b) :
    IsSession b.sessionId := by
  obtain ⟨_, text, key, _⟩ := sound
  exact key.session

/-! ### What the requests do -/

/-- A vault with the requests served so far. -/
abbrev History (ι : Type) := Traced ι VaultOp VaultRes (Vault ι)

abbrev Serving (device : ι → Nat) : ι → (o : VaultOp) → History ι → VaultRes o → History ι → Prop :=
  traced (execOf (performVault device))

section Served

variable {device : ι → Nat} {i : ι} {s t : Vault ι}

theorem served_server {o : Op} {r : Res o}
    (served : execOf (performVault device) i (.server o) s r t) :
    Faulty i o s.sys r t.sys ∧ t.pending = s.pending := by
  obtain ⟨c, ran⟩ := served
  cases c <;> simp only [performVault, reduceCtorEq] at ran
  case server c =>
    obtain ⟨⟨r', sys⟩, done, same⟩ := Option.map_eq_some_iff.mp ran
    cases same
    exact ⟨served_iff.mpr ⟨c, rfl, done⟩, rfl⟩

theorem served_put {key : String} {body : Json} {r : PutReply}
    (served : execOf (performVault device) i (.put key body) s r t) :
    t = s.put key body ∨ t = s ∧ r ≠ .done := by
  obtain ⟨c, ran⟩ := served
  cases c <;> simp only [performVault, Option.some.injEq, Prod.mk.injEq, reduceCtorEq] at ran
  case ok => exact .inl ran.2.symm
  case refused => exact .inr ⟨ran.2.symm, by rw [← ran.1]; decide⟩
  case failed applied =>
    cases applied with
    | false => exact .inr ⟨by simpa using ran.2.symm, by rw [← ran.1]; decide⟩
    | true => exact .inl (by simpa using ran.2.symm)

theorem served_list {r : Except Thrown (List (String × String))}
    (served : execOf (performVault device) i .listPendingKeyBackups s r t) :
    t = s ∧ ∀ entries, r = .ok entries → entries = (s.pending (device i)).entries := by
  obtain ⟨c, ran⟩ := served
  cases c <;> simp only [performVault, Option.some.injEq, Prod.mk.injEq, reduceCtorEq] at ran
  case ok =>
    refine ⟨ran.2.symm, fun entries listed => ?_⟩
    rw [← ran.1] at listed
    exact (Except.ok.inj listed).symm
  case failed applied =>
    refine ⟨ran.2.symm, fun entries listed => ?_⟩
    rw [← ran.1] at listed
    cases listed

theorem served_delete {id : String} {r : Except Thrown Unit}
    (served : execOf (performVault device) i (.deletePendingKeyBackup id) s r t) :
    t = s.onDevice (device i) (·.erase id) ∨ t = s := by
  obtain ⟨c, ran⟩ := served
  cases c <;> simp only [performVault, Option.some.injEq, Prod.mk.injEq, reduceCtorEq] at ran
  case ok => exact .inl ran.2.symm
  case failed applied => exact .inr ran.2.symm

theorem served_enqueue {id key : String} {r : Except Thrown Unit}
    (served : execOf (performVault device) i (.enqueuePendingKeyBackup id key) s r t) :
    t = s.onDevice (device i) (·.insert id key) ∧ r = .ok () ∨ t = s ∧ r ≠ .ok () := by
  obtain ⟨c, ran⟩ := served
  cases c <;> simp only [performVault, Option.some.injEq, Prod.mk.injEq, reduceCtorEq] at ran
  case ok => exact .inl ⟨ran.2.symm, ran.1.symm⟩
  case failed applied =>
    refine .inr ⟨ran.2.symm, ?_⟩
    rw [← ran.1]
    intro same
    cases same

theorem served_wipe {r : Except Thrown Unit}
    (served : execOf (performVault device) i .deleteDatabase s r t) :
    (t = s.onDevice (device i) fun _ => .empty) ∨ t = s := by
  obtain ⟨c, ran⟩ := served
  cases c <;> simp only [performVault, Option.some.injEq, Prod.mk.injEq, reduceCtorEq] at ran
  case ok => exact .inl ran.2.symm
  case failed applied =>
    cases applied with
    | false => exact .inr (by simpa using ran.2.symm)
    | true => exact .inl (by simpa using ran.2.symm)

end Served

/-- What a request writes to this key. -/
def puts (key : String) : VaultOp → Option Data
  | .server o => o.puts key
  | .put k body => if key = k then some (.json body) else none
  | _ => none

/-- Whether a request deletes this key. -/
def removes (key : String) : VaultOp → Bool
  | .server o => o.removes key
  | _ => false

/-- A request that changes the queue of its device. -/
def queues : VaultOp → Bool
  | .deletePendingKeyBackup _ | .enqueuePendingKeyBackup .. | .deleteDatabase => true
  | _ => false

section Requests

variable {device : ι → Nat} {i : ι} {s t : Vault ι} {o : VaultOp} {r : VaultRes o}

theorem served_quiet (served : execOf (performVault device) i o s r t)
    (quiet : o = .getRandomValues ∨ (∃ key, o = .storePresign key) ∨ o = .listPendingKeyBackups) :
    t = s := by
  obtain ⟨c, ran⟩ := served
  rcases quiet with rfl | ⟨key, rfl⟩ | rfl <;> cases c <;>
    simp only [performVault, Option.some.injEq, Prod.mk.injEq, reduceCtorEq] at ran <;>
    exact ran.2.symm

theorem vault_pending (served : execOf (performVault device) i o s r t) (quiet : queues o = false) :
    t.pending = s.pending := by
  cases o with
  | server o => exact (served_server served).2
  | put key body =>
    rcases served_put served with rfl | ⟨rfl, _⟩
    · rfl
    · rfl
  | getRandomValues => rw [served_quiet served (.inl rfl)]
  | storePresign key => rw [served_quiet served (.inr (.inl ⟨key, rfl⟩))]
  | listPendingKeyBackups => rw [served_quiet served (.inr (.inr rfl))]
  | _ => cases quiet

theorem vault_sys (served : execOf (performVault device) i o s r t) (queued : queues o = true) :
    t.sys = s.sys := by
  cases o with
  | deletePendingKeyBackup id =>
    rcases served_delete served with rfl | rfl
    · rfl
    · rfl
  | enqueuePendingKeyBackup id key =>
    rcases served_enqueue served with ⟨rfl, _⟩ | ⟨rfl, _⟩
    · rfl
    · rfl
  | deleteDatabase =>
    rcases served_wipe served with rfl | rfl
    · rfl
    · rfl
  | _ => cases queued

/-- One object, before and after a request that may fail. -/
theorem vault_get (served : execOf (performVault device) i o s r t) (key : String) :
    t.sys.objects.get key = s.sys.objects.get key ∨
      (∃ d, puts key o = some d ∧ t.sys.objects.get key = some d) ∨
      (removes key o = true ∧ t.sys.objects.get key = none) := by
  cases queued : queues o with
  | true => exact .inl (by rw [vault_sys served queued])
  | false =>
    cases o with
    | server o => exact served_get (served_server served).1 key
    | put k body =>
      rcases served_put served with rfl | ⟨rfl, _⟩
      · by_cases same : key = k
        · subst same
          exact .inr (.inl ⟨.json body, by simp [puts], by simp [Vault.put, Sys.put]⟩)
        · exact .inl (by simp [Vault.put, Sys.put, same])
      · exact .inl rfl
    | getRandomValues => exact .inl (by rw [served_quiet served (.inl rfl)])
    | storePresign k => exact .inl (by rw [served_quiet served (.inr (.inl ⟨k, rfl⟩))])
    | listPendingKeyBackups => exact .inl (by rw [served_quiet served (.inr (.inr rfl))])
    | _ => cases queued

theorem vault_issued (served : execOf (performVault device) i o s r t) (other : o ≠ .server .newUlid) :
    t.sys.issued = s.sys.issued := by
  cases queued : queues o with
  | true => rw [vault_sys served queued]
  | false =>
    cases o with
    | server o =>
      refine served_issued (served_server served).1 fun same => other ?_
      rw [same]
    | put k body =>
      rcases served_put served with rfl | ⟨rfl, _⟩
      · rfl
      · rfl
    | getRandomValues => rw [served_quiet served (.inl rfl)]
    | storePresign k => rw [served_quiet served (.inr (.inl ⟨k, rfl⟩))]
    | listPendingKeyBackups => rw [served_quiet served (.inr (.inr rfl))]
    | _ => cases queued

end Requests

/-! ### The invariant -/

section Invariant

def LiveKey (key : String) : Prop := startsWith key (prefixKeysLive a.user.str) = true

def ArchiveKey (key : String) : Prop := startsWith key (Paths.keysArchive a.user.str) = true

/-- Some archive has an entry of the session, under an id not in `older`. -/
def FiledSince (older : List String) (sid : String) (s : Vault ι) : Prop :=
  ∃ key entries e, ArchiveKey a key ∧ archiveId key ∉ older ∧
    s.sys.objects.get key = some (.cbor entries) ∧ e ∈ entries ∧ Cbor.msgId e = some sid

/-- A backup of the session is live or in an archive. -/
def Vaulted (sid : String) (s : Vault ι) : Prop :=
  (s.sys.objects.get (Paths.keyBackup a.user.str sid)).isSome = true ∨ FiledSince a [] sid s

/-- Its key waits in the queue of some device. -/
def Queued (sid : String) (s : Vault ι) : Prop :=
  ∃ device, ((s.pending device).get sid).isSome = true

def Retained (sid : String) (s : Vault ι) : Prop := Vaulted a sid s ∨ Queued sid s

variable (device : ι → Nat) (s0 : Vault ι)

/-- Of the requests to the queue of device `d` about this session, the last has put its key in. -/
def Waiting (d : Nat) (sid : String) : List (Event ι VaultOp VaultRes) → Prop
  | [] => ((s0.pending d).get sid).isSome = true
  | ⟨j, .enqueuePendingKeyBackup id _, r⟩ :: earlier =>
    device j = d ∧ id = sid ∧ r = .ok () ∨ Waiting d sid earlier
  | ⟨j, .deletePendingKeyBackup id, _⟩ :: earlier =>
    ¬ (device j = d ∧ id = sid) ∧ Waiting d sid earlier
  | _ :: earlier => Waiting d sid earlier

/-- The database of a device was deleted with the key waiting in it. -/
def Lost (sid : String) (s : History ι) : Prop :=
  ∃ later j r earlier, s.trace = later ++ ⟨j, .deleteDatabase, r⟩ :: earlier ∧
    Waiting device s0 (device j) sid earlier

def Kept (sid : String) (s : History ι) : Prop := Retained a sid s.state ∨ Lost device s0 sid s

/-- Something was once put under this key. -/
def Written (key : String) (s : History ι) : Prop :=
  (s0.sys.objects.get key).isSome = true ∨ ∃ e ∈ s.trace, (puts key e.op).isSome = true

/-- Slot `i` drew this id. -/
def Drew (i : ι) (id : String) (s : History ι) : Prop := ⟨i, .server .newUlid, id⟩ ∈ s.trace

/-- Sound backups only, each under the key of its session, and sound keys in the queues. -/
structure Sealed (s : Vault ι) : Prop where
  live : ∀ key d, LiveKey a key → s.sys.objects.get key = some d →
    ∃ b, Sound a b ∧ key = Paths.keyBackup a.user.str b.sessionId ∧ d = .json b.json
  archive : ∀ key d, ArchiveKey a key → s.sys.objects.get key = some d →
    ∃ entries, d = .cbor entries ∧ ∀ e ∈ entries, ∃ b, Sound a b ∧ e = b.entry
  pending : ∀ device sid text, (s.pending device).get sid = some text → KeyOf a sid text

structure VaultOk (s : History ι) : Prop where
  sealed_ : Sealed a s.state
  waiting : ∀ d sid, ((s.state.pending d).get sid).isSome = true →
    Vaulted a sid s.state ∨ Lost device s0 sid s ∨ Waiting device s0 d sid s.trace
  written : ∀ key, ArchiveKey a key → (s.state.sys.objects.get key).isSome = true → Written s0 key s
  issued : ∀ key, ArchiveKey a key → Written s0 key s → archiveId key ∈ s.state.sys.issued
  drew : ∀ i id, Drew i id s → id ∈ s.state.sys.issued
  drewOnce : ∀ i j id, Drew i id s → Drew j id s → i = j

/-- What one request may change: `mine` are the slots whose own ids it leaves alone. -/
structure Change (mine : ι → Prop) (s t : History ι) : Prop where
  issued : s.state.sys.issued <:+ t.state.sys.issued
  drew : ∀ i id, Drew i id s → Drew i id t
  written : ∀ key, Written s0 key s → Written s0 key t
  fresh : ∀ i key, mine i → ArchiveKey a key → Drew i (archiveId key) s → Written s0 key t →
    Written s0 key s
  archives : ∀ key d, ArchiveKey a key → Written s0 key s → t.state.sys.objects.get key = some d →
    s.state.sys.objects.get key = some d
  filed : ∀ older sid, older <:+ s.state.sys.issued → FiledSince a older sid s.state →
    FiledSince a older sid t.state
  vaulted : ∀ sid, IsSession sid → Vaulted a sid s.state → Vaulted a sid t.state
  kept : ∀ sid, IsSession sid → Kept a device s0 sid s → Kept a device s0 sid t

def vaultRules : Rules ι (History ι) where
  inv := VaultOk a device s0
  guar i := Change a device s0 fun j => j ≠ i
  rely i := Change a device s0 fun j => j = i
  compat i j differ s t _ _ change := by
    refine { change with fresh := fun k key same => change.fresh k key ?_ }
    rw [same]
    exact Ne.symm differ

/-- A vault before any request, with the archives under ids that were issued. -/
structure Prepared : Prop where
  sealed_ : Sealed a s0
  issued : ∀ key, ArchiveKey a key → (s0.sys.objects.get key).isSome = true →
    archiveId key ∈ s0.sys.issued

variable {a device s0}

theorem vault_init (prepared : Prepared a s0) : VaultOk a device s0 (Traced.init s0) where
  sealed_ := prepared.sealed_
  waiting _ _ here := .inr (.inr here)
  written _ _ present := .inl present
  issued key archive used := by
    rcases used with present | ⟨e, none_, _⟩
    · exact prepared.issued key archive present
    · cases none_
  drew _ _ none_ := by cases none_
  drewOnce _ _ _ none_ := by cases none_

end Invariant

/-! ### Keys -/

section Keys

variable {a}

theorem live_not_archive {key : String} (live : LiveKey a key) : ¬ ArchiveKey a key := by
  intro archive
  simp only [LiveKey, ArchiveKey, startsWith, List.isPrefixOf_iff_prefix, prefixKeysLive,
    Paths.keysArchive, String.toList_append] at live archive
  obtain ⟨x, first⟩ := live
  obtain ⟨y, second⟩ := archive
  rw [← second, List.append_assoc, List.append_assoc] at first
  have tails := List.append_cancel_left first
  simp at tails

theorem chain_elsewhere : ¬ LiveKey a (Paths.keyChain a.user.str) ∧
    ¬ ArchiveKey a (Paths.keyChain a.user.str) := by
  constructor
  · intro live
    simp [LiveKey, startsWith, prefixKeysLive, Paths.keyChain] at live
  · intro archive
    simp [ArchiveKey, startsWith, Paths.keysArchive, Paths.keyChain] at archive

theorem live_backup (sid : String) : LiveKey a (Paths.keyBackup a.user.str sid) := by
  rw [LiveKey, keyBackup_eq]
  exact startsWith_append _ _

theorem backup_inj {sid sid' : String} (session : IsSession sid) (session' : IsSession sid')
    (same : Paths.keyBackup a.user.str sid = Paths.keyBackup a.user.str sid') : sid = sid' :=
  keyBackup_inj a.user.str session.base64 session'.base64 session.unpadded session'.unpadded same

end Keys

/-! ### One request -/

section Steps

variable {a} {device : ι → Nat} {s0 : Vault ι} {i : ι} {s t : History ι} {o : VaultOp} {r : VaultRes o}

theorem written_served (served : Serving device i o s r t) (key : String) :
    Written s0 key t ↔ (puts key o).isSome = true ∨ Written s0 key s := by
  simp only [Written, served.2, List.mem_cons, exists_eq_or_imp]
  exact or_left_comm

theorem drew_served (served : Serving device i o s r t) (other : o ≠ .server .newUlid) (j : ι)
    (id : String) : Drew j id t ↔ Drew j id s := by
  simp only [Drew, served.2, List.mem_cons]
  refine ⟨fun either => either.resolve_left fun same => ?_, .inr⟩
  cases same
  exact other rfl

theorem Lost.later {sid : String} (lost : Lost device s0 sid s) (served : Serving device i o s r t) :
    Lost device s0 sid t := by
  obtain ⟨later, j, r', earlier, split, waited⟩ := lost
  refine ⟨⟨i, o, r⟩ :: later, j, r', earlier, ?_, waited⟩
  rw [served.2, split, List.cons_append]

/-- A request to no queue. -/
theorem waiting_quiet (quiet : queues o = false) (d : Nat) (sid : String)
    (earlier : List (Event ι VaultOp VaultRes)) :
    Waiting device s0 d sid (⟨i, o, r⟩ :: earlier) ↔ Waiting device s0 d sid earlier := by
  cases o with
  | deletePendingKeyBackup | enqueuePendingKeyBackup | deleteDatabase => cases quiet
  | _ => exact Iff.rfl

variable (a s0 i s o) in
/-- What a request may do to the objects of the vault. -/
structure Allowed : Prop where
  putsLive : ∀ key d, puts key o = some d → LiveKey a key →
    ∃ b, Sound a b ∧ key = Paths.keyBackup a.user.str b.sessionId ∧ d = .json b.json
  putsArchive : ∀ key d, puts key o = some d → ArchiveKey a key → Drew i (archiveId key) s ∧
    ¬ Written s0 key s ∧ ∃ entries, d = .cbor entries ∧ ∀ e ∈ entries, ∃ b, Sound a b ∧ e = b.entry
  removesLive : ∀ sid, IsSession sid → removes (Paths.keyBackup a.user.str sid) o = true →
    FiledSince a [] sid s.state
  removesArchive : ∀ older sid, older <:+ s.state.sys.issued → FiledSince a older sid s.state →
    ∃ key entries e, ArchiveKey a key ∧ archiveId key ∉ older ∧ removes key o = false ∧
      s.state.sys.objects.get key = some (.cbor entries) ∧ e ∈ entries ∧ Cbor.msgId e = some sid

/-- A request that does no more, and leaves the queues alone, keeps the invariant. -/
theorem allowed_step (vault : VaultOk a device s0 s) (served : Serving device i o s r t)
    (other : o ≠ .server .newUlid) (quiet : queues o = false) (allowed : Allowed a s0 i s o)
    {mine : ι → Prop}
    (spares : ∀ j key, mine j → ArchiveKey a key → (puts key o).isSome = true → j ≠ i) :
    VaultOk a device s0 t ∧ Change a device s0 mine s t := by
  have object (key : String) := vault_get served.1 key
  have pending := vault_pending served.1 quiet
  have issued := vault_issued served.1 other
  have writtenKept (key : String) (used : Written s0 key s) : Written s0 key t :=
    (written_served served key).mpr (.inr used)
  -- an archive that files a backup goes only where a younger one files it
  have filed (older : List String) (sid : String) (past : older <:+ s.state.sys.issued)
      (here : FiledSince a older sid s.state) : FiledSince a older sid t.state := by
    obtain ⟨key, entries, e, archive, young, kept, found, member⟩ :=
      allowed.removesArchive older sid past here
    refine ⟨key, entries, e, archive, young, ?_, member⟩
    rcases object key with same | ⟨d, put, _⟩ | ⟨removed, _⟩
    · rw [same, found]
    · exact absurd (vault.written key archive (by rw [found]; rfl))
        (allowed.putsArchive key d put archive).2.1
    · rw [kept] at removed
      cases removed
  -- a live backup goes only where an archive files it
  have vaulted (sid : String) (session : IsSession sid) (here : Vaulted a sid s.state) :
      Vaulted a sid t.state := by
    rcases here with live | old
    · rcases object (Paths.keyBackup a.user.str sid) with same | ⟨d, _, now⟩ | ⟨removed, _⟩
      · exact .inl (same ▸ live)
      · exact .inl (by rw [now]; rfl)
      · exact .inr (filed [] sid List.nil_suffix (allowed.removesLive sid session removed))
    · exact .inr (filed [] sid List.nil_suffix old)
  -- the objects of the vault: each is as before, newly written or gone
  refine ⟨⟨⟨?_, ?_, ?_⟩, ?_, ?_, ?_, ?_, ?_⟩, ⟨?_, ?_, writtenKept, ?_, ?_, filed, vaulted, ?_⟩⟩
  · intro key d live found
    rcases object key with same | ⟨d', put, now⟩ | ⟨_, gone⟩
    · exact vault.sealed_.live key d live (same ▸ found)
    · cases now.symm.trans found
      exact allowed.putsLive key d put live
    · rw [gone] at found
      cases found
  · intro key d archive found
    rcases object key with same | ⟨d', put, now⟩ | ⟨_, gone⟩
    · exact vault.sealed_.archive key d archive (same ▸ found)
    · cases now.symm.trans found
      exact (allowed.putsArchive key d put archive).2.2
    · rw [gone] at found
      cases found
  · rw [pending]
    exact vault.sealed_.pending
  · -- the queues are as before, and what was waiting still is
    intro d sid here
    rw [pending] at here
    obtain ⟨text, queued⟩ := Option.isSome_iff_exists.mp here
    have session := (vault.sealed_.pending d sid text queued).session
    rcases vault.waiting d sid here with stored | lost | waits
    · exact .inl (vaulted sid session stored)
    · exact .inr (.inl (lost.later served))
    · rw [served.2]
      exact .inr (.inr ((waiting_quiet quiet d sid _).mpr waits))
  · intro key archive present
    rcases object key with same | ⟨d', put, _⟩ | ⟨_, gone⟩
    · exact writtenKept key (vault.written key archive (same ▸ present))
    · exact (written_served served key).mpr (.inl (by rw [put]; rfl))
    · rw [gone] at present
      cases present
  · -- the ids that archives are named by
    intro key archive used
    rw [issued]
    rcases (written_served served key).mp used with put | old
    · obtain ⟨d, put⟩ := Option.isSome_iff_exists.mp put
      exact vault.drew _ _ (allowed.putsArchive key d put archive).1
    · exact vault.issued key archive old
  · intro j id drew
    rw [issued]
    exact vault.drew j id ((drew_served served other j id).mp drew)
  · intro j k id first second
    exact vault.drewOnce j k id ((drew_served served other j id).mp first)
      ((drew_served served other k id).mp second)
  · -- what has changed since
    exact issued ▸ List.suffix_rfl
  · intro j id drew
    exact (drew_served served other j id).mpr drew
  · intro j key own archive drew used
    refine ((written_served served key).mp used).resolve_left fun put => ?_
    obtain ⟨d, written⟩ := Option.isSome_iff_exists.mp put
    exact spares j key own archive put
      (vault.drewOnce _ _ _ drew (allowed.putsArchive key d written archive).1)
  · intro key d archive used found
    rcases object key with same | ⟨d', put, _⟩ | ⟨_, gone⟩
    · exact same ▸ found
    · exact absurd used (allowed.putsArchive key d' put archive).2.1
    · rw [gone] at found
      cases found
  · rintro sid session ((here | ⟨queue, here⟩) | lost)
    · exact .inl (.inl (vaulted sid session here))
    · exact .inl (.inr ⟨queue, pending ▸ here⟩)
    · exact .inr (lost.later served)

/-- A request to a queue: what leaves it is in the vault or lost, what enters it is a session key. -/
theorem queue_step (vault : VaultOk a device s0 s) (served : Serving device i o s r t)
    (queued : queues o = true)
    (enters : ∀ d sid text, (t.state.pending d).get sid = some text → KeyOf a sid text ∧
      (Vaulted a sid s.state ∨ Lost device s0 sid t ∨ Waiting device s0 d sid t.trace))
    (leaves : ∀ sid, Queued sid s.state →
      Vaulted a sid s.state ∨ Queued sid t.state ∨ Lost device s0 sid t)
    (mine : ι → Prop) : VaultOk a device s0 t ∧ Change a device s0 mine s t := by
  have sys := vault_sys served.1 queued
  have nothing (key : String) : puts key o = none := by
    cases o <;> first | rfl | cases queued
  have written (key : String) : Written s0 key t ↔ Written s0 key s := by
    rw [written_served served, nothing]
    simp
  have other : o ≠ .server .newUlid := by
    rintro rfl
    cases queued
  have filed (older : List String) (sid : String) :
      FiledSince a older sid t.state ↔ FiledSince a older sid s.state := by
    rw [FiledSince, FiledSince, sys]
  have vaulted (sid : String) : Vaulted a sid t.state ↔ Vaulted a sid s.state := by
    rw [Vaulted, Vaulted, sys, filed]
  -- the store is as before, so all that is left are the queues
  refine ⟨⟨⟨?_, ?_, fun d sid text found => (enters d sid text found).1⟩, ?_, ?_, ?_, ?_, ?_⟩,
    ⟨?_, ?_, ?_, ?_, ?_, ?_, ?_, ?_⟩⟩
  · rw [sys]; exact vault.sealed_.live
  · rw [sys]; exact vault.sealed_.archive
  · intro d sid here
    obtain ⟨text, found⟩ := Option.isSome_iff_exists.mp here
    exact (enters d sid text found).2.imp_left (vaulted sid).mpr
  · intro key archive present
    rw [sys] at present
    exact (written key).mpr (vault.written key archive present)
  · intro key archive used
    rw [sys]
    exact vault.issued key archive ((written key).mp used)
  · intro j id drew
    rw [sys]
    exact vault.drew j id ((drew_served served other j id).mp drew)
  · intro j k id first second
    exact vault.drewOnce j k id ((drew_served served other j id).mp first)
      ((drew_served served other k id).mp second)
  · exact sys ▸ List.suffix_rfl
  · intro j id drew
    exact (drew_served served other j id).mpr drew
  · exact fun key used => (written key).mpr used
  · exact fun j key _ _ _ used => (written key).mp used
  · intro key d _ _ found
    exact sys ▸ found
  · exact fun older sid _ here => (filed older sid).mpr here
  · exact fun sid _ here => (vaulted sid).mpr here
  · rintro sid session ((here | here) | lost)
    · exact .inl (.inl ((vaulted sid).mpr here))
    · rcases leaves sid here with stored | waits | lost
      · exact .inl (.inl ((vaulted sid).mpr stored))
      · exact .inl (.inr waits)
      · exact .inr lost
    · exact .inr (lost.later served)

end Steps

end Atmin.Web.KeyVault
