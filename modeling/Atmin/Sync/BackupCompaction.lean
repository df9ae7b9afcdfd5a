import Atmin.Inbox.Contracts
import Atmin.Sync.BackupVault

/-!
# Compaction keeps the vault

A compaction of key backups works on a vault that other slots write to. Until its delete it carries,
for each live key, the session of the key, which is among the entries read or in some archive, and
for each archive key, that all its entries are among those read.
-/

namespace Atmin.Web.KeyVault

open Interaction

section Compaction

variable {ι CryptoKey : Type} {a : Keyring CryptoKey} {device : ι → Nat} {s0 : Vault ι} {i : ι}

/-! ### Requests that go unnoticed -/

section Unnoticed

variable {s t : History ι} {o : VaultOp}

/-- A request that deletes no archive empties none. -/
theorem keeps_filed (keeps : ∀ key, ArchiveKey a key → removes key o = false) {older : List String}
    {sid : String} (here : FiledSince a older sid s.state) :
    ∃ key entries e, ArchiveKey a key ∧ archiveId key ∉ older ∧ removes key o = false ∧
      s.state.sys.objects.get key = some (.cbor entries) ∧ e ∈ entries ∧ Cbor.msgId e = some sid := by
  obtain ⟨key, entries, e, archive, young, found, member⟩ := here
  exact ⟨key, entries, e, archive, young, keeps key archive, found, member⟩

/-- A request that writes and deletes nothing in the vault. -/
theorem allowed_of_idle (puts_ : ∀ key, LiveKey a key ∨ ArchiveKey a key → puts key o = none)
    (keeps : ∀ key, LiveKey a key ∨ ArchiveKey a key → removes key o = false) :
    Allowed a s0 i s o where
  putsLive key d put live := by
    rw [puts_ key (.inl live)] at put
    cases put
  putsArchive key d put archive := by
    rw [puts_ key (.inr archive)] at put
    cases put
  removesLive sid _ removed := by
    rw [keeps _ (.inl (live_backup sid))] at removed
    cases removed
  removesArchive _ _ _ here := keeps_filed (fun key archive => keeps key (.inr archive)) here

/-- Outside the vault, a request goes unnoticed. -/
theorem idle_unnoticed (other : o ≠ .server .newUlid) (quiet : queues o = false)
    (puts_ : ∀ key, LiveKey a key ∨ ArchiveKey a key → puts key o = none)
    (keeps : ∀ key, LiveKey a key ∨ ArchiveKey a key → removes key o = false) :
    Unnoticed (vaultRules a device s0) (Serving device) i o := by
  refine .of fun s r t vault served => ?_
  have step (mine : ι → Prop) : VaultOk a device s0 t ∧ Change a device s0 mine s t := by
    refine allowed_step vault served other quiet (allowed_of_idle puts_ keeps) ?_
    intro j key _ archive put
    rw [puts_ key (.inr archive)] at put
    cases put
  exact ⟨(step fun _ => True).1, (step _).2, (step _).2⟩

/-- A new id goes unnoticed. -/
theorem mint_unnoticed : Unnoticed (vaultRules a device s0) (Serving device) i (.server .newUlid) := by
  refine .of fun s r t vault served => ?_
  obtain ⟨drawn, pending⟩ := served_server served.1
  obtain ⟨_, new, after⟩ := served_newUlid drawn
  have written (key : String) : Written s0 key t ↔ Written s0 key s := by
    rw [written_served served]
    simp [puts, Op.puts]
  have objects : t.state.sys.objects = s.state.sys.objects := by rw [after]
  have issued : t.state.sys.issued = r :: s.state.sys.issued := by rw [after]
  have filed (older : List String) (sid : String) :
      FiledSince a older sid t.state ↔ FiledSince a older sid s.state := by
    rw [FiledSince, FiledSince, objects]
  have vaulted (sid : String) : Vaulted a sid t.state ↔ Vaulted a sid s.state := by
    rw [Vaulted, Vaulted, objects, filed]
  -- only the new id is new
  have drew (j : ι) (id : String) (drew : Drew j id t) : j = i ∧ id = r ∨ Drew j id s := by
    unfold Drew at drew
    rw [served.2] at drew
    rcases List.mem_cons.mp drew with same | old
    · cases same
      exact .inl ⟨rfl, rfl⟩
    · exact .inr old
  have change (mine : ι → Prop) : Change a device s0 mine s t := by
    refine ⟨⟨[r], by rw [issued]; rfl⟩, ?_, fun key h => (written key).mpr h,
      fun j key _ _ _ h => (written key).mp h, fun key d _ _ => by rw [objects]; exact id,
      fun older sid _ => (filed older sid).mpr, fun sid _ => (vaulted sid).mpr, ?_⟩
    · intro j id drew
      unfold Drew
      rw [served.2]
      exact List.mem_cons_of_mem _ drew
    · rintro sid _ ((here | ⟨queue, here⟩) | lost)
      · exact .inl (.inl ((vaulted sid).mpr here))
      · exact .inl (.inr ⟨queue, pending ▸ here⟩)
      · exact .inr (lost.later served)
  -- the vault, whose objects and queues are as before
  refine ⟨⟨⟨?_, ?_, ?_⟩, ?_, ?_, ?_, ?_, ?_⟩, change _, change _⟩
  · rw [objects]; exact vault.sealed_.live
  · rw [objects]; exact vault.sealed_.archive
  · rw [pending]; exact vault.sealed_.pending
  · intro d sid here
    rw [pending] at here
    rcases vault.waiting d sid here with stored | lost | waits
    · exact .inl ((vaulted sid).mpr stored)
    · exact .inr (.inl (lost.later served))
    · rw [served.2]
      exact .inr (.inr ((waiting_quiet rfl d sid _).mpr waits))
  · intro key archive present
    rw [objects] at present
    exact (written key).mpr (vault.written key archive present)
  · intro key archive used
    rw [issued]
    exact List.mem_cons_of_mem _ (vault.issued key archive ((written key).mp used))
  · intro j id drawn
    rw [issued]
    rcases drew j id drawn with ⟨_, rfl⟩ | old
    · exact List.mem_cons_self
    · exact List.mem_cons_of_mem _ (vault.drew j id old)
  · -- the new id was nobody's
    intro j k id first second
    rcases drew j id first with ⟨rfl, rfl⟩ | old
    · rcases drew k id second with ⟨rfl, _⟩ | old'
      · rfl
      · exact absurd (vault.drew k id old') new
    · rcases drew k id second with ⟨rfl, rfl⟩ | old'
      · exact absurd (vault.drew j id old) new
      · exact vault.drewOnce j k id old old'

end Unnoticed

/-! ### Handlers -/

/-- The requests of a handler. -/
abbrev OnServer (device : ι → Nat) : ι → (o : Op) → History ι → Res o → History ι → Prop :=
  fun i o => Serving device i (.server o)

/-- A handler that is safe request by request. -/
theorem onServer_safe {α : Type} {Q : Except ApiError α → History ι → Prop} {h : Handler α}
    {s : History ι} (safe : Safe (vaultRules a device s0) (OnServer device) i Q h.run s) :
    Safe (vaultRules a device s0) (Serving device) i Q (onServer h) s := by
  unfold onServer
  generalize h.run = p at safe
  induction p generalizing s with
  | ret r => exact safe
  | op o k ih =>
    intro t moved vault r u served
    obtain ⟨kept, guar, rest⟩ := safe t moved vault r u served
    exact ⟨kept, guar, ih r rest⟩

theorem onServer_unnoticed {o : Op}
    (quiet : Unnoticed (vaultRules a device s0) (Serving device) i (.server o)) :
    Unnoticed (vaultRules a device s0) (OnServer device) i o :=
  fun A => quiet A

theorem passive_unnoticed (o : Op) (passive : o.passive = true) :
    Unnoticed (vaultRules a device s0) (OnServer device) i o := by
  apply onServer_unnoticed
  refine idle_unnoticed ?_ rfl (fun key _ => Op.puts_passive passive key)
    fun key _ => Op.removes_passive passive key
  rintro ⟨⟩
  cases passive

theorem reads_unnoticed (o : Op) (reads : o.reads = true) :
    Unnoticed (vaultRules a device s0) (OnServer device) i o :=
  passive_unnoticed o (Op.passive_of_reads reads)

/-! ### What a compaction knows of its keys -/

section Assertions

/-- An assertion that survives whatever a request may do, its own archive write included. -/
def Lasting (a : Keyring CryptoKey) (device : ι → Nat) (s0 : Vault ι) (A : History ι → Prop) : Prop :=
  ∀ mine s t, Change a device s0 mine s t → A s → A t

theorem Lasting.stable {A : History ι → Prop} (lasting : Lasting a device s0 A) :
    (vaultRules a device s0).Stable i A :=
  fun s t _ _ change => lasting (fun j => j = i) s t change

abbrev VaultAssertion (a : Keyring CryptoKey) (device : ι → Nat) (s0 : Vault ι) (i : ι) :=
  (vaultRules a device s0).Assertion i

/-- The key was listed, so a backup of its session has been stored. -/
def ListedLive (a : Keyring CryptoKey) (key : String) (s : History ι) : Prop :=
  ∃ sid, IsSession sid ∧ key = Paths.keyBackup a.user.str sid ∧ Vaulted a sid s.state

/-- It was read: its session is among the entries, or in some archive. -/
def ReadLive (a : Keyring CryptoKey) (key : String) (entries : List Value) (s : History ι) : Prop :=
  ∃ sid, IsSession sid ∧ key = Paths.keyBackup a.user.str sid ∧
    ((∃ e ∈ entries, Cbor.msgId e = some sid) ∨ FiledSince a [] sid s.state)

def ListedArchive (a : Keyring CryptoKey) (s0 : Vault ι) (key : String) (s : History ι) : Prop :=
  ArchiveKey a key ∧ Written s0 key s

def ReadArchive (a : Keyring CryptoKey) (s0 : Vault ι) (key : String) (entries : List Value)
    (s : History ι) : Prop :=
  ListedArchive a s0 key s ∧ ∀ d, s.state.sys.objects.get key = some d →
    ∃ es, d = .cbor es ∧ ∀ x ∈ es, x ∈ entries

/-- Slot `i` drew `id` and has not put anything under it. -/
def Unspent (a : Keyring CryptoKey) (s0 : Vault ι) (i : ι) (id : String) (s : History ι) : Prop :=
  Drew i id s ∧ ∀ key, ArchiveKey a key → archiveId key = id → ¬ Written s0 key s

/-- The sessions of the entries are in archives younger than `older`. -/
def Archived (a : Keyring CryptoKey) (older : List String) (entries : List Value)
    (s : History ι) : Prop :=
  older <:+ s.state.sys.issued ∧ ∀ e ∈ entries, ∀ sid, Cbor.msgId e = some sid →
    FiledSince a older sid s.state

theorem lasting_listedLive (key : String) : Lasting a device s0 (ListedLive a key) := by
  rintro mine s t change ⟨sid, session, same, here⟩
  exact ⟨sid, session, same, change.vaulted sid session here⟩

theorem lasting_readLive (key : String) (entries : List Value) :
    Lasting a device s0 (ReadLive a key entries) := by
  rintro mine s t change ⟨sid, session, same, here⟩
  exact ⟨sid, session, same, here.imp_right (change.filed [] sid List.nil_suffix)⟩

theorem lasting_listedArchive (key : String) : Lasting a device s0 (ListedArchive a s0 key) := by
  rintro mine s t change ⟨archive, used⟩
  exact ⟨archive, change.written key used⟩

theorem lasting_readArchive (key : String) (entries : List Value) :
    Lasting a device s0 (ReadArchive a s0 key entries) := by
  rintro mine s t change ⟨listed, read⟩
  refine ⟨lasting_listedArchive key mine s t change listed, fun d found => ?_⟩
  exact read d (change.archives key d listed.1 listed.2 found)

theorem stable_unspent (id : String) : (vaultRules a device s0).Stable i (Unspent a s0 i id) := by
  intro s t _ _ change unspent
  refine ⟨change.drew i id unspent.1, fun key archive same used => ?_⟩
  have drew : Drew i (archiveId key) s := same ▸ unspent.1
  exact unspent.2 key archive same (change.fresh i key rfl archive drew used)

theorem stable_archived (older : List String) (entries : List Value) :
    (vaultRules a device s0).Stable i (Archived a older entries) := by
  intro s t _ _ change archived
  refine ⟨archived.1.trans change.issued, fun e member sid named => ?_⟩
  exact change.filed older sid archived.1 (archived.2 e member sid named)

def liveListed (key : String) : VaultAssertion a device s0 i :=
  ⟨ListedLive a key, (lasting_listedLive key).stable⟩

def liveRead (key : String) (entries : List Value) : VaultAssertion a device s0 i :=
  ⟨ReadLive a key entries, (lasting_readLive key entries).stable⟩

def archiveListed (key : String) : VaultAssertion a device s0 i :=
  ⟨ListedArchive a s0 key, (lasting_listedArchive key).stable⟩

def archiveRead (key : String) (entries : List Value) : VaultAssertion a device s0 i :=
  ⟨ReadArchive a s0 key entries, (lasting_readArchive key entries).stable⟩

def unspent (id : String) : VaultAssertion a device s0 i := ⟨Unspent a s0 i id, stable_unspent id⟩

def archived (older : List String) (entries : List Value) : VaultAssertion a device s0 i :=
  ⟨Archived a older entries, stable_archived older entries⟩

/-- All keys of a compaction, with the entries read from them. -/
def inHand (live archives : List String) (new existing : List Value) : VaultAssertion a device s0 i :=
  (Rules.Assertion.each live fun key => liveRead key new).and
    (.each archives fun key => archiveRead key existing)

theorem lasting_inHand {live archives : List String} {new existing : List Value} :
    Lasting a device s0 (inHand live archives new existing : VaultAssertion a device s0 i) := by
  intro mine s t change hand
  constructor
  · exact fun key member => lasting_readLive key new mine s t change (hand.1 key member)
  · exact fun key member => lasting_readArchive key existing mine s t change (hand.2 key member)

end Assertions

/-! ### The requests of a compaction -/

section Requests

abbrev VaultServes (a : Keyring CryptoKey) (s0 : Vault ι) (device : ι → Nat) (i : ι) (o : Op)
    (P : History ι → Prop) (R : Res o → History ι → Prop) : Prop :=
  Serves (vaultRules a device s0) (OnServer device) i o P R

/-- The entries of sound backups. -/
def Genuine (a : Keyring CryptoKey) (e : Value) : Prop := ∃ b, Sound a b ∧ e = b.entry

theorem listed_ok {pre : String} {limit : Nat} {cursor : Option String} {s t : Sys ι}
    {page : ListPage} (served : Faulty i (.listObjects pre limit cursor) s (.ok page) t) :
    t = s ∧ page = s.listing pre limit cursor := by
  obtain ⟨same, found | ⟨_, _, _, fault⟩⟩ := served_listObjects served
  · exact ⟨same, Except.ok.inj found⟩
  · cases fault

theorem got_ok {key : String} {s t : Sys ι} {d : Data}
    (served : Faulty i (.getObject key) s (.ok d) t) : t = s ∧ s.objects.get key = some d := by
  obtain ⟨same, found | ⟨_, _, _, fault⟩⟩ := served_getObject served
  · exact ⟨same, lookup_eq_ok.mp found.symm⟩
  · cases fault

theorem got_notFound {key : String} {s t : Sys ι}
    (served : Faulty i (.getObject key) s (.error .notFound) t) :
    t = s ∧ s.objects.get key = none := by
  obtain ⟨same, found | ⟨_, _, _, fault⟩⟩ := served_getObject served
  · refine ⟨same, ?_⟩
    cases here : s.objects.get key with
    | none => rfl
    | some d =>
      rw [lookup_eq_ok.mpr here] at found
      cases found
  · cases fault

theorem lists_live : Lists (vaultRules a device s0) (OnServer device) i (prefixKeysLive a.user.str)
    liveListed := by
  intro limit cursor
  refine (passive_unnoticed _ rfl).serves (.pure True) fun s r t vault _ served => ?_
  rintro page rfl key member
  obtain ⟨same, rfl⟩ := listed_ok (served_server served.1).1
  obtain ⟨⟨d, here⟩, live⟩ := ObjectMap.mem_page _ _ _ _ _ member
  obtain ⟨b, sound, named, _⟩ := vault.sealed_.live key d live here
  refine ⟨b.sessionId, sound.session, named, .inl ?_⟩
  rw [same, ← named, here]
  rfl

theorem lists_archives (day : String) : Lists (vaultRules a device s0) (OnServer device) i
    (Paths.keysArchive a.user.str ++ day) archiveListed := by
  intro limit cursor
  refine (passive_unnoticed _ rfl).serves (.pure True) fun s r t vault _ served => ?_
  rintro page rfl key member
  obtain ⟨_, rfl⟩ := listed_ok (served_server served.1).1
  obtain ⟨⟨d, here⟩, within⟩ := ObjectMap.mem_page _ _ _ _ _ member
  have archive : ArchiveKey a key := startsWith_trans within (startsWith_append _ _)
  refine ⟨archive, (written_served served key).mpr (.inr ?_)⟩
  exact vault.written key archive (by rw [here]; rfl)

theorem reads_live (key : String) :
    VaultServes a s0 device i (.getObject key) (ListedLive a key) fun r t =>
      (r = .error .notFound → ReadLive a key [] t) ∧
        ∀ d es, r = .ok d → (d.asValue.map fun v => [v]) = some es →
          ReadLive a key es t ∧ ∀ x ∈ es, Genuine a x := by
  refine (passive_unnoticed _ rfl).serves (liveListed key) fun s r t vault listed served => ?_
  obtain ⟨sid, session, rfl, stored⟩ := listed
  constructor
  · rintro rfl
    obtain ⟨same, absent⟩ := got_notFound (served_server served.1).1
    -- The key was listed, so its session had been stored; now only an archive can have it.
    rcases stored with live | old
    · rw [absent] at live
      cases live
    · refine ⟨sid, session, rfl, .inr ?_⟩
      unfold FiledSince
      rw [same]
      exact old
  · rintro d es rfl decoded
    obtain ⟨_, here⟩ := got_ok (served_server served.1).1
    obtain ⟨b, sound, named, rfl⟩ := vault.sealed_.live _ d (live_backup sid) here
    have own : sid = b.sessionId := backup_inj session sound.session named
    have value : b.json = (KeyBackup.envelope b.v.get.toNat (btoa b.iv) (btoa b.ciphertext)
      (some b.sessionId)).toJson := rfl
    rw [value, KeyBackup.asValue_envelope b.v b.iv b.ciphertext sound.session.nonempty] at decoded
    cases decoded
    refine ⟨⟨sid, session, rfl, .inl ⟨b.entry, List.mem_cons_self, ?_⟩⟩, fun x member => ?_⟩
    · rw [own, b.entry_msgId]
    · rw [List.mem_singleton.mp member]
      exact ⟨b, sound, rfl⟩

theorem reads_archive (key : String) :
    VaultServes a s0 device i (.getObject key) (ListedArchive a s0 key) fun r t =>
      (r = .error .notFound → ReadArchive a s0 key [] t) ∧
        ∀ d es, r = .ok d → Cbor.decodeArchive d = some es →
          ReadArchive a s0 key es t ∧ ∀ x ∈ es, Genuine a x := by
  refine (passive_unnoticed _ rfl).serves (archiveListed key) fun s r t vault listed served => ?_
  have used : Written s0 key t := (written_served served key).mpr (.inr listed.2)
  constructor
  · rintro rfl
    obtain ⟨same, absent⟩ := got_notFound (served_server served.1).1
    refine ⟨⟨listed.1, used⟩, fun d found => ?_⟩
    rw [same, absent] at found
    cases found
  · rintro d es rfl decoded
    obtain ⟨same, here⟩ := got_ok (served_server served.1).1
    obtain ⟨entries, rfl, genuine⟩ := vault.sealed_.archive key d listed.1 here
    cases decoded
    refine ⟨⟨⟨listed.1, used⟩, fun d found => ?_⟩, genuine⟩
    rw [same, here] at found
    cases found
    exact ⟨es, rfl, fun _ member => member⟩

/-- A new id is in no archive key, and every archive key in hand is older. -/
theorem mints : VaultServes a s0 device i .newUlid (fun _ => True) fun id t =>
    Unspent a s0 i id t ∧ id.toList.length = 26 ∧ ∃ older, older <:+ t.state.sys.issued ∧
      id ∉ older ∧ ∀ key, ArchiveKey a key → Written s0 key t → archiveId key ∈ older := by
  refine (onServer_unnoticed mint_unnoticed).serves (.pure True) fun s id t vault _ served => ?_
  obtain ⟨valid, new, after⟩ := served_newUlid (served_server served.1).1
  have issued : t.state.sys.issued = id :: s.state.sys.issued := by rw [after]
  have older (key : String) (archive : ArchiveKey a key) (used : Written s0 key t) :
      archiveId key ∈ s.state.sys.issued := by
    rcases (written_served served key).mp used with put | old
    · cases put
    · exact vault.issued key archive old
  refine ⟨⟨?_, fun key archive same used => ?_⟩, validateUlid_length valid,
    s.state.sys.issued, ⟨[id], by rw [issued]; rfl⟩, new, older⟩
  · unfold Drew
    rw [served.2]
    exact List.mem_cons_self
  · exact new (same ▸ older key archive used)

/-- The archive is written under the id just drawn. -/
theorem archives {older : List String} {id day : String} {merged : List Value}
    {A : History ι → Prop} (lasting : Lasting a device s0 A) (size : id.toList.length = 26)
    (young : id ∉ older) (genuine : ∀ x ∈ merged, Genuine a x) :
    VaultServes a s0 device i
      (.putObject (Paths.keysArchive a.user.str ++ day ++ "-" ++ id) (Cbor.encodeArchive merged))
      (fun s => A s ∧ Unspent a s0 i id s ∧ older <:+ s.state.sys.issued)
      fun r t => A t ∧ (r = .ok () → Archived a older merged t) := by
  intro s r t vault holds served
  obtain ⟨here, fresh, past⟩ := holds
  let key := Paths.keysArchive a.user.str ++ day ++ "-" ++ id
  have archive : ArchiveKey a key := by
    have whole : key = Paths.keysArchive a.user.str ++ (day ++ "-" ++ id) := by
      simp only [key, String.append_assoc]
    rw [whole]
    exact startsWith_append _ _
  -- the archive is named by the id that was minted for it, so it replaces none
  have named : archiveId key = id := archiveId_append size
  have written {k : String} {d : Data}
      (put : puts k (.server (.putObject key (Cbor.encodeArchive merged))) = some d) :
      k = key ∧ d = .cbor merged := by
    simp only [puts, Op.puts, Option.ite_none_right_eq_some, Option.some.injEq] at put
    exact ⟨put.1, put.2.symm⟩
  have allowed : Allowed a s0 i s (.server (.putObject key (Cbor.encodeArchive merged))) := by
    -- it is no live backup, and all its entries are genuine
    refine ⟨fun k d put live => ?_, fun k d put _ => ?_, fun _ _ removed => ?_,
      fun _ _ _ filed => keeps_filed (fun _ _ => rfl) filed⟩
    · rw [(written put).1] at live
      exact absurd archive (live_not_archive live)
    · obtain ⟨rfl, rfl⟩ := written put
      exact ⟨named ▸ fresh.1, fresh.2 _ archive named, merged, rfl, genuine⟩
    · cases removed
  have step := allowed_step vault served (fun h => by cases h) rfl allowed
    (fun j k own _ _ => own : ∀ j k, j ≠ i → ArchiveKey a k → _ → j ≠ i)
  refine ⟨step.1, step.2, lasting _ s t step.2 here, fun ok => ⟨past.trans step.2.issued, ?_⟩⟩
  intro e member sid id_
  refine ⟨key, merged, e, archive, named ▸ young, ?_, member, id_⟩
  -- where the put succeeded, the archive is there
  rcases served_putObject (served_server served.1).1 with ⟨_, after⟩ | ⟨⟨_, _, _, fault⟩, _⟩
  · rw [after]
    simp [Sys.put, Cbor.encodeArchive, key]
  · rw [ok] at fault
    cases fault

/-- What was read is archived by now: the delete loses nothing. -/
theorem deletes {older live archives : List String} {new existing merged : List Value}
    (ids : ∀ key ∈ archives, archiveId key ∈ older)
    (holdsNew : ∀ e ∈ new, ∀ sid, Cbor.msgId e = some sid → ∃ e' ∈ merged, Cbor.msgId e' = some sid)
    (holdsOld : ∀ e ∈ existing, ∀ sid, Cbor.msgId e = some sid →
      ∃ e' ∈ merged, Cbor.msgId e' = some sid) :
    VaultServes a s0 device i (.deleteObjects (live ++ archives))
      (fun s => (inHand live archives new existing : VaultAssertion a device s0 i) s ∧
        Archived a older merged s) fun _ _ => True := by
  intro s r t vault holds served
  obtain ⟨⟨lives, olds⟩, past, files⟩ := holds
  have removed {key : String}
      (gone : removes key (.server (.deleteObjects (live ++ archives))) = true) :
      key ∈ live ∨ key ∈ archives := by
    simpa [removes, Op.removes] using gone
  have liveOnly {key : String} (member : key ∈ live) : LiveKey a key := by
    obtain ⟨sid, _, rfl, _⟩ := lives key member
    exact live_backup sid
  have allowed : Allowed a s0 i s (.server (.deleteObjects (live ++ archives))) := by
    refine ⟨fun _ _ put => (by cases put), fun _ _ put => (by cases put),
      fun sid session gone => ?_, fun old sid suffix filed => ?_⟩
    · rcases removed gone with member | member
      · obtain ⟨sid', session', same, read | filed⟩ := lives _ member
        · cases backup_inj session session' same
          obtain ⟨e, inNew, named⟩ := read
          obtain ⟨e', inMerged, named'⟩ := holdsNew e inNew sid named
          obtain ⟨key, entries, x, archive, _, rest⟩ := files e' inMerged sid named'
          exact ⟨key, entries, x, archive, List.not_mem_nil, rest⟩
        · cases backup_inj session session' same
          exact filed
      · exact absurd (olds _ member).1.1 (live_not_archive (live_backup sid))
    · obtain ⟨key, entries, e, archive, young, here, member, named⟩ := filed
      by_cases gone : removes key (.server (.deleteObjects (live ++ archives))) = true
      · -- The archive goes: its sessions are in a later one, which is not among the deleted.
        have listed : key ∈ archives := (removed gone).resolve_left fun inLive =>
          live_not_archive (liveOnly inLive) archive
        obtain ⟨es, same, all⟩ := (olds key listed).2 _ here
        cases same
        obtain ⟨e', inMerged, named'⟩ := holdsOld e (all e member) sid named
        obtain ⟨key', entries', x, archive', young', here', member', named''⟩ :=
          files e' inMerged sid named'
        have later : old <:+ older := by
          rcases List.suffix_or_suffix_of_suffix suffix past with inside | inside
          · exact inside
          · exact absurd (inside.subset (ids key listed)) young
        refine ⟨key', entries', x, archive', fun h => young' (later.subset h), ?_, here', member',
          named''⟩
        refine Bool.eq_false_iff.mpr fun gone' => ?_
        rcases removed gone' with inLive | inArchives
        · exact live_not_archive (liveOnly inLive) archive'
        · exact young' (ids key' inArchives)
      · exact ⟨key, entries, e, archive, young, Bool.eq_false_iff.mpr gone, here, member, named⟩
  have step := allowed_step vault served (fun h => by cases h) rfl allowed
    (fun j k own _ _ => own : ∀ j k, j ≠ i → ArchiveKey a k → _ → j ≠ i)
  exact ⟨step.1, step.2, trivial⟩

end Requests

/-! ### The handler -/

section Handler

/-- A handler that keeps the vault and promises nothing of its reply. -/
abbrev Harmless {α : Type} (a : Keyring CryptoKey) (s0 : Vault ι) (device : ι → Nat) (i : ι)
    (h : Handler α) (s : History ι) : Prop :=
  Safe (vaultRules a device s0) (OnServer device) i (fun _ _ => True) h.run s

theorem archiveBase_keys (uid : String) : archiveBase (prefixKeysLive uid) = Paths.keysArchive uid := by
  rw [prefixKeysLive_eq, archiveBase_append, Paths.keysArchive]
  simp only [String.append_assoc]
  rfl

/-- Deduplication leaves an entry of every session. -/
theorem deduplicated {entries : List Value} {e : Value} (member : e ∈ entries) {sid : String}
    (named : Cbor.msgId e = some sid) :
    ∃ e' ∈ Cbor.deduplicateByMsgId entries, Cbor.msgId e' = some sid := by
  rw [Cbor.deduplicate_firsts]
  have kept := (Firsts.mem_keys_firsts Cbor.msgId [] entries sid).mpr
    (.inl (List.mem_filterMap.mpr ⟨e, member, named⟩))
  rcases kept with here | none_
  · obtain ⟨e', here, named'⟩ := List.mem_filterMap.mp here
    exact ⟨e', here, named'⟩
  · cases none_

theorem archiveAndDelete_harmless {day : String} {live archives : List String}
    {new existing : List Value} {s : History ι} (genuineNew : ∀ x ∈ new, Genuine a x)
    (genuineOld : ∀ x ∈ existing, Genuine a x)
    (hand : (inHand live archives new existing : VaultAssertion a device s0 i) s) :
    Harmless a s0 device i (archiveAndDelete (Paths.keysArchive a.user.str) day
      (Cbor.deduplicateByMsgId (existing ++ new)) (live ++ archives)) s := by
  have genuine : ∀ x ∈ existing ++ new, Genuine a x := fun x member =>
    (List.mem_append.mp member).elim (genuineOld x) (genuineNew x)
  have minted : Unnoticed (vaultRules a device s0) (OnServer device) i .newUlid :=
    onServer_unnoticed mint_unnoticed
  unfold Harmless archiveAndDelete
  simp only [run_bind, run_call, run_tryStore, ask_bind, Prog.op_bind, Prog.ret_bind]
  refine Safe.request (inHand live archives new existing) hand
    ((minted (inHand live archives new existing)).and (mints.of fun _ _ => trivial))
    fun id t after => ?_
  obtain ⟨hand, fresh, size, older, past, young, ids⟩ := after
  have old : ∀ key ∈ archives, archiveId key ∈ older := fun key member =>
    ids key (hand.2 key member).1.1 (hand.2 key member).1.2
  refine Safe.request ((inHand live archives new existing).and
    ((unspent id).and ⟨fun s => older <:+ s.state.sys.issued, fun _ _ _ _ change h =>
      h.trans change.issued⟩)) ⟨hand, fresh, past⟩
    (KeyVault.archives lasting_inHand size young fun x member =>
      genuine x (Cbor.deduplicate_subset member)) fun r v wrote => ?_
  cases r with
  | error e => exact fun _ _ => trivial
  | ok =>
    refine Safe.request ((inHand live archives new existing).and (archived older _))
      ⟨wrote.1, wrote.2 rfl⟩ (deletes old
        (fun e member sid => deduplicated (List.mem_append_right _ member))
        fun e member sid => deduplicated (List.mem_append_left _ member)) fun r w _ => ?_
    cases r <;> exact fun _ _ => trivial

/-- The live keys after they were read. -/
theorem readLive_safe {keys : List String} {s : History ι}
    (listed : ∀ key ∈ keys, (liveListed key : VaultAssertion a device s0 i) s) :
    Safe (vaultRules a device s0) (OnServer device) i (fun r t => True ∧ ∀ new, r = .ok new →
      (∀ key ∈ keys, (liveRead key new : VaultAssertion a device s0 i) t) ∧ ∀ x ∈ new, Genuine a x)
      (Atmin.readLive keys).run s := by
  refine readObjects_safe reads_unnoticed ?_ reads_live keys (.pure True) trivial listed
  rintro key some_ more t ⟨sid, session, same, here⟩ more_
  refine ⟨sid, session, same, here.imp_left ?_⟩
  rintro ⟨e, member, named⟩
  exact ⟨e, more_ e member, named⟩

/-- The archives after they were read, with what was in hand before. -/
theorem readArchives_safe {keys : List String} {s : History ι} (A : VaultAssertion a device s0 i)
    (here : A s) (listed : ∀ key ∈ keys, (archiveListed key : VaultAssertion a device s0 i) s) :
    Safe (vaultRules a device s0) (OnServer device) i (fun r t => A t ∧ ∀ existing, r = .ok existing →
      (∀ key ∈ keys, (archiveRead key existing : VaultAssertion a device s0 i) t) ∧
        ∀ x ∈ existing, Genuine a x) (Atmin.readArchives keys).run s := by
  refine readObjects_safe reads_unnoticed ?_ reads_archive keys A here listed
  rintro key some_ more t ⟨listed, read⟩ more_
  refine ⟨listed, fun d found => ?_⟩
  obtain ⟨es, same, all⟩ := read d found
  exact ⟨es, same, fun x member => more_ x (all x member)⟩

theorem compactKeys_harmless {env : Env} {pages : Nat} {keys : List String} {s : History ι}
    (listed : ∀ key ∈ keys, (liveListed key : VaultAssertion a device s0 i) s) :
    Harmless a s0 device i (compactKeys env pages (prefixKeysLive a.user.str) keys) s := by
  unfold Harmless compactKeys
  rw [run_bind]
  refine Safe.bind (readLive_safe listed) fun r t read => ?_
  cases r with
  | error e => exact fun _ _ => trivial
  | ok new =>
    obtain ⟨lives, genuineNew⟩ := read.2 new rfl
    let Lives : VaultAssertion a device s0 i := .each keys fun key => liveRead key new
    simp only [run_bind, run_call, ask_bind, Prog.op_bind, Prog.ret_bind, archiveBase_keys]
    refine Safe.request Lives lives (reads_unnoticed .utcNow rfl Lives) fun now t lives => ?_
    refine Safe.bind (collectAll_safe (lists_archives _) reads_unnoticed pages none Lives lives)
      fun r t found => ?_
    cases r with
    | error e => exact fun _ _ => trivial
    | ok archives =>
      refine Safe.bind (readArchives_safe Lives found.1 (found.2 archives rfl)) fun r t read => ?_
      cases r with
      | error e => exact fun _ _ => trivial
      | ok existing =>
        obtain ⟨olds, genuineOld⟩ := read.2 existing rfl
        refine Safe.bind (archiveAndDelete_harmless genuineNew genuineOld ⟨read.1, olds⟩)
          fun r t _ => ?_
        cases r <;> exact fun _ _ => trivial

/-- A compaction of the account's key backups, from its prefix on. -/
theorem ownCompaction_harmless {env : Env} {pages : Nat} {boundary : String} (s : History ι) :
    Harmless a s0 device i (do
      let toCompact ← collectLive (prefixKeysLive a.user.str) boundary pages none
      if toCompact = [] then pure { archived := 0, archiveKey := "" }
      else Atmin.compactKeys env pages (prefixKeysLive a.user.str) toCompact) s := by
  unfold Harmless
  rw [run_bind]
  refine Safe.bind (collectLive_safe lists_live reads_unnoticed pages none (.pure True) trivial)
    fun r t found => ?_
  cases r with
  | error e => exact fun _ _ => trivial
  | ok keys =>
    dsimp only
    split
    · exact fun _ _ => trivial
    · exact compactKeys_harmless (found.2 keys rfl)

end Handler

end Compaction

end Atmin.Web.KeyVault
