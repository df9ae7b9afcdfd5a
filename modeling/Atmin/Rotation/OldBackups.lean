import Atmin.Rotation.PasswordChanges

/-!
# What was backed up before a change of the password

A session of the newest version walks the chain down to any version that a session of the account
ever had. The password that went with an older version gets nowhere once a newer one is stored.
-/

namespace Atmin.Web

open Interaction

variable {ι Secret CryptoKey : Type}

/-! ### The key of a version -/

section Versions

variable {crypto : WebCrypto Secret CryptoKey} {env : Env} {versions : List Credential}
  {keys keys' : DerivedKeys CryptoKey} {key key' : CryptoKey} {n : Nat}

variable (crypto versions) in
/-- The backup key of that version. -/
def BackedBy (n : Nat) (key : CryptoKey) : Prop :=
  ∃ c ∈ versions, c.currentKv.toNat = n ∧ ∃ keys, Belongs crypto c keys ∧ keys.backupKey = key

theorem belongs_unique (ideal : Ideal env crypto) {c : Credential} (first : Belongs crypto c keys)
    (second : Belongs crypto c keys') : keys.backupKey = keys'.backupKey := by
  obtain ⟨⟨secret, derived⟩, auth⟩ := first
  obtain ⟨⟨secret', derived'⟩, auth'⟩ := second
  have same : keys.authPublicKey = keys'.authPublicKey := Option.some.inj (auth.symm.trans auth')
  exact ideal.apart secret secret' keys keys' derived derived' same

/-- Each version is stored once. -/
theorem falling_unique {c c' : Credential}
    (falling : versions.Pairwise fun newer older => older.currentKv.toNat < newer.currentKv.toNat)
    (member : c ∈ versions) (member' : c' ∈ versions) (same : c.currentKv.toNat = c'.currentKv.toNat) :
    c = c' := by
  have apart : ∀ a ∈ versions, ∀ b ∈ versions, a.currentKv.toNat = b.currentKv.toNat → a = b := by
    apply List.Pairwise.forall_of_forall_of_flip
    · exact fun _ _ _ => rfl
    · exact falling.imp fun below equal => absurd equal (by omega)
    · exact falling.imp fun below equal => absurd equal (by omega)
  exact apart c member c' member' same

theorem backedBy_unique (ideal : Ideal env crypto)
    (falling : versions.Pairwise fun newer older => older.currentKv.toNat < newer.currentKv.toNat)
    (first : BackedBy crypto versions n key) (second : BackedBy crypto versions n key') :
    key = key' := by
  obtain ⟨c, member, version, keys, belongs, rfl⟩ := first
  obtain ⟨c', member', version', keys', belongs', rfl⟩ := second
  have same : c = c' := falling_unique falling member member' (version.trans version'.symm)
  subst same
  exact belongs_unique ideal belongs belongs'

/-- Where each version goes one further, there is a hop from each. -/
theorem hop_from {newest c : Credential}
    (steps : ∀ older newer, [newer, older] <:+: versions →
      newer.currentKv.toNat = older.currentKv.toNat + 1)
    (head : versions.head? = some newest) (member : c ∈ versions) (above : c.currentKv.toNat ≤ n)
    (below : n < newest.currentKv.toNat) :
    ∃ older newer, [newer, older] <:+: versions ∧ older.currentKv.toNat = n := by
  induction versions generalizing newest with
  | nil => cases member
  | cons first rest ih =>
    cases head
    rcases List.mem_cons.mp member with rfl | later
    · omega
    · cases rest with
      | nil => cases later
      | cons second others =>
        have next := steps second first ⟨[], others, rfl⟩
        -- Either this is the hop, or it is one further down.
        by_cases here : second.currentKv.toNat = n
        · exact ⟨second, first, ⟨[], others, rfl⟩, here⟩
        · obtain ⟨older, newer, hop, version⟩ := ih (fun older newer hop =>
            steps older newer (hop_cons.mpr (.inr hop))) rfl later (by omega)
          exact ⟨older, newer, hop_cons.mpr (.inr hop), version⟩

end Versions

/-! ### The walk along the stored chain -/

section Walking

variable {crypto : WebCrypto Secret CryptoKey} {env : Env} {u : UserId} {versions : List Credential}
  {memo : BackupKeys CryptoKey} {s : Rotating ι}

theorem toJs_inj {link link' : KeyChainLink} (same : link.toJs = link'.toJs) : link = link' := by
  cases link
  cases link'
  simpa [KeyChainLink.toJs] using same

variable (crypto u versions) in
/-- What is kept of the account's backup keys is right. -/
def Remembers (memo : BackupKeys CryptoKey) : Prop :=
  ∀ n key, memo.get (u.str, n) = some key → BackedBy crypto versions n key

open Classical in
variable (crypto u versions memo) in
/-- The key of each version; beyond the versions of the account, it is what is kept. -/
noncomputable def keyAt (fallback : CryptoKey) (user : String) (n : Nat) : CryptoKey :=
  if known : user = u.str ∧ ∃ key, BackedBy crypto versions n key then known.2.choose
  else (memo.get (user, n)).getD fallback

variable {fallback : CryptoKey}

theorem keyAt_eq (ideal : Ideal env crypto)
    (falling : versions.Pairwise fun newer older => older.currentKv.toNat < newer.currentKv.toNat)
    {n : Nat} {key : CryptoKey} (backs : BackedBy crypto versions n key) :
    keyAt crypto u versions memo fallback u.str n = key := by
  have known : u.str = u.str ∧ ∃ key, BackedBy crypto versions n key := ⟨rfl, key, backs⟩
  rw [keyAt, dif_pos known]
  exact backedBy_unique ideal falling known.2.choose_spec backs

theorem remembers_true (ideal : Ideal env crypto)
    (falling : versions.Pairwise fun newer older => older.currentKv.toNat < newer.currentKv.toNat)
    (remembers : Remembers crypto u versions memo) :
    TrueMemo (keyAt crypto u versions memo fallback) memo := by
  intro user n key found
  by_cases known : user = u.str ∧ ∃ key, BackedBy crypto versions n key
  · obtain ⟨rfl, _⟩ := known
    exact (keyAt_eq ideal falling (remembers n key found)).symm
  · rw [keyAt, dif_neg known, found]
    rfl

/-- The links are those that were put, and each wraps. -/
theorem links_of_wrapping {stored : List Js} (all : AllWrapping crypto versions stored) :
    ∃ links : List KeyChainLink, links.map KeyChainLink.toJs = stored ∧
      ∀ link ∈ links, Wrapping crypto versions link := by
  induction stored with
  | nil => exact ⟨[], rfl, fun _ member => by cases member⟩
  | cons l rest ih =>
    obtain ⟨link, rfl, wrapping⟩ := all l List.mem_cons_self
    obtain ⟨links, rfl, wraps⟩ := ih fun l' member => all l' (List.mem_cons_of_mem _ member)
    exact ⟨link :: links, rfl, List.forall_mem_cons.mpr ⟨wrapping, wraps⟩⟩

theorem wrapping_wraps (ideal : Ideal env crypto)
    (falling : versions.Pairwise fun newer older => older.currentKv.toNat < newer.currentKv.toNat)
    {links : List KeyChainLink} (wraps : ∀ link ∈ links, Wrapping crypto versions link) :
    Wraps crypto.toSubtle (keyAt crypto u versions memo fallback) u.str links := by
  intro link member older plain hops opened
  obtain ⟨c, stored, keys, belongs, to_, newer, iv, rfl⟩ := wraps link member
  simp only [KeyChainLink.hops, buildChainLink, Bool.and_eq_true, decide_eq_true_eq, Number.int.injEq]
    at hops
  have version : c.currentKv.toNat = older := by omega
  -- It opens, so it opens to the key that was sealed.
  simp only [KeyChainLink.opened, buildChainLink, crypto.atob_btoa, Option.bind_eq_bind,
    Option.bind_some] at opened
  have sealed_ := ideal.opens _ _ _ _ _ _ opened
  rw [keyAt_eq ideal falling ⟨c, stored, version, keys, belongs, rfl⟩, sealed_]
  exact ideal.imports keys.backupKey

/-- Every hop from the newest version down to one that was ever stored can be taken. -/
theorem kept_resolvable (ideal : Ideal env crypto) (order : InOrder crypto u s)
    {links : List KeyChainLink} (read : links.map KeyChainLink.toJs = storedLinks s.chain)
    {newest c : Credential} (head : s.versions.head? = some newest) (member : c ∈ s.versions) :
    Resolvable crypto.toSubtle (keyAt crypto u s.versions memo fallback) u.str links memo
      newest.currentKv.toNat c.currentKv.toNat := by
  right
  intro n above below
  right
  obtain ⟨older, newer, hop, version⟩ :=
    hop_from (fun older newer hop => (order.kept older newer hop).1) head member above below
  obtain ⟨next, link, inside, from_, to_, old, new, _, known, opened⟩ := order.kept older newer hop
  rw [← read, List.mem_map] at inside
  obtain ⟨link', listed, same⟩ := inside
  cases toJs_inj same
  have backs : BackedBy crypto s.versions (n + 1) new.backupKey :=
    ⟨newer, (hop_mem hop).1, by omega, new, known.belongs, rfl⟩
  refine ⟨link, listed, ?_, ?_⟩
  · simp only [KeyChainLink.hops, from_, to_, Bool.and_eq_true, decide_eq_true_eq, Number.int.injEq]
    omega
  · rw [keyAt_eq ideal order.falling backs, opened]
    rfl

end Walking

/-! ### Runs -/

section Runs

variable [DecidableEq ι] {crypto : WebCrypto Secret CryptoKey} {u : UserId}
  {each : ι → ClientTask CryptoKey} {env : Env} {s : Rotating ι}
  {w w' : World ι SubmitAct SubmitReply (Ended CryptoKey) (Rotating ι)}

variable (crypto u each) in
/-- A run starts where no hop lacks its link, each link wraps, and no task has begun. -/
structure Begins (s : Rotating ι) : Prop where
  order : InOrder crypto u s
  links : AllWrapping crypto s.versions (storedLinks s.chain)
  fresh : ∀ i, Unrecorded u (each i) s

variable (crypto u) in
/-- A session of the account: it was there at the start, or a task has ended with it. -/
def HasHeld (s : Rotating ι) (w : World ι SubmitAct SubmitReply (Ended CryptoKey) (Rotating ι))
    (session : Session CryptoKey) : Prop :=
  session.Fits crypto s ∨ session.userId = .str u.str ∧ ∃ i, w.procs i = .done (.session session)

theorem Begins.secured (starts : Begins crypto u each s) :
    Secured (accountRules crypto u each) (clients crypto env u each) (Unstarted u each 0)
      (fun i => Vouched crypto u (each i).password 0) (.init s) := by
  obtain ⟨p, _, head⟩ := starts.order.stored
  apply Secured.init
  · exact ⟨starts.order, starts.links⟩
  · exact fun i => ⟨⟨p.credential, List.mem_of_mem_head? head, Nat.zero_le _⟩, starts.fresh i⟩

theorem clients_secured (ideal : Ideal env crypto) (account : ∀ i, (each i).OnAccount env u)
    (distinct : OwnIds each) (starts : Begins crypto u each s)
    (reached : Reach (clients crypto env u each) s w) :
    Secured (accountRules crypto u each) (clients crypto env u each) (Unstarted u each 0)
      (fun i => Vouched crypto u (each i).password 0) w :=
  starts.secured.run (clients_contracts ideal account distinct 0) reached

theorem versions_kept (ideal : Ideal env crypto) (account : ∀ i, (each i).OnAccount env u)
    (distinct : OwnIds each) (starts : Begins crypto u each s)
    (reached : Reach (clients crypto env u each) s w) : s.versions ⊆ w.sys.versions :=
  starts.secured.relates (clients_contracts ideal account distinct 0)
    (fun s t => s.versions ⊆ t.versions)
    (fun _ => List.Subset.refl _) (fun _ _ _ first last => List.Subset.trans first last)
    (fun _ _ _ _ _ moved => moved.2.versions) reached

/-- Each session has the keys of its version. -/
theorem held_fits (ideal : Ideal env crypto) (account : ∀ i, (each i).OnAccount env u)
    (distinct : OwnIds each) (starts : Begins crypto u each s)
    (reached : Reach (clients crypto env u each) s w) {session : Session CryptoKey}
    (holds : HasHeld crypto u s w session) : session.Fits crypto w.sys := by
  rcases holds with before | ⟨mine, i, done⟩
  · exact before.grows (versions_kept ideal account distinct starts reached)
  · have slot := (clients_secured ideal account distinct starts reached).2 i
    rw [done] at slot
    exact (slot.post mine).1

/-- Whatever the devices of an account do, in whatever order their requests are served, as long as the
chain can be read and written: a session of the newest version gets the backup key of any session that
the account has had. -/
theorem old_backups_open (ideal : Ideal env crypto) (account : ∀ i, (each i).OnAccount env u)
    (distinct : OwnIds each) (starts : Begins crypto u each s)
    (reached : Reach (clients crypto env u each) s w) {old new : Session CryptoKey}
    (had : HasHeld crypto u s w old) (has : HasHeld crypto u s w new) {p : Profile}
    (stored : profileOf u w.sys.server = some p) (newest : new.keyVersion = p.currentKv.toNat)
    {memo : BackupKeys CryptoKey} (remembers : Remembers crypto u w.sys.versions memo) :
    ∃ links : List KeyChainLink, links.map KeyChainLink.toJs = storedLinks w.sys.chain ∧
      (resolveBackupKey crypto.toSubtle u.str new.keys.backupKey new.keyVersion.toNat
        old.keyVersion.toNat links memo).1 = .ok old.keys.backupKey := by
  have secured := clients_secured ideal account distinct starts reached
  obtain ⟨order, wrapping⟩ := secured.1
  obtain ⟨links, read, wraps⟩ := links_of_wrapping wrapping
  refine ⟨links, read, ?_⟩
  obtain ⟨c, member, version, belongs⟩ := held_fits ideal account distinct starts reached had
  obtain ⟨c', member', version', belongs'⟩ := held_fits ideal account distinct starts reached has
  -- The newer session has the newest version, and the walk starts from its true key.
  obtain ⟨q, known, head⟩ := order.stored
  cases known.symm.trans stored
  have current : new.keyVersion.toNat = p.credential.currentKv.toNat := by
    rw [newest]
    rfl
  have target : old.keyVersion.toNat = c.currentKv.toNat := by omega
  have top : keyAt crypto u w.sys.versions memo new.keys.backupKey u.str p.credential.currentKv.toNat =
      new.keys.backupKey :=
    keyAt_eq ideal order.falling ⟨c', member', by omega, new.keys, belongs', rfl⟩
  have bottom : keyAt crypto u w.sys.versions memo new.keys.backupKey u.str c.currentKv.toNat =
      old.keys.backupKey :=
    keyAt_eq ideal order.falling ⟨c, member, rfl, old.keys, belongs, rfl⟩
  have below : c.currentKv.toNat ≤ p.credential.currentKv.toNat := by
    rcases falling_head order.falling head member with rfl | lower
    · exact le_rfl
    · exact lower.le
  have sound : TrueMemo (keyAt crypto u w.sys.versions memo new.keys.backupKey) memo :=
    remembers_true ideal order.falling remembers
  have walked := (resolveBackupKey_correct (wrapping_wraps ideal order.falling wraps) below sound).1
    (kept_resolvable ideal order read head member)
  rw [top, bottom] at walked
  rw [current, target]
  exact walked

/-- Once a version is stored, a task that starts then gets a session, or has a device revoked, only
with the password of that version or of a later one. -/
theorem outdated_password_refused (ideal : Ideal env crypto) (account : ∀ i, (each i).OnAccount env u)
    (distinct : OwnIds each) (starts : Begins crypto u each s)
    (reached : Reach (clients crypto env u each) s w) {p : Profile}
    (stored : profileOf u w.sys.server = some p) {i : ι} (idle : w.procs i = .idle)
    (further : Relation.ReflTransGen (Step (clients crypto env u each)) w w') {ended : Ended CryptoKey}
    (done : w'.procs i = .done ended) :
    Vouched crypto u (each i).password p.currentKv.toNat ended w'.sys := by
  have secured := clients_secured ideal account distinct starts reached
  obtain ⟨q, known, head⟩ := secured.1.1.stored
  cases known.symm.trans stored
  let least : (accountRules crypto u each).Assertion i :=
    ⟨AtLeast p.currentKv.toNat, fun _ _ _ _ ⟨_, _, _, moved⟩ here => here.grows moved.versions⟩
  apply secured.late (clients_contracts ideal account distinct 0) least
    ⟨p.credential, List.mem_of_mem_head? head, le_rfl⟩ idle ?_ further done
  intro t inv ready here
  exact (clients_contracts ideal account distinct p.currentKv.toNat).arrives i t inv ⟨here, ready.2⟩

end Runs

section Samples

open Sample

/-- Keys of one byte, under which what is sealed opens and nothing else. -/
def byteKeys (n : Nat) : DerivedKeys UInt8 where
  authPublicKey := (keysOf n).authPublicKey
  sign := match n with
    | 2 => fun _ => [2]
    | _ => (keysOf n).sign
  sharingPublicKey := sharingPublic
  backupKey := match n with
    | 1 => 1
    | 2 => 2
    | _ => 3

def sealing : WebCrypto Nat UInt8 where
  atob := atob
  decrypt key _ ct := match ct with
    | first :: plain => if first = key then some plain else none
    | [] => none
  importKey := List.head?
  argonStretch password _ _ := some (if password = "old" then 1 else if password = "new" then 2 else 3)
  deriveKeys n := some (byteKeys n)
  exportKey key := [key]
  encrypt key _ plain := key :: plain
  authPublicKey_length n keys derived := by
    cases derived
    exact keysOf_length n
  decrypt_encrypt key iv plain := by simp
  atob_btoa := atob_btoa

/-- The sample account's server, which knows signatures of the second key as well. -/
def familyEnv : Env :=
  { env with verifyStrict := fun key message sig =>
      env.verifyStrict key message sig || decide (key = newPublic ∧ sig = [2]) }

theorem decoded_old : Base64.decode authPublicKey = some oldPublic := by decide

theorem sealing_ideal : Ideal familyEnv sealing where
  signs n keys key payload derived verified := by
    cases derived
    simp only [verify] at verified
    split at verified
    next message _ =>
      -- No signature is empty or the byte of the second key.
      have others : Base64.decode signature ≠ some [] ∧ Base64.decode proofSignature ≠ some [] ∧
        Base64.decode signature ≠ some [2] ∧ Base64.decode proofSignature ≠ some [2] := by decide
      rcases Bool.or_eq_true_iff.mp verified with first | second
      · obtain ⟨known, signed⟩ := of_decide_eq_true first
        rw [decoded_old] at known
        match n with
        | 1 => exact (Option.some.inj known).symm
        | 0 | n + 3 =>
          rcases signed with ⟨_, same⟩ | ⟨_, same⟩
          · exact absurd same others.1
          · exact absurd same others.2.1
        | 2 =>
          rcases signed with ⟨_, same⟩ | ⟨_, same⟩
          · exact absurd same others.2.2.1
          · exact absurd same others.2.2.2
      · obtain ⟨known, signed⟩ := of_decide_eq_true second
        match n with
        | 2 => exact known
        | 1 =>
          have long : signatureBytes ≠ [2] := by decide
          exact absurd signed long
        | 0 | n + 3 => cases signed
    next => cases verified
  opens key key' iv iv' plain plain' opened := by
    simp only [sealing, Option.ite_none_right_eq_some, Option.some.injEq] at opened
    exact opened.2.symm
  imports key := rfl
  apart n m keys keys' derived derived' same := by
    cases derived
    cases derived'
    have first : oldPublic ≠ newPublic ∧ oldPublic ≠ List.replicate 32 3 ∧
        newPublic ≠ List.replicate 32 3 := by decide
    match n, m with
    | 1, 1 | 2, 2 => rfl
    | 0, 0 | 0, _ + 3 | _ + 3, 0 | _ + 3, _ + 3 => rfl
    | 1, 2 => exact absurd same first.1
    | 2, 1 => exact absurd same.symm first.1
    | 1, 0 | 1, _ + 3 => exact absurd same first.2.1
    | 0, 1 | _ + 3, 1 => exact absurd same.symm first.2.1
    | 2, 0 | 2, _ + 3 => exact absurd same first.2.2
    | 0, 2 | _ + 3, 2 => exact absurd same.symm first.2.2

/-- The session of the device that registered. -/
def firstPhone : Session UInt8 := ⟨token.getD "", .str uid, did, "alice", byteKeys 1, 1⟩

/-- One device changes the password, another one signs in. -/
def family : Bool → ClientTask UInt8
  | true => .changePassword firstPhone (racing true)
  | false => .signIn ⟨id, some⟩ ⟨"alice", "new", did, epoch, "laptop"⟩

theorem family_prog : (clients sealing familyEnv user family).prog = fun i =>
    if i = true then (ClientTask.changePassword firstPhone (racing i)).prog sealing familyEnv
    else (ClientTask.signIn ⟨id, some⟩ ⟨"alice", "new", did, epoch, "laptop"⟩).prog sealing
      familyEnv := by
  funext i
  cases i <;> rfl

theorem family_token : Token.identity familyEnv token = some authed := identity_token

theorem family_account : ∀ i, (family i).OnAccount familyEnv user
  | true => racing_account true
  | false => trivial

theorem family_distinct : OwnIds family
  | true, true, _, _, _ => rfl
  | false, _, _, named, _ => by cases named
  | true, false, _, _, named => by cases named

theorem family_starts : Begins sealing user family registered where
  order :=
    { stored := ⟨profile, stored_profile, rfl⟩
      falling := List.pairwise_singleton ..
      kept := fun older newer hop => by
        have long := hop.length_le
        simp [registered] at long }
  links l member := by cases member
  fresh i rid _ := by
    rw [recordOf, show registered.server.objects.get (keyRotationRecord user.str rid) = none
      from store_record rid]
    rfl

theorem firstPhone_fits : firstPhone.Fits sealing registered := by
  refine ⟨profile.credential, List.mem_cons_self, by decide, ⟨1, rfl⟩, ?_⟩
  have decoded : Base64.decode profile.credential.authPublicKey = some oldPublic := decoded_old
  rw [decodeAuthKey, decoded]
  rfl

/-- The other device signs in with the new password. -/
def signsInThen : List (Bool × SubmitChoice) :=
  [(false, .posted .answered), (false, .posted .answered), (false, .server .ok),
    (false, .posted .answered), (false, .server .ok), (false, .server (.read 0)),
    (false, .server (.read 0)), (false, .server .ok), (false, .server .ok)]

/-- A session of the second version. -/
def renewed (i : Bool) (w : World Bool SubmitAct SubmitReply (Ended UInt8) (Rotating Bool)) : Bool :=
  match w.procs i with
  | .done (.session session) => session.userId.same (.str uid) && decide (session.keyVersion = 2)
  | _ => false

theorem renewed_session {i : Bool} {w : World Bool SubmitAct SubmitReply (Ended UInt8) (Rotating Bool)}
    (here : renewed i w = true) : ∃ session, w.procs i = .done (.session session) ∧
      session.userId = .str uid ∧ session.keyVersion = 2 := by
  unfold renewed at here
  split at here
  next session done =>
    obtain ⟨mine, second⟩ := Bool.and_eq_true_iff.mp here
    exact ⟨session, done, (Js.same_of_str _ _).mp mine, of_decide_eq_true second⟩
  next => cases here

/-- The password is changed before the other device starts. -/
def changedFirst (w : World Bool SubmitAct SubmitReply (Ended UInt8) (Rotating Bool)) : Bool :=
  renewed true w && (match w.procs false with
    | .idle => true
    | _ => false) && (profileOf user w.sys.server).any fun p => decide (p.currentKv = 2)

theorem family_rotates : ∃ w w' p, Reach (clients sealing familyEnv user family) registered w ∧
    Relation.ReflTransGen (Step (clients sealing familyEnv user family)) w w' ∧
    renewed true w = true ∧ w.procs false = .idle ∧ profileOf user w.sys.server = some p ∧
    p.currentKv = 2 ∧ renewed false w' = true := by
  obtain ⟨w, w', reached, later, seen⟩ := reach_twice_of_follow (performTimely user)
    (clients sealing familyEnv user family).prog registered (firstWrites ++ commitsThen) signsInThen
    (fun w w' => changedFirst w && renewed false w') (by
      simp only [family_prog, ClientTask.prog, changePassword, postRotation, handled, racing_token,
        rotateKeys, authenticate_known family_token]
      decide +kernel)
  simp only [changedFirst, Bool.and_eq_true] at seen
  obtain ⟨⟨⟨changed, idle⟩, current⟩, signed⟩ := seen
  obtain ⟨p, stored, version⟩ := (Option.any_eq_true _ _).mp current
  split at idle
  next none_ => exact ⟨w, w', p, reached, later, changed, none_, stored, of_decide_eq_true version, signed⟩
  next => cases idle

/-- After the change, the new session opens what the first phone had backed up before. -/
theorem firstPhone_opens : ∃ w new links,
    Reach (clients sealing familyEnv user family) registered w ∧
    w.procs true = .done (.session new) ∧
    links.map KeyChainLink.toJs = storedLinks w.sys.chain ∧
    (resolveBackupKey sealing.toSubtle user.str new.keys.backupKey 2 1 links .empty).1 = .ok 1 := by
  obtain ⟨w, _, p, reached, _, changed, _, stored, version, _⟩ := family_rotates
  obtain ⟨new, done, mine, second⟩ := renewed_session changed
  have newest : new.keyVersion = p.currentKv.toNat := by
    rw [second, version]
    rfl
  have remembers : Remembers sealing user w.sys.versions .empty := by
    intro n key found
    cases found
  obtain ⟨links, read, opens⟩ :=
    old_backups_open sealing_ideal family_account family_distinct family_starts reached
      (.inl firstPhone_fits) (.inr ⟨mine, true, done⟩) stored newest remembers
  rw [second] at opens
  exact ⟨w, new, links, reached, done, read, opens⟩

/-- Whoever signs in after the change knows the new password. -/
theorem changed_password_known : ∃ w w' p session,
    Reach (clients sealing familyEnv user family) registered w ∧
    profileOf user w.sys.server = some p ∧ p.currentKv = 2 ∧ w.procs false = .idle ∧
    Relation.ReflTransGen (Step (clients sealing familyEnv user family)) w w' ∧
    w'.procs false = .done (.session session) ∧ Knows sealing "new" 2 w'.sys := by
  obtain ⟨w, w', p, reached, later, _, idle, stored, version, signed⟩ := family_rotates
  obtain ⟨session, done, mine, _⟩ := renewed_session signed
  have vouched := outdated_password_refused sealing_ideal family_account family_distinct
    family_starts reached stored idle later done
  rw [version] at vouched
  exact ⟨w, w', p, session, reached, stored, version, idle, later, done, (vouched mine).2⟩

end Samples

end Atmin.Web
