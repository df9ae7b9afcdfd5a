import Atmin.Access.Subtrees
import Atmin.Sync.BackupCompaction

/-!
# Requests beside the vault

The server keeps the backups of an account whatever it is asked for, compactions included, unless the
account is deleted or a backup is named in a deletion or an upload.
-/

namespace Atmin.Web.KeyVault

open Interaction

variable {ι CryptoKey : Type} {a : Keyring CryptoKey} {device : ι → Nat} {s0 : Vault ι} {i : ι}

/-! ### Keys outside the vault -/

def Outside (a : Keyring CryptoKey) (key : String) : Prop := ¬ LiveKey a key ∧ ¬ ArchiveKey a key

/-- The vault lies in the account's own subtree. -/
theorem vault_within {key : String} (within : LiveKey a key ∨ ArchiveKey a key) :
    InSubtree a.user.str key := by
  have under (rest : String) : startsWith ("keys/" ++ a.user.str ++ "/" ++ rest)
      ("keys/" ++ a.user.str ++ "/") = true := startsWith_append _ _
  refine ⟨"keys/", by decide, ?_⟩
  rcases within with live | archive
  · rw [LiveKey, prefixKeysLive_eq] at live
    exact startsWith_trans live (under "live/")
  · have split : Paths.keysArchive a.user.str = "keys/" ++ a.user.str ++ "/" ++ "archive/" := by
      simp only [Paths.keysArchive, String.append_assoc]
      rfl
    rw [ArchiveKey, split] at archive
    exact startsWith_trans archive (under "archive/")

theorem outside_of_not_within {key : String} (other : ¬ InSubtree a.user.str key) : Outside a key :=
  ⟨fun live => other (vault_within (.inl live)), fun archive => other (vault_within (.inr archive))⟩

/-- What another account owns. -/
theorem outside_of_other {u : UserId} (other : u ≠ a.user) {key : String}
    (within : InSubtree u.str key) : Outside a key :=
  outside_of_not_within fun own => other (within.owner own)

theorem owned_within {uid pre : String} (owned : pre ∈ ownedPrefixes uid) : InSubtree uid pre := by
  have whole (root : String) : startsWith (root ++ uid ++ "/") (root ++ uid ++ "/") = true :=
    startsWith_iff.mpr ⟨[], (List.append_nil _).symm⟩
  simp only [ownedPrefixes, List.mem_cons, List.not_mem_nil, or_false] at owned
  rcases owned with rfl | rfl | rfl | rfl
  · exact ⟨"users/", by decide, whole "users/"⟩
  · exact ⟨"inbox/", by decide, whole "inbox/"⟩
  · exact ⟨"keys/", by decide, whole "keys/"⟩
  · exact ⟨"media/", by decide, whole "media/"⟩

/-- Whatever lies under another root. -/
theorem outside_of_head {key : String} (head : key.toList.head? ≠ some 'k') : Outside a key := by
  constructor
  · intro live
    simp only [LiveKey, startsWith, List.isPrefixOf_iff_prefix, prefixKeysLive] at live
    obtain ⟨rest, split⟩ := live
    rw [← split] at head
    simp at head
  · intro archive
    simp only [ArchiveKey, startsWith, List.isPrefixOf_iff_prefix, Paths.keysArchive] at archive
    obtain ⟨rest, split⟩ := archive
    rw [← split] at head
    simp at head

/-! ### Requests outside the vault -/

theorem stays_unnoticed {o : Op} (stays : o.Stays (Outside a) (Outside a)) :
    Unnoticed (vaultRules a device s0) (OnServer device) i o := by
  apply onServer_unnoticed
  by_cases mint : o = .newUlid
  · subst mint
    exact mint_unnoticed
  · refine idle_unnoticed (fun same => ?_) rfl (fun key within => ?_) fun key within => ?_
    · cases same
      exact mint rfl
    · by_contra put
      have outside := stays.1 key (Option.isSome_iff_ne_none.mpr put)
      exact within.elim outside.1 outside.2
    · by_contra removed
      have outside := stays.2 key (Bool.not_eq_false _ |>.mp removed)
      exact within.elim outside.1 outside.2

theorem vault_confined :
    Confined (vaultRules a device s0) (OnServer device) i (Outside a) (Outside a) where
  quiet _ stays _ := stays_unnoticed stays
  guard env token enforceKv s := by
    refine (Safe.only (.pure True) (fun o passive => ?_)
      (authenticate_passive env token enforceKv) trivial).weaken fun _ _ h => h.1
    exact passive_unnoticed o passive _
  lists pre limit cursor := by
    refine (passive_unnoticed _ rfl).serves (.pure True) fun s r t _ _ served => ?_
    rintro page rfl key member
    obtain ⟨_, rfl⟩ := listed_ok (served_server served.1).1
    exact (ObjectMap.mem_page _ _ _ _ _ member).2

/-- A compaction of the own backups is a matter of its own; any other stays outside the vault. -/
theorem storeCompact_harmless {env : Env} {pages : Nat} {token : Option String} {body : Option Json}
    (s : History ι) :
    Keeps (vaultRules a device s0) (OnServer device) i (storeCompact env pages token body) s := by
  have c : Confined (vaultRules a device s0) (OnServer device) i (Outside a) (Outside a) :=
    vault_confined
  refine c.authenticated fun user t _ => ?_
  refine Keeps.orFail fun req _ => ?_
  refine Keeps.checked fun _ => ?_
  refine Keeps.checked fun owned => ?_
  by_cases own : req.pre = prefixKeysLive a.user.str
  · rw [own]
    exact ownCompaction_harmless t
  · obtain ⟨root, pre, outside⟩ : ∃ root, req.pre = root ++ "live/" ∧
        ∀ key, startsWith key root = true → Outside a key := by
      simp only [authorizeCompactPrefix, Bool.or_eq_true, decide_eq_true_eq] at owned
      rcases owned with inbox | keys
      · refine ⟨_, inbox.trans (prefixInboxLive_eq _), fun key within => outside_of_head ?_⟩
        obtain ⟨rest, split⟩ := startsWith_iff.mp within
        simp [split]
      · refine ⟨_, keys.trans (prefixKeysLive_eq _), fun key within => ?_⟩
        refine outside_of_other (fun same => own ?_) ⟨"keys/", by decide, within⟩
        rw [keys, same]
    rw [pre]
    exact c.compactUnder outside outside

/-! ### Every request -/

/-- The request neither deletes the account nor names a backup. -/
def Leaves (a : Keyring CryptoKey) (env : Env) : UserRequest → Prop
  | .deleteProfile token => ∀ user, Token.identity env token = some user → user.userId ≠ a.user
  | .deleteObject _ key => ∀ k, key = some k → Outside a k
  | .upload key _ => Outside a key
  | _ => True

theorem request_harmless {env : Env} {r : UserRequest} (leaves : Leaves a env r) (s : History ι) :
    Keeps (vaultRules a device s0) (OnServer device) i (r.run env) s := by
  have c : Confined (vaultRules a device s0) (OnServer device) i (Outside a) (Outside a) :=
    vault_confined
  have profile (uid : String) : Outside a (keyProfile uid) := outside_of_head (by simp [keyProfile])
  have handle (h : String) : Outside a (keyHandle h) := outside_of_head (by simp [keyHandle])
  cases r with
  | storeList token pre cursor => exact Keeps.bind (c.storeList pre cursor) fun _ _ => Keeps.ret _
  | storeObject token key => exact Keeps.bind (c.storeObject key) fun _ _ => Keeps.ret _
  | storeUsage token => exact Keeps.bind c.storeUsage fun _ _ => Keeps.ret _
  | deleteObject token key =>
    refine c.deleteObject fun user k _ named _ => leaves k ?_
    exact (Option.filter_eq_some_iff.mp named).1
  | storePresign token body => exact c.storePresign body
  | upload key d => exact Keeps.tryStore (c.asks (Op.stays_put leaves) fun _ h => (by cases h))
  | addDevice body =>
    refine Keeps.bind (c.addDevice fun uid did => ?_) fun _ _ => Keeps.ret _
    exact outside_of_head (by simp [keyDevice])
  | storeCompact pages token body =>
    exact Keeps.bind (storeCompact_harmless s) fun _ _ => Keeps.ret _
  | updateProfile token body => exact c.updateProfile (fun _ _ => profile _) handle
  | deleteProfile token =>
    refine c.deleteProfile handle fun user key pre known owned within => ?_
    exact outside_of_other (leaves user known) ((owned_within owned).mono within)
  | deleteDevice token => exact c.deleteDevice fun _ _ => outside_of_head (by simp [keyDevice])
  | revokeDevice token body => exact c.revokeDevice fun _ _ _ => outside_of_head (by simp [keyDevice])
  | send token body => exact c.send (fun _ _ => outside_of_head (by simp [keyInboxLive])) body
  | rotateKeys token body =>
    refine Keeps.bind (c.rotateKeys (fun _ _ => profile _) handle fun _ _ _ => ?_) fun _ _ =>
      Keeps.ret _
    exact outside_of_head (by simp [keyRotationRecord])
  | events token => exact c.events fun _ _ => profile _

end Atmin.Web.KeyVault
