import Atmin.Rotation.KeyChain
import Atmin.Web.KeyRestore

/-!
# The keys a restore finds

A restore walks the chain once for each version it meets, and keeps what it finds. However far it
has come, a version leads to the key that it led to at the start.
-/

namespace Atmin.Web

open Interaction

variable {CryptoKey : Type} {r : Restorer CryptoKey} {links : List KeyChainLink}
  {memo₀ memo : BackupKeys CryptoKey}

/-! ### The way down -/

section Way

variable (r links memo₀)

/-- The key before a version: the one in the store, or else the first that a link opens to. -/
def hopDown (older : Nat) (key : CryptoKey) : Option CryptoKey :=
  (memo₀.get (r.userId.str, older)).or
    (firstOpening r.subtle key (links.filter (KeyChainLink.hops (older + 1))))

/-- Hop by hop from the current version, by what the store held at first. -/
inductive Leads : Nat → CryptoKey → Prop where
  | here : Leads r.currentVersion r.backupKey
  | hop {older : Nat} {key prevKey : CryptoKey} : Leads (older + 1) key →
      hopDown r links memo₀ older key = some prevKey → Leads older prevKey

/-- The store as it was, but for keys found on the way down. -/
def MemoKept (memo : BackupKeys CryptoKey) : Prop :=
  ∀ user version, memo.get (user, version) = memo₀.get (user, version) ∨
    user = r.userId.str ∧ memo₀.get (user, version) = none ∧
      ∃ key, Leads r links memo₀ version key ∧ memo.get (user, version) = some key

end Way

theorem Leads.le {version : Nat} {key : CryptoKey} (leads : Leads r links memo₀ version key) :
    version ≤ r.currentVersion := by
  induction leads with
  | here => exact Nat.le_refl _
  | hop _ _ ih => exact Nat.le_of_succ_le ih

/-- A version has one key. -/
theorem Leads.unique {version : Nat} {key key' : CryptoKey} (leads : Leads r links memo₀ version key)
    (leads' : Leads r links memo₀ version key') : key = key' := by
  induction leads generalizing key' with
  | here =>
    cases leads' with
    | here => rfl
    | hop above _ => exact absurd above.le (Nat.not_succ_le_self _)
  | hop above found ih =>
    cases leads' with
    | here => exact absurd above.le (Nat.not_succ_le_self _)
    | hop above' found' =>
      rw [ih above', found'] at found
      exact (Option.some.inj found).symm

/-- Every version passed on the way has a key. -/
theorem Leads.passes {target version : Nat} {key : CryptoKey} (leads : Leads r links memo₀ target key)
    (above : target ≤ version) (le : version ≤ r.currentVersion) :
    ∃ key', Leads r links memo₀ version key' := by
  induction leads with
  | here =>
    rw [Nat.le_antisymm le above]
    exact ⟨r.backupKey, .here⟩
  | hop higher found ih =>
    rcases Nat.eq_or_lt_of_le above with rfl | more
    · exact ⟨_, .hop higher found⟩
    · exact ih more

theorem MemoKept.start : MemoKept r links memo₀ memo₀ := fun _ _ => .inl rfl

theorem MemoKept.insert (kept : MemoKept r links memo₀ memo) {version : Nat} {key : CryptoKey}
    (absent : memo₀.get (r.userId.str, version) = none) (leads : Leads r links memo₀ version key) :
    MemoKept r links memo₀ (memo.insert (r.userId.str, version) key) := by
  intro user version'
  rw [ObjectMap.get_insert]
  split
  next same =>
    cases same
    exact .inr ⟨rfl, absent, key, leads, rfl⟩
  next => exact kept user version'

/-- What the store holds now leads on just as what it held then. -/
theorem MemoKept.memoed (kept : MemoKept r links memo₀ memo) {older : Nat} {key prevKey : CryptoKey}
    (leads : Leads r links memo₀ (older + 1) key)
    (found : memo.get (r.userId.str, older) = some prevKey) : Leads r links memo₀ older prevKey := by
  rcases kept r.userId.str older with same | ⟨_, _, key', leads', here⟩
  · refine leads.hop ?_
    rw [hopDown, ← same, found, Option.some_or]
  · rw [here] at found
    cases found
    exact leads'

/-- What is in the store was there at the start, or is what its version leads to. -/
theorem MemoKept.lookup (kept : MemoKept r links memo₀ memo) {version : Nat} {key : CryptoKey}
    (found : memo.get (r.userId.str, version) = some key) (key' : CryptoKey) :
    key = key' ↔ memo₀.get (r.userId.str, version) = some key' ∨
      memo₀.get (r.userId.str, version) = none ∧ Leads r links memo₀ version key' := by
  rcases kept r.userId.str version with same | ⟨_, absent, held, leads, here⟩
  · rw [← same, found]
    simp
  · rw [here] at found
    cases found
    rw [absent]
    constructor
    · rintro rfl
      exact .inr ⟨rfl, leads⟩
    · rintro (before | ⟨_, other⟩)
      · cases before
      · exact leads.unique other

theorem MemoKept.absent (kept : MemoKept r links memo₀ memo) {older : Nat}
    (missing : memo.get (r.userId.str, older) = none) : memo₀.get (r.userId.str, older) = none := by
  rcases kept r.userId.str older with same | ⟨_, none_, _⟩
  · rw [← same, missing]
  · exact none_

/-- A walk down comes to the key that the target leads to. -/
structure Walked (target : Nat) (out : Except String CryptoKey × BackupKeys CryptoKey)
  (r : Restorer CryptoKey)
    (links : List KeyChainLink) (memo₀ : BackupKeys CryptoKey) : Prop where
  answer : ∀ key, out.1.toOption = some key ↔ Leads r links memo₀ target key
  kept : MemoKept r links memo₀ out.2

/-- No key before this version: none at the target either. -/
theorem Walked.stop {target older : Nat} {key : CryptoKey} (kept : MemoKept r links memo₀ memo)
    (leads : Leads r links memo₀ (older + 1) key) (further : target < older + 1)
    (nothing : hopDown r links memo₀ older key = none) (e : String) :
    Walked target (.error e, memo) r links memo₀ where
  answer key' := by
    refine ⟨fun found => (by cases found), fun arrives => ?_⟩
    exfalso
    obtain ⟨prevKey, passed⟩ := arrives.passes (Nat.le_of_lt_succ further) (Nat.le_of_succ_le leads.le)
    cases passed with
    | here => exact absurd leads.le (Nat.not_succ_le_self _)
    | hop higher found =>
      rw [leads.unique higher, found] at nothing
      cases nothing
  kept := kept

theorem walk_leads {target version : Nat} {key : CryptoKey} (leads : Leads r links memo₀ version key)
    (below : target ≤ version) (kept : MemoKept r links memo₀ memo) :
    Walked target (walk r.subtle r.userId.str target links version key memo) r links memo₀ := by
  induction version generalizing key memo with
  | zero =>
    obtain rfl : target = 0 := Nat.le_zero.mp below
    exact ⟨fun key' => ⟨fun found => Option.some.inj found ▸ leads, fun other =>
      congrArg some (leads.unique other)⟩,
      kept⟩
  | succ older ih =>
    rw [walk]
    by_cases further : target < older + 1
    · rw [if_pos further]
      cases memoed : memo.get (r.userId.str, older) with
      -- a memoised version needs no link
      | some prevKey => exact ih (kept.memoed leads memoed) (Nat.le_of_lt_succ further) kept
      -- else the first link that opens leads a version down
      | none =>
        have absent := kept.absent memoed
        have next_ : hopDown r links memo₀ older key =
            firstOpening r.subtle key (links.filter (KeyChainLink.hops (older + 1))) := by
          rw [hopDown, absent, Option.none_or]
        cases candidates : links.filter (KeyChainLink.hops (older + 1)) with
        -- no link from here: the walk stops
        | nil =>
          rw [candidates] at next_
          exact .stop kept leads further next_ _
        | cons link rest =>
          rw [candidates] at next_
          cases opened : firstOpening r.subtle key (link :: rest) with
          | none =>
            simp only [opened]
            exact .stop kept leads further (next_.trans opened) _
          | some prevKey =>
            have down := leads.hop (next_.trans opened)
            simp only [opened]
            -- the memo grows by what the link gave
            exact ih down (Nat.le_of_lt_succ further) (kept.insert absent down)
    · rw [if_neg further]
      obtain rfl : target = older + 1 := Nat.le_antisymm below (Nat.le_of_not_lt further)
      exact ⟨fun key' => ⟨fun found => Option.some.inj found ▸ leads,
        fun other => congrArg some (leads.unique other)⟩, kept⟩

/-! ### The answers of `getKey` -/

/-- The key of a version, in terms of the store at the start. -/
def Answers (r : Restorer CryptoKey) (chain : Option (List KeyChainLink)) (memo₀ : BackupKeys CryptoKey)
    (v : Number) (key : CryptoKey) : Prop :=
  if v.equals r.currentVersion then key = r.backupKey
  else ∃ links, chain = some links ∧ ¬ v.exceeds r.currentVersion = true ∧
    (if v.whole then memo₀.get (r.userId.str, v.floor.toNat) = some key ∨
        memo₀.get (r.userId.str, v.floor.toNat) = none ∧ Leads r links memo₀ v.floor.toNat key
      else Leads r links memo₀ v.floor.toNat key)

/-- What has been found so far are answers. -/
structure SoundAnswers (r : Restorer CryptoKey) (chain : Option (List KeyChainLink))
  (memo₀ : BackupKeys CryptoKey)
    (acc : Restoring CryptoKey) : Prop where
  versions : ∀ v key, acc.keyForVersion.get v = some key → Answers r chain memo₀ v key
  kept : ∀ links, chain = some links → MemoKept r links memo₀ acc.backupKeys

theorem Answers.unique {chain : Option (List KeyChainLink)} {v : Number} {key key' : CryptoKey}
    (answer : Answers r chain memo₀ v key) (answer' : Answers r chain memo₀ v key') : key = key' := by
  unfold Answers at answer answer'
  split at answer
  next current =>
    rw [if_pos current] at answer'
    rw [answer, answer']
  next current =>
    rw [if_neg current] at answer'
    obtain ⟨links, given, _, found⟩ := answer
    obtain ⟨links', given', _, found'⟩ := answer'
    cases given.symm.trans given'
    split at found
    next whole =>
      rw [if_pos whole] at found'
      rcases found with here | ⟨none_, leads⟩
      · rcases found' with here' | ⟨none_, _⟩
        · exact Option.some.inj (here.symm.trans here')
        · rw [here] at none_
          cases none_
      · rcases found' with here' | ⟨_, leads'⟩
        · rw [here'] at none_
          cases none_
        · exact leads.unique leads'
    next fraction =>
      rw [if_neg fraction] at found'
      exact found.unique found'

theorem SoundAnswers.start (r : Restorer CryptoKey) (chain : Option (List KeyChainLink))
    (memo₀ : BackupKeys CryptoKey) : SoundAnswers r chain memo₀ (startRestoring r memo₀) where
  versions v key found := by
    rw [startRestoring, ObjectMap.get_insert] at found
    split at found
    next same =>
      cases found
      rw [Answers, same, if_pos]
      simp [Number.equals, Number.whole, Number.floor]
    next => cases found
  kept links _ := .start

theorem floor_nonneg {v : Number} (positive : v.positive = true) : 0 ≤ v.floor := by
  cases v with
  | int n => exact Int.le_of_lt (of_decide_eq_true positive)
  | real mantissa exponent =>
    have some_ : 0 ≤ mantissa := Int.le_of_lt (of_decide_eq_true positive)
    rw [Number.floor]
    split
    next => exact Int.mul_nonneg some_ (Int.le_of_lt (Int.pow_pos (by decide)))
    next => exact Int.ediv_nonneg some_ (Int.le_of_lt (Int.pow_pos (by decide)))

theorem equals_iff {v : Number} {n : Nat} : v.equals n = true ↔ v.whole = true ∧ v.floor = n := by
  rw [Number.equals, Bool.and_eq_true, decide_eq_true_eq]

theorem exceeds_iff {v : Number} {n : Nat} :
    v.exceeds n = true ↔ (n : Int) < v.floor ∨ v.floor = n ∧ v.whole = false := by
  simp [Number.exceeds]

/-- Resolving an older version gives its answer. -/
theorem resolveVersion_answers {v : Number} (nonneg : 0 ≤ v.floor)
    (old : ¬ v.equals r.currentVersion = true) (kept : MemoKept r links memo₀ memo) :
    (∀ key, (resolveVersion r links v memo).1 = some key ↔ Answers r (some links) memo₀ v key) ∧
      MemoKept r links memo₀ (resolveVersion r links v memo).2 := by
  simp only [Answers, if_neg old, Option.some.injEq, exists_eq_left']
  unfold resolveVersion
  by_cases newer : v.exceeds r.currentVersion = true
  · -- Nothing is looked up for a version that is newer than the account's.
    simp only [newer, not_true_eq_false, false_and, iff_false]
    by_cases whole : v.whole = true
    · have higher : (r.currentVersion : Int) < v.floor := by
        rcases exceeds_iff.mp newer with more | ⟨_, fraction⟩
        · exact more
        · rw [whole] at fraction
          cases fraction
      have more : v.floor.toNat > r.currentVersion := by omega
      simp only [whole, if_true, resolveBackupKey, if_neg (Nat.ne_of_gt more), if_pos more]
      exact ⟨fun key found => (by cases found), kept⟩
    · simp only [whole, Bool.false_eq_true, if_false, if_true]
      exact ⟨fun key found => (by cases found), kept⟩
  · have low : ¬ (r.currentVersion : Int) < v.floor := fun more => newer (exceeds_iff.mpr (.inl more))
    have below : v.floor.toNat ≤ r.currentVersion := by omega
    have walked : Walked v.floor.toNat _ r links memo₀ := walk_leads .here below kept
    simp only [newer]
    by_cases whole : v.whole = true
    · have differs : v.floor ≠ r.currentVersion := fun same => old (equals_iff.mpr ⟨whole, same⟩)
      have apart : v.floor.toNat ≠ r.currentVersion := by omega
      simp only [whole, if_true, resolveBackupKey, if_neg apart, if_neg (Nat.not_lt.mpr below)]
      cases direct : memo.get (r.userId.str, v.floor.toNat) with
      | some found =>
        refine ⟨fun key => ?_, kept⟩
        rw [← kept.lookup direct key]
        simp [Except.toOption]
      | none =>
        rw [kept.absent direct]
        refine ⟨fun key => ?_, walked.kept⟩
        simp [walked.answer]
    · simp only [whole, Bool.false_eq_true, if_false, not_false_eq_true, true_and]
      exact ⟨walked.answer, walked.kept⟩

/-- `getKey` gives the answer at any time, and stays sound. -/
theorem getKey_answers {chain : Option (List KeyChainLink)} {acc : Restoring CryptoKey} {v : Number}
    (nonneg : 0 ≤ v.floor) (sound : SoundAnswers r chain memo₀ acc) :
    (∀ key, (getKey r chain v acc).1 = some key ↔ Answers r chain memo₀ v key) ∧
      SoundAnswers r chain memo₀ (getKey r chain v acc).2 ∧
      (getKey r chain v acc).2.result = acc.result := by
  unfold getKey
  split
  -- the current version is answered by the current key
  next current =>
    refine ⟨fun key => ?_, sound, rfl⟩
    rw [Answers, if_pos current, Option.some.injEq]
    exact eq_comm
  -- an older one from the answers kept so far
  next old =>
    cases memoed : acc.keyForVersion.get v with
    | some memo =>
      refine ⟨fun key => ⟨fun same => ?_, fun answer => ?_⟩, sound, rfl⟩
      · cases same
        exact sound.versions v memo memoed
      · exact congrArg some ((sound.versions v memo memoed).unique answer)
    -- or, where there is none yet, from the chain; a found key is kept
    | none =>
      cases chain with
      -- without a chain there is no answer, and none is right
      | none =>
        refine ⟨fun key => ?_, sound, rfl⟩
        simp [Answers, old]
      | some links =>
        obtain ⟨answers, kept⟩ := resolveVersion_answers nonneg old (sound.kept links rfl)
        cases resolved : resolveVersion r links v acc.backupKeys with
        | mk found backupKeys =>
          rw [resolved] at answers kept
          simp only [resolved]
          have still (links' : List KeyChainLink) (same : some links = some links') :
              MemoKept r links' memo₀ backupKeys := by
            cases same
            exact kept
          cases found with
          | none => exact ⟨answers, ⟨sound.versions, still⟩, rfl⟩
          | some key =>
            refine ⟨answers, ⟨fun v' key' found => ?_, still⟩, rfl⟩
            simp only [ObjectMap.get_insert] at found
            split at found
            next same =>
              cases found
              exact same ▸ (answers key).mp rfl
            next => exact sound.versions v' key' found

/-- So the key of a version is the same at any time. -/
theorem getKey_same {chain : Option (List KeyChainLink)} {acc : Restoring CryptoKey} {v : Number}
    (nonneg : 0 ≤ v.floor) (sound : SoundAnswers r chain memo₀ acc) :
    (getKey r chain v acc).1 = (getKey r chain v (startRestoring r memo₀)).1 := by
  apply Option.ext
  intro key
  rw [(getKey_answers nonneg sound).1, (getKey_answers nonneg (.start r chain memo₀)).1]

/-! ### A later restore -/

theorem Leads.later (kept : MemoKept r links memo₀ memo) {version : Nat} {key : CryptoKey} :
    Leads r links memo version key ↔ Leads r links memo₀ version key := by
  constructor
  · intro leads
    induction leads with
    | here => exact .here
    | @hop older key prevKey _ found ih =>
      rcases kept r.userId.str older with same | ⟨_, _, key', leads', here⟩
      · exact ih.hop (by rwa [hopDown, same] at found)
      · rw [hopDown, here, Option.some_or] at found
        cases found
        exact leads'
  · intro leads
    induction leads with
    | here => exact .here
    | @hop older key prevKey above found ih =>
      refine ih.hop ?_
      rcases kept r.userId.str older with same | ⟨_, _, key', leads', here⟩
      · rwa [hopDown, same]
      · rw [hopDown, here, Option.some_or]
        exact congrArg some (leads'.unique (above.hop found))

/-- The keys that a restore leaves in the store change no answer. -/
theorem Answers.later {chain : Option (List KeyChainLink)}
    (kept : ∀ links, chain = some links → MemoKept r links memo₀ memo) {v : Number} {key : CryptoKey} :
    Answers r chain memo v key ↔ Answers r chain memo₀ v key := by
  unfold Answers
  split
  next => rfl
  next =>
    refine exists_congr fun links => and_congr_right fun given => and_congr_right fun _ => ?_
    have same := kept links given
    rw [Leads.later same]
    split
    next =>
      rcases same r.userId.str v.floor.toNat with equal | ⟨_, absent, key', leads, here⟩
      · rw [equal]
      · rw [here, absent]
        constructor
        · rintro (found | ⟨none_, _⟩)
          · cases found
            exact .inr ⟨rfl, leads⟩
          · cases none_
        · rintro (found | ⟨_, other⟩)
          · cases found
          · exact .inl (congrArg some (leads.unique other))
    next => rfl

theorem getKey_later {chain : Option (List KeyChainLink)}
    (kept : ∀ links, chain = some links → MemoKept r links memo₀ memo) {v : Number}
      (nonneg : 0 ≤ v.floor) :
    (getKey r chain v (startRestoring r memo)).1 = (getKey r chain v (startRestoring r memo₀)).1 := by
  apply Option.ext
  intro key
  rw [(getKey_answers nonneg (.start r chain memo)).1, (getKey_answers nonneg (.start r chain memo₀)).1]
  exact Answers.later kept

end Atmin.Web
