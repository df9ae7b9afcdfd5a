import Atmin.Server.Paths

/-!
# Whose key it is

A key is read by its first two segments: a root, then an account. Two accounts share
no subtree, and what one may read of another's is media and the profile.
-/

namespace Atmin

def SUBTREE_ROOTS : List String := DATA_PREFIXES ++ [USERS_ROOT]

/-- The key lies in the account's `inbox/`, `keys/`, `media/` or `users/` subtree. -/
def InSubtree (uid key : String) : Prop :=
  ∃ root ∈ SUBTREE_ROOTS, startsWith key (root ++ uid ++ "/") = true

theorem startsWith_iff {s pre : String} :
    startsWith s pre = true ↔ ∃ rest, s.toList = pre.toList ++ rest := by
  simp only [startsWith, List.isPrefixOf_iff_prefix]
  constructor
  · rintro ⟨rest, same⟩
    exact ⟨rest, same.symm⟩
  · rintro ⟨rest, same⟩
    exact ⟨rest, same.symm⟩

theorem split_inj {α : Type} {c : α} : ∀ {xs ys as bs : List α}, c ∉ xs → c ∉ ys →
    xs ++ c :: as = ys ++ c :: bs → xs = ys ∧ as = bs
  | [], [], _, _, _, _, same => ⟨rfl, (List.cons.inj same).2⟩
  | [], y :: ys, _, _, _, absent, same =>
    absurd (List.mem_cons_self) ((List.cons.inj same).1 ▸ absent)
  | x :: xs, [], _, _, absent, _, same =>
    absurd (List.mem_cons_self) ((List.cons.inj same).1 ▸ absent)
  | x :: xs, y :: ys, _, _, absent, absent', same => by
    obtain ⟨rfl, tails⟩ := List.cons.inj same
    obtain ⟨rfl, rest⟩ := split_inj (fun member => absent (List.mem_cons_of_mem _ member))
      (fun member => absent' (List.mem_cons_of_mem _ member)) tails
    exact ⟨rfl, rest⟩

/-- The segment before the first slash is determined. -/
theorem segment_inj {a b : String} {x y : List Char} (plain : '/' ∉ a.toList) (plain' : '/' ∉ b.toList)
    (same : a.toList ++ '/' :: x = b.toList ++ '/' :: y) : a = b ∧ x = y := by
  obtain ⟨left, right⟩ := split_inj plain plain' same
  exact ⟨String.toList_inj.mp left, right⟩

/-- A root is one segment. -/
theorem root_segment {root : String} (member : root ∈ SUBTREE_ROOTS) :
    ∃ name, root = name ++ "/" ∧ '/' ∉ name.toList ∧ name ≠ "handles" := by
  simp only [SUBTREE_ROOTS, DATA_PREFIXES, USERS_ROOT, List.cons_append, List.nil_append,
    List.mem_cons, List.not_mem_nil, or_false] at member
  rcases member with rfl | rfl | rfl | rfl
  · exact ⟨"inbox", by decide⟩
  · exact ⟨"keys", by decide⟩
  · exact ⟨"media", by decide⟩
  · exact ⟨"users", by decide⟩

theorem InSubtree.segments {uid key : String} (within : InSubtree uid key) :
    ∃ name rest, '/' ∉ name.toList ∧ name ≠ "handles" ∧ name ++ "/" ∈ SUBTREE_ROOTS ∧
      key.toList = name.toList ++ '/' :: (uid.toList ++ '/' :: rest) := by
  obtain ⟨root, member, starts⟩ := within
  obtain ⟨name, rfl, plain, other⟩ := root_segment member
  obtain ⟨rest, same⟩ := startsWith_iff.mp starts
  refine ⟨name, rest, plain, other, member, ?_⟩
  simpa [String.toList_append] using same

/-- A key lies in one account's subtree at most. -/
theorem InSubtree.owner {u v : UserId} {key : String} (first : InSubtree u.str key)
    (second : InSubtree v.str key) : u = v := by
  obtain ⟨name, rest, plain, -, -, same⟩ := first.segments
  obtain ⟨name', rest', plain', -, -, same'⟩ := second.segments
  obtain ⟨-, tails⟩ := segment_inj plain plain' (same.symm.trans same')
  obtain ⟨ids, -⟩ :=
    segment_inj (validateUlid_no_slash u.ulid) (validateUlid_no_slash v.ulid) tails
  cases u
  cases v
  cases ids
  rfl

theorem InSubtree.mono {uid pre key : String} (within : InSubtree uid pre)
    (under : startsWith key pre = true) : InSubtree uid key := by
  obtain ⟨root, member, starts⟩ := within
  exact ⟨root, member, startsWith_trans under starts⟩

theorem keyProfile_within (uid : String) : InSubtree uid (keyProfile uid) := by
  refine ⟨USERS_ROOT, by decide, ?_⟩
  rw [keyProfile_eq]
  exact startsWith_append _ _

/-- No account has a subtree under `handles/`. -/
theorem InSubtree.not_handle {uid key : String} (within : InSubtree uid key) :
    startsWith key "handles/" = false := by
  obtain ⟨name, rest, plain, other, -, same⟩ := within.segments
  by_contra handle
  obtain ⟨rest', same'⟩ := startsWith_iff.mp (Bool.not_eq_false _ |>.mp handle)
  have both : name.toList ++ '/' :: (uid.toList ++ '/' :: rest) =
      "handles".toList ++ '/' :: rest' := same.symm.trans (by simpa using same')
  exact other (segment_inj plain (by decide) both).1

theorem authorizeKeyWrite_iff {uid key : String} :
    authorizeKeyWrite uid key = true ↔ InSubtree uid key := by
  simp only [authorizeKeyWrite, InSubtree, SUBTREE_ROOTS, Bool.or_eq_true, List.any_eq_true,
    List.mem_append, List.mem_singleton]
  constructor
  · rintro (⟨root, member, starts⟩ | starts)
    · exact ⟨root, Or.inl member, starts⟩
    · exact ⟨USERS_ROOT, Or.inr rfl, starts⟩
  · rintro ⟨root, member | rfl, starts⟩
    · exact Or.inl ⟨root, member, starts⟩
    · exact Or.inr starts

theorem compact_within {uid pre : String} (allowed : authorizeCompactPrefix uid pre = true) :
    InSubtree uid pre := by
  simp only [authorizeCompactPrefix, Bool.or_eq_true, decide_eq_true_eq] at allowed
  have live (root : String) :
      startsWith (root ++ uid ++ "/live/") (root ++ uid ++ "/") = true := by
    have split : root ++ uid ++ "/live/" = (root ++ uid ++ "/") ++ "live/" := by
      simp only [String.append_assoc]
      rfl
    rw [split]
    exact startsWith_append _ _
  rcases allowed with rfl | rfl
  · exact ⟨"inbox/", by decide, live "inbox/"⟩
  · exact ⟨"keys/", by decide, live "keys/"⟩

theorem stripPrefix_eq_some {s pre rest : String} (stripped : stripPrefix s pre = some rest) :
    s = pre ++ rest := by
  unfold stripPrefix at stripped
  split at stripped
  next under =>
    obtain ⟨tail, same⟩ := startsWith_iff.mp under
    rw [same, List.drop_left] at stripped
    rw [← String.toList_inj, ← Option.some.inj stripped, same]
    simp
  · cases stripped

theorem stripSuffix_eq_some {s suf start : String} (stripped : stripSuffix s suf = some start) :
    s = start ++ suf := by
  unfold stripSuffix at stripped
  split at stripped
  next ends =>
    simp only [endsWith, List.isSuffixOf_iff_suffix] at ends
    obtain ⟨front, same⟩ := ends
    rw [← same, List.length_append, Nat.add_sub_cancel, List.take_left] at stripped
    rw [← String.toList_inj, ← Option.some.inj stripped, ← same]
    simp
  · cases stripped

/-- The public objects are the profiles of single segments. -/
theorem publicObject_iff {key : String} : isPublicUserObject key = true ↔
    ∃ uid, uid ≠ "" ∧ '/' ∉ uid.toList ∧ key = keyProfile uid := by
  constructor
  · intro isPublic
    simp only [isPublicUserObject, Option.any_eq_true, Bool.and_eq_true, decide_eq_true_eq] at isPublic
    obtain ⟨uid, stripped, nonempty, plain⟩ := isPublic
    obtain ⟨rest, start, finish⟩ := Option.bind_eq_some_iff.mp stripped
    refine ⟨uid, nonempty, plain, ?_⟩
    rw [stripPrefix_eq_some start, stripSuffix_eq_some finish, keyProfile, String.append_assoc]
    rfl
  · rintro ⟨uid, nonempty, plain, rfl⟩
    have start : stripPrefix (keyProfile uid) USERS_ROOT = some (uid ++ "/profile.json") := by
      have under : startsWith (keyProfile uid) USERS_ROOT = true := by
        rw [keyProfile, String.append_assoc]
        exact startsWith_append _ _
      rw [stripPrefix, if_pos under]
      simp [keyProfile, USERS_ROOT]
    simp [isPublicUserObject, start, stripSuffix_append, nonempty, plain]

theorem authorizePrefix_iff {uid pre : String} :
    authorizePrefix uid pre = true ↔ InSubtree uid pre ∨ isPublicUserObject pre = true := by
  rw [← authorizeKeyWrite_iff, ← Bool.or_eq_true]
  rfl

theorem authorizeKey_iff {uid key : String} : authorizeKey uid key = true ↔
    InSubtree uid key ∨ isPublicUserObject key = true ∨ startsWith key "media/" = true := by
  rw [authorizeKey, Bool.or_eq_true, authorizePrefix_iff, or_assoc]

/-- A public object in an account's subtree is its profile. -/
theorem InSubtree.profile {v : UserId} {key : String} (within : InSubtree v.str key)
    (isPublic : isPublicUserObject key = true) : key = keyProfile v.str := by
  obtain ⟨uid, nonempty, plain', rfl⟩ := publicObject_iff.mp isPublic
  obtain ⟨name, rest, plain, -, -, same⟩ := within.segments
  have split : (keyProfile uid).toList =
      "users".toList ++ '/' :: (uid.toList ++ '/' :: "profile.json".toList) := by
    simp [keyProfile, String.toList_append]
  obtain ⟨-, tails⟩ := segment_inj plain (by decide) (same.symm.trans split)
  rw [(segment_inj (validateUlid_no_slash v.ulid) plain' tails).1]

/-- Storage authorization keeps accounts apart. -/
theorem accounts_apart (u v : UserId) (distinct : u ≠ v) (key : String) :
    ¬ (authorizeKeyWrite u.str key = true ∧ authorizeKeyWrite v.str key = true) ∧
    ¬ (authorizeCompactPrefix u.str key = true ∧ authorizeCompactPrefix v.str key = true) ∧
    (∀ pre, authorizeCompactPrefix u.str pre = true → startsWith key pre = true →
      authorizeKeyWrite u.str key = true) ∧
    (startsWith key "handles/" = true →
      authorizeKeyWrite u.str key = false ∧ authorizeCompactPrefix u.str key = false) ∧
    (authorizeKey u.str key = true → InSubtree v.str key →
      startsWith key "media/" = true ∨ key = keyProfile v.str) := by
  refine ⟨?_, ?_, ?_, ?_, ?_⟩
  · rintro ⟨mine, other⟩
    exact distinct ((authorizeKeyWrite_iff.mp mine).owner (authorizeKeyWrite_iff.mp other))
  · rintro ⟨mine, other⟩
    exact distinct ((compact_within mine).owner (compact_within other))
  · intro pre allowed under
    exact authorizeKeyWrite_iff.mpr ((compact_within allowed).mono under)
  · intro handle
    constructor
    · by_contra written
      have within := authorizeKeyWrite_iff.mp (Bool.not_eq_false _ |>.mp written)
      exact absurd handle (by simp [within.not_handle])
    · by_contra compacted
      have within := compact_within (Bool.not_eq_false _ |>.mp compacted)
      exact absurd handle (by simp [within.not_handle])
  · intro allowed within
    rcases authorizeKey_iff.mp allowed with mine | isPublic | media
    · exact absurd (mine.owner within) distinct
    · exact Or.inr (within.profile isPublic)
    · exact Or.inl media

section Neighbours

def anna : UserId := ⟨"01AAAAAAAAAAAAAAAAAAAAAAAA", by decide +kernel⟩

def bert : UserId := ⟨"01BBBBBBBBBBBBBBBBBBBBBBBB", by decide +kernel⟩

theorem profile_read_only : authorizeKey anna.str (keyProfile bert.str) = true ∧
    authorizeKeyWrite anna.str (keyProfile bert.str) = false := by
  refine ⟨by decide +kernel, ?_⟩
  by_contra written
  have apart : anna ≠ bert := by decide +kernel
  exact (accounts_apart anna bert apart (keyProfile bert.str)).1
    ⟨Bool.not_eq_false _ |>.mp written, authorizeKeyWrite_iff.mpr (keyProfile_within _)⟩

end Neighbours

end Atmin
