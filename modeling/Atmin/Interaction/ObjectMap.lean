import Mathlib.Order.Basic
import Mathlib.Data.List.Sort

/-!
# Key-value maps with ordered listing

A finite map whose keys occur once, with the operations of an object store: point
reads and writes, bulk erasure, and a page of the keys that satisfy a predicate, in
order, after an exclusive cursor.
-/

namespace Atmin.Interaction

structure ObjectMap (K V : Type) where
  entries : List (K × V)
  nodup : (entries.map Prod.fst).Nodup

namespace ObjectMap

variable {K V : Type} [DecidableEq K]

def empty : ObjectMap K V := ⟨[], List.nodup_nil⟩

def keys (m : ObjectMap K V) : List K := m.entries.map Prod.fst

def get (m : ObjectMap K V) (k : K) : Option V :=
  (m.entries.find? fun e => decide (e.1 = k)).map Prod.snd

/-- Drop every key that satisfies `gone`. -/
def eraseWhere (m : ObjectMap K V) (gone : K → Bool) : ObjectMap K V where
  entries := m.entries.filter fun e => !gone e.1
  nodup := m.nodup.sublist (List.filter_sublist.map _)

def erase (m : ObjectMap K V) (k : K) : ObjectMap K V := m.eraseWhere fun j => decide (j = k)

def eraseAll (m : ObjectMap K V) (ks : List K) : ObjectMap K V :=
  m.eraseWhere fun j => decide (j ∈ ks)

def insert (m : ObjectMap K V) (k : K) (v : V) : ObjectMap K V where
  entries := (k, v) :: (m.erase k).entries
  nodup := by
    refine List.nodup_cons.mpr ⟨?_, (m.erase k).nodup⟩
    simp [erase, eraseWhere]

@[simp] theorem get_empty (k : K) : (empty : ObjectMap K V).get k = none := rfl

theorem get_eraseWhere (m : ObjectMap K V) (gone : K → Bool) (k : K) :
    (m.eraseWhere gone).get k = if gone k then none else m.get k := by
  simp only [get, eraseWhere]
  induction m.entries with
  | nil => simp
  | cons e rest ih =>
    by_cases same : e.1 = k
    · subst same
      cases h : gone e.1 with
      | false => simp [h]
      | true => simpa [h] using ih
    · cases h : gone e.1 <;> simp_all

@[simp] theorem get_erase (m : ObjectMap K V) (k j : K) :
    (m.erase k).get j = if j = k then none else m.get j := by
  simp [erase, get_eraseWhere]

@[simp] theorem get_eraseAll (m : ObjectMap K V) (ks : List K) (j : K) :
    (m.eraseAll ks).get j = if j ∈ ks then none else m.get j := by
  simp [eraseAll, get_eraseWhere]

@[simp] theorem get_insert (m : ObjectMap K V) (k j : K) (v : V) :
    (m.insert k v).get j = if j = k then some v else m.get j := by
  by_cases same : j = k
  · subst j; simp [get, insert]
  · have kept : ((m.erase k).entries.find? fun e => decide (e.1 = j)).map Prod.snd = m.get j := by
      simpa [get, same] using get_erase m k j
    simp only [get, insert, List.find?_cons, Ne.symm same, decide_false, if_neg same]
    exact kept

theorem mem_keys_iff (m : ObjectMap K V) (k : K) : k ∈ m.keys ↔ ∃ v, m.get k = some v := by
  unfold keys get
  simp only [List.mem_map, Option.map_eq_some_iff, Prod.exists, exists_and_right, exists_eq_right]
  constructor
  · rintro ⟨v, member⟩
    cases found : m.entries.find? fun e => decide (e.1 = k) with
    | none =>
      have absent := List.find?_eq_none.mp found (k, v) member
      simp at absent
    | some e =>
      have hit := List.find?_some found
      simp only [decide_eq_true_eq] at hit
      exact ⟨e.2, e.1, rfl⟩
  · rintro ⟨v, j, found⟩
    have hit := List.find?_some found
    simp only [decide_eq_true_eq] at hit
    exact ⟨v, hit ▸ List.mem_of_find?_eq_some found⟩

theorem mem_of_get {m : ObjectMap K V} {k : K} {v : V} (found : m.get k = some v) :
    (k, v) ∈ m.entries := by
  unfold get at found
  obtain ⟨e, here, rfl⟩ := Option.map_eq_some_iff.mp found
  have hit := List.find?_some here
  simp only [decide_eq_true_eq] at hit
  exact hit ▸ List.mem_of_find?_eq_some here

theorem get_of_mem {m : ObjectMap K V} {k : K} {v : V} (member : (k, v) ∈ m.entries) :
    m.get k = some v := by
  obtain ⟨w, found⟩ := (mem_keys_iff m k).mp (List.mem_map_of_mem member)
  have same := List.inj_on_of_nodup_map m.nodup (mem_of_get found) member rfl
  rw [found, (Prod.mk.inj same).2]

/-- Erasing what is not there changes nothing. -/
theorem eraseWhere_absent {m : ObjectMap K V} {gone : K → Bool}
    (absent : ∀ k, gone k = true → m.get k = none) : m.eraseWhere gone = m := by
  have whole : m.entries.filter (fun e => !gone e.1) = m.entries := by
    refine List.filter_eq_self.mpr fun e member => ?_
    have present := get_of_mem (m := m) (k := e.1) (v := e.2) member
    cases erased : gone e.1 with
    | false => rfl
    | true => rw [absent e.1 erased] at present; cases present
  obtain ⟨entries, nodup⟩ := m
  simp only [eraseWhere, whole]

/-- Map each value, and drop the keys of those without a result. -/
def mapValues {W : Type} (f : V → Option W) (m : ObjectMap K V) : ObjectMap K W where
  entries := m.entries.filterMap fun e => (f e.2).map fun w => (e.1, w)
  nodup := by
    refine m.nodup.sublist ?_
    rw [List.map_filterMap]
    induction m.entries with
    | nil => exact .slnil
    | cons e rest ih =>
      cases h : f e.2 with
      | none => simpa [h] using ih.cons e.1
      | some w => simpa [h] using ih.cons_cons e.1

/-- Keep the entries that satisfy `keep`. -/
def retain (keep : K → V → Bool) (m : ObjectMap K V) : ObjectMap K V where
  entries := m.entries.filter fun e => keep e.1 e.2
  nodup := m.nodup.sublist (List.filter_sublist.map _)

theorem get_retain (keep : K → V → Bool) (m : ObjectMap K V) (k : K) :
    (m.retain keep).get k = (m.get k).filter (keep k) := by
  refine Option.ext fun v => ?_
  rw [Option.filter_eq_some_iff]
  constructor
  · intro found
    have member := List.mem_filter.mp (mem_of_get found)
    exact ⟨get_of_mem member.1, member.2⟩
  · rintro ⟨found, kept⟩
    exact get_of_mem (List.mem_filter.mpr ⟨mem_of_get found, kept⟩)

section Listing

variable [LinearOrder K]

/-- The keys a listing ranges over: those that satisfy `p`, after the cursor, in order. -/
def keysAfter (m : ObjectMap K V) (p : K → Bool) (cursor : Option K) : List K :=
  (m.keys.filter fun k => p k && cursor.all fun c => decide (c < k)).insertionSort (· ≤ ·)

/-- One page: at most `limit` keys, and the last of them when more follow. -/
def page (m : ObjectMap K V) (p : K → Bool) (limit : Nat) (cursor : Option K) :
    List K × Option K :=
  let found := m.keysAfter p cursor
  if found.length ≤ limit then (found, none)
  else (found.take limit, (found.take limit).getLast?)

theorem mem_keysAfter (m : ObjectMap K V) (p : K → Bool) (cursor : Option K) (k : K) :
    k ∈ m.keysAfter p cursor ↔
      (∃ v, m.get k = some v) ∧ p k = true ∧ ∀ c ∈ cursor, c < k := by
  cases cursor <;> simp [keysAfter, List.mem_insertionSort, ← mem_keys_iff]

omit [DecidableEq K] in
theorem keysAfter_sorted (m : ObjectMap K V) (p : K → Bool) (cursor : Option K) :
    (m.keysAfter p cursor).Pairwise (· ≤ ·) :=
  List.pairwise_insertionSort _ _

omit [DecidableEq K] in
theorem page_sub (m : ObjectMap K V) (p : K → Bool) (limit : Nat) (cursor : Option K) (k : K)
    (listed : k ∈ (m.page p limit cursor).1) : k ∈ m.keysAfter p cursor := by
  unfold page at listed
  dsimp only at listed
  split at listed
  · exact listed
  · exact List.mem_of_mem_take listed

/-- Every listed key was present and matches. -/
theorem mem_page (m : ObjectMap K V) (p : K → Bool) (limit : Nat) (cursor : Option K) (k : K)
    (listed : k ∈ (m.page p limit cursor).1) : (∃ v, m.get k = some v) ∧ p k = true := by
  obtain ⟨present, fits, _⟩ := (mem_keysAfter m p cursor k).mp (page_sub m p limit cursor k listed)
  exact ⟨present, fits⟩

/-- Every listed key lies above the cursor. -/
theorem page_above (m : ObjectMap K V) (p : K → Bool) (limit : Nat) (cursor : Option K) (k : K)
    (listed : k ∈ (m.page p limit cursor).1) : ∀ c ∈ cursor, c < k :=
  ((mem_keysAfter m p cursor k).mp (page_sub m p limit cursor k listed)).2.2

/-- A page from the start that holds all matching keys is exactly the matching keys. -/
theorem page_complete (m : ObjectMap K V) (p : K → Bool) (limit : Nat)
    (fits : (m.keysAfter p none).length ≤ limit) (k : K) (present : ∃ v, m.get k = some v)
    (matching : p k = true) : k ∈ (m.page p limit none).1 := by
  simp only [page, if_pos fits]
  exact (mem_keysAfter m p none k).mpr ⟨present, matching, by simp⟩

omit [DecidableEq K] in
theorem keysAfter_nodup (m : ObjectMap K V) (p : K → Bool) (cursor : Option K) :
    (m.keysAfter p cursor).Nodup :=
  (List.perm_insertionSort _ _).nodup_iff.mpr (m.nodup.filter _)

omit [DecidableEq K] in
/-- A page of two or more shows whether some matching key differs from `j`. -/
theorem exists_page_ne (m : ObjectMap K V) (p : K → Bool) {limit : Nat} (two : 2 ≤ limit)
    (cursor : Option K) (j : K) :
    (∃ k ∈ (m.page p limit cursor).1, k ≠ j) ↔ ∃ k ∈ m.keysAfter p cursor, k ≠ j := by
  have nodup := m.keysAfter_nodup p cursor
  unfold page
  dsimp only
  split
  next => rfl
  next long =>
    constructor
    · rintro ⟨k, member, differs⟩
      exact ⟨k, List.mem_of_mem_take member, differs⟩
    · -- Of the first two keys, one is not `j`.
      intro _
      match found : m.keysAfter p cursor with
      | [] => simp [found] at long
      | [_] =>
        rw [found, List.length_singleton] at long
        omega
      | a :: b :: rest =>
        rw [found] at nodup
        have apart : a ≠ b := fun same => by simp [same] at nodup
        obtain ⟨n, rfl⟩ := Nat.exists_eq_add_of_le' two
        by_cases same : a = j
        · exact ⟨b, by simp, fun h => apart (same.trans h.symm)⟩
        · exact ⟨a, by simp, same⟩

omit [DecidableEq K] in
theorem keysAfter_strict (m : ObjectMap K V) (p : K → Bool) (cursor : Option K) :
    (m.keysAfter p cursor).Pairwise (· < ·) :=
  (m.keysAfter_sorted p cursor).imp₂ (fun _ _ le ne => lt_of_le_of_ne le ne)
    (m.keysAfter_nodup p cursor)

/-- What follows the last key of a page is the rest of the listing. -/
theorem keysAfter_last {m : ObjectMap K V} {p : K → Bool} {cursor : Option K} {n : Nat} {last : K}
    (ends : ((m.keysAfter p cursor).take n).getLast? = some last) :
    m.keysAfter p (some last) = (m.keysAfter p cursor).drop n := by
  obtain ⟨front, split⟩ := List.getLast?_eq_some_iff.mp ends
  have whole : front ++ [last] ++ (m.keysAfter p cursor).drop n = m.keysAfter p cursor := by
    rw [← split, List.take_append_drop]
  have strict := m.keysAfter_strict p cursor
  rw [← whole, List.pairwise_append, List.pairwise_append] at strict
  obtain ⟨⟨_, _, before⟩, _, across⟩ := strict
  have here : last ∈ m.keysAfter p cursor := by rw [← whole]; simp
  have beyond := ((mem_keysAfter m p cursor last).mp here).2.2
  refine List.Perm.eq_of_pairwise' (m.keysAfter_sorted p (some last))
    ((m.keysAfter_sorted p cursor).sublist (List.drop_sublist _ _))
    ((List.perm_ext_iff_of_nodup (m.keysAfter_nodup p _)
      ((m.keysAfter_nodup p cursor).sublist (List.drop_sublist _ _))).mpr fun k => ?_)
  rw [mem_keysAfter]
  constructor
  · rintro ⟨present, fits, after⟩
    have above := after last rfl
    have listed : k ∈ m.keysAfter p cursor :=
      (mem_keysAfter m p cursor k).mpr ⟨present, fits, fun c given => (beyond c given).trans above⟩
    rw [← whole, List.mem_append] at listed
    refine listed.resolve_left fun earlier => ?_
    rcases List.mem_append.mp earlier with first | same
    · exact lt_asymm above (before k first last List.mem_cons_self)
    · exact absurd above (List.mem_singleton.mp same ▸ lt_irrefl last)
  · intro later
    have listed := (mem_keysAfter m p cursor k).mp (List.mem_of_mem_drop later)
    refine ⟨listed.1, listed.2.1, fun c given => ?_⟩
    cases given
    exact across last (by simp) k later

/-- A map with fewer keys lists those it has. -/
theorem keysAfter_sub {W : Type} {m : ObjectMap K V} {m' : ObjectMap K W} {kept : K → Bool}
    (fewer : ∀ k, (∃ w, m'.get k = some w) ↔ (∃ v, m.get k = some v) ∧ kept k = true) (p : K → Bool)
    (cursor : Option K) : m'.keysAfter p cursor = (m.keysAfter p cursor).filter kept := by
  refine List.Perm.eq_of_pairwise' (m'.keysAfter_sorted p cursor)
    ((m.keysAfter_sorted p cursor).filter _) ((List.perm_ext_iff_of_nodup (m'.keysAfter_nodup p _)
      ((m.keysAfter_nodup p cursor).filter _)).mpr fun k => ?_)
  rw [List.mem_filter, mem_keysAfter, mem_keysAfter, fewer]
  constructor
  · rintro ⟨⟨present, kept⟩, rest⟩
    exact ⟨⟨present, rest⟩, kept⟩
  · rintro ⟨⟨present, rest⟩, kept⟩
    exact ⟨⟨present, kept⟩, rest⟩

end Listing

end ObjectMap

end Atmin.Interaction
