import Mathlib.Data.List.Nodup
import Atmin.Interaction.ObjectMap

/-!
# Deleting by pages

What is left of a listing once its first page, or all of it, has been erased.
-/

namespace Atmin.Interaction.ObjectMap

section Lists

variable {α : Type} [DecidableEq α]

theorem filter_notMem_take {l : List α} (nodup : l.Nodup) (n : Nat) :
    (l.filter fun x => !decide (x ∈ l.take n)) = l.drop n := by
  have apart := List.disjoint_take_drop nodup (le_refl n)
  have whole : l.filter (fun x => !decide (x ∈ l.take n)) =
      (l.take n ++ l.drop n).filter fun x => !decide (x ∈ l.take n) := by rw [List.take_append_drop]
  rw [whole, List.filter_append, List.filter_eq_nil_iff.mpr (by simp), List.nil_append,
    List.filter_eq_self.mpr]
  intro x later
  simpa using fun earlier => apart earlier later

end Lists

variable {K V : Type} [DecidableEq K] [LinearOrder K] {m : ObjectMap K V} {p : K → Bool}

/-- Erasing keys leaves the others of a listing. -/
theorem keysAfter_eraseAll (m : ObjectMap K V) (p : K → Bool) (cursor : Option K) (ks : List K) :
    (m.eraseAll ks).keysAfter p cursor = (m.keysAfter p cursor).filter fun k => !decide (k ∈ ks) := by
  refine keysAfter_sub (fun k => ?_) p cursor
  rw [get_eraseAll]
  by_cases gone : k ∈ ks
  · simp [gone]
  · simp [gone]

omit [DecidableEq K] in
theorem page_take (m : ObjectMap K V) (p : K → Bool) (limit : Nat) (cursor : Option K) :
    (m.page p limit cursor).1 = (m.keysAfter p cursor).take limit := by
  unfold page
  dsimp only
  split
  next short => exact (List.take_of_length_le short).symm
  next => rfl

/-- A page erased, what follows it is left. -/
theorem keysAfter_erasePage (m : ObjectMap K V) (p : K → Bool) (limit : Nat) :
    (m.eraseAll (m.page p limit none).1).keysAfter p none = (m.keysAfter p none).drop limit := by
  rw [keysAfter_eraseAll, page_take, filter_notMem_take (m.keysAfter_nodup p none)]

/-- Keys that do not match are no matter to a listing. -/
theorem keysAfter_eraseOthers {ks : List K} (others : ∀ k ∈ ks, p k = false) (cursor : Option K) :
    (m.eraseAll ks).keysAfter p cursor = m.keysAfter p cursor := by
  rw [keysAfter_eraseAll, List.filter_eq_self]
  intro k listed
  have fits := ((mem_keysAfter m p cursor k).mp listed).2.1
  simp only [Bool.not_eq_true', decide_eq_false_iff_not]
  intro gone
  rw [others k gone] at fits
  cases fits

/-- Nothing matches where the listing is empty. -/
theorem keysAfter_nil_iff : m.keysAfter p none = [] ↔ ∀ k, p k = true → m.get k = none := by
  rw [List.eq_nil_iff_forall_not_mem]
  constructor
  · intro none_ k fits
    by_contra there
    obtain ⟨v, found⟩ := Option.ne_none_iff_exists'.mp there
    exact none_ k ((mem_keysAfter m p none k).mpr ⟨⟨v, found⟩, fits, by simp⟩)
  · intro absent k listed
    obtain ⟨⟨v, found⟩, fits, _⟩ := (mem_keysAfter m p none k).mp listed
    rw [absent k fits] at found
    cases found

/-- Maps with the same keys have the same listings. -/
theorem keysAfter_congr {W : Type} {m' : ObjectMap K W} {cursor : Option K}
    (same : ∀ k, p k = true → (∀ c ∈ cursor, c < k) →
      ((∃ w, m'.get k = some w) ↔ ∃ v, m.get k = some v)) : m'.keysAfter p cursor = m.keysAfter p cursor := by
  refine List.Perm.eq_of_pairwise' (m'.keysAfter_sorted p cursor) (m.keysAfter_sorted p cursor)
    ((List.perm_ext_iff_of_nodup (m'.keysAfter_nodup p _) (m.keysAfter_nodup p _)).mpr fun k => ?_)
  rw [mem_keysAfter, mem_keysAfter]
  exact and_congr_left fun ⟨fits, after⟩ => same k fits after

omit [DecidableEq K] in
theorem keysAfter_length_le (m : ObjectMap K V) (p : K → Bool) (cursor : Option K) :
    (m.keysAfter p cursor).length ≤ m.entries.length := by
  rw [keysAfter, List.length_insertionSort]
  exact (List.length_filter_le _ _).trans (by rw [keys, List.length_map])

/-- A page that is not the last ends where the rest of the listing begins. -/
theorem page_next {m : ObjectMap K V} {p : K → Bool} {limit : Nat} {cursor : Option K} (some_ : 0 < limit)
    (long : ¬ (m.keysAfter p cursor).length ≤ limit) :
    ∃ last, (m.page p limit cursor).2 = some last ∧
      m.keysAfter p (some last) = (m.keysAfter p cursor).drop limit := by
  have nonempty : (m.keysAfter p cursor).take limit ≠ [] := by
    intro none_
    have size := congrArg List.length none_
    rw [List.length_take, List.length_nil] at size
    omega
  have ends := List.getLast?_eq_some_getLast nonempty
  refine ⟨_, ?_, keysAfter_last ends⟩
  rw [page, if_neg long]
  exact ends

omit [DecidableEq K] in
theorem page_last {m : ObjectMap K V} {p : K → Bool} {limit : Nat} {cursor : Option K}
    (short : (m.keysAfter p cursor).length ≤ limit) : (m.page p limit cursor).2 = none := by
  rw [page, if_pos short]

end Atmin.Interaction.ObjectMap
