import Atmin.Interaction.Paging

/-!
# Reading a listing page by page

Each page goes on after the last key of the one before it, while keys come and go. Together the
pages are a list in order, with every key that was there throughout and none that never was.
-/

namespace Atmin.Interaction

variable {K : Type} [LinearOrder K]

/-- After the cursor, where there is one. -/
def Beyond (cursor : Option K) (k : K) : Prop := ∀ c ∈ cursor, c < k

/-- One page of the keys that are `here`, up to where the next one starts. -/
structure IsPage (here : K → Prop) (cursor : Option K) (keys : List K) (next : Option K) : Prop where
  sorted : keys.Pairwise (· < ·)
  sound : ∀ k ∈ keys, here k ∧ Beyond cursor k
  last : ∀ c ∈ next, keys.getLast? = some c
  complete : ∀ k, here k → Beyond cursor k → (∀ c ∈ next, k ≤ c) → k ∈ keys

/-- Keys after a cursor, each once and in order: only what was `ever` there, and all that
`always` was. -/
structure Enumerates (ever always : K → Prop) (cursor : Option K) (keys : List K) : Prop where
  sorted : keys.Pairwise (· < ·)
  sound : ∀ k ∈ keys, ever k ∧ Beyond cursor k
  complete : ∀ k, always k → Beyond cursor k → k ∈ keys

variable {here ever always : K → Prop} {cursor : Option K} {keys more : List K} {b c : K}

namespace IsPage

/-- The next page starts after all of this one. -/
theorem le_last (page : IsPage here cursor keys (some c)) {k : K} (listed : k ∈ keys) : k ≤ c := by
  obtain ⟨front, rfl⟩ := List.getLast?_eq_some_iff.mp (page.last c rfl)
  rcases List.mem_append.mp listed with earlier | same
  · exact ((List.pairwise_append.mp page.sorted).2.2 k earlier c (by simp)).le
  · exact (List.mem_singleton.mp same).le

theorem beyond_last (page : IsPage here cursor keys (some c)) : Beyond cursor c :=
  (page.sound c (List.mem_of_getLast? (page.last c rfl))).2

/-- A page that reaches past a bound is the last page of the keys up to it. -/
theorem upTo {next : Option K} (page : IsPage here cursor keys next) (past : ∀ c ∈ next, b < c) :
    IsPage (fun k => here k ∧ k ≤ b) cursor (keys.filter fun k => decide (k ≤ b)) none where
  sorted := page.sorted.filter _
  sound k listed := by
    obtain ⟨listed, below⟩ := List.mem_filter.mp listed
    have there := page.sound k listed
    exact ⟨⟨there.1, of_decide_eq_true below⟩, there.2⟩
  last := nofun
  complete k there beyond _ := by
    refine List.mem_filter.mpr ⟨page.complete k there.1 beyond fun c next => ?_, decide_eq_true there.2⟩
    exact (there.2.trans_lt (past c next)).le

/-- A page that ends before a bound is a page of the keys up to it. -/
theorem within (page : IsPage here cursor keys (some c)) (before : c ≤ b) :
    keys.filter (fun k => decide (k ≤ b)) = keys ∧
      IsPage (fun k => here k ∧ k ≤ b) cursor keys (some c) := by
  constructor
  · rw [List.filter_eq_self]
    exact fun k listed => decide_eq_true ((page.le_last listed).trans before)
  · refine ⟨page.sorted, fun k listed => ?_, page.last, fun k there => page.complete k there.1⟩
    have there := page.sound k listed
    exact ⟨⟨there.1, (page.le_last listed).trans before⟩, there.2⟩

end IsPage

namespace Enumerates

theorem last (page : IsPage here cursor keys none) (seen : ∀ k, here k → ever k)
    (stays : ∀ k, always k → here k) : Enumerates ever always cursor keys where
  sorted := page.sorted
  sound k listed := ⟨seen k (page.sound k listed).1, (page.sound k listed).2⟩
  complete k there beyond := page.complete k (stays k there) beyond nofun

/-- A page, and what was listed after it. -/
theorem append (page : IsPage here cursor keys (some c)) (seen : ∀ k, here k → ever k)
    (stays : ∀ k, always k → here k) (rest : Enumerates ever always (some c) more) :
    Enumerates ever always cursor (keys ++ more) where
  sorted := by
    refine List.pairwise_append.mpr ⟨page.sorted, rest.sorted, fun k listed k' later => ?_⟩
    exact (page.le_last listed).trans_lt ((rest.sound k' later).2 c rfl)
  sound k listed := by
    rcases List.mem_append.mp listed with first | later
    · exact ⟨seen k (page.sound k first).1, (page.sound k first).2⟩
    · have there := rest.sound k later
      exact ⟨there.1, fun d given => (page.beyond_last d given).trans (there.2 c rfl)⟩
  complete k there beyond := by
    rw [List.mem_append]
    -- The next page goes on exactly where this one stops.
    rcases le_or_gt k c with inside | after
    · refine .inl (page.complete k (stays k there) beyond fun d given => ?_)
      cases given
      exact inside
    · refine .inr (rest.complete k there fun d given => ?_)
      cases given
      exact after

/-- The keys up to a bound. -/
theorem upTo (lists : Enumerates ever always cursor keys) (b : K) :
    Enumerates (fun k => ever k ∧ k ≤ b) (fun k => always k ∧ k ≤ b) cursor
      (keys.filter fun k => decide (k ≤ b)) where
  sorted := lists.sorted.filter _
  sound k listed := by
    obtain ⟨listed, below⟩ := List.mem_filter.mp listed
    have there := lists.sound k listed
    exact ⟨⟨there.1, of_decide_eq_true below⟩, there.2⟩
  complete k there beyond :=
    List.mem_filter.mpr ⟨lists.complete k there.1 beyond, decide_eq_true there.2⟩

end Enumerates

/-! ### Pages of a map -/

namespace ObjectMap

variable {V : Type} [DecidableEq K] (m : ObjectMap K V) (p : K → Bool)

/-- The keys of a map that satisfy `p`. -/
def Has (k : K) : Prop := p k = true ∧ ∃ v, m.get k = some v

theorem enumerates_keysAfter (cursor : Option K) :
    Enumerates (m.Has p) (m.Has p) cursor (m.keysAfter p cursor) where
  sorted := m.keysAfter_strict p cursor
  sound k listed := by
    obtain ⟨there, fits, beyond⟩ := (mem_keysAfter m p cursor k).mp listed
    exact ⟨⟨fits, there⟩, beyond⟩
  complete k there beyond := (mem_keysAfter m p cursor k).mpr ⟨there.2, there.1, beyond⟩

theorem isPage_page {limit : Nat} (some_ : 0 < limit) (cursor : Option K) :
    IsPage (m.Has p) cursor (m.page p limit cursor).1 (m.page p limit cursor).2 := by
  have whole := m.enumerates_keysAfter p cursor
  by_cases short : (m.keysAfter p cursor).length ≤ limit
  · rw [page_take, List.take_of_length_le short, page_last short]
    exact ⟨whole.sorted, whole.sound, nofun, fun k there beyond _ => whole.complete k there beyond⟩
  obtain ⟨c, next, rest⟩ := page_next some_ short
  have ends : (m.page p limit cursor).1.getLast? = some c := by
    rw [page_take]
    rw [page, if_neg short] at next
    exact next
  rw [next]
  refine ⟨?_, fun k listed => ?_, fun d given => ?_, fun k there beyond before => ?_⟩
  · rw [page_take]
    exact whole.sorted.sublist (List.take_sublist _ _)
  · rw [page_take] at listed
    exact whole.sound k (List.mem_of_mem_take listed)
  · cases given
    exact ends
  · have listed := whole.complete k there beyond
    rw [← List.take_append_drop limit (m.keysAfter p cursor), ← rest, ← page_take,
      List.mem_append] at listed
    refine listed.resolve_right fun later => ?_
    exact absurd (before c rfl) (not_le.mpr (((mem_keysAfter m p _ k).mp later).2.2 c rfl))

end ObjectMap

end Atmin.Interaction
