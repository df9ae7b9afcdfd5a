import Mathlib.Data.List.Induction
import Mathlib.Order.Lattice

/-!
# The last writer

Elements of a list that may carry a value, ordered by a key: the value of the last one that
has any, and what one element more does to it.
-/

namespace Atmin.Interaction

section Latest

variable {α β κ : Type} [LinearOrder κ] {f : α → Option β} {key : α → κ} {l l' : List α}

variable (f key) in
/-- `x` is the value of the element with the greatest key among those with a value. -/
def Latest (l : List α) (x : β) : Prop :=
  ∃ a ∈ l, f a = some x ∧ ∀ b ∈ l, (f b).isSome → key b ≤ key a

/-- Elements without a value are no matter. -/
theorem latest_congr {x : β} (same : ∀ a, (f a).isSome → (a ∈ l ↔ a ∈ l')) :
    Latest f key l x ↔ Latest f key l' x := by
  have half {l l' : List α} (same : ∀ a, (f a).isSome → (a ∈ l ↔ a ∈ l')) (latest : Latest f key l x) :
      Latest f key l' x := by
    obtain ⟨a, inside, gives, above⟩ := latest
    refine ⟨a, (same a (by rw [gives]; rfl)).mp inside, gives, fun b member has => ?_⟩
    exact above b ((same b has).mpr member) has
  exact ⟨half same, half fun a has => (same a has).symm⟩

/-- Along increasing keys the latest value is the last one. -/
theorem latest_iff_getLast? {x : β} (sorted : l.Pairwise fun a b => key a < key b) :
    Latest f key l x ↔ (l.filterMap f).getLast? = some x := by
  induction l using List.reverseRecOn with
  | nil => simp [Latest]
  | append_singleton front a ih =>
    obtain ⟨sorted', -, before⟩ := List.pairwise_append.mp sorted
    have ih := ih sorted'
    rw [List.filterMap_append]
    cases given : f a with
    -- a last element with a value is the latest
    | some y =>
      rw [List.filterMap_cons_some given, List.filterMap_nil, List.getLast?_append, List.getLast?_singleton,
        Option.some_or, Option.some.injEq]
      constructor
      · rintro ⟨b, member, gives, above⟩
        rcases List.mem_append.mp member with earlier | same
        · have less := before b earlier a (by simp)
          exact absurd (above a (by simp) (by rw [given]; rfl)) (not_le.mpr less)
        · rw [List.mem_singleton.mp same, given] at gives
          exact Option.some.inj gives
      · rintro rfl
        refine ⟨a, by simp, given, fun b member _ => ?_⟩
        rcases List.mem_append.mp member with earlier | same
        · exact (before b earlier a (by simp)).le
        · rw [List.mem_singleton.mp same]
    -- one without a value changes nothing
    | none =>
      rw [List.filterMap_cons_none given, List.filterMap_nil, List.append_nil, ← ih]
      constructor
      · rintro ⟨b, member, gives, above⟩
        rcases List.mem_append.mp member with earlier | same
        · exact ⟨b, earlier, gives, fun c inside => above c (List.mem_append_left _ inside)⟩
        · rw [List.mem_singleton.mp same, given] at gives
          cases gives
      · rintro ⟨b, earlier, gives, above⟩
        refine ⟨b, List.mem_append_left _ earlier, gives, fun c member has => ?_⟩
        rcases List.mem_append.mp member with inside | same
        · exact above c inside has
        · rw [List.mem_singleton.mp same, given] at has
          cases has

/-- One element more leaves the latest value, unless its own comes last. -/
theorem latest_insert {c : α} {x : β} (members : ∀ a, a ∈ l' ↔ a = c ∨ a ∈ l)
    (apart : ∀ a ∈ l, key a ≠ key c) :
    Latest f key l' x ↔
      (f c = some x ∧ ∀ a ∈ l, (f a).isSome → key a < key c) ∨
      (Latest f key l x ∧ ((f c).isSome → ∃ a ∈ l, (f a).isSome ∧ key c < key a)) := by
  constructor
  · rintro ⟨a, listed, gives, above⟩
    rcases (members a).mp listed with rfl | inside
    · refine Or.inl ⟨gives, fun b member has => ?_⟩
      exact lt_of_le_of_ne (above b ((members b).mpr (Or.inr member)) has) (apart b member)
    · refine Or.inr ⟨⟨a, inside, gives, fun b member => above b ((members b).mpr (Or.inr member))⟩, ?_⟩
      intro has
      refine ⟨a, inside, by rw [gives]; rfl, ?_⟩
      exact lt_of_le_of_ne (above c ((members c).mpr (Or.inl rfl)) has) (apart a inside).symm
  · rintro (⟨gives, above⟩ | ⟨⟨a, inside, gives, above⟩, later⟩)
    · refine ⟨c, (members c).mpr (Or.inl rfl), gives, fun b listed has => ?_⟩
      rcases (members b).mp listed with rfl | member
      · exact le_rfl
      · exact (above b member has).le
    · refine ⟨a, (members a).mpr (Or.inr inside), gives, fun b listed has => ?_⟩
      rcases (members b).mp listed with rfl | member
      · obtain ⟨d, there, has', less⟩ := later has
        exact less.le.trans (above d there has')
      · exact above b member has

end Latest

end Atmin.Interaction
