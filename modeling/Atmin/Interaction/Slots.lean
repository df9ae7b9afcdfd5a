import Atmin.Interaction.ObjectMap
import Mathlib.Data.List.Nodup

/-!
# Resources in slots

Resources that have to be released by hand. A slot holds at most one, and whatever leaves its slot is
released then and there, so every resource is in one slot or was released once.
-/

namespace Atmin.Interaction

variable {K R : Type} [DecidableEq K]

/-- Every resource is held in one slot or was released once. -/
structure Accounted (created : List R) (released : List Nat) (held : ObjectMap K Nat) : Prop where
  live : ∀ k n, held.get k = some n → n < created.length ∧ n ∉ released
  apart : ∀ j k n, held.get j = some n → held.get k = some n → j = k
  once : released.Nodup
  known : ∀ n ∈ released, n < created.length
  kept : ∀ n < created.length, n ∈ released ∨ ∃ k, held.get k = some n

/-- A resource is named by how many were created before it. -/
structure Slots (K R : Type) [DecidableEq K] where
  created : List R
  released : List Nat
  held : ObjectMap K Nat
  accounted : Accounted created released held

namespace Accounted

variable {created : List R} {released : List Nat} {held : ObjectMap K Nat} {k : K}

/-- The slot is emptied. -/
theorem drop (all : Accounted created released held) :
    Accounted created (released ++ (held.get k).toList) (held.erase k) where
  live j n got := by
    rw [ObjectMap.get_erase] at got
    split at got
    next => cases got
    next other =>
      obtain ⟨low, fresh⟩ := all.live j n got
      refine ⟨low, ?_⟩
      simp only [List.mem_append, Option.mem_toList, not_or]
      exact ⟨fresh, fun here => other (all.apart j k n got here)⟩
  apart i j n first second := by
    rw [ObjectMap.get_erase] at first second
    split at first
    next => cases first
    next =>
      split at second
      next => cases second
      next => exact all.apart i j n first second
  once := by
    refine List.nodup_append.mpr ⟨all.once, ?_, ?_⟩
    · cases held.get k <;> simp
    · intro n old m here same
      subst same
      exact (all.live k n (Option.mem_toList.mp here)).2 old
  known n member := by
    rcases List.mem_append.mp member with old | here
    · exact all.known n old
    · exact (all.live k n (Option.mem_toList.mp here)).1
  kept n low := by
    rcases all.kept n low with gone | ⟨j, got⟩
    · exact .inl (List.mem_append_left _ gone)
    · by_cases this : j = k
      · subst this
        exact .inl (List.mem_append_right _ (Option.mem_toList.mpr got))
      · exact .inr ⟨j, by rw [ObjectMap.get_erase, if_neg this, got]⟩

/-- A new resource in an empty slot. -/
theorem add {r : R} (all : Accounted created released held) (empty : held.get k = none) :
    Accounted (created ++ [r]) released (held.insert k created.length) where
  live j n got := by
    rw [ObjectMap.get_insert] at got
    rw [List.length_append, List.length_singleton]
    split at got
    next =>
      cases got
      exact ⟨Nat.lt_succ_self _, fun gone => Nat.lt_irrefl _ (all.known _ gone)⟩
    next => exact ⟨(all.live j n got).1.trans (Nat.lt_succ_self _), (all.live j n got).2⟩
  apart i j n first second := by
    rw [ObjectMap.get_insert] at first second
    split at first
    next here =>
      cases first
      split at second
      next there => exact here.trans there.symm
      next => exact absurd (all.live j _ second).1 (Nat.lt_irrefl _)
    next =>
      split at second
      next =>
        cases second
        exact absurd (all.live i _ first).1 (Nat.lt_irrefl _)
      next => exact all.apart i j n first second
  once := all.once
  known n gone := by
    rw [List.length_append, List.length_singleton]
    exact (all.known n gone).trans (Nat.lt_succ_self _)
  kept n low := by
    rw [List.length_append, List.length_singleton] at low
    rcases Nat.lt_succ_iff_lt_or_eq.mp low with old | rfl
    · rcases all.kept n old with gone | ⟨j, got⟩
      · exact .inl gone
      · refine .inr ⟨j, ?_⟩
        have other : j ≠ k := by
          rintro rfl
          rw [empty] at got
          cases got
        rw [ObjectMap.get_insert, if_neg other, got]
    · exact .inr ⟨k, by rw [ObjectMap.get_insert, if_pos rfl]⟩

end Accounted

namespace Slots

def empty : Slots K R where
  created := []
  released := []
  held := .empty
  accounted :=
    { live := fun _ _ got => by cases got
      apart := fun _ _ _ got => by cases got
      once := List.nodup_nil
      known := fun _ member => by cases member
      kept := fun _ low => by cases low }

variable (s : Slots K R)

/-- Empty the slot, and release what was in it. -/
def drop (k : K) : Slots K R where
  created := s.created
  released := s.released ++ (s.held.get k).toList
  held := s.held.erase k
  accounted := s.accounted.drop

/-- Put a new resource in the slot, in place of what was in it. -/
def put (k : K) (r : R) : Slots K R where
  created := s.created ++ [r]
  released := s.released ++ (s.held.get k).toList
  held := (s.held.erase k).insert k s.created.length
  accounted := s.accounted.drop.add (by simp)

/-- Empty all the slots, one after another. -/
def dropAll : Slots K R := s.held.keys.foldl drop s

variable {s}

/-- What is not released is in exactly one slot. -/
theorem held_unique {n : Nat} (low : n < s.created.length) (fresh : n ∉ s.released) :
    ∃! k, s.held.get k = some n := by
  obtain ⟨k, got⟩ := (s.accounted.kept n low).resolve_left fresh
  exact ⟨k, got, fun j here => s.accounted.apart j k n here got⟩

@[simp] theorem get_drop (j k : K) :
    (s.drop k).held.get j = if j = k then none else s.held.get j :=
  ObjectMap.get_erase ..

@[simp] theorem get_put (j k : K) (r : R) :
    (s.put k r).held.get j = if j = k then some s.created.length else s.held.get j := by
  rw [put, ObjectMap.get_insert, ObjectMap.get_erase]
  split <;> rfl

@[simp] theorem created_drop (k : K) : (s.drop k).created = s.created := rfl

theorem created_foldl (ks : List K) : (ks.foldl drop s).created = s.created := by
  induction ks generalizing s with
  | nil => rfl
  | cons k rest ih => exact ih

theorem get_foldl (ks : List K) (j : K) :
    (ks.foldl drop s).held.get j = if j ∈ ks then none else s.held.get j := by
  induction ks generalizing s with
  | nil => simp
  | cons k rest ih =>
    rw [List.foldl_cons, ih, get_drop]
    by_cases here : j ∈ rest <;> by_cases first : j = k <;> simp [here, first]

@[simp] theorem get_dropAll (j : K) : s.dropAll.held.get j = none := by
  rw [dropAll, get_foldl]
  split
  next => rfl
  next absent =>
    cases got : s.held.get j with
    | none => rfl
    | some n => exact absurd ((ObjectMap.mem_keys_iff _ _).mpr ⟨n, got⟩) absent

@[simp] theorem created_dropAll : s.dropAll.created = s.created := created_foldl _

/-- Once no slot holds anything, everything was released. -/
theorem released_of_empty (empty : ∀ k, s.held.get k = none) {n : Nat} (low : n < s.created.length) :
    n ∈ s.released := by
  rcases s.accounted.kept n low with gone | ⟨k, got⟩
  · exact gone
  · rw [empty] at got
    cases got

end Slots

end Atmin.Interaction
