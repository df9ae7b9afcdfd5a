import Mathlib.Data.List.Induction

/-!
# The first element of each key

A scan that keeps an element unless its key was seen before, and every element without a key.
Doing part of the scan beforehand makes no difference.
-/

namespace Atmin.Firsts

variable {α κ : Type} [DecidableEq κ] (key : α → Option κ)

/-- The elements whose key is neither in `seen` nor that of an earlier element. -/
def firsts (seen : List κ) : List α → List α
  | [] => []
  | x :: rest => match key x with
    | some k => if k ∈ seen then firsts seen rest else x :: firsts (k :: seen) rest
    | none => x :: firsts seen rest

section Equations

variable {key} {seen : List κ} {x : α} {k : κ} {rest : List α}

theorem firsts_unkeyed (unkeyed : key x = none) :
    firsts key seen (x :: rest) = x :: firsts key seen rest := by
  simp only [firsts, unkeyed]

theorem firsts_again (keyed : key x = some k) (again : k ∈ seen) :
    firsts key seen (x :: rest) = firsts key seen rest := by
  simp only [firsts, keyed, if_pos again]

theorem firsts_new (keyed : key x = some k) (new : k ∉ seen) :
    firsts key seen (x :: rest) = x :: firsts key (k :: seen) rest := by
  simp only [firsts, keyed, if_neg new]

end Equations

/-- What was seen matters as a set. -/
theorem firsts_congr {seen seen' : List κ} (same : ∀ k, k ∈ seen ↔ k ∈ seen') (xs : List α) :
    firsts key seen xs = firsts key seen' xs := by
  induction xs generalizing seen seen' with
  | nil => rfl
  | cons x rest ih =>
    cases keyed : key x with
    | none => rw [firsts_unkeyed keyed, firsts_unkeyed keyed, ih same]
    | some k =>
      by_cases again : k ∈ seen
      · rw [firsts_again keyed again, firsts_again keyed ((same k).mp again), ih same]
      · have also : k ∉ seen' := fun member => again ((same k).mpr member)
        rw [firsts_new keyed again, firsts_new keyed also]
        congr 1
        apply ih
        intro j
        rw [List.mem_cons, List.mem_cons, same j]

theorem firsts_append (seen : List κ) (xs ys : List α) :
    firsts key seen (xs ++ ys) = firsts key seen xs ++ firsts key (xs.filterMap key ++ seen) ys := by
  induction xs generalizing seen with
  | nil => rfl
  | cons x rest ih =>
    rw [List.cons_append]
    cases keyed : key x with
    | none => rw [firsts_unkeyed keyed, firsts_unkeyed keyed, ih, List.filterMap_cons_none keyed]; rfl
    | some k =>
      rw [List.filterMap_cons_some keyed]
      by_cases again : k ∈ seen
      · rw [firsts_again keyed again, firsts_again keyed again, ih]
        congr 1
        apply firsts_congr
        intro j
        simp only [List.cons_append, List.mem_cons, List.mem_append]
        constructor
        · exact Or.inr
        · rintro (rfl | member)
          · exact Or.inr again
          · exact member
      · rw [firsts_new keyed again, firsts_new keyed again, ih, List.cons_append]
        congr 2
        apply firsts_congr
        intro j
        simp only [List.cons_append, List.mem_cons, List.mem_append]
        tauto

/-- No key is lost. -/
theorem mem_keys_firsts (seen : List κ) (xs : List α) (k : κ) :
    k ∈ (firsts key seen xs).filterMap key ∨ k ∈ seen ↔ k ∈ xs.filterMap key ∨ k ∈ seen := by
  induction xs generalizing seen with
  | nil => rfl
  | cons x rest ih =>
    cases keyed : key x with
    | none =>
      rw [firsts_unkeyed keyed, List.filterMap_cons_none keyed, List.filterMap_cons_none keyed, ih]
    | some j =>
      rw [List.filterMap_cons_some keyed, List.mem_cons]
      by_cases again : j ∈ seen
      · rw [firsts_again keyed again, ih]
        constructor
        · rintro (member | old)
          · exact Or.inl (Or.inr member)
          · exact Or.inr old
        · rintro ((rfl | member) | old)
          · exact Or.inr again
          · exact Or.inl member
          · exact Or.inr old
      · rw [firsts_new keyed again, List.filterMap_cons_some keyed, List.mem_cons]
        have later := ih (j :: seen)
        rw [List.mem_cons] at later
        tauto

/-- A second scan that has seen no more than the first keeps everything. -/
theorem firsts_firsts {seen seen' : List κ} (fewer : ∀ k ∈ seen', k ∈ seen) (xs : List α) :
    firsts key seen' (firsts key seen xs) = firsts key seen xs := by
  induction xs generalizing seen seen' with
  | nil => rfl
  | cons x rest ih =>
    cases keyed : key x with
    | none => rw [firsts_unkeyed keyed, firsts_unkeyed keyed, ih fewer]
    | some k =>
      by_cases again : k ∈ seen
      · rw [firsts_again keyed again, ih fewer]
      · have new : k ∉ seen' := fun member => again (fewer k member)
        rw [firsts_new keyed again, firsts_new keyed new]
        congr 1
        apply ih
        intro j member
        rcases List.mem_cons.mp member with rfl | old
        · exact List.mem_cons_self
        · exact List.mem_cons_of_mem _ (fewer j old)

/-- Scanning the beginning first makes no difference. -/
theorem firsts_merge (xs ys : List α) :
    firsts key [] (firsts key [] xs ++ ys) = firsts key [] (xs ++ ys) := by
  rw [firsts_append, firsts_append, firsts_firsts key (fun _ => id)]
  congr 1
  apply firsts_congr
  intro k
  have same := mem_keys_firsts key [] xs k
  simpa using same

/-- Batch by batch is all at once. -/
theorem firsts_foldl (xs : List α) (batches : List (List α)) :
    firsts key [] (batches.foldl (fun done batch => firsts key [] (done ++ batch)) xs) =
      firsts key [] (xs ++ batches.flatten) := by
  induction batches generalizing xs with
  | nil => simp
  | cons batch rest ih => rw [List.foldl_cons, ih, firsts_merge, List.flatten_cons, List.append_assoc]

theorem firsts_foldl_nil (batches : List (List α)) :
    batches.foldl (fun done batch => firsts key [] (done ++ batch)) [] =
      firsts key [] batches.flatten := by
  have whole := firsts_foldl key [] batches
  rw [List.nil_append] at whole
  rw [← whole]
  -- Whatever batch came last, the scan was over it.
  cases batches using List.reverseRecOn with
  | nil => rfl
  | append_singleton earlier batch =>
    rw [List.foldl_append]
    exact (firsts_firsts key (fun _ => id) _).symm

theorem firsts_sublist (seen : List κ) (xs : List α) : (firsts key seen xs).Sublist xs := by
  induction xs generalizing seen with
  | nil => exact .slnil
  | cons x rest ih =>
    cases keyed : key x with
    | none => rw [firsts_unkeyed keyed]; exact (ih seen).cons_cons x
    | some k =>
      by_cases again : k ∈ seen
      · rw [firsts_again keyed again]; exact (ih seen).cons x
      · rw [firsts_new keyed again]; exact (ih _).cons_cons x

theorem filter_unkeyed_firsts (seen : List κ) (xs : List α) :
    (firsts key seen xs).filter (fun x => decide (key x = none)) =
      xs.filter fun x => decide (key x = none) := by
  induction xs generalizing seen with
  | nil => rfl
  | cons x rest ih =>
    cases keyed : key x with
    | none => rw [firsts_unkeyed keyed, List.filter_cons, List.filter_cons, ih]
    | some k =>
      by_cases again : k ∈ seen
      · rw [firsts_again keyed again, ih]; simp [keyed]
      · rw [firsts_new keyed again]; simp [keyed, ih]

/-- Of the elements with one key the first, unless the key was seen before. -/
theorem filter_keyed_firsts (seen : List κ) (xs : List α) (k : κ) :
    (firsts key seen xs).filter (fun x => decide (key x = some k)) =
      if k ∈ seen then [] else (xs.filter fun x => decide (key x = some k)).take 1 := by
  induction xs generalizing seen with
  | nil => simp [firsts]
  | cons x rest ih =>
    cases keyed : key x with
    | none => rw [firsts_unkeyed keyed]; simp [keyed, ih]
    | some j =>
      by_cases again : j ∈ seen
      · rw [firsts_again keyed again, ih]
        by_cases same : j = k
        · subst same; simp [again]
        · simp [keyed, same]
      · rw [firsts_new keyed again]
        by_cases same : j = k
        · subst same; simp [keyed, ih, again]
        · simp [keyed, ih, same, Ne.symm same]

end Atmin.Firsts
