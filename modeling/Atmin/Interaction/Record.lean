import Atmin.Interaction.ObjectMap

/-!
# Records

A map that keeps the order in which its keys came: a new value replaces the old one where
it stands, and a new key comes last.
-/

namespace Atmin.Interaction.ObjectMap

variable {K V : Type} [DecidableEq K]

/-- Replace the value of a key where it stands, or append the entry. -/
def set (m : ObjectMap K V) (k : K) (v : V) : ObjectMap K V where
  entries :=
    if k ∈ m.keys then m.entries.map fun e => if e.1 = k then (k, v) else e
    else m.entries ++ [(k, v)]
  nodup := by
    split
    next =>
      have kept : (m.entries.map fun e => if e.1 = k then (k, v) else e).map Prod.fst =
          m.entries.map Prod.fst := by
        rw [List.map_map]
        apply List.map_congr_left
        intro e _
        by_cases same : e.1 = k <;> simp [same]
      rw [kept]
      exact m.nodup
    next new =>
      rw [List.map_append, List.nodup_append]
      refine ⟨m.nodup, List.nodup_singleton _, fun j old j' last => ?_⟩
      have same : j' = k := by simpa using last
      rintro rfl
      exact new (same ▸ old)

@[simp] theorem get_set (m : ObjectMap K V) (k j : K) (v : V) :
    (m.set k v).get j = if j = k then some v else m.get j := by
  by_cases known : k ∈ m.keys
  · have entries : (m.set k v).entries = m.entries.map fun e => if e.1 = k then (k, v) else e :=
      if_pos known
    obtain ⟨w, old⟩ := (mem_keys_iff m k).mp known
    by_cases same : j = k
    · subst same
      rw [if_pos rfl]
      apply get_of_mem
      rw [entries]
      exact List.mem_map.mpr ⟨(j, w), mem_of_get old, if_pos rfl⟩
    · rw [if_neg same]
      refine Option.ext fun x => ⟨fun found => ?_, fun found => ?_⟩
      · have member := mem_of_get found
        rw [entries] at member
        obtain ⟨e, inside, equal⟩ := List.mem_map.mp member
        by_cases here : e.1 = k
        · rw [if_pos here] at equal
          exact absurd (Prod.mk.inj equal).1.symm same
        · rw [if_neg here] at equal
          exact get_of_mem (equal ▸ inside)
      · apply get_of_mem
        rw [entries]
        exact List.mem_map.mpr ⟨(j, x), mem_of_get found, if_neg same⟩
  · have entries : (m.set k v).entries = m.entries ++ [(k, v)] := if_neg known
    simp only [get, entries, List.find?_append, Option.map_or]
    by_cases same : j = k
    · subst same
      have absent : (m.entries.find? fun e => decide (e.1 = j)) = none := by
        simp only [List.find?_eq_none, decide_eq_true_eq]
        rintro e member rfl
        exact known (List.mem_map_of_mem member)
      simp [absent]
    · simp [same, Ne.symm same]

end Atmin.Interaction.ObjectMap
