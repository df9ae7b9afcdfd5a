import Atmin.Interaction.ObjectMap
import Mathlib.Algebra.Order.BigOperators.Group.List
import Mathlib.Algebra.Order.Ring.Nat

/-!
# What a part of a map weighs

The total weight of the values under the keys that satisfy a predicate. Erasing never
adds to it, and an insertion adds at most the weight of the new value.
-/

namespace Atmin.Interaction.ObjectMap

variable {K V : Type} {m : ObjectMap K V} {p : K → Bool} {w : V → Nat}

/-- The weights of the values under the keys that satisfy `p`. -/
def total (m : ObjectMap K V) (p : K → Bool) (w : V → Nat) : Nat :=
  ((m.entries.filter fun e => p e.1).map fun e => w e.2).sum

@[simp] theorem total_empty : (empty : ObjectMap K V).total p w = 0 := rfl

theorem total_eraseWhere (gone : K → Bool) : (m.eraseWhere gone).total p w ≤ m.total p w := by
  have fewer : ((m.eraseWhere gone).entries.filter fun e => p e.1).Sublist
      (m.entries.filter fun e => p e.1) := List.filter_sublist.filter _
  exact (fewer.map _).sum_le_sum fun _ _ => Nat.zero_le _

/-- Each key of the part counts for one. -/
theorem total_one : m.total p (fun _ => 1) = (m.keys.filter p).length := by
  rw [total, List.map_const', List.sum_replicate, Nat.nsmul_eq_mul, Nat.mul_one, keys,
    List.filter_map, List.length_map]
  rfl

variable [DecidableEq K]

theorem total_eraseAll (ks : List K) : (m.eraseAll ks).total p w ≤ m.total p w :=
  total_eraseWhere _

theorem total_insert (k : K) (v : V) :
    (m.insert k v).total p w = (if p k then w v else 0) + (m.erase k).total p w := by
  simp only [total, insert, List.filter_cons]
  split <;> simp

/-- Writing a value adds no more than its weight, and nothing outside the part. -/
theorem total_insert_le (k : K) (v : V) :
    (m.insert k v).total p w ≤ m.total p w + if p k then w v else 0 := by
  have rest : (m.erase k).total p w ≤ m.total p w := total_eraseWhere _
  rw [total_insert]
  omega

/-- A value written under a new key of the part adds all of its weight. -/
theorem total_insert_new {k : K} {v : V} (absent : m.get k = none) (within : p k = true) :
    (m.insert k v).total p w = w v + m.total p w := by
  have whole : m.erase k = m :=
    eraseWhere_absent fun j same => by rw [of_decide_eq_true same, absent]
  rw [total_insert, if_pos within, whole]

/-- The listing of a part weighs what the part weighs. -/
theorem sum_listed [LinearOrder K] :
    ((m.keysAfter p none).filterMap fun k => (m.get k).map w).sum = m.total p w := by
  have listed : (m.keysAfter p none).Perm ((m.entries.filter fun e => p e.1).map Prod.fst) := by
    refine (List.perm_insertionSort _ _).trans (.of_eq ?_)
    simp only [keys, List.filter_map, Option.all_none, Bool.and_true]
    rfl
  have found : ((m.entries.filter fun e => p e.1).map Prod.fst).filterMap
      (fun k => (m.get k).map w) = (m.entries.filter fun e => p e.1).map fun e => w e.2 := by
    rw [List.filterMap_map, ← List.filterMap_eq_map]
    refine List.filterMap_congr fun e member => ?_
    have stored := get_of_mem (m := m) (k := e.1) (v := e.2) (List.mem_of_mem_filter member)
    simp only [Function.comp_apply, stored, Option.map_some]
  rw [total, ← found]
  exact (listed.filterMap _).sum_eq

end Atmin.Interaction.ObjectMap

/-! ### A bound kept by measuring now and then -/

namespace Atmin.Interaction

/-- At most two batches of `cap` in all: what a meter believes, where it believes anything, is
at most one batch behind. -/
structure Covered (cap load : Nat) (believed : Option Nat) : Prop where
  bounded : load ≤ 2 * cap
  tracked : ∀ seen ∈ believed, load ≤ seen + cap

namespace Covered

variable {cap load seen : Nat} {believed : Option Nat}

theorem lessen {less : Nat} (covered : Covered cap load believed) (fewer : less ≤ load) :
    Covered cap less believed :=
  ⟨fewer.trans covered.bounded, fun seen here => fewer.trans (covered.tracked seen here)⟩

theorem forget (covered : Covered cap load believed) : Covered cap load none :=
  ⟨covered.bounded, fun _ h => nomatch h⟩

/-- A measurement sees all but what is outstanding, which is at most a batch. -/
theorem measured {outstanding : Nat} (covered : Covered cap load believed)
    (whole : load = seen + outstanding) (batch : outstanding ≤ cap) :
    Covered cap load (some seen) := by
  refine ⟨covered.bounded, fun now here => ?_⟩
  cases here
  omega

/-- A reservation under the cap is believed at once. -/
theorem reserve {amount : Nat} (covered : Covered cap load (some seen))
    (room : seen + amount ≤ cap) : Covered cap (load + amount) (some (seen + amount)) := by
  have behind := covered.tracked seen rfl
  refine ⟨by omega, fun now here => ?_⟩
  cases here
  omega

end Covered

end Atmin.Interaction
