import Mathlib.Order.Bounds.Basic
import Mathlib.Order.Lattice

/-!
# Replicas that meet in one register

Replicas of a join semilattice exchange their values through a single register: one of
them takes the register over into its own value, and leaves the join of the two there.
Two rounds, in any order, bring all of them to the least upper bound.
-/

namespace Atmin.Interaction

structure Meeting (ι α : Type) where
  replica : ι → α
  register : α

namespace Meeting

variable {ι α : Type} [DecidableEq ι] [SemilatticeSup α]

/-- One replica meets the register alone. -/
def exchange (d : ι) (s : Meeting ι α) : Meeting ι α where
  replica := Function.update s.replica d (s.replica d ⊔ s.register)
  register := s.register ⊔ s.replica d

def exchanges (order : List ι) (s : Meeting ι α) : Meeting ι α :=
  order.foldl (fun s d => s.exchange d) s

/-- All that the listed replicas and the register have. -/
def join (order : List ι) (s : Meeting ι α) : α := order.foldr (fun d acc => s.replica d ⊔ acc) s.register

omit [DecidableEq ι] in
/-- What joins keep and everything has, the join has. -/
theorem join_induction {P : α → Prop} (sup : ∀ a b, P a → P b → P (a ⊔ b)) {s : Meeting ι α}
    (replica : ∀ d, P (s.replica d)) (register : P s.register) (order : List ι) : P (s.join order) := by
  induction order with
  | nil => exact register
  | cons d rest ih => exact sup _ _ (replica d) ih

omit [DecidableEq ι] in
theorem replica_le_join {order : List ι} {d : ι} (member : d ∈ order) (s : Meeting ι α) :
    s.replica d ≤ s.join order := by
  induction order with
  | nil => cases member
  | cons e rest ih =>
    rcases List.mem_cons.mp member with rfl | later
    · exact le_sup_left
    · exact (ih later).trans le_sup_right

omit [DecidableEq ι] in
theorem register_le_join (order : List ι) (s : Meeting ι α) : s.register ≤ s.join order := by
  induction order with
  | nil => exact le_rfl
  | cons e rest ih => exact ih.trans le_sup_right

omit [DecidableEq ι] in
theorem isLUB_join {order : List ι} (covers : ∀ d, d ∈ order) (s : Meeting ι α) :
    IsLUB (Set.insert s.register (Set.range s.replica)) (s.join order) := by
  constructor
  · rintro x (rfl | ⟨d, rfl⟩)
    · exact register_le_join order s
    · exact replica_le_join (covers d) s
  · intro x above
    exact join_induction (P := (· ≤ x)) (fun _ _ => sup_le) (fun d => above (.inr ⟨d, rfl⟩))
      (above (.inl rfl)) order

/-- Nothing is above `m`. -/
structure Bounded (m : α) (s : Meeting ι α) : Prop where
  replica : ∀ d, s.replica d ≤ m
  register : s.register ≤ m

/-- Everything is `m`. -/
structure Agreed (m : α) (s : Meeting ι α) : Prop where
  replica : ∀ d, s.replica d = m
  register : s.register = m

theorem Bounded.exchange {m : α} {s : Meeting ι α} (bounded : Bounded m s) (d : ι) :
    Bounded m (s.exchange d) where
  replica e := by
    by_cases same : e = d
    · subst same
      simpa [Meeting.exchange] using ⟨bounded.replica e, bounded.register⟩
    · simpa [Meeting.exchange, same] using bounded.replica e
  register := sup_le bounded.register (bounded.replica d)

theorem Bounded.exchanges {m : α} {s : Meeting ι α} (bounded : Bounded m s) (order : List ι) :
    Bounded m (s.exchanges order) := by
  induction order generalizing s with
  | nil => exact bounded
  | cons d rest ih => exact ih (bounded.exchange d)

theorem register_mono (order : List ι) (s : Meeting ι α) : s.register ≤ (s.exchanges order).register := by
  induction order generalizing s with
  | nil => exact le_rfl
  | cons d rest ih => exact le_sup_left.trans (ih (s.exchange d))

/-- After its turn, what a replica had is in the register. -/
theorem register_after {order : List ι} {d : ι} (member : d ∈ order) (s : Meeting ι α) :
    s.replica d ≤ (s.exchanges order).register := by
  induction order generalizing s with
  | nil => cases member
  | cons e rest ih =>
    by_cases same : d = e
    · subst same
      exact (le_sup_right : s.replica d ≤ s.register ⊔ s.replica d).trans (register_mono rest (s.exchange d))
    · have kept : (s.exchange e).replica d = s.replica d := by simp [exchange, same]
      rw [← kept]
      exact ih ((List.mem_cons.mp member).resolve_left same) (s.exchange e)

/-- With the bound in the register, a replica reaches it in its turn, and keeps it. -/
theorem replica_after {m : α} {order : List ι} {s : Meeting ι α} (bounded : Bounded m s)
    (full : s.register = m) {d : ι} (reached : d ∈ order ∨ s.replica d = m) :
    (s.exchanges order).replica d = m := by
  induction order generalizing s with
  | nil => exact reached.resolve_left List.not_mem_nil
  | cons e rest ih =>
    refine ih (bounded.exchange e) ?_ ?_
    · show s.register ⊔ s.replica e = m
      rw [full]
      exact sup_eq_left.mpr (bounded.replica e)
    · by_cases same : d = e
      · subst same
        right
        simpa [exchange, full] using bounded.replica d
      · rcases reached with member | here
        · exact .inl ((List.mem_cons.mp member).resolve_left same)
        · right
          simpa [exchange, same] using here

/-- Two rounds in which every replica has its turn. -/
theorem agreed_after {m : α} {s : Meeting ι α}
    (lub : IsLUB (Set.insert s.register (Set.range s.replica)) m) {first second : List ι}
    (covers : ∀ d, d ∈ first) (covers' : ∀ d, d ∈ second) :
    Agreed m (s.exchanges (first ++ second)) := by
  have bounded : Bounded m s :=
    ⟨fun d => lub.1 (.inr ⟨d, rfl⟩), lub.1 (.inl rfl)⟩
  have bounded' := bounded.exchanges first
  have full : (s.exchanges first).register = m := by
    refine le_antisymm bounded'.register (lub.2 ?_)
    rintro x (rfl | ⟨d, rfl⟩)
    · exact register_mono first s
    · exact register_after (covers d) s
  have split : s.exchanges (first ++ second) = (s.exchanges first).exchanges second :=
    List.foldl_append
  rw [split]
  refine ⟨fun d => replica_after bounded' full (.inl (covers' d)), ?_⟩
  exact le_antisymm (bounded'.exchanges second).register (full ▸ register_mono second _)

end Meeting

end Atmin.Interaction
