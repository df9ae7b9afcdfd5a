import Mathlib.Data.List.Count
import Mathlib.Data.List.Nodup
import Mathlib.Logic.Function.Basic

/-!
# Taking in what one does not have

A store is offered entries one after the other, and keeps what it holds already. An entry may be
unreadable, and it names what it claims to hold before it is opened. What has been taken, what has
failed, and what a second pass over the same entries would do.
-/

namespace Atmin.Interaction

inductive Offer (K V : Type) where
  /-- Cannot be read. -/
  | broken
  | nameless
  /-- The name, if it is one, and what the entry opens to. -/
  | named (name : Option K) (content : Option (K × V))
  deriving DecidableEq

structure Intake (K V : Type) where
  held : K → Option V
  taken : Nat := 0
  failed : Nat := 0

variable {K V : Type}

/-- The name leads to something held. -/
def knows (held : K → Option V) (name : Option K) : Bool := name.any fun k => (held k).isSome

/-- Nothing comes of the offer: it has no name, or what it names or opens to is held. -/
def Offer.passed (held : K → Option V) : Offer K V → Bool
  | .broken => false
  | .nameless => true
  | .named name content => knows held name || content.any fun kv => (held kv.1).isSome

/-- The offer is looked into: it has a name that is not known. -/
def Offer.opened (held : K → Option V) : Offer K V → Bool
  | .broken => true
  | .nameless => false
  | .named name _ => !knows held name

variable [DecidableEq K]

namespace Intake

def take (i : Intake K V) (k : K) (v : V) : Intake K V :=
  { i with held := Function.update i.held k (some v), taken := i.taken + 1 }

def fail (i : Intake K V) : Intake K V := { i with failed := i.failed + 1 }

/-- A name that is known is not opened, and a content that is known is not taken. -/
def step (i : Intake K V) : Offer K V → Intake K V
  | .broken => i.fail
  | .nameless => i
  | .named name content =>
    if knows i.held name then i
    else match content with
      | none => i.fail
      | some (k, v) => if (i.held k).isSome then i else i.take k v

def run (i : Intake K V) (offers : List (Offer K V)) : Intake K V := offers.foldl step i

theorem take_self (i : Intake K V) (k : K) (v : V) : (i.take k v).held k = some v :=
  Function.update_self ..

theorem taken_take (i : Intake K V) (k : K) (v : V) : (i.take k v).taken = i.taken + 1 := rfl

theorem failed_take (i : Intake K V) (k : K) (v : V) : (i.take k v).failed = i.failed := rfl

theorem take_other (i : Intake K V) {k k' : K} (v : V) (apart : k ≠ k') :
    (i.take k' v).held k = i.held k := Function.update_of_ne apart ..

theorem run_cons (i : Intake K V) (o : Offer K V) (rest : List (Offer K V)) :
    i.run (o :: rest) = (i.step o).run rest := rfl

theorem run_append (i : Intake K V) (first last : List (Offer K V)) :
    i.run (first ++ last) = (i.run first).run last := List.foldl_append

/-! ### One offer -/

/-- What one offer can do. -/
theorem step_cases (i : Intake K V) (o : Offer K V) :
    (i.step o = i ∧ o.passed i.held = true) ∨
    (i.step o = i.fail ∧ o.passed i.held = false ∧
      ∀ name k v, o ≠ .named name (some (k, v))) ∨
    ∃ name k v, o = .named name (some (k, v)) ∧ i.held k = none ∧
      i.step o = i.take k v := by
  cases o with
  | broken => exact .inr (.inl ⟨rfl, rfl, fun name k v same => by cases same⟩)
  | nameless => exact .inl ⟨rfl, rfl⟩
  | named name content =>
    by_cases known : knows i.held name = true
    · -- a name that is held already is not opened
      exact .inl ⟨by simp [step, known], by rw [Offer.passed, known, Bool.true_or]⟩
    · rw [Bool.not_eq_true] at known
      cases content with
      -- one that does not open fails
      | none =>
        refine .inr (.inl ⟨by simp [step, known], by simp [Offer.passed, known], ?_⟩)
        intro name' k v same
        cases same
      | some kv =>
        obtain ⟨k, v⟩ := kv
        cases held : i.held k with
        -- what it opens to may be held under another name
        | some v' => exact .inl ⟨by simp [step, known, held], by simp [Offer.passed, known, held]⟩
        | none => exact .inr (.inr ⟨name, k, v, rfl, held, by simp [step, known, held]⟩)

theorem step_held (i : Intake K V) (o : Offer K V) {k : K} {v : V} (held : i.held k = some v) :
    (i.step o).held k = some v := by
  rcases step_cases i o with ⟨same, _⟩ | ⟨same, _⟩ | ⟨name, k', v', _, new, same⟩
  · rw [same, held]
  · rw [same, fail, held]
  · rw [same]
    have apart : k ≠ k' := by
      rintro rfl
      rw [new] at held
      cases held
    rw [take_other i v' apart, held]

/-! ### All of them -/

/-- Nothing is replaced. -/
theorem run_held (offers : List (Offer K V)) (i : Intake K V) {k : K} {v : V}
    (held : i.held k = some v) : (i.run offers).held k = some v := by
  induction offers generalizing i with
  | nil => exact held
  | cons o rest ih => exact ih (i.step o) (step_held i o held)

theorem run_isSome (offers : List (Offer K V)) (i : Intake K V) {k : K}
    (held : (i.held k).isSome = true) : ((i.run offers).held k).isSome = true := by
  obtain ⟨v, found⟩ := Option.isSome_iff_exists.mp held
  rw [run_held offers i found]
  rfl

/-- An offer that is passed over stays so. -/
theorem passed_run (offers : List (Offer K V)) (i : Intake K V) {o : Offer K V}
    (passed : o.passed i.held = true) : o.passed (i.run offers).held = true := by
  cases o with
  | broken => cases passed
  | nameless => rfl
  | named name content =>
    simp only [Offer.passed, knows, Bool.or_eq_true, Option.any_eq_true] at passed ⊢
    rcases passed with ⟨k, named, held⟩ | ⟨kv, opened, held⟩
    · exact .inl ⟨k, named, run_isSome offers i held⟩
    · exact .inr ⟨kv, opened, run_isSome offers i held⟩

/-- Whatever opens is held in the end, or what it is named after is. -/
theorem run_offered (offers : List (Offer K V)) (i : Intake K V) {name : Option K} {k : K} {v : V}
    (offered : .named name (some (k, v)) ∈ offers) :
    (Offer.named name (some (k, v))).passed (i.run offers).held = true := by
  induction offers generalizing i with
  | nil => cases offered
  | cons o rest ih =>
    rw [run_cons]
    rcases List.mem_cons.mp offered with here | later
    · apply passed_run
      rcases step_cases i o with ⟨same, passed⟩ | ⟨_, _, closed⟩ | ⟨name', k', v', shape, new, same⟩
      · rw [same, here]
        exact passed
      · exact absurd here.symm (closed name k v)
      · rw [← here] at shape
        cases shape
        rw [same, Offer.passed, Option.any_some, take_self, Option.isSome_some, Bool.or_true]
    · exact ih (i.step o) later

/-- What is held was held before, or is the content of an offer. -/
theorem run_origin (offers : List (Offer K V)) (i : Intake K V) {k : K} {v : V}
    (held : (i.run offers).held k = some v) :
    i.held k = some v ∨ ∃ name, .named name (some (k, v)) ∈ offers := by
  induction offers generalizing i with
  | nil => exact .inl held
  | cons o rest ih =>
    rcases ih (i.step o) held with before | ⟨name, later⟩
    · rcases step_cases i o with ⟨same, _⟩ | ⟨same, _⟩ | ⟨name, k', v', shape, _, same⟩
      · exact .inl (by rwa [same] at before)
      · exact .inl (by rwa [same] at before)
      · rw [same] at before
        -- the value came with this offer, or it was there before it
        by_cases here : k = k'
        · subst here
          rw [take_self] at before
          cases before
          exact .inr ⟨name, shape ▸ List.mem_cons_self⟩
        · rw [take_other i v' here] at before
          exact .inl before
    · exact .inr ⟨name, List.mem_cons_of_mem _ later⟩

/-- As many were taken as are held now and were not before. -/
theorem run_taken (offers : List (Offer K V)) (i : Intake K V) :
    ∃ fresh : List K, fresh.Nodup ∧ (i.run offers).taken = i.taken + fresh.length ∧
      ∀ k, k ∈ fresh ↔ i.held k = none ∧ ((i.run offers).held k).isSome = true := by
  induction offers generalizing i with
  | nil =>
    refine ⟨[], .nil, rfl, fun k => ⟨fun none_ => (by cases none_), ?_⟩⟩
    rintro ⟨absent, held⟩
    rw [run, List.foldl_nil, absent] at held
    cases held
  | cons o rest ih =>
    obtain ⟨fresh, apart, count, covers⟩ := ih (i.step o)
    rw [run_cons]
    rcases step_cases i o with ⟨same, _⟩ | ⟨same, _⟩ | ⟨name, k, v, _, new, same⟩
    · rw [same] at count covers ⊢
      exact ⟨fresh, apart, count, covers⟩
    · rw [same] at count covers ⊢
      exact ⟨fresh, apart, count, covers⟩
    · rw [same] at count covers ⊢
      -- what this step takes the later ones find held
      have old : k ∉ fresh := by
        rw [covers, take_self]
        rintro ⟨absent, _⟩
        cases absent
      refine ⟨k :: fresh, List.nodup_cons.mpr ⟨old, apart⟩, ?_, fun k' => ?_⟩
      · rw [count, List.length_cons, taken_take]
        omega
      · rw [List.mem_cons, covers]
        by_cases here : k' = k
        · subst here
          refine ⟨fun _ => ⟨new, run_isSome rest _ ?_⟩, fun _ => .inl rfl⟩
          rw [take_self]
          rfl
        · rw [take_other i v here]
          simp [here]

/-- Every offer that is not passed over in the end has been counted as failed. -/
theorem run_counted (offers : List (Offer K V)) (i : Intake K V) :
    i.failed + offers.countP (fun o => !o.passed (i.run offers).held) ≤ (i.run offers).failed := by
  induction offers generalizing i with
  | nil => exact Nat.le_refl _
  | cons o rest ih =>
    have later := ih (i.step o)
    rw [run_cons, List.countP_cons]
    rcases step_cases i o with ⟨same, passed⟩ | ⟨same, _, _⟩ | ⟨name, k, v, shape, _, same⟩
    · -- an offer that was passed over stays so, since what is held stays
      have still := passed_run rest (i.step o) (o := o) (by rw [same]; exact passed)
      rw [same] at later still ⊢
      simpa [still] using later
    · -- a failure is counted
      rw [same] at later ⊢
      rw [fail] at later ⊢
      split <;> simp only at later <;> omega
    · -- what was taken is held at the end, so it counts as passed
      have still := passed_run rest (i.step o) (o := o) (by
        rw [same, shape, Offer.passed, Option.any_some, take_self, Option.isSome_some, Bool.or_true])
      rw [same] at later still ⊢
      rw [failed_take] at later
      simpa [still] using later

/-- A name that becomes known is not looked into again. -/
theorem opened_step (i : Intake K V) {o o' : Offer K V} (later : o'.opened (i.step o).held = true) :
    o'.opened i.held = true := by
  cases o' with
  | broken => rfl
  | nameless => cases later
  | named name content =>
    simp only [Offer.opened, Bool.not_eq_true', knows, Option.any_eq_false] at later ⊢
    intro k named
    have absent := later k named
    cases held : i.held k with
    | none => rfl
    | some v =>
      rw [step_held i o held] at absent
      cases absent

/-- Only offers that are looked into count for anything. -/
theorem run_bounded (offers : List (Offer K V)) (i : Intake K V) :
    (i.run offers).taken + (i.run offers).failed ≤
      i.taken + i.failed + offers.countP (fun o => o.opened i.held) := by
  induction offers generalizing i with
  | nil => exact Nat.le_refl _
  | cons o rest ih =>
    have later := ih (i.step o)
    -- the more is held, the fewer offers are opened
    have fewer : rest.countP (fun o' => o'.opened (i.step o).held) ≤
        rest.countP (fun o' => o'.opened i.held) :=
      List.countP_mono_left fun o' _ here => opened_step i here
    -- one step counts at most one offer
    have once : (i.step o).taken + (i.step o).failed ≤
        i.taken + i.failed + if o.opened i.held then 1 else 0 := by
      cases o with
      | broken => exact Nat.le_refl _
      | nameless => exact Nat.le_refl _
      | named name content =>
        by_cases known : knows i.held name = true
        · simp [step, known]
        · simp only [step, Offer.opened, known]
          split
          next wrong => cases wrong
          next =>
            cases content with
            | none => exact Nat.le_refl _
            | some kv =>
              simp only
              split
              next => simp
              next => simp [take]; omega
    rw [run_cons, List.countP_cons]
    omega

/-- Where every offer opens, none fails. -/
theorem run_open (offers : List (Offer K V)) (i : Intake K V)
    (open_ : ∀ o ∈ offers, ∃ name k v, o = .named name (some (k, v))) :
    (i.run offers).failed = i.failed := by
  induction offers generalizing i with
  | nil => rfl
  | cons o rest ih =>
    obtain ⟨name, k, v, rfl⟩ := open_ o List.mem_cons_self
    have first : (i.step (.named name (some (k, v)))).failed = i.failed := by
      rw [step]
      split
      next => rfl
      next =>
        split
        · rfl
        · exact failed_take i k v
    rw [run_cons, ih _ fun o member => open_ o (List.mem_cons_of_mem _ member), first]

/-- A second pass takes nothing, and fails on the offers that are not passed over. -/
theorem run_passed (offers : List (Offer K V)) (i : Intake K V)
    (opened : ∀ name k v, .named name (some (k, v)) ∈ offers →
      (Offer.named name (some (k, v))).passed i.held = true) :
    i.run offers = { i with failed := i.failed + offers.countP fun o => !o.passed i.held } := by
  induction offers generalizing i with
  | nil => rfl
  | cons o rest ih =>
    have tail (name : Option K) (k : K) (v : V) (offered : .named name (some (k, v)) ∈ rest) :=
      opened name k v (List.mem_cons_of_mem _ offered)
    rw [run_cons, List.countP_cons]
    rcases step_cases i o with ⟨same, passed⟩ | ⟨same, fails, _⟩ | ⟨name, k, v, shape, new, same⟩
    · rw [same, ih i tail]
      simp [passed]
    · rw [same, ih i.fail tail]
      simp only [fail, fails, Bool.not_false, if_true]
      congr 1
      omega
    · -- nothing is taken, since all that opens is held
      exfalso
      have passed := opened name k v (shape ▸ List.mem_cons_self)
      rw [Offer.passed, Option.any_some, new] at passed
      rw [Option.isSome_none, Bool.or_false] at passed
      have known : (i.step o).taken = i.taken := by simp [shape, step, passed]
      rw [same, taken_take] at known
      omega

/-- The same offers once more: nothing new is taken. -/
theorem run_again (offers : List (Offer K V)) (i : Intake K V) :
    (Intake.mk (i.run offers).held 0 0).run offers =
      ⟨(i.run offers).held, 0, offers.countP fun o => !o.passed (i.run offers).held⟩ := by
  rw [run_passed offers ⟨(i.run offers).held, 0, 0⟩ fun name k v offered => run_offered offers i offered,
    Nat.zero_add]

end Intake

end Atmin.Interaction
