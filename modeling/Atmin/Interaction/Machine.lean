import Mathlib.Data.List.Induction

/-!
# Machines driven by actions

A step function that may refuse an action, and its runs along lists of actions. A run that is
refused anywhere has no last state.
-/

namespace Atmin.Interaction

structure Machine (σ A : Type) where
  step : σ → A → Option σ

variable {σ A τ : Type}

namespace Machine

variable (m : Machine σ A)

def run : σ → List A → Option σ
  | s, [] => some s
  | s, a :: rest => match m.step s a with
    | some t => run t rest
    | none => none

variable {m}

@[simp] theorem run_nil (s : σ) : m.run s [] = some s := rfl

theorem run_cons {s u : σ} {a : A} {acts : List A} :
    m.run s (a :: acts) = some u ↔ ∃ t, m.step s a = some t ∧ m.run t acts = some u := by
  simp only [run]
  split
  next t stepped => simp [stepped]
  next refused => simp [refused]

theorem run_append {s u : σ} {first last : List A} :
    m.run s (first ++ last) = some u ↔ ∃ t, m.run s first = some t ∧ m.run t last = some u := by
  induction first generalizing s with
  | nil => simp
  | cons a rest ih =>
    simp only [List.cons_append, run_cons, ih]
    constructor
    · rintro ⟨v, stepped, t, here, there⟩
      exact ⟨t, ⟨v, stepped, here⟩, there⟩
    · rintro ⟨t, ⟨v, stepped, here⟩, there⟩
      exact ⟨v, stepped, t, here, there⟩

theorem run_snoc {s u : σ} {a : A} {acts : List A} :
    m.run s (acts ++ [a]) = some u ↔ ∃ t, m.run s acts = some t ∧ m.step t a = some u := by
  simp [run_append, run_cons]

/-- What holds of the empty run, and of every run one action longer, holds of every run. -/
theorem run_induction {P : List A → σ → Prop} {s : σ} (start : P [] s)
    (further : ∀ acts t a u, m.run s acts = some t → P acts t → m.step t a = some u →
      P (acts ++ [a]) u) {acts : List A} {t : σ} (ran : m.run s acts = some t) : P acts t := by
  induction acts using List.reverseRecOn generalizing t with
  | nil => cases ran; exact start
  | append_singleton acts a ih =>
    obtain ⟨v, before, stepped⟩ := run_snoc.mp ran
    exact further acts v a t before (ih before) stepped

theorem invariant {I : σ → Prop} (keeps : ∀ s a t, I s → m.step s a = some t → I t)
    {s t : σ} {acts : List A} (start : I s) (ran : m.run s acts = some t) : I t :=
  run_induction (P := fun _ u => I u) start (fun _ v a u _ holds stepped => keeps v a u holds stepped)
    ran

/-- Where the actions of interest act alike on a view `v` of the state and all the others leave the
view alone, the view runs along the actions of interest. -/
theorem run_filter {n : Machine τ A} {I : σ → Prop} {v : σ → τ} {mine : A → Bool}
    (keeps : ∀ s a t, I s → m.step s a = some t → I t)
    (seen : ∀ s a t, I s → mine a = true → m.step s a = some t → n.step (v s) a = some (v t))
    (unseen : ∀ s a t, I s → mine a = false → m.step s a = some t → v t = v s)
    {s t : σ} {acts : List A} (start : I s) (ran : m.run s acts = some t) :
    n.run (v s) (acts.filter mine) = some (v t) := by
  induction acts generalizing s with
  | nil => cases ran; rfl
  | cons a rest ih =>
    obtain ⟨u, stepped, ran⟩ := run_cons.mp ran
    have later := ih (keeps s a u start stepped) ran
    cases own : mine a with
    | true =>
      rw [List.filter_cons_of_pos own]
      exact run_cons.mpr ⟨v u, seen s a u start own stepped, later⟩
    | false =>
      rw [List.filter_cons_of_neg (by simp [own]), ← unseen s a u start own stepped]
      exact later

end Machine

end Atmin.Interaction
