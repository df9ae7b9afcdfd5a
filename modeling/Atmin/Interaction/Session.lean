import Atmin.Interaction.RelyGuarantee

/-!
# One request after another

Sequential service: each request runs to its end before the next one starts.
-/

namespace Atmin.Interaction

variable {ρ Op : Type} {Res : Op → Type} {α σ : Type}

/-- A request served to its end, with the state it found. -/
structure Exchange (ρ α σ : Type) where
  before : σ
  request : ρ
  answer : α

/-- Requests served one after another from `s0`, latest first in the log. -/
inductive Session (prog : ρ → Prog Op Res α) (exec : ρ → (o : Op) → σ → Res o → σ → Prop)
    (s0 : σ) : List (Exchange ρ α σ) → σ → Prop where
  | start : Session prog exec s0 [] s0
  | next {log : List (Exchange ρ α σ)} {s t : σ} {r : ρ} {a : α} : Session prog exec s0 log s →
      Runs (exec r) (prog r) s a t → Session prog exec s0 (⟨s, r, a⟩ :: log) t

variable {prog : ρ → Prog Op Res α} {exec : ρ → (o : Op) → σ → Res o → σ → Prop}

/-- What every exchange keeps, or else is an exception, a whole session keeps. -/
theorem Session.keeps {I : σ → Prop} {Exception : Exchange ρ α σ → Prop}
    {log : List (Exchange ρ α σ)} {s0 s : σ} (session : Session prog exec s0 log s) (start : I s0)
    (step : ∀ e ∈ log, ∀ t, Runs (exec e.request) (prog e.request) e.before e.answer t →
      I e.before → I t ∨ Exception e) : I s ∨ ∃ e ∈ log, Exception e := by
  induction session with
  | start => exact .inl start
  | @next log s t r a _ run ih =>
    rcases ih fun e member => step e (List.mem_cons_of_mem _ member) with holds | ⟨e, member, h⟩
    · rcases step ⟨s, r, a⟩ List.mem_cons_self t run holds with kept | exception
      · exact .inl kept
      · exact .inr ⟨_, List.mem_cons_self, exception⟩
    · exact .inr ⟨e, List.mem_cons_of_mem _ member, h⟩

section Evaluate

variable {C : Type}

/-- Run a program on a list of choices. -/
def Prog.evaluate (run : (o : Op) → C → σ → Option (Res o × σ)) :
    List C → Prog Op Res α → σ → Option (α × σ)
  | [], .ret a, s => some (a, s)
  | c :: cs, .op o k, s => match run o c s with
    | some (r, t) => (k r).evaluate run cs t
    | none => none
  | _, _, _ => none

theorem runs_of_evaluate {run : (o : Op) → C → σ → Option (Res o × σ)} {cs : List C}
    {p : Prog Op Res α} {s t : σ} {a : α} (evaluated : p.evaluate run cs s = some (a, t)) :
    Runs (fun o s r t => ∃ c, run o c s = some (r, t)) p s a t := by
  induction cs generalizing p s with
  | nil =>
    cases p with
    | ret b => cases evaluated; exact .ret _ _
    | op o k => cases evaluated
  | cons c cs ih =>
    cases p with
    | ret b => cases evaluated
    | op o k =>
      simp only [Prog.evaluate] at evaluated
      split at evaluated
      next r v served => exact .op ⟨c, served⟩ (ih evaluated)
      next => cases evaluated

end Evaluate

end Atmin.Interaction
