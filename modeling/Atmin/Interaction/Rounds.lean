import Atmin.Interaction.Prog

/-!
# Loops with a bound

A loop without a bound is no finite program; with one it is. Where each round that goes on uses
up a measure, no run gets as far as the bound, so what stands beyond it does not matter.
-/

namespace Atmin.Interaction

variable {Op : Type} {Res : Op → Type} {ε α β σ : Type}

/-- At most `n` rounds, each of which says whether to go on; then `beyond`. -/
def Prog.rounds (beyond : Prog Op Res (Except ε Unit)) (round : Prog Op Res (Except ε Bool)) :
    Nat → Prog Op Res (Except ε Unit)
  | 0 => beyond
  | n + 1 => round.bind fun
    | .ok true => rounds beyond round n
    | .ok false => .ret (.ok ())
    | .error e => .ret (.error e)

variable {exec : (o : Op) → σ → Res o → σ → Prop} {beyond beyond' : Prog Op Res (Except ε Unit)}
  {round : Prog Op Res (Except ε Bool)}

/-- A round that goes on leaves less to do. -/
def UsesUp (exec : (o : Op) → σ → Res o → σ → Prop) (round : Prog Op Res (Except ε Bool))
    (left : σ → Nat) : Prop :=
  ∀ s, Ends exec round s fun r t => r = .ok true → left t < left s

/-- With enough rounds neither their number nor what stands beyond them matters. -/
theorem runs_rounds {left : σ → Nat} (uses : UsesUp exec round left) {n n' : Nat} {s t : σ}
    {r : Except ε Unit} (enough : left s < n) (enough' : left s < n')
    (run : Runs exec (Prog.rounds beyond round n) s r t) :
    Runs exec (Prog.rounds beyond' round n') s r t := by
  induction n generalizing s n' with
  | zero => exact absurd enough (Nat.not_lt_zero _)
  | succ n ih =>
    cases n' with
    | zero => exact absurd enough' (Nat.not_lt_zero _)
    | succ n' =>
      obtain ⟨goes, u, first, rest⟩ := runs_bind.mp run
      refine runs_bind.mpr ⟨goes, u, first, ?_⟩
      cases goes with
      | error e => exact rest
      | ok more =>
        cases more with
        | false => exact rest
        | true =>
          have fewer := uses s _ _ first rfl
          exact ih (by omega) (by omega) rest

end Atmin.Interaction
