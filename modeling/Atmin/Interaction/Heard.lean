import Atmin.Interaction.RelyGuarantee

/-!
# What a program has heard

A program knows of the state only what its requests were answered. `Given` fixes the
answers a program may get once for all, so nothing has to be carried from one state to
the next; a program whose answers are on record is given just those.
-/

namespace Atmin.Interaction

variable {ι Op : Type} {Res : Op → Type} {α β σ : Type}

namespace Prog

/-- Every request satisfies `ok`, and however the requests are answered within `R`, the value
returned satisfies `Q`. -/
inductive Given (ok : Op → Prop) (R : (o : Op) → Res o → Prop) (Q : α → Prop) :
    Prog Op Res α → Prop where
  | ret {a : α} : Q a → Given ok R Q (.ret a)
  | op {o : Op} {k : Res o → Prog Op Res α} : ok o → (∀ r, R o r → Given ok R Q (k r)) →
      Given ok R Q (.op o k)

variable {ok : Op → Prop} {R : (o : Op) → Res o → Prop} {P : α → Prop} {Q : β → Prop}

theorem Given.bind {p : Prog Op Res α} {f : α → Prog Op Res β} (first : Given ok R P p)
    (rest : ∀ a, P a → Given ok R Q (f a)) : Given ok R Q (p.bind f) := by
  induction first with
  | ret holds => exact rest _ holds
  | op allowed _ ih => exact .op allowed ih

theorem Given.weaken {P' : α → Prop} {p : Prog Op Res α} (given : Given ok R P p)
    (weaker : ∀ a, P a → P' a) : Given ok R P' p := by
  induction given with
  | ret holds => exact .ret (weaker _ holds)
  | op allowed _ ih => exact .op allowed ih

theorem Given.within {ok' : Op → Prop} {p : Prog Op Res α} (given : Given ok R P p)
    (only : Only ok' (fun _ => True) p) : Given (fun o => ok o ∧ ok' o) R P p := by
  induction given with
  | ret holds => exact .ret holds
  | op allowed _ ih =>
    obtain _ | ⟨allowed', rest⟩ := only
    exact .op ⟨allowed, allowed'⟩ fun r heard => ih r heard (rest r)

theorem Given.mono {ok' : Op → Prop} {p : Prog Op Res α} (given : Given ok R P p)
    (allows : ∀ o, ok o → ok' o) : Given ok' R P p := by
  induction given with
  | ret holds => exact .ret holds
  | op allowed _ ih => exact .op (allows _ allowed) ih

/-- Each request is served by a program of its own, which answers within `R`. -/
theorem Given.expand {Op' : Type} {Res' : Op' → Type} {ok' : Op' → Prop}
    {R' : (o : Op') → Res' o → Prop} {serve : (o : Op) → Prog Op' Res' (Res o)} {p : Prog Op Res α}
    (given : Given ok R P p) (serves : ∀ o, ok o → Given ok' R' (R o) (serve o)) :
    Given ok' R' P (p.expand serve) := by
  induction given with
  | ret holds => exact .ret holds
  | op allowed _ ih => exact (serves _ allowed).bind ih

/-- What holds whatever the answers holds for any of them. -/
theorem Only.given {p : Prog Op Res α} (only : Only ok P p) : Given ok R P p := by
  induction only with
  | ret holds => exact .ret holds
  | op allowed _ ih => exact .op allowed fun r _ => ih r

end Prog

/-- A program whose requests keep the rules, and whose answers stay on record, returns what it
returns for the answers on record. -/
theorem Safe.given {rules : Rules ι σ} {exec : ι → (o : Op) → σ → Res o → σ → Prop} {i : ι}
    {heard : σ → (o : Op) → Res o → Prop} {ok : σ → Op → Prop} {Q : α → σ → Prop}
    (rely : ∀ s t, rules.rely i s t → ∀ o r, heard s o r → heard t o r)
    (guar : ∀ s t, rules.guar i s t → ∀ o r, heard s o r → heard t o r)
    (serves : ∀ o s r t, ok s o → rules.inv s → exec i o s r t →
      rules.inv t ∧ rules.guar i s t ∧ heard t o r)
    {p : Prog Op Res α} {s : σ} (given : ∀ t, (∀ o r, heard s o r → heard t o r) →
      Prog.Given (ok t) (heard t) (fun a => Q a t) p) : Safe rules exec i Q p s := by
  have others {s t : σ} (moved : rules.Others i s t) : ∀ o r, heard s o r → heard t o r := by
    induction moved with
    | refl => exact fun _ _ h => h
    | tail _ last ih => exact fun o r h => rely _ _ last.2.2 o r (ih o r h)
  induction p generalizing s with
  | ret a =>
    intro t moved
    obtain ⟨holds⟩ := given t (others moved)
    exact holds
  | op o k ih =>
    intro t moved inv r u served
    have known := others moved
    have allowed : ok t o := by
      obtain _ | ⟨allowed, _⟩ := given t known
      exact allowed
    obtain ⟨kept, own, hears⟩ := serves o t r u allowed inv served
    -- Whatever happens later, this answer is on record then.
    refine ⟨kept, own, ih r fun v later => ?_⟩
    obtain _ | ⟨_, rest⟩ := given v fun o r h => later o r (guar t u own o r (known o r h))
    exact rest r (later o r hears)

end Atmin.Interaction
