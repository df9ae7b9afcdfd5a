import Mathlib.Logic.Function.Basic

/-!
# Programs as trees of requests

A program either returns or issues one request and continues with its reply.
Everything an environment may do between two requests happens between two nodes
of the tree, so one node is the unit of interleaving.
-/

namespace Atmin.Interaction

/-- A program over requests `Op`, where `Res o` is the type of replies to `o`. -/
inductive Prog (Op : Type) (Res : Op → Type) (α : Type) : Type where
  | ret (a : α)
  | op (o : Op) (k : Res o → Prog Op Res α)

namespace Prog

variable {Op : Type} {Res : Op → Type} {α β γ : Type}

def bind (p : Prog Op Res α) (f : α → Prog Op Res β) : Prog Op Res β :=
  match p with
  | .ret a => f a
  | .op o k => .op o fun r => (k r).bind f

instance : Monad (Prog Op Res) where
  pure := .ret
  bind := bind

/-- A single request. -/
def request (o : Op) : Prog Op Res (Res o) := .op o .ret

@[simp] theorem ret_bind (a : α) (f : α → Prog Op Res β) : (ret a).bind f = f a := rfl

@[simp] theorem op_bind (o : Op) (k : Res o → Prog Op Res α) (f : α → Prog Op Res β) :
    (op o k).bind f = op o fun r => (k r).bind f := rfl

@[simp] theorem request_bind (o : Op) (f : Res o → Prog Op Res β) :
    (request o).bind f = op o f := rfl

theorem bind_ret (p : Prog Op Res α) : p.bind .ret = p := by
  induction p with
  | ret a => rfl
  | op o k ih => simp only [op_bind, ih]

theorem bind_assoc (p : Prog Op Res α) (f : α → Prog Op Res β) (g : β → Prog Op Res γ) :
    (p.bind f).bind g = p.bind fun a => (f a).bind g := by
  induction p with
  | ret a => rfl
  | op o k ih => simp only [op_bind, ih]

/-- Every request satisfies `ok`, and every value returned satisfies `P`. -/
inductive Only (ok : Op → Prop) (P : α → Prop) : Prog Op Res α → Prop where
  | ret {a : α} : P a → Only ok P (.ret a)
  | op {o : Op} {k : Res o → Prog Op Res α} : ok o → (∀ r, Only ok P (k r)) → Only ok P (.op o k)

theorem Only.bind {ok : Op → Prop} {P : α → Prop} {R : β → Prop} {p : Prog Op Res α}
    {f : α → Prog Op Res β} (first : Only ok P p) (rest : ∀ a, P a → Only ok R (f a)) :
    Only ok R (p.bind f) := by
  induction first with
  | ret holds => exact rest _ holds
  | op allowed _ ih => exact .op allowed ih

theorem Only.weaken {ok : Op → Prop} {P R : α → Prop} {p : Prog Op Res α} (only : Only ok P p)
    (weaker : ∀ a, P a → R a) : Only ok R p := by
  induction only with
  | ret holds => exact .ret (weaker _ holds)
  | op allowed _ ih => exact .op allowed ih

theorem Only.mono {ok ok' : Op → Prop} {P : α → Prop} {p : Prog Op Res α}
    (only : Only ok P p) (allows : ∀ o, ok o → ok' o) : Only ok' P p := by
  induction only with
  | ret holds => exact .ret holds
  | op allowed _ ih => exact .op (allows _ allowed) ih

section Expand

variable {Op' : Type} {Res' : Op' → Type}

/-- Serve each request by a program of its own. -/
def expand (serve : (o : Op) → Prog Op' Res' (Res o)) : Prog Op Res α → Prog Op' Res' α
  | .ret a => .ret a
  | .op o k => (serve o).bind fun r => (k r).expand serve

theorem Only.expand {ok : Op → Prop} {ok' : Op' → Prop} {P : α → Prop}
    {serve : (o : Op) → Prog Op' Res' (Res o)} {p : Prog Op Res α} (only : Only ok P p)
    (serves : ∀ o, ok o → Only ok' (fun _ => True) (serve o)) : Only ok' P (p.expand serve) := by
  induction only with
  | ret holds => exact .ret holds
  | op allowed _ ih => exact (serves _ allowed).bind fun r _ => ih r

end Expand

end Prog

section Sequential

variable {Op : Type} {Res : Op → Type} {α β σ : Type}

/-- `Runs exec p s a s'`: alone and from `s`, the program returns `a` in `s'`. -/
inductive Runs (exec : (o : Op) → σ → Res o → σ → Prop) :
    Prog Op Res α → σ → α → σ → Prop where
  | ret (a : α) (s : σ) : Runs exec (.ret a) s a s
  | op {o : Op} {k : Res o → Prog Op Res α} {s t u : σ} {r : Res o} {a : α} :
      exec o s r t → Runs exec (k r) t a u → Runs exec (.op o k) s a u

variable {exec : (o : Op) → σ → Res o → σ → Prop}

@[simp] theorem runs_ret {a b : α} {s t : σ} :
    Runs exec (.ret a : Prog Op Res α) s b t ↔ a = b ∧ s = t := by
  constructor
  · rintro ⟨⟩; exact ⟨rfl, rfl⟩
  · rintro ⟨rfl, rfl⟩; exact .ret a s

theorem runs_op {o : Op} {k : Res o → Prog Op Res α} {s u : σ} {a : α} :
    Runs exec (.op o k) s a u ↔ ∃ r t, exec o s r t ∧ Runs exec (k r) t a u := by
  constructor
  · rintro (_ | ⟨first, rest⟩); exact ⟨_, _, first, rest⟩
  · rintro ⟨r, t, first, rest⟩; exact .op first rest

theorem runs_bind {p : Prog Op Res α} {f : α → Prog Op Res β} {s u : σ} {b : β} :
    Runs exec (p.bind f) s b u ↔ ∃ a t, Runs exec p s a t ∧ Runs exec (f a) t b u := by
  induction p generalizing s with
  | ret a =>
    constructor
    · intro run; exact ⟨a, s, .ret a s, run⟩
    · rintro ⟨_, _, ⟨⟩, run⟩; exact run
  | op o k ih =>
    simp only [Prog.op_bind, runs_op, ih]
    constructor
    · rintro ⟨r, t, first, a, v, rest, last⟩; exact ⟨a, v, ⟨r, t, first, rest⟩, last⟩
    · rintro ⟨a, v, ⟨r, t, first, rest⟩, last⟩; exact ⟨r, t, first, a, v, rest, last⟩

/-- What every request keeps, a whole sequential run keeps. -/
theorem Runs.preserves {P : σ → Prop} (step : ∀ o s r t, exec o s r t → P s → P t)
    {p : Prog Op Res α} {s t : σ} {a : α} (run : Runs exec p s a t) (start : P s) : P t := by
  induction run with
  | ret => exact start
  | op first _ ih => exact ih (step _ _ _ _ first start)

theorem Runs.mono {exec' : (o : Op) → σ → Res o → σ → Prop}
    (allows : ∀ o s r t, exec o s r t → exec' o s r t) {p : Prog Op Res α} {s t : σ} {a : α}
    (run : Runs exec p s a t) : Runs exec' p s a t := by
  induction run with
  | ret a s => exact .ret a s
  | op first _ ih => exact .op (allows _ _ _ _ first) ih

/-- Where every request is answered, a program runs to its end. -/
theorem exists_runs (total : ∀ o s, ∃ r t, exec o s r t) (p : Prog Op Res α) (s : σ) :
    ∃ a t, Runs exec p s a t := by
  induction p generalizing s with
  | ret a => exact ⟨a, s, .ret a s⟩
  | op o k ih =>
    obtain ⟨r, t, served⟩ := total o s
    obtain ⟨a, u, rest⟩ := ih r t
    exact ⟨a, u, .op served rest⟩

/-- Alone and from `s`, the program ends with `Q` whenever it ends. -/
def Ends (exec : (o : Op) → σ → Res o → σ → Prop) (p : Prog Op Res α) (s : σ)
    (Q : α → σ → Prop) : Prop :=
  ∀ a t, Runs exec p s a t → Q a t

namespace Ends

variable {Q : β → σ → Prop}

theorem ret {b : β} {s : σ} (holds : Q b s) : Ends exec (.ret b : Prog Op Res β) s Q := by
  intro a t run
  obtain ⟨rfl, rfl⟩ := runs_ret.mp run
  exact holds

theorem op {o : Op} {k : Res o → Prog Op Res β} {s : σ}
    (rest : ∀ r t, exec o s r t → Ends exec (k r) t Q) : Ends exec (.op o k) s Q := by
  intro a t run
  obtain ⟨r, v, first, last⟩ := runs_op.mp run
  exact rest r v first a t last

theorem bind {P : α → σ → Prop} {p : Prog Op Res α} {f : α → Prog Op Res β} {s : σ}
    (first : Ends exec p s P) (rest : ∀ a t, P a t → Ends exec (f a) t Q) :
    Ends exec (p.bind f) s Q := by
  intro b u run
  obtain ⟨a, t, ran, last⟩ := runs_bind.mp run
  exact rest a t (first a t ran) b u last

theorem trivial {p : Prog Op Res β} {s : σ} : Ends exec p s fun _ _ => True :=
  fun _ _ _ => True.intro

theorem weaken {P : β → σ → Prop} {p : Prog Op Res β} {s : σ} (ends : Ends exec p s P)
    (weaker : ∀ a t, P a t → Q a t) : Ends exec p s Q :=
  fun a t run => weaker a t (ends a t run)

/-- A program all of whose requests keep `K`. -/
theorem keeping {ok : Op → Prop} {P : β → Prop} {K : σ → Prop} {p : Prog Op Res β} {s : σ}
    (only : Prog.Only ok P p) (step : ∀ o s r t, ok o → exec o s r t → K s → K t) (start : K s) :
    Ends exec p s fun b t => P b ∧ K t := by
  induction only generalizing s with
  | ret holds => exact ret ⟨holds, start⟩
  | op allowed _ ih => exact op fun r t served => ih r (step _ _ _ _ allowed served start)

/-- What a program returns whatever the replies, it returns alone. -/
theorem of_only {ok : Op → Prop} {P : β → Prop} {p : Prog Op Res β} {s : σ}
    (only : Prog.Only ok P p) : Ends exec p s fun b _ => P b := by
  induction only generalizing s with
  | ret holds => exact ret holds
  | op _ _ ih => exact op fun r _ _ => ih r

end Ends

/-- Run a program alone on requests with one outcome each. -/
def Prog.execute (run : (o : Op) → σ → Option (Res o × σ)) : Prog Op Res α → σ → Option (α × σ)
  | .ret a, s => some (a, s)
  | .op o k, s => (run o s).bind fun served => (k served.1).execute run served.2

section Execution

variable {run : (o : Op) → σ → Option (Res o × σ)}

@[simp] theorem execute_ret (a : α) (s : σ) :
    (Prog.ret a : Prog Op Res α).execute run s = some (a, s) := rfl

@[simp] theorem execute_op (o : Op) (k : Res o → Prog Op Res α) (s : σ) :
    (Prog.op o k).execute run s = (run o s).bind fun served => (k served.1).execute run served.2 := rfl

theorem execute_bind (p : Prog Op Res α) (f : α → Prog Op Res β) (s : σ) :
    (p.bind f).execute run s = (p.execute run s).bind fun done => (f done.1).execute run done.2 := by
  induction p generalizing s with
  | ret a => rfl
  | op o k ih =>
    simp only [Prog.op_bind, execute_op, Option.bind_assoc]
    congr 1
    funext served
    exact ih served.1 served.2

theorem runs_of_execute {p : Prog Op Res α} {s t : σ} {a : α}
    (executed : p.execute run s = some (a, t)) :
    Runs (fun o s r t => run o s = some (r, t)) p s a t := by
  induction p generalizing s with
  | ret b => cases executed; exact .ret _ _
  | op o k ih =>
    obtain ⟨⟨r, u⟩, served, rest⟩ := Option.bind_eq_some_iff.mp executed
    exact .op served (ih r rest)

end Execution

end Sequential

end Atmin.Interaction
