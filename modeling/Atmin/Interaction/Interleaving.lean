import Atmin.Interaction.Prog
import Mathlib.Logic.Relation

/-!
# Interleaved runs of many programs

A family of programs indexed by `ι` shares one state. Each slot starts idle, may
start running at any time, and performs one request per step. Nothing forces a
program to continue, so a run in which a program is abandoned at any request is
a run too.
-/

namespace Atmin.Interaction

/-- A slot of the family: not arrived, being served, or answered. -/
inductive Proc (Op : Type) (Res : Op → Type) (α : Type) : Type where
  | idle
  | running (p : Prog Op Res α)
  | done (a : α)

structure World (ι Op : Type) (Res : Op → Type) (α σ : Type) where
  sys : σ
  procs : ι → Proc Op Res α

structure System (ι Op : Type) (Res : Op → Type) (α σ : Type) where
  prog : ι → Prog Op Res α
  exec : ι → (o : Op) → σ → Res o → σ → Prop

variable {ι Op : Type} {Res : Op → Type} {α σ : Type} [DecidableEq ι]

/-- One slot moves: it arrives, has one request served, or answers. -/
inductive Step (S : System ι Op Res α σ) : World ι Op Res α σ → World ι Op Res α σ → Prop where
  | arrive {w : World ι Op Res α σ} {i : ι} : w.procs i = .idle →
      Step S w ⟨w.sys, Function.update w.procs i (.running (S.prog i))⟩
  | serve {w : World ι Op Res α σ} {i : ι} {o : Op} {k : Res o → Prog Op Res α}
      {r : Res o} {t : σ} : w.procs i = .running (.op o k) → S.exec i o w.sys r t →
      Step S w ⟨t, Function.update w.procs i (.running (k r))⟩
  | answer {w : World ι Op Res α σ} {i : ι} {a : α} : w.procs i = .running (.ret a) →
      Step S w ⟨w.sys, Function.update w.procs i (.done a)⟩

def World.init (s : σ) : World ι Op Res α σ := ⟨s, fun _ => .idle⟩

/-- Some run from `s` with no slot arrived leads to `w`. -/
def Reach (S : System ι Op Res α σ) (s : σ) (w : World ι Op Res α σ) : Prop :=
  Relation.ReflTransGen (Step S) (.init s) w

/-- No slot is in flight. -/
def World.Quiet (w : World ι Op Res α σ) : Prop :=
  ∀ i, w.procs i = .idle ∨ ∃ a, w.procs i = .done a

/-- A system whose state says more has no other runs. -/
theorem steps_forget {τ : Type} {prog : ι → Prog Op Res α} {exec : ι → (o : Op) → σ → Res o → σ → Prop}
    {exec' : ι → (o : Op) → τ → Res o → τ → Prop} (f : σ → τ)
    (forgets : ∀ i o s r t, exec i o s r t → exec' i o (f s) r (f t)) {w w' : World ι Op Res α σ}
    (run : Relation.ReflTransGen (Step ⟨prog, exec⟩) w w') :
    Relation.ReflTransGen (Step ⟨prog, exec'⟩) ⟨f w.sys, w.procs⟩ ⟨f w'.sys, w'.procs⟩ := by
  refine Relation.ReflTransGen.lift
    (fun v : World ι Op Res α σ => (⟨f v.sys, v.procs⟩ : World ι Op Res α τ)) (fun v v' step => ?_) w w' run
  cases step with
  | arrive idle => exact .arrive idle
  | serve running served => exact .serve running (forgets _ _ _ _ _ served)
  | answer running => exact .answer running

/-- Allowing more keeps every run. -/
theorem steps_mono {prog : ι → Prog Op Res α} {exec exec' : ι → (o : Op) → σ → Res o → σ → Prop}
    (allows : ∀ i o s r t, exec i o s r t → exec' i o s r t) {w w' : World ι Op Res α σ}
    (run : Relation.ReflTransGen (Step ⟨prog, exec⟩) w w') :
    Relation.ReflTransGen (Step ⟨prog, exec'⟩) w w' :=
  steps_forget id allows run

section Choices

/-- A computable reading of requests, where `C` resolves what the environment is
free to choose. -/
def execOf {C : Type} (run : ι → (o : Op) → C → σ → Option (Res o × σ)) :
    ι → (o : Op) → σ → Res o → σ → Prop :=
  fun i o s r t => ∃ c, run i o c s = some (r, t)

variable {C : Type} (run : ι → (o : Op) → C → σ → Option (Res o × σ))
variable (prog : ι → Prog Op Res α)

def World.advance (i : ι) (c : C) (w : World ι Op Res α σ) : Option (World ι Op Res α σ) :=
  match w.procs i with
  | .idle => some ⟨w.sys, Function.update w.procs i (.running (prog i))⟩
  | .running (.op o k) => match run i o c w.sys with
    | some (r, t) => some ⟨t, Function.update w.procs i (.running (k r))⟩
    | none => none
  | .running (.ret a) => some ⟨w.sys, Function.update w.procs i (.done a)⟩
  | .done _ => none

/-- Follow a schedule of slots and choices. -/
def World.follow : List (ι × C) → World ι Op Res α σ → Option (World ι Op Res α σ)
  | [], w => some w
  | (i, c) :: rest, w => match w.advance run prog i c with
    | some w' => World.follow rest w'
    | none => none

theorem step_of_advance {i : ι} {c : C} {w w' : World ι Op Res α σ}
    (moved : w.advance run prog i c = some w') : Step ⟨prog, execOf run⟩ w w' := by
  unfold World.advance at moved
  split at moved
  next idle => cases moved; exact .arrive idle
  next o k running =>
    split at moved
    next r t served => cases moved; exact .serve running ⟨c, served⟩
    next => cases moved
  next a running => cases moved; exact .answer running
  next => cases moved

theorem steps_of_follow {w w' : World ι Op Res α σ} {schedule : List (ι × C)}
    (followed : w.follow run prog schedule = some w') :
    Relation.ReflTransGen (Step ⟨prog, execOf run⟩) w w' := by
  induction schedule generalizing w with
  | nil => cases followed; exact .refl
  | cons entry rest ih =>
    obtain ⟨i, c⟩ := entry
    simp only [World.follow] at followed
    split at followed
    next v moved => exact .head (step_of_advance run prog moved) (ih followed)
    next => cases followed

/-- A schedule that can be followed is a run, here with a stop on the way. -/
theorem reach_twice_of_follow (s : σ) (first last : List (ι × C))
    (P : World ι Op Res α σ → World ι Op Res α σ → Bool)
    (followed : ((World.follow run prog first (.init s)).any fun w =>
      (World.follow run prog last w).any (P w)) = true) :
    ∃ w w', Reach ⟨prog, execOf run⟩ s w ∧
      Relation.ReflTransGen (Step ⟨prog, execOf run⟩) w w' ∧ P w w' = true := by
  obtain ⟨w, reached, rest⟩ := (Option.any_eq_true _ _).mp followed
  obtain ⟨w', further, holds⟩ := (Option.any_eq_true _ _).mp rest
  exact ⟨w, w', steps_of_follow _ _ reached, steps_of_follow _ _ further, holds⟩

end Choices

/-! ### Histories -/

/-- A served request together with its reply. -/
structure Event (ι Op : Type) (Res : Op → Type) where
  by_ : ι
  op : Op
  res : Res op

/-- A state that remembers every request served so far, latest first. -/
structure Traced (ι Op : Type) (Res : Op → Type) (σ : Type) where
  state : σ
  trace : List (Event ι Op Res)

def Traced.init (s : σ) : Traced ι Op Res σ := ⟨s, []⟩

def traced (exec : ι → (o : Op) → σ → Res o → σ → Prop) :
    ι → (o : Op) → Traced ι Op Res σ → Res o → Traced ι Op Res σ → Prop :=
  fun i o s r t => exec i o s.state r t.state ∧ t.trace = ⟨i, o, r⟩ :: s.trace

/-- A computable reading of the requests, with their history. -/
def tracedRun {C : Type} (run : ι → (o : Op) → C → σ → Option (Res o × σ)) (i : ι) (o : Op) (c : C)
    (s : Traced ι Op Res σ) : Option (Res o × Traced ι Op Res σ) :=
  (run i o c s.state).map fun done => (done.1, ⟨done.2, ⟨i, o, done.1⟩ :: s.trace⟩)

omit [DecidableEq ι] in
theorem traced_of_tracedRun {C : Type} {run : ι → (o : Op) → C → σ → Option (Res o × σ)} {i : ι}
    {o : Op} {s t : Traced ι Op Res σ} {r : Res o} (served : execOf (tracedRun run) i o s r t) :
    traced (execOf run) i o s r t := by
  obtain ⟨c, ran⟩ := served
  obtain ⟨⟨r', t'⟩, done, same⟩ := Option.map_eq_some_iff.mp ran
  cases same
  exact ⟨⟨c, done⟩, rfl⟩

/-- Requests are served only where `C` allows them. -/
def guarded (C : ι → Op → σ → Prop) (exec : ι → (o : Op) → σ → Res o → σ → Prop) :
    ι → (o : Op) → σ → Res o → σ → Prop :=
  fun i o s r t => C i o s ∧ exec i o s r t

end Atmin.Interaction
