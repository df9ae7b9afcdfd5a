import Atmin.Interaction.Interleaving

/-!
# Rely and guarantee for interleaved programs

`Rules` fixes an invariant of the shared state, what each slot may rely on the
others to do, and what it guarantees in return. `Safe` is the meaning of a single
program under these rules: however long the others run before each request, the
request keeps the invariant and the guarantee, and the rest is safe again. Slots
that are safe one by one are safe together.
-/

namespace Atmin.Interaction

structure Rules (ι σ : Type) where
  inv : σ → Prop
  rely : ι → σ → σ → Prop
  guar : ι → σ → σ → Prop
  compat : ∀ i j, i ≠ j → ∀ s t, inv s → inv t → guar i s t → rely j s t

variable {ι Op : Type} {Res : Op → Type} {α β σ : Type}

namespace Rules

variable (rules : Rules ι σ)

/-- One step of the other slots, between states that satisfy the invariant. -/
def Other (i : ι) (s t : σ) : Prop := rules.inv s ∧ rules.inv t ∧ rules.rely i s t

/-- Any number of steps of the other slots. -/
def Others (i : ι) : σ → σ → Prop := Relation.ReflTransGen (rules.Other i)

/-- An assertion that the other slots cannot falsify. -/
def Stable (i : ι) (A : σ → Prop) : Prop :=
  ∀ s t, rules.inv s → rules.inv t → rules.rely i s t → A s → A t

variable {rules}

theorem Stable.others {i : ι} {A : σ → Prop} (stable : rules.Stable i A) {s t : σ}
    (moved : rules.Others i s t) (holds : A s) : A t := by
  induction moved with
  | refl => exact holds
  | tail _ last ih => exact stable _ _ last.1 last.2.1 last.2.2 ih

theorem Stable.and {i : ι} {A B : σ → Prop} (first : rules.Stable i A) (second : rules.Stable i B) :
    rules.Stable i fun s => A s ∧ B s :=
  fun s t hs ht rely h => ⟨first s t hs ht rely h.1, second s t hs ht rely h.2⟩

theorem Stable.const {i : ι} (P : Prop) : rules.Stable i fun _ => P :=
  fun _ _ _ _ _ h => h

theorem Stable.all {γ : Type} {i : ι} {A : γ → σ → Prop} (each : ∀ c, rules.Stable i (A c)) :
    rules.Stable i fun s => ∀ c, A c s :=
  fun s t hs ht rely h c => each c s t hs ht rely (h c)

theorem Stable.imp {i : ι} {P : Prop} {A : σ → Prop} (then_ : rules.Stable i A) :
    rules.Stable i fun s => P → A s :=
  fun s t hs ht rely h p => then_ s t hs ht rely (h p)

variable (rules) in
/-- An assertion together with its stability. -/
structure Assertion (i : ι) where
  holds : σ → Prop
  stable : rules.Stable i holds

instance {i : ι} : CoeFun (rules.Assertion i) fun _ => σ → Prop := ⟨Assertion.holds⟩

/-- The assertion that says nothing about the state. -/
def Assertion.pure {i : ι} (P : Prop) : rules.Assertion i := ⟨fun _ => P, .const P⟩

/-- One assertion about each element of a list. -/
def Assertion.each {γ : Type} {i : ι} (cs : List γ) (A : γ → rules.Assertion i) :
    rules.Assertion i :=
  ⟨fun s => ∀ c ∈ cs, A c s, .all fun c => .imp (A c).stable⟩

def Assertion.and {i : ι} (A B : rules.Assertion i) : rules.Assertion i :=
  ⟨fun s => A s ∧ B s, A.stable.and B.stable⟩

end Rules

section Safe

variable (rules : Rules ι σ) (exec : ι → (o : Op) → σ → Res o → σ → Prop)

/-- The program keeps the rules from `s` on, and whatever it returns satisfies `Q`. -/
def Safe (i : ι) (Q : α → σ → Prop) : Prog Op Res α → σ → Prop
  | .ret a, s => ∀ t, rules.Others i s t → Q a t
  | .op o k, s => ∀ t, rules.Others i s t → rules.inv t → ∀ r u, exec i o t r u →
      rules.inv u ∧ rules.guar i t u ∧ Safe i Q (k r) u

variable {rules exec}

theorem Safe.others {i : ι} {Q : α → σ → Prop} {p : Prog Op Res α} {s t : σ}
    (safe : Safe rules exec i Q p s) (moved : rules.Others i s t) : Safe rules exec i Q p t := by
  cases p with
  | ret a => exact fun u later => safe u (moved.trans later)
  | op o k => exact fun u later => safe u (moved.trans later)

theorem Safe.ret {i : ι} {Q : α → rules.Assertion i} {a : α} {s : σ} (holds : Q a s) :
    Safe rules exec i (fun a => Q a) (.ret a) s :=
  fun _ moved => (Q a).stable.others moved holds

variable (rules exec) in
/-- One request from `P` keeps the rules and establishes `R`. -/
def Serves (i : ι) (o : Op) (P : σ → Prop) (R : Res o → σ → Prop) : Prop :=
  ∀ s r t, rules.inv s → P s → exec i o s r t → rules.inv t ∧ rules.guar i s t ∧ R r t

theorem Serves.and {i : ι} {o : Op} {P : σ → Prop} {R R' : Res o → σ → Prop}
    (first : Serves rules exec i o P R) (second : Serves rules exec i o P R') :
    Serves rules exec i o P fun r s => R r s ∧ R' r s := by
  intro s r t inv holds served
  obtain ⟨kept, guar, after⟩ := first s r t inv holds served
  exact ⟨kept, guar, after, (second s r t inv holds served).2.2⟩

theorem Serves.of {i : ι} {o : Op} {P P' : σ → Prop} {R : Res o → σ → Prop}
    (weaker : ∀ s, P' s → P s) (serves : Serves rules exec i o P R) : Serves rules exec i o P' R :=
  fun s r t inv holds served => serves s r t inv (weaker s holds) served

variable (rules exec) in
/-- A request after which every assertion of the slot still holds. -/
def Unnoticed (i : ι) (o : Op) : Prop := ∀ A : rules.Assertion i, Serves rules exec i o A fun _ => A

/-- A request that does no more than the slot must expect from the others. -/
theorem Unnoticed.of {i : ι} {o : Op} (like : ∀ s r t, rules.inv s → exec i o s r t →
    rules.inv t ∧ rules.guar i s t ∧ rules.rely i s t) : Unnoticed rules exec i o := by
  intro A s r t inv holds served
  obtain ⟨kept, guar, rely⟩ := like s r t inv served
  exact ⟨kept, guar, A.stable s t inv kept rely holds⟩

/-- What else such a request establishes. -/
theorem Unnoticed.serves {i : ι} {o : Op} {R : Res o → σ → Prop} (quiet : Unnoticed rules exec i o)
    (A : rules.Assertion i) (after : ∀ s r t, rules.inv s → A s → exec i o s r t → R r t) :
    Serves rules exec i o A R := by
  intro s r t inv holds served
  obtain ⟨kept, guar, _⟩ := quiet A s r t inv holds served
  exact ⟨kept, guar, after s r t inv holds served⟩

/-- A request whose precondition the other slots cannot falsify. -/
theorem Safe.request {i : ι} {Q : α → σ → Prop} {o : Op} {k : Res o → Prog Op Res α} {s : σ}
    {R : Res o → σ → Prop} (P : rules.Assertion i) (holds : P s)
    (serves : Serves rules exec i o P R) (rest : ∀ r t, R r t → Safe rules exec i Q (k r) t) :
    Safe rules exec i Q (.op o k) s := by
  intro t moved inv r u served
  obtain ⟨kept, guar, after⟩ := serves t r u inv (P.stable.others moved holds) served
  exact ⟨kept, guar, rest r u after⟩

theorem Safe.bind {i : ι} {P : α → σ → Prop} {Q : β → σ → Prop} {p : Prog Op Res α}
    {f : α → Prog Op Res β} {s : σ} (first : Safe rules exec i P p s)
    (rest : ∀ a t, P a t → Safe rules exec i Q (f a) t) : Safe rules exec i Q (p.bind f) s := by
  induction p generalizing s with
  | ret a => exact rest a s (first s .refl)
  | op o k ih =>
    intro t moved inv r u served
    obtain ⟨kept, guar, safe⟩ := first t moved inv r u served
    exact ⟨kept, guar, ih r safe⟩

theorem Safe.weaken {i : ι} {P Q : α → σ → Prop} {p : Prog Op Res α} {s : σ}
    (safe : Safe rules exec i P p s) (weaker : ∀ a t, P a t → Q a t) : Safe rules exec i Q p s := by
  induction p generalizing s with
  | ret a => exact fun t moved => weaker a t (safe t moved)
  | op o k ih =>
    intro t moved inv r u served
    obtain ⟨kept, guar, rest⟩ := safe t moved inv r u served
    exact ⟨kept, guar, ih r rest⟩

/-- A program all of whose requests keep the rules from `A`. -/
theorem Safe.only {i : ι} {ok : Op → Prop} {P : α → Prop} (A : rules.Assertion i)
    {p : Prog Op Res α} {s : σ} (serves : ∀ o, ok o → Serves rules exec i o A fun _ => A)
    (only : Prog.Only ok P p) (holds : A s) :
    Safe rules exec i (fun a t => P a ∧ A t) p s := by
  induction only generalizing s with
  | ret member => exact fun t moved => ⟨member, A.stable.others moved holds⟩
  | op allowed _ ih => exact .request A holds (serves _ allowed) fun r _ after => ih r after

/-- Each request is served by a program of its own, from `A` to `A`. -/
theorem Safe.expand {Op' : Type} {Res' : Op' → Type} {exec : ι → (o : Op') → σ → Res' o → σ → Prop}
    {i : ι}
    {serve : (o : Op) → Prog Op' Res' (Res o)} (A : rules.Assertion i)
    (serves : ∀ o s, A s → Safe rules exec i (fun _ => A) (serve o) s) {p : Prog Op Res α} {s : σ}
    (holds : A s) : Safe rules exec i (fun _ => A) (p.expand serve) s := by
  induction p generalizing s with
  | ret a => exact .ret holds
  | op o k ih => exact (serves o s holds).bind fun r t after => ih r after

/-- What a program promises lasts while the others run. -/
theorem Safe.lasting {i : ι} {Q : α → σ → Prop} {p : Prog Op Res α} {s : σ}
    (safe : Safe rules exec i Q p s) :
    Safe rules exec i (fun a t => ∀ u, rules.Others i t u → Q a u) p s := by
  induction p generalizing s with
  | ret a => exact fun t moved u later => safe u (moved.trans later)
  | op o k ih =>
    intro t moved inv r u served
    obtain ⟨kept, guar, rest⟩ := safe t moved inv r u served
    exact ⟨kept, guar, ih r rest⟩

/-- What every step implies, one's own and the others', relates the ends of a program, if it
is reflexive and transitive. -/
theorem Safe.relates {i : ι} {R : σ → σ → Prop} (refl : ∀ s, R s s)
    (trans : ∀ s t u, R s t → R t u → R s u) (rely : ∀ s t, rules.rely i s t → R s t)
    (guar : ∀ s t, rules.guar i s t → R s t) {Q : α → σ → Prop} {p : Prog Op Res α} {s : σ}
    (safe : Safe rules exec i Q p s) : Safe rules exec i (fun a t => Q a t ∧ R s t) p s := by
  have others {s t : σ} (moved : rules.Others i s t) : R s t := by
    induction moved with
    | refl => exact refl _
    | tail _ last ih => exact trans _ _ _ ih (rely _ _ last.2.2)
  suffices later : ∀ s0, R s0 s → Safe rules exec i (fun a t => Q a t ∧ R s0 t) p s from
    later s (refl s)
  induction p generalizing s with
  | ret a => exact fun s0 here t moved => ⟨safe t moved, trans _ _ _ here (others moved)⟩
  | op o k ih =>
    intro s0 here t moved inv r u served
    obtain ⟨kept, own, rest⟩ := safe t moved inv r u served
    exact ⟨kept, own, ih r rest s0 (trans _ _ _ (trans _ _ _ here (others moved)) (guar _ _ own))⟩

/-- A program that is safe as a part of another one, whatever is done with its result. -/
theorem Safe.of_bind {i : ι} {Q : β → σ → Prop} {p : Prog Op Res α} {f : α → Prog Op Res β} {s : σ}
    (safe : Safe rules exec i Q (p.bind f) s) : Safe rules exec i (fun _ _ => True) p s := by
  induction p generalizing s with
  | ret a => exact fun _ _ => trivial
  | op o k ih =>
    intro t moved inv r u served
    obtain ⟨kept, guar, rest⟩ := safe t moved inv r u served
    exact ⟨kept, guar, ih r rest⟩

/-- Alone, a safe program keeps the invariant and returns what it promises. -/
theorem Safe.runs {i : ι} {Q : α → σ → Prop} {p : Prog Op Res α} {s t : σ} {a : α}
    (safe : Safe rules exec i Q p s) (inv : rules.inv s) (run : Runs (exec i) p s a t) :
    rules.inv t ∧ Q a t := by
  induction run with
  | ret a s => exact ⟨inv, safe s .refl⟩
  | op first _ ih =>
    obtain ⟨kept, _, rest⟩ := safe _ .refl inv _ _ first
    exact ih rest kept

end Safe

/-! ### Rules on top of others -/

section Layers

variable {lower upper : Rules ι σ} {exec : ι → (o : Op) → σ → Res o → σ → Prop}

namespace Rules

/-- Both rules at once. -/
def meet (lower upper : Rules ι σ) : Rules ι σ where
  inv s := lower.inv s ∧ upper.inv s
  rely i s t := lower.rely i s t ∧ upper.rely i s t
  guar i s t := lower.guar i s t ∧ upper.guar i s t
  compat i j differ s t before after moved :=
    ⟨lower.compat i j differ s t before.1 after.1 moved.1,
      upper.compat i j differ s t before.2 after.2 moved.2⟩

/-- The requests that keep the rules. -/
def lawful (rules : Rules ι σ) (exec : ι → (o : Op) → σ → Res o → σ → Prop) :
    ι → (o : Op) → σ → Res o → σ → Prop :=
  fun i o s r t => exec i o s r t ∧ rules.inv s ∧ rules.inv t ∧ rules.guar i s t

theorem Others.of_meet {i : ι} {s t : σ} (moved : (lower.meet upper).Others i s t) :
    lower.Others i s t ∧ upper.Others i s t := by
  induction moved with
  | refl => exact ⟨.refl, .refl⟩
  | tail _ last ih =>
    obtain ⟨before, after, rely⟩ := last
    exact ⟨ih.1.tail ⟨before.1, after.1, rely.1⟩, ih.2.tail ⟨before.2, after.2, rely.2⟩⟩

end Rules

/-- What keeps the lower rules need only be looked at where it does when the upper ones are added. -/
theorem Safe.meet {i : ι} {P Q : α → σ → Prop} {p : Prog Op Res α} {s : σ}
    (first : Safe lower exec i P p s) (second : Safe upper (lower.lawful exec) i Q p s) :
    Safe (lower.meet upper) exec i (fun a t => P a t ∧ Q a t) p s := by
  induction p generalizing s with
  | ret a => exact fun t moved => ⟨first t moved.of_meet.1, second t moved.of_meet.2⟩
  | op o k ih =>
    intro t moved inv r u served
    obtain ⟨kept, guar, rest⟩ := first t moved.of_meet.1 inv.1 r u served
    obtain ⟨kept', guar', rest'⟩ := second t moved.of_meet.2 inv.2 r u ⟨served, inv.1, kept, guar⟩
    exact ⟨⟨kept, kept'⟩, ⟨guar, guar'⟩, ih r rest rest'⟩

end Layers

namespace Rules

/-- Slots of which nothing is asked but to keep an invariant. -/
def ofInvariant (I : σ → Prop) : Rules ι σ where
  inv := I
  rely _ _ _ := True
  guar _ _ _ := True
  compat _ _ _ _ _ _ _ _ := trivial

end Rules

section Parallel

variable [DecidableEq ι] (rules : Rules ι σ) (S : System ι Op Res α σ)

/-- What is known of a slot in a reachable world: its precondition while idle, its
remaining obligations while running, its postcondition once answered. -/
def SlotSafe (pre : σ → Prop) (Q : α → σ → Prop) (s : σ) (i : ι) : Proc Op Res α → Prop
  | .idle => pre s
  | .running p => Safe rules S.exec i Q p s
  | .done a => Safe rules S.exec i Q (.ret a) s

variable {rules S}

omit [DecidableEq ι] in
theorem SlotSafe.other {pre : σ → Prop} {Q : α → σ → Prop} {s t : σ} {i : ι}
    (stable : rules.Stable i pre) {p : Proc Op Res α} (safe : SlotSafe rules S pre Q s i p)
    (moved : rules.Other i s t) : SlotSafe rules S pre Q t i p := by
  cases p with
  | idle => exact stable s t moved.1 moved.2.1 moved.2.2 safe
  | running p => exact Safe.others safe (.single moved)
  | done a => exact Safe.others safe (.single moved)

omit [DecidableEq ι] in
theorem SlotSafe.post {pre : σ → Prop} {Q : α → σ → Prop} {s : σ} {i : ι} {a : α}
    (safe : SlotSafe rules S pre Q s i (.done a)) : Q a s :=
  safe s .refl

variable {pre : ι → σ → Prop} {Q : ι → α → σ → Prop}

variable (rules S pre Q) in
/-- The invariant holds, and so does what is known of every slot. -/
def Secured (w : World ι Op Res α σ) : Prop :=
  rules.inv w.sys ∧ ∀ i, SlotSafe rules S (pre i) (Q i) w.sys i (w.procs i)

/-- What every slot has to bring along. -/
structure Contracts (rules : Rules ι σ) (S : System ι Op Res α σ) (pre : ι → σ → Prop)
    (Q : ι → α → σ → Prop) : Prop where
  stable : ∀ i, rules.Stable i (pre i)
  arrives : ∀ i s, rules.inv s → pre i s → Safe rules S.exec i (Q i) (S.prog i) s

omit [DecidableEq ι] in
theorem Secured.init {s : σ} (initial : rules.inv s) (ready : ∀ i, pre i s) :
    Secured rules S pre Q (.init s) := ⟨initial, ready⟩

/-- A step secures the next world, and keeps the guarantee of the slot that moved. -/
theorem Secured.step (contracts : Contracts rules S pre Q) {w w' : World ι Op Res α σ}
    (secured : Secured rules S pre Q w) (step : Step S w w') :
    Secured rules S pre Q w' ∧ (w'.sys = w.sys ∨ ∃ i, rules.guar i w.sys w'.sys) := by
  obtain ⟨inv, slots⟩ := secured
  cases step with
  -- a new call starts from what its precondition gives
  | @arrive i idle =>
    refine ⟨⟨inv, fun j => ?_⟩, .inl rfl⟩
    dsimp only
    by_cases same : j = i
    · subst j
      have holds := slots i
      rw [idle] at holds
      rw [Function.update_self]
      exact contracts.arrives i w.sys inv holds
    · simpa only [Function.update_of_ne same] using slots j
  -- a served request is safe for its slot, and a rely step for all the others
  | @serve i o k r t running served =>
    have safe := slots i
    rw [running] at safe
    obtain ⟨kept, guar, rest⟩ := safe w.sys .refl inv r t served
    refine ⟨⟨kept, fun j => ?_⟩, .inr ⟨i, guar⟩⟩
    dsimp only
    by_cases same : j = i
    · subst j; rw [Function.update_self]; exact rest
    · have moved : rules.Other j w.sys t :=
        ⟨inv, kept, rules.compat i j (Ne.symm same) _ _ inv kept guar⟩
      simpa only [Function.update_of_ne same] using (slots j).other (contracts.stable j) moved
  -- the answer meets what was owed
  | @answer i a running =>
    refine ⟨⟨inv, fun j => ?_⟩, .inl rfl⟩
    dsimp only
    by_cases same : j = i
    · subst j
      have safe := slots i
      rw [running] at safe
      rw [Function.update_self]
      exact safe
    · simpa only [Function.update_of_ne same] using slots j

/-- A whole run keeps the invariant and every slot's assertion. -/
theorem Secured.run (contracts : Contracts rules S pre Q) {w w' : World ι Op Res α σ}
    (secured : Secured rules S pre Q w) (run : Relation.ReflTransGen (Step S) w w') :
    Secured rules S pre Q w' := by
  induction run with
  | refl => exact secured
  | tail _ step ih => exact (ih.step contracts step).1

omit [DecidableEq ι] in
theorem SlotSafe.weaken {pre pre' : σ → Prop} {Q Q' : α → σ → Prop} {s : σ} {i : ι}
    {p : Proc Op Res α} (safe : SlotSafe rules S pre Q s i p) (idle : p = .idle → pre s → pre' s)
    (weaker : ∀ a t, Q a t → Q' a t) : SlotSafe rules S pre' Q' s i p := by
  cases p with
  | idle => exact idle rfl safe
  | running p => exact Safe.weaken safe weaker
  | done a => exact Safe.weaken safe weaker

/-- A slot that has not arrived yet can be held to more, from what is known by now. -/
theorem Secured.late (contracts : Contracts rules S pre Q) {w w' : World ι Op Res α σ} {i : ι}
    {R : α → σ → Prop} (secured : Secured rules S pre Q w) (F : rules.Assertion i)
    (known : F w.sys) (idle : w.procs i = .idle)
    (arrives : ∀ s, rules.inv s → pre i s → F s → Safe rules S.exec i R (S.prog i) s)
    (run : Relation.ReflTransGen (Step S) w w') {a : α} (done : w'.procs i = .done a) :
    R a w'.sys := by
  -- for slot `i` alone the contract is sharpened by `F`
  have later : Contracts rules S (fun k s => pre k s ∧ ∀ same : k = i, F s)
      fun k a s => k = i → R a s := by
    refine ⟨fun k s t inv kept rely here => ?_, fun k s inv here => ?_⟩
    · refine ⟨contracts.stable k s t inv kept rely here.1, fun same => ?_⟩
      subst same
      exact F.stable s t inv kept rely (here.2 rfl)
    · by_cases same : k = i
      · subst same
        exact (arrives s inv here.1 (here.2 rfl)).weaken fun _ _ h _ => h
      · exact (contracts.arrives k s inv here.1).weaken fun _ _ _ mine => absurd mine same
  -- which holds at the start, since the slot has not arrived yet
  have start : Secured rules S (fun k s => pre k s ∧ ∀ same : k = i, F s)
      (fun k a s => k = i → R a s) w := by
    refine ⟨secured.1, fun k => ?_⟩
    by_cases same : k = i
    · subst same
      have here := secured.2 k
      rw [idle] at here ⊢
      exact ⟨here, fun _ => known⟩
    · exact (secured.2 k).weaken (fun _ here => ⟨here, fun mine => absurd mine same⟩)
        fun _ _ _ mine => absurd mine same
  have slot := (start.run later run).2 i
  rw [done] at slot
  exact slot.post rfl

/-- What every guarantee implies between states that satisfy the invariant relates the
ends of a run, if it is reflexive and transitive. -/
theorem Secured.relates (contracts : Contracts rules S pre Q) (R : σ → σ → Prop)
    (refl : ∀ s, R s s) (trans : ∀ s t u, R s t → R t u → R s u)
    (each : ∀ i s t, rules.inv s → rules.inv t → rules.guar i s t → R s t)
    {w w' : World ι Op Res α σ} (secured : Secured rules S pre Q w)
    (run : Relation.ReflTransGen (Step S) w w') : R w.sys w'.sys := by
  induction run with
  | refl => exact refl _
  | tail before step ih =>
    have there := secured.run contracts before
    obtain ⟨next, moved⟩ := there.step contracts step
    refine trans _ _ _ ih ?_
    rcases moved with same | ⟨i, guar⟩
    · rw [same]; exact refl _
    · exact each i _ _ there.1 next.1 guar

end Parallel

end Atmin.Interaction
