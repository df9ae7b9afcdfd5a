import Mathlib.Data.List.Basic

/-!
# Regular expressions

ECMAScript's backtracking matcher over any alphabet, for patterns without flags: both ends,
character classes, sequences and greedy counted repetition. A match from a position is a
relation between positions, which the matcher decides for every continuation.
-/

namespace Atmin

/-- `times a least more` is `a{least,least+more}`. -/
inductive Regex (α : Type) where
  | start
  | finish
  | cls (p : α → Bool)
  | seq (a b : Regex α)
  | times (a : Regex α) (least more : Nat)

namespace Regex

/-- How many letters are behind, and the letters ahead. -/
structure Spot (α : Type) where
  behind : Nat
  ahead : List α

variable {α : Type}

abbrev Matcher (α : Type) := (Spot α → Bool) → Spot α → Bool

/-- `RepeatMatcher`. Once the least number is reached, an iteration has to take a letter. -/
def repeatMatcher (m : Matcher α) : Nat → Nat → Matcher α
  | 0, _, k, s => k s
  | most + 1, least, k, s =>
    let d := fun t : Spot α =>
      if least = 0 ∧ t.behind = s.behind then false else repeatMatcher m most (least - 1) k t
    if least ≠ 0 then m d s else m d s || k s

def run : Regex α → Matcher α
  | .start, k, s => decide (s.behind = 0) && k s
  | .finish, k, s => s.ahead.isEmpty && k s
  | .cls p, k, s =>
    match s.ahead with
    | c :: rest => p c && k ⟨s.behind + 1, rest⟩
    | [] => false
  | .seq a b, k, s => run a (run b k) s
  | .times a least more, k, s => repeatMatcher (run a) (least + more) least k s

/-- `RegExp.prototype.test`: a match from any position. -/
def test (r : Regex α) (cs : List α) : Bool :=
  (List.range (cs.length + 1)).any fun i => run r (fun _ => true) ⟨i, cs.drop i⟩

/-! ### What a pattern matches -/

/-- `n` steps of a relation. -/
def Times {σ : Type} (step : σ → σ → Prop) : Nat → σ → σ → Prop
  | 0, s, t => t = s
  | n + 1, s, t => ∃ u, step s u ∧ Times step n u t

/-- The positions a match from `s` can end at. -/
def Matches : Regex α → Spot α → Spot α → Prop
  | .start, s, t => t = s ∧ s.behind = 0
  | .finish, s, t => t = s ∧ s.ahead = []
  | .cls p, s, t => ∃ c, p c = true ∧ s.ahead = c :: t.ahead ∧ t.behind = s.behind + 1
  | .seq a b, s, t => ∃ u, Matches a s u ∧ Matches b u t
  | .times a least more, s, t => ∃ n, least ≤ n ∧ n ≤ least + more ∧ Times (Matches a) n s t

/-- A match takes the letters between its two positions. -/
def Takes (s t : Spot α) (w : List α) : Prop :=
  s.ahead = w ++ t.ahead ∧ t.behind = s.behind + w.length

theorem Takes.refl (s : Spot α) : Takes s s [] := ⟨rfl, rfl⟩

theorem Takes.trans {s t u : Spot α} {v w : List α} (first : Takes s t v) (last : Takes t u w) :
    Takes s u (v ++ w) := by
  constructor
  · rw [first.1, last.1, List.append_assoc]
  · rw [last.2, first.2, List.length_append, Nat.add_assoc]

theorem Takes.still {s t : Spot α} {w : List α} (takes : Takes s t w) (same : t.behind = s.behind) :
    t = s := by
  obtain ⟨ahead, behind⟩ := takes
  have empty : w = [] := List.length_eq_zero_iff.mp (by omega)
  rw [empty, List.nil_append] at ahead
  cases s
  cases t
  simp_all

theorem times_takes {step : Spot α → Spot α → Prop} (takes : ∀ s t, step s t → ∃ w, Takes s t w)
    {n : Nat} {s t : Spot α} (steps : Times step n s t) : ∃ w, Takes s t w := by
  induction n generalizing s with
  | zero =>
    rw [show t = s from steps]
    exact ⟨[], .refl s⟩
  | succ n ih =>
    obtain ⟨u, first, rest⟩ := steps
    obtain ⟨v, before⟩ := takes s u first
    obtain ⟨w, after⟩ := ih rest
    exact ⟨v ++ w, before.trans after⟩

theorem matches_takes (r : Regex α) {s t : Spot α} (hit : r.Matches s t) : ∃ w, Takes s t w := by
  induction r generalizing s t with
  | start =>
    rw [hit.1]
    exact ⟨[], .refl s⟩
  | finish =>
    rw [hit.1]
    exact ⟨[], .refl s⟩
  | cls p =>
    obtain ⟨c, _, ahead, behind⟩ := hit
    exact ⟨[c], ahead, behind⟩
  | seq a b first last =>
    obtain ⟨u, before, after⟩ := hit
    obtain ⟨v, before⟩ := first before
    obtain ⟨w, after⟩ := last after
    exact ⟨v ++ w, before.trans after⟩
  | times a least more ih =>
    obtain ⟨n, _, _, steps⟩ := hit
    exact times_takes (fun s t => ih) steps

/-- A matcher that tries exactly the positions a relation allows. -/
def Decides (m : Matcher α) (step : Spot α → Spot α → Prop) : Prop :=
  ∀ k s, m k s = true ↔ ∃ t, step s t ∧ k t = true

/-- Repetition tries every allowed number of iterations. That an empty iteration is refused
loses nothing: it ends where it began. -/
theorem repeatMatcher_iff {m : Matcher α} {step : Spot α → Spot α → Prop} (decides : Decides m step)
    (takes : ∀ s t, step s t → ∃ w, Takes s t w) {most least : Nat} (bound : least ≤ most)
    (k : Spot α → Bool) (s : Spot α) :
    repeatMatcher m most least k s = true ↔
      ∃ n, least ≤ n ∧ n ≤ most ∧ ∃ t, Times step n s t ∧ k t = true := by
  induction most generalizing least s with
  | zero =>
    obtain rfl : least = 0 := Nat.le_zero.mp bound
    rw [repeatMatcher]
    constructor
    · exact fun hit => ⟨0, Nat.le_refl _, Nat.le_refl _, s, rfl, hit⟩
    · rintro ⟨n, _, zero, t, steps, hit⟩
      obtain rfl : n = 0 := Nat.le_zero.mp zero
      rw [← show t = s from steps]
      exact hit
  | succ most ih =>
    -- once the minimum is reached, a round that takes nothing is not repeated
    by_cases zero : least = 0
    · subst zero
      simp only [repeatMatcher, ne_eq, not_true_eq_false, if_false, Bool.or_eq_true, true_and,
        decides _ s, Nat.zero_sub]
      constructor
      · rintro (⟨u, first, hit⟩ | hit)
        · split at hit
          next => cases hit
          next =>
            obtain ⟨n, _, less, t, steps, hit⟩ := (ih (Nat.zero_le _) u).mp hit
            exact ⟨n + 1, Nat.zero_le _, by omega, t, ⟨u, first, steps⟩, hit⟩
        · exact ⟨0, Nat.le_refl _, Nat.zero_le _, s, rfl, hit⟩
      · rintro ⟨n, _, less, t, steps, hit⟩
        induction n with
        | zero =>
          rw [← show t = s from steps]
          exact .inr hit
        | succ n drop =>
          obtain ⟨u, first, rest⟩ := steps
          -- an empty round may be left out: the rounds after it start at the same place
          by_cases same : u.behind = s.behind
          · obtain ⟨w, taken⟩ := takes s u first
            rw [taken.still same] at rest
            exact drop (Nat.zero_le _) (by omega) rest
          · refine .inl ⟨u, first, ?_⟩
            rw [if_neg same]
            exact (ih (Nat.zero_le _) u).mpr ⟨n, Nat.zero_le _, by omega, t, rest, hit⟩
    · -- below the minimum every round counts
      simp only [repeatMatcher, ne_eq, zero, not_false_eq_true, if_true, false_and, if_false,
        decides _ s]
      constructor
      · rintro ⟨u, first, hit⟩
        obtain ⟨n, more, less, t, steps, hit⟩ := (ih (by omega) u).mp hit
        exact ⟨n + 1, by omega, by omega, t, ⟨u, first, steps⟩, hit⟩
      · rintro ⟨n, more, less, t, steps, hit⟩
        obtain ⟨n, rfl⟩ : ∃ n', n = n' + 1 := ⟨n - 1, by omega⟩
        obtain ⟨u, first, rest⟩ := steps
        exact ⟨u, first, (ih (by omega) u).mpr ⟨n, by omega, by omega, t, rest, hit⟩⟩

/-- The matcher decides what the pattern matches. -/
theorem run_decides (r : Regex α) : Decides r.run r.Matches := by
  induction r with
  | start =>
    intro k s
    simp only [run, Bool.and_eq_true, decide_eq_true_eq, Matches]
    constructor
    · exact fun hit => ⟨s, ⟨rfl, hit.1⟩, hit.2⟩
    · rintro ⟨t, ⟨rfl, first⟩, hit⟩
      exact ⟨first, hit⟩
  | finish =>
    intro k s
    simp only [run, Bool.and_eq_true, List.isEmpty_iff, Matches]
    constructor
    · exact fun hit => ⟨s, ⟨rfl, hit.1⟩, hit.2⟩
    · rintro ⟨t, ⟨rfl, last⟩, hit⟩
      exact ⟨last, hit⟩
  | cls p =>
    rintro k ⟨behind, ahead⟩
    cases ahead with
    | nil => simp [run, Matches]
    | cons c rest =>
      simp only [run, Bool.and_eq_true, Matches, List.cons.injEq]
      constructor
      · exact fun hit => ⟨⟨behind + 1, rest⟩, ⟨c, hit.1, ⟨rfl, rfl⟩, rfl⟩, hit.2⟩
      · rintro ⟨⟨_, _⟩, ⟨_, accepted, ⟨rfl, rfl⟩, rfl⟩, hit⟩
        exact ⟨accepted, hit⟩
  | seq a b first last =>
    intro k s
    simp only [run, Matches, first (run b k) s, last k]
    constructor
    · rintro ⟨u, before, t, after, hit⟩
      exact ⟨t, ⟨u, before, after⟩, hit⟩
    · rintro ⟨t, ⟨u, before, after⟩, hit⟩
      exact ⟨u, before, t, after, hit⟩
  | times a least more ih =>
    intro k s
    rw [run, repeatMatcher_iff ih (fun s t => matches_takes a) (Nat.le_add_right _ _)]
    simp only [Matches]
    constructor
    · rintro ⟨n, low, high, t, steps, hit⟩
      exact ⟨t, ⟨n, low, high, steps⟩, hit⟩
    · rintro ⟨t, ⟨n, low, high, steps⟩, hit⟩
      exact ⟨n, low, high, t, steps, hit⟩

/-! ### Anchored patterns -/

/-- A pattern between both ends matches all of the letters, or nothing. -/
theorem test_anchored (r : Regex α) (cs : List α) :
    test (.seq .start (.seq r .finish)) cs = true ↔ r.Matches ⟨0, cs⟩ ⟨cs.length, []⟩ := by
  simp only [test, List.any_eq_true, List.mem_range]
  constructor
  · rintro ⟨i, _, hit⟩
    obtain ⟨t, ⟨u, ⟨same, zero⟩, v, hit, still, last⟩, _⟩ := (run_decides _ _ _).mp hit
    subst same still
    obtain rfl : i = 0 := zero
    obtain ⟨w, ahead, behind⟩ := matches_takes r hit
    rw [last, List.append_nil, List.drop_zero] at ahead
    cases t
    subst ahead
    simp only at last behind
    rw [last, behind, Nat.zero_add] at hit
    exact hit
  · intro hit
    exact ⟨0, Nat.succ_pos _, (run_decides _ _ _).mpr ⟨_, ⟨_, ⟨rfl, rfl⟩, _, hit, rfl, rfl⟩, rfl⟩⟩

theorem matches_cls {p : α → Bool} {s t : Spot α} :
    Matches (.cls p) s t ↔ ∃ c, p c = true ∧ Takes s t [c] := by
  rfl

/-- A repeated class takes letters of the class. -/
theorem times_cls {p : α → Bool} {n : Nat} {s t : Spot α} :
    Times (Matches (.cls p)) n s t ↔ ∃ w, w.length = n ∧ (∀ c ∈ w, p c = true) ∧ Takes s t w := by
  induction n generalizing s with
  | zero =>
    constructor
    · intro same
      rw [show t = s from same]
      exact ⟨[], rfl, by simp, .refl s⟩
    · rintro ⟨w, empty, _, taken⟩
      rw [List.length_eq_zero_iff.mp empty] at taken
      exact taken.still taken.2
  | succ n ih =>
    simp only [Times, matches_cls, ih]
    constructor
    · rintro ⟨u, ⟨c, accepted, first⟩, w, size, all, rest⟩
      refine ⟨c :: w, by rw [List.length_cons, size], ?_, first.trans rest⟩
      intro d member
      rcases List.mem_cons.mp member with rfl | member
      · exact accepted
      · exact all d member
    · rintro ⟨w, size, all, taken⟩
      obtain ⟨c, w, rfl⟩ := List.exists_cons_of_length_eq_add_one size
      obtain ⟨ahead, behind⟩ := taken
      refine ⟨⟨s.behind + 1, w ++ t.ahead⟩, ⟨c, all c List.mem_cons_self, ?_, rfl⟩, w, ?_, ?_, rfl, ?_⟩
      · rw [ahead]
        rfl
      · exact Nat.succ.inj size
      · exact fun d member => all d (List.mem_cons_of_mem _ member)
      · simp only [behind, List.length_cons]
        omega

end Regex

end Atmin
