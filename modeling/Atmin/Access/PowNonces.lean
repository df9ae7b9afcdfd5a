import Atmin.Interaction.Machine
import Atmin.Server.Effect

/-!
# The nonces of registration challenges (`pow.rs`)

A nonce is in the store from its issue until it is consumed, or until some later issue finds it
too old. Every reading of the monotonic clock shows at least what the reading before it showed.
-/

namespace Atmin

open Interaction

/-- In nanoseconds. -/
def POW_NONCE_TTL : Nat := 300 * 10 ^ 9

structure PowNonceStore where
  ttl : Nat
  nonces : ObjectMap String Nat

namespace PowNonceStore

def withTtl (ttl : Nat) : PowNonceStore := ⟨ttl, .empty⟩

def new : PowNonceStore := withTtl POW_NONCE_TTL

/-- `elapsed` of an instant, when the clock shows `now`. -/
def elapsed (now instant : Nat) : Nat := now - instant

/-- `issue`: `seen` is what the clock shows when `retain` comes to an entry. -/
def issue (s : PowNonceStore) (nonce : String) (seen : String → Nat) (now : Nat) : PowNonceStore :=
  let kept := s.nonces.retain fun k instant => decide (elapsed (seen k) instant < s.ttl)
  { s with nonces := kept.insert nonce now }

def consume (s : PowNonceStore) (nonce : String) (now : Nat) : Bool × PowNonceStore :=
  match s.nonces.get nonce with
  | some instant =>
    (decide (elapsed now instant < s.ttl), { s with nonces := s.nonces.erase nonce })
  | none => (false, s)

/-- The store, and the last reading of the clock. -/
structure NonceState where
  store : PowNonceStore
  clock : Nat

/-- An operation with its readings of the clock and its result. -/
inductive NonceAct where
  | issue (nonce : String) (seen : String → Nat) (now : Nat)
  | consume (nonce : String) (now : Nat) (accepted : Bool)

namespace NonceAct

def issued : NonceAct → Option String
  | .issue nonce .. => some nonce
  | .consume .. => none

/-- The nonce, if the operation is a `consume` that returned true. -/
def attempt : NonceAct → Option String
  | .consume nonce _ true => some nonce
  | _ => none

end NonceAct

def nonceStep (s : NonceState) : NonceAct → Option NonceState
  | .issue nonce seen now =>
    if s.clock ≤ now ∧ ∀ k ∈ s.store.nonces.keys, s.clock ≤ seen k ∧ seen k ≤ now then
      some ⟨s.store.issue nonce seen now, now⟩
    else none
  | .consume nonce now accepted =>
    if s.clock ≤ now ∧ (s.store.consume nonce now).1 = accepted then
      some ⟨(s.store.consume nonce now).2, now⟩
    else none

/-- Issues and consumes of any nonces, in any order. -/
def nonceMachine : Machine NonceState NonceAct := ⟨nonceStep⟩

/-! ### What an operation does to one nonce -/

section Store

variable {s : PowNonceStore} {nonce k : String} {now : Nat}

@[simp] theorem ttl_issue {seen : String → Nat} : (s.issue nonce seen now).ttl = s.ttl := rfl

@[simp] theorem ttl_consume : (s.consume nonce now).2.ttl = s.ttl := by
  unfold consume
  split
  next => rfl
  next => rfl

@[simp] theorem get_issue_self {seen : String → Nat} :
    (s.issue nonce seen now).nonces.get nonce = some now := by
  simp [issue]

theorem get_issue_other {seen : String → Nat} (apart : k ≠ nonce) :
    (s.issue nonce seen now).nonces.get k =
      (s.nonces.get k).filter fun instant => decide (elapsed (seen k) instant < s.ttl) := by
  simp [issue, apart, ObjectMap.get_retain]

@[simp] theorem get_consume_self : (s.consume nonce now).2.nonces.get nonce = none := by
  unfold consume
  split
  next => simp
  next absent => exact absent

theorem get_consume_other (apart : k ≠ nonce) :
    (s.consume nonce now).2.nonces.get k = s.nonces.get k := by
  unfold consume
  split
  next => simp [apart]
  next => rfl

theorem consume_iff : (s.consume nonce now).1 = true ↔
    ∃ instant, s.nonces.get nonce = some instant ∧ elapsed now instant < s.ttl := by
  unfold consume
  split
  next instant present => simp [present]
  next absent => simp [absent]

end Store

variable {s t : NonceState}

/-- An operation, its readings in order, and the state it leaves. -/
theorem nonceStep_cases {a : NonceAct} (stepped : nonceMachine.step s a = some t) :
    (∃ nonce seen now, a = .issue nonce seen now ∧ s.clock ≤ now ∧
      (∀ k ∈ s.store.nonces.keys, s.clock ≤ seen k ∧ seen k ≤ now) ∧
      t = ⟨s.store.issue nonce seen now, now⟩) ∨
    ∃ nonce now, a = .consume nonce now (s.store.consume nonce now).1 ∧ s.clock ≤ now ∧
      t = ⟨(s.store.consume nonce now).2, now⟩ := by
  cases a with
  | issue nonce seen now =>
    have stepped : nonceStep s (.issue nonce seen now) = some t := stepped
    simp only [nonceStep, Option.ite_none_right_eq_some, Option.some.injEq] at stepped
    obtain ⟨⟨later, between⟩, rfl⟩ := stepped
    exact Or.inl ⟨nonce, seen, now, rfl, later, between, rfl⟩
  | consume nonce now accepted =>
    have stepped : nonceStep s (.consume nonce now accepted) = some t := stepped
    simp only [nonceStep, Option.ite_none_right_eq_some, Option.some.injEq] at stepped
    obtain ⟨⟨later, rfl⟩, rfl⟩ := stepped
    exact Or.inr ⟨nonce, now, rfl, later, rfl⟩

theorem ttl_of_run {start : NonceState} {acts : List NonceAct}
    (ran : nonceMachine.run start acts = some s) : s.store.ttl = start.store.ttl := by
  apply Machine.invariant (m := nonceMachine) (I := fun u => u.store.ttl = start.store.ttl) _ rfl ran
  intro u a v same stepped
  rcases nonceStep_cases stepped with ⟨nonce, seen, now, _, _, _, rfl⟩ | ⟨nonce, now, _, _, rfl⟩
  · exact same
  · exact (ttl_consume).trans same

/-! ### One attempt an issue -/

def issues (acts : List NonceAct) : List String := acts.filterMap NonceAct.issued

def attempts (acts : List NonceAct) : List String := acts.filterMap NonceAct.attempt

section Snoc

variable {acts : List NonceAct} {nonce : String} {seen : String → Nat} {now : Nat}

@[simp] theorem issues_issue :
    issues (acts ++ [.issue nonce seen now]) = issues acts ++ [nonce] := by
  simp [issues, NonceAct.issued]

@[simp] theorem issues_consume {accepted : Bool} :
    issues (acts ++ [.consume nonce now accepted]) = issues acts := by
  simp [issues, NonceAct.issued]

@[simp] theorem attempts_issue : attempts (acts ++ [.issue nonce seen now]) = attempts acts := by
  simp [attempts, NonceAct.attempt]

@[simp] theorem attempts_accepted :
    attempts (acts ++ [.consume nonce now true]) = attempts acts ++ [nonce] := by
  simp [attempts, NonceAct.attempt]

@[simp] theorem attempts_refused :
    attempts (acts ++ [.consume nonce now false]) = attempts acts := by
  simp [attempts, NonceAct.attempt]

end Snoc

/-- An entry was made by an issue that no consume of its nonce, and no other issue, has followed. -/
def Sourced (acts : List NonceAct) (s : NonceState) : Prop :=
  ∀ nonce instant, s.store.nonces.get nonce = some instant →
    instant ≤ s.clock ∧ ∃ before seen after, acts = before ++ .issue nonce seen instant :: after ∧
      nonce ∉ issues after ∧ ∀ now accepted, .consume nonce now accepted ∉ after

/-- Every attempt, and the entry for another, has an issue of its own. -/
def Paid (acts : List NonceAct) (s : NonceState) : Prop :=
  ∀ nonce, (attempts acts).count nonce + (s.store.nonces.get nonce).toList.length ≤
    (issues acts).count nonce

section Start

variable {ttl clock : Nat} {acts : List NonceAct}

/-- The store of `with_ttl` at some reading of the clock. -/
def opened (ttl clock : Nat) : NonceState := ⟨.withTtl ttl, clock⟩

theorem sourced_of_run (ran : nonceMachine.run (opened ttl clock) acts = some s) :
    Sourced acts s := by
  apply Machine.run_induction (P := Sourced) _ _ ran
  · intro nonce instant present
    cases present
  · intro acts u a v _ sourced stepped nonce instant present
    -- An entry that was there before the step has its issue there too.
    have old (there : u.store.nonces.get nonce = some instant) (later : u.clock ≤ v.clock)
        (unissued : a.issued ≠ some nonce) (other : ∀ now accepted, a ≠ .consume nonce now accepted) :
        instant ≤ v.clock ∧ ∃ before seen after,
          acts ++ [a] = before ++ .issue nonce seen instant :: after ∧ nonce ∉ issues after ∧
          ∀ now accepted, .consume nonce now accepted ∉ after := by
      obtain ⟨early, before, seen, after, rfl, alone, unconsumed⟩ := sourced nonce instant there
      refine ⟨early.trans later, before, seen, after ++ [a], by simp, ?_, ?_⟩
      · intro member
        simp only [issues, List.filterMap_append, List.mem_append] at member
        rcases member with earlier | last
        · exact alone earlier
        · simp only [List.mem_filterMap, List.mem_singleton] at last
          obtain ⟨_, rfl, same⟩ := last
          exact unissued same
      · intro now accepted member
        rcases List.mem_append.mp member with earlier | last
        · exact unconsumed now accepted earlier
        · exact other now accepted (List.mem_singleton.mp last).symm
    rcases nonceStep_cases stepped with
      ⟨name, seen, now, rfl, later, _, rfl⟩ | ⟨name, now, rfl, later, rfl⟩
    · by_cases same : nonce = name
      · subst same
        simp only [get_issue_self, Option.some.injEq] at present
        subst present
        exact ⟨Nat.le_refl _, acts, seen, [], rfl, by simp [issues], by simp⟩
      · rw [get_issue_other same, Option.filter_eq_some_iff] at present
        exact old present.1 later (by simpa [NonceAct.issued] using Ne.symm same) (by simp)
    · by_cases same : nonce = name
      · subst same
        rw [get_consume_self] at present
        cases present
      · rw [get_consume_other same] at present
        exact old present later (by simp [NonceAct.issued]) (by simpa using Ne.symm same)

theorem pruned_le (entry : Option Nat) (keep : Nat → Bool) :
    (entry.filter keep).toList.length ≤ entry.toList.length := by
  cases entry with
  | none => exact Nat.le_refl _
  | some instant => cases kept : keep instant <;> simp [Option.filter_some, kept]

theorem paid_of_run (ran : nonceMachine.run (opened ttl clock) acts = some s) : Paid acts s := by
  apply Machine.run_induction (P := Paid) _ _ ran
  · intro nonce
    exact Nat.le_refl _
  · intro acts u a v _ paid stepped nonce
    have before := paid nonce
    rcases nonceStep_cases stepped with ⟨name, seen, now, rfl, _, _, rfl⟩ | ⟨name, now, rfl, _, rfl⟩
    · -- an issue adds one, and pruning only takes away
      rw [attempts_issue, issues_issue, List.count_append]
      by_cases same : nonce = name
      · subst same
        simp only [get_issue_self, Option.toList_some, List.length_cons,
          List.length_nil, List.count_cons_self, List.count_nil]
        omega
      · rw [get_issue_other same]
        have fewer := pruned_le (u.store.nonces.get nonce)
          fun instant => decide (elapsed (seen nonce) instant < u.store.ttl)
        omega
    · -- an accepted attempt uses one up, a refused one none
      rw [issues_consume]
      by_cases same : nonce = name
      · subst same
        rw [get_consume_self]
        cases accepted : (u.store.consume nonce now).1 with
        | false =>
          rw [attempts_refused]
          simp only [Option.toList_none, List.length_nil]
          omega
        | true =>
          obtain ⟨instant, present, _⟩ := consume_iff.mp accepted
          rw [present] at before
          simp only [attempts_accepted, List.count_append, Option.toList_some, Option.toList_none,
            List.length_cons, List.length_nil, List.count_cons_self, List.count_nil] at before ⊢
          omega
      · rw [get_consume_other same]
        have unchanged :
            (attempts (acts ++ [.consume name now (u.store.consume name now).1])).count nonce =
              (attempts acts).count nonce := by
          cases (u.store.consume name now).1 with
          | false => rw [attempts_refused]
          | true => simp [Ne.symm same]
        omega

end Start

/-! ### A nonce waits for its consume -/

/-- The nonce is still there, or its time is over. -/
def Outstanding (nonce : String) (issued : Nat) (s : NonceState) : Prop :=
  issued ≤ s.clock ∧ (issued + s.store.ttl ≤ s.clock ∨
    ∃ instant, s.store.nonces.get nonce = some instant ∧ issued ≤ instant)

/-- Whatever happens to other nonces, and even when the nonce is issued anew. -/
theorem Outstanding.step {nonce : String} {issued : Nat} {a : NonceAct}
    (due : Outstanding nonce issued s) (unconsumed : ∀ now accepted, a ≠ .consume nonce now accepted)
    (stepped : nonceMachine.step s a = some t) : Outstanding nonce issued t := by
  obtain ⟨early, late | ⟨instant, present, since⟩⟩ := due
  · rcases nonceStep_cases stepped with
      ⟨name, seen, now, rfl, later, _, rfl⟩ | ⟨name, now, rfl, later, rfl⟩
    · exact ⟨early.trans later, Or.inl (late.trans later)⟩
    · exact ⟨early.trans later, Or.inl (by rw [ttl_consume]; exact late.trans later)⟩
  · rcases nonceStep_cases stepped with
      ⟨name, seen, now, rfl, later, between, rfl⟩ | ⟨name, now, rfl, later, rfl⟩
    · refine ⟨early.trans later, ?_⟩
      by_cases same : nonce = name
      · subst same
        exact Or.inr ⟨now, get_issue_self, early.trans later⟩
      · have reading := between nonce ((ObjectMap.mem_keys_iff _ _).mpr ⟨instant, present⟩)
        by_cases young : elapsed (seen nonce) instant < s.store.ttl
        · right
          refine ⟨instant, ?_, since⟩
          rw [get_issue_other same, present]
          simp [young]
        · -- Pruned, so the clock has passed the end of its time.
          left
          simp only [ttl_issue, elapsed] at young ⊢
          omega
    · have other : nonce ≠ name := by
        rintro rfl
        exact unconsumed now _ rfl
      exact ⟨early.trans later, Or.inr ⟨instant, by rwa [get_consume_other other], since⟩⟩

theorem outstanding_of_run {nonce : String} {issued : Nat} {acts : List NonceAct}
    (due : Outstanding nonce issued s)
    (unconsumed : ∀ now accepted, NonceAct.consume nonce now accepted ∉ acts)
    (ran : nonceMachine.run s acts = some t) : Outstanding nonce issued t := by
  induction acts generalizing s with
  | nil => cases ran; exact due
  | cons a rest ih =>
    obtain ⟨u, stepped, ran⟩ := Machine.run_cons.mp ran
    apply ih (due.step _ stepped) _ ran
    · rintro now accepted rfl
      exact unconsumed now accepted List.mem_cons_self
    · intro now accepted member
      exact unconsumed now accepted (List.mem_cons_of_mem _ member)

/-- For every order of issues and consumes and every clock: with fresh nonces each is accepted once at
most; what is accepted was issued less than the TTL before and not consumed since; the first
consume within the TTL is accepted, whatever was issued meanwhile; and an issue leaves no nonce
that had reached the TTL when it looked. -/
theorem challenge_buys_one_attempt (ttl clock : Nat) (acts : List NonceAct) (s : NonceState)
    (ran : nonceMachine.run (opened ttl clock) acts = some s) :
    ((issues acts).Nodup → (attempts acts).Nodup) ∧
    (∀ before after nonce now, acts = before ++ .consume nonce now true :: after →
      ∃ first seen issued mid, before = first ++ .issue nonce seen issued :: mid ∧
        nonce ∉ issues mid ∧ (∀ now accepted, .consume nonce now accepted ∉ mid) ∧
        issued ≤ now ∧ now < issued + ttl) ∧
    (∀ before mid after nonce seen issued now accepted,
      acts = before ++ .issue nonce seen issued :: (mid ++ .consume nonce now accepted :: after) →
      (∀ now accepted, .consume nonce now accepted ∉ mid) → now < issued + ttl → accepted = true) ∧
    (0 < ttl → ∀ before after nonce seen now u, acts = before ++ .issue nonce seen now :: after →
      nonceMachine.run (opened ttl clock) (before ++ [.issue nonce seen now]) = some u →
      ∀ k instant, u.store.nonces.get k = some instant →
        elapsed (if k = nonce then now else seen k) instant < ttl) := by
  refine ⟨?_, ?_, ?_, ?_⟩
  · -- every accepted attempt is paid for by an issue of its nonce
    intro fresh
    rw [List.nodup_iff_count_le_one] at fresh ⊢
    intro nonce
    have paid := paid_of_run ran nonce
    have once := fresh nonce
    omega
  · -- what an attempt finds in the store was put there by the last issue
    rintro before after nonce now rfl
    obtain ⟨u, reached, further⟩ := Machine.run_append.mp ran
    obtain ⟨v, stepped, _⟩ := Machine.run_cons.mp further
    rcases nonceStep_cases stepped with ⟨_, _, _, mismatch, _⟩ | ⟨name, later, same, onward, _⟩
    · cases mismatch
    · simp only [NonceAct.consume.injEq] at same
      obtain ⟨rfl, rfl, accepted⟩ := same
      obtain ⟨issued, present, young⟩ := consume_iff.mp accepted.symm
      obtain ⟨early, first, seen, mid, split, alone, unconsumed⟩ :=
        sourced_of_run reached nonce issued present
      rw [ttl_of_run reached] at young
      have young : now - issued < ttl := young
      exact ⟨first, seen, issued, mid, split, alone, unconsumed, by omega, by omega⟩
  · -- a young challenge that nobody consumed is still there, or was issued later
    rintro before mid after nonce seen issued now accepted rfl unconsumed young
    obtain ⟨u, reached, further⟩ := Machine.run_append.mp ran
    obtain ⟨v, placed, further⟩ := Machine.run_cons.mp further
    obtain ⟨w, waited, further⟩ := Machine.run_append.mp further
    obtain ⟨x, stepped, _⟩ := Machine.run_cons.mp further
    have placed_due : Outstanding nonce issued v ∧ v.store.ttl = ttl := by
      rcases nonceStep_cases placed with ⟨name, looked, reading, same, _, _, rfl⟩ | ⟨_, _, mismatch, _⟩
      · simp only [NonceAct.issue.injEq] at same
        obtain ⟨rfl, rfl, rfl⟩ := same
        have there : (u.store.issue nonce seen issued).nonces.get nonce = some issued :=
          get_issue_self
        exact ⟨⟨Nat.le_refl _, Or.inr ⟨issued, there, Nat.le_refl _⟩⟩, ttl_of_run reached⟩
      · cases mismatch
    obtain ⟨_, waits⟩ := outstanding_of_run placed_due.1 unconsumed waited
    rw [ttl_of_run waited, placed_due.2] at waits
    rcases nonceStep_cases stepped with ⟨_, _, _, mismatch, _⟩ | ⟨name, later, same, onward, _⟩
    · cases mismatch
    · simp only [NonceAct.consume.injEq] at same
      obtain ⟨rfl, rfl, rfl⟩ := same
      rcases waits with late | ⟨instant, present, since⟩
      · omega
      · refine consume_iff.mpr ⟨instant, present, ?_⟩
        rw [ttl_of_run waited, placed_due.2, elapsed]
        omega
  · -- an issue prunes the others before it adds its own
    rintro positive before after nonce seen now u rfl reached k instant present
    obtain ⟨v, ran, stepped⟩ := Machine.run_snoc.mp reached
    rcases nonceStep_cases stepped with ⟨name, looked, reading, same, _, _, rfl⟩ | ⟨_, _, mismatch, _⟩
    · simp only [NonceAct.issue.injEq] at same
      obtain ⟨rfl, rfl, rfl⟩ := same
      have total : v.store.ttl = ttl := ttl_of_run ran
      by_cases own : k = nonce
      · subst own
        simp only [get_issue_self, Option.some.injEq] at present
        subst present
        simpa [elapsed] using positive
      · rw [get_issue_other own, Option.filter_eq_some_iff, total] at present
        rw [if_neg own]
        exact of_decide_eq_true present.2
    · cases mismatch

/-- Two challenges, of which the first is answered in time and then again, and the second too late. -/
def twoChallenges : List NonceAct :=
  [.issue "a" (fun _ => 0) 0, .issue "b" (fun _ => 5) 5, .consume "a" 9 true, .consume "a" 10 false,
    .consume "b" 15 false]

theorem twoChallenges_attempts :
    ∃ s, nonceMachine.run (opened 10 0) twoChallenges = some s ∧ attempts twoChallenges = ["a"] ∧
      (attempts twoChallenges).Nodup := by
  have ran : (nonceMachine.run (opened 10 0) twoChallenges).isSome = true := by decide
  obtain ⟨s, reached⟩ := Option.isSome_iff_exists.mp ran
  have fresh : (issues twoChallenges).Nodup := by decide
  exact ⟨s, reached, rfl, (challenge_buys_one_attempt 10 0 twoChallenges s reached).1 fresh⟩

/-! ### The nonces of the handlers -/

variable {ι : Type}

/-- The nonces that the handlers are modelled with are those in the store, of any age. -/
def Holds (store : PowNonceStore) (sys : Sys ι) : Prop :=
  ∀ nonce, nonce ∈ sys.nonces ↔ (store.nonces.get nonce).isSome = true

/-- A consume of the store is one of the requests of `register`: it finds the nonce, or finds it
expired. -/
theorem consume_serves (i : ι) {store : PowNonceStore} {sys : Sys ι} (holds : Holds store sys)
    (nonce : String) (now : Nat) :
    ∃ c sys', Choice.healthy c = true ∧
      exec i (.consumeNonce nonce) c sys = some ((store.consume nonce now).1, sys') ∧
      Holds (store.consume nonce now).2 sys' := by
  have left : Holds (store.consume nonce now).2 { sys with
      nonces := sys.nonces.filter (· ≠ nonce) } := by
    intro k
    by_cases same : k = nonce
    · subst same; simp
    · simp [same, get_consume_other same, holds k]
  cases accepted : (store.consume nonce now).1 with
  | true =>
    obtain ⟨instant, present, _⟩ := consume_iff.mp accepted
    have there : nonce ∈ sys.nonces := (holds nonce).mpr (by simp [present])
    exact ⟨.ok, _, rfl, by simp [exec, there], left⟩
  | false => exact ⟨.expire, _, rfl, rfl, left⟩

end PowNonceStore

end Atmin
