import Atmin.Server.KeyedMutex

/-!
# The invariant of the keyed mutex

The refcount of a slot counts the calls that hold or wait for its key, those calls know the
semaphore of the slot, and every semaphore has one permit, free or with a call.
-/

namespace Atmin.KeyedMutex

open Interaction

/-! ### The refcount -/

def refcountOf (slots : String → Option Slot) (key : String) : Nat :=
  match slots key with
  | some slot => slot.refcount
  | none => 0

def countedAt (key : String) (c : Acquire) : Bool := decide (c.key = key) && c.counted

/-- The refcounts are right, and whoever is counted knows the semaphore of the slot. -/
structure Tallied (slots : String → Option Slot) (calls : List Acquire) : Prop where
  refcount : ∀ key, refcountOf slots key = calls.countP (countedAt key)
  occupied : ∀ key slot, slots key = some slot → 0 < slot.refcount
  shared : ∀ c ∈ calls, c.counted = true → ∃ slot, slots c.key = some slot ∧ slot.sem = c.sem

theorem decrement_other (slots : String → Option Slot) {key other : String} (apart : other ≠ key) :
    decrement slots key other = slots other := by
  unfold decrement
  cases slots key with
  | none => rfl
  | some slot =>
    by_cases last : slot.refcount - 1 = 0
    · simp [last, apart]
    · simp [last, apart]

theorem decrement_absent {slots : String → Option Slot} {key : String} (absent : slots key = none) :
    decrement slots key key = none := by
  simp [decrement, absent]

theorem decrement_present {slots : String → Option Slot} {key : String} {slot : Slot}
    (present : slots key = some slot) :
    decrement slots key key =
      if slot.refcount - 1 = 0 then none else some { slot with refcount := slot.refcount - 1 } := by
  by_cases last : slot.refcount - 1 = 0
  · simp [decrement, present, last]
  · simp [decrement, present, last]

theorem refcountOf_decrement (slots : String → Option Slot) (key other : String) :
    refcountOf (decrement slots key) other =
      refcountOf slots other - if other = key then 1 else 0 := by
  by_cases same : other = key
  · subst same
    cases present : slots other with
    | none => simp [refcountOf, decrement_absent present, present]
    | some slot =>
      by_cases last : slot.refcount - 1 = 0
      · simp [refcountOf, decrement_present present, present, last]
      · simp [refcountOf, decrement_present present, present, last]
  · simp [refcountOf, decrement_other slots same, same]

/-- A slot left by a decrement is the old one with one reference fewer, which is not none. -/
theorem decrement_slot {slots : String → Option Slot} {key other : String} {slot : Slot}
    (left : decrement slots key other = some slot) :
    ∃ old, slots other = some old ∧ slot.sem = old.sem ∧ (0 < old.refcount → 0 < slot.refcount) := by
  by_cases same : other = key
  · subst same
    cases present : slots other with
    | none => rw [decrement_absent present] at left; cases left
    | some old =>
      rw [decrement_present present] at left
      split at left
      next => cases left
      next more =>
        cases left
        exact ⟨old, rfl, rfl, fun _ => Nat.pos_of_ne_zero more⟩
  · rw [decrement_other slots same] at left
    exact ⟨slot, left, rfl, id⟩

/-- With two references at least, the slot survives a decrement. -/
theorem decrement_survives {slots : String → Option Slot} {key : String} {slot : Slot}
    (present : slots key = some slot) (more : 2 ≤ slot.refcount) :
    ∃ left, decrement slots key key = some left ∧ left.sem = slot.sem := by
  rw [decrement_present present, if_neg (by omega)]
  exact ⟨_, rfl, rfl⟩

namespace Tallied

variable {slots : String → Option Slot} {before after : List Acquire} {c : Acquire} {stage : Stage}

theorem new : Tallied (fun _ => none) [] := by
  constructor
  · intro key; rfl
  · intro key slot present; cases present
  · intro c member; cases member

/-- A move that neither begins nor ends a reference. -/
theorem keep (tallied : Tallied slots (before ++ c :: after))
    (same : Acquire.counted { c with stage } = c.counted) :
    Tallied slots (before ++ { c with stage } :: after) := by
  constructor
  · intro key
    rw [tallied.refcount key]
    simp [List.countP_cons, countedAt, same]
  · exact tallied.occupied
  · intro d member counted
    rw [List.mem_append, List.mem_cons] at member
    rcases member with early | rfl | late
    · exact tallied.shared d (by simp [early]) counted
    · exact tallied.shared c (by simp) (same ▸ counted)
    · exact tallied.shared d (by simp [late]) counted

/-- A call whose reference is still counted finds its slot when it decrements. -/
theorem decrement_safe (tallied : Tallied slots (before ++ c :: after)) (counted : c.counted = true) :
    ∃ slot, slots c.key = some slot ∧ 1 ≤ slot.refcount := by
  obtain ⟨slot, present, _⟩ := tallied.shared c (by simp) counted
  exact ⟨slot, present, tallied.occupied c.key slot present⟩

theorem less (tallied : Tallied slots (before ++ c :: after)) (counted : c.counted = true)
    (uncounted : Acquire.counted { c with stage } = false) :
    Tallied (decrement slots c.key) (before ++ { c with stage } :: after) := by
  constructor
  · intro key
    have tally := tallied.refcount key
    simp only [List.countP_append, List.countP_cons, countedAt, counted, Bool.and_true,
      decide_eq_true_eq] at tally
    rw [refcountOf_decrement, tally]
    simp only [List.countP_append, List.countP_cons, countedAt, uncounted, Bool.and_false,
      Bool.false_eq_true, if_false]
    by_cases same : c.key = key
    · rw [if_pos same, if_pos same.symm]; omega
    · rw [if_neg same, if_neg (Ne.symm same)]; omega
  · intro key slot left
    obtain ⟨old, present, _, positive⟩ := decrement_slot left
    exact positive (tallied.occupied key old present)
  · intro d member also
    have other : d ∈ before ++ after := by
      rw [List.mem_append, List.mem_cons] at member
      rcases member with early | rfl | late
      · exact List.mem_append_left _ early
      · rw [uncounted] at also; cases also
      · exact List.mem_append_right _ late
    have there : d ∈ before ++ c :: after := by
      rcases List.mem_append.mp other with early | late
      · simp [early]
      · simp [late]
    obtain ⟨slot, present, sem⟩ := tallied.shared d there also
    by_cases same : d.key = c.key
    · -- `d` is counted beside `c`, so the slot survives.
      have more : 2 ≤ slot.refcount := by
        have tally := tallied.refcount c.key
        have beside : 0 < (before ++ after).countP (countedAt c.key) :=
          List.countP_pos_iff.mpr ⟨d, other, by simp [countedAt, same, also]⟩
        rw [same] at present
        simp only [refcountOf, present, List.countP_append, List.countP_cons, countedAt, counted,
          decide_true, Bool.and_true, if_true] at tally beside
        omega
      rw [same] at present ⊢
      obtain ⟨left, survives, kept⟩ := decrement_survives present more
      exact ⟨left, survives, kept.trans sem⟩
    · rw [decrement_other slots same]
      exact ⟨slot, present, sem⟩

/-- A slot that exists is known to a call that it counts. -/
theorem known {calls : List Acquire} (tallied : Tallied slots calls) {key : String} {slot : Slot}
    (present : slots key = some slot) :
    ∃ d ∈ calls, d.key = key ∧ d.sem = slot.sem ∧ d.counted = true := by
  have positive : 0 < calls.countP (countedAt key) := by
    rw [← tallied.refcount key, refcountOf, present]
    exact tallied.occupied key slot present
  obtain ⟨d, member, here⟩ := List.countP_pos_iff.mp positive
  simp only [countedAt, Bool.and_eq_true, decide_eq_true_eq] at here
  obtain ⟨own, there, sem⟩ := tallied.shared d member here.2
  rw [here.1, present] at there
  cases there
  exact ⟨d, member, here.1, sem.symm, here.2⟩

end Tallied

section Enter

variable {s : State} {id fresh : Nat} {key : String}

theorem entry_refcount : (s.entry key fresh).1.refcount = refcountOf s.slots key := by
  cases present : s.slots key with
  | some slot => simp [State.entry, refcountOf, present]
  | none => simp [State.entry, refcountOf, present]

theorem entry_present {slot : Slot} (present : s.slots key = some slot) :
    s.entry key fresh = (slot, s.permits) := by
  simp [State.entry, present]

theorem entry_absent (absent : s.slots key = none) :
    s.entry key fresh = (⟨fresh, 0⟩, Function.update s.permits fresh (some 1)) := by
  simp [State.entry, absent]

theorem Tallied.enter (tallied : Tallied s.slots s.calls) :
    Tallied (s.enter id key fresh).slots (s.enter id key fresh).calls := by
  simp only [State.enter]
  constructor
  · intro other
    have tally := tallied.refcount other
    by_cases same : key = other
    · subst same
      simp only [refcountOf, Function.update_self, entry_refcount, List.countP_cons, countedAt,
        Acquire.counted, decide_true, Bool.and_true, if_true] at tally ⊢
      omega
    · have apart : other ≠ key := Ne.symm same
      simp only [refcountOf, Function.update_of_ne apart, List.countP_cons, countedAt,
        decide_eq_false same, Bool.false_and, Bool.false_eq_true, if_false] at tally ⊢
      omega
  · intro other slot present
    by_cases same : other = key
    · subst same
      simp only [Function.update_self, Option.some.injEq] at present
      subst present
      exact Nat.succ_pos _
    · rw [Function.update_of_ne same] at present
      exact tallied.occupied other slot present
  · intro d member counted
    rcases List.mem_cons.mp member with rfl | old
    · exact ⟨_, Function.update_self .., rfl⟩
    · obtain ⟨slot, present, sem⟩ := tallied.shared d old counted
      by_cases same : d.key = key
      · rw [same] at present ⊢
        rw [entry_present present]
        exact ⟨_, Function.update_self .., sem⟩
      · rw [Function.update_of_ne same]
        exact ⟨slot, present, sem⟩

end Enter

/-! ### The permit -/

def ownsOf (sem : Nat) (c : Acquire) : Bool := decide (c.sem = sem) && c.owns

/-- Every semaphore has one permit, free or with one call. -/
def OnePermit (permits : Nat → Option Nat) (calls : List Acquire) : Prop :=
  ∀ sem n, permits sem = some n → n + calls.countP (ownsOf sem) = 1

/-- Calls are told apart by id, their semaphores have been made, and each for one key. -/
structure Named (permits : Nat → Option Nat) (calls : List Acquire) : Prop where
  distinct : (calls.map Acquire.id).Nodup
  made : ∀ c ∈ calls, (permits c.sem).isSome = true
  apart : ∀ c ∈ calls, ∀ d ∈ calls, c.sem = d.sem → c.key = d.key

structure Inv (s : State) : Prop where
  tallied : Tallied s.slots s.calls
  permit : OnePermit s.permits s.calls
  named : Named s.permits s.calls

section Permit

variable {permits : Nat → Option Nat} {before after : List Acquire} {c : Acquire} {stage : Stage}

theorem OnePermit.keep (one : OnePermit permits (before ++ c :: after))
    (same : Acquire.owns { c with stage } = c.owns) :
    OnePermit permits (before ++ { c with stage } :: after) := by
  intro sem n free
  have tally := one sem n free
  simpa [List.countP_cons, ownsOf, same] using tally

theorem OnePermit.take (one : OnePermit permits (before ++ c :: after)) {n : Nat}
    (free : permits c.sem = some (n + 1)) (without : c.owns = false)
    (owning : Acquire.owns { c with stage } = true) :
    OnePermit (Function.update permits c.sem (some n)) (before ++ { c with stage } :: after) := by
  intro sem m left
  by_cases same : c.sem = sem
  · subst same
    have tally := one c.sem (n + 1) free
    simp only [Function.update_self, Option.some.injEq] at left
    subst left
    simp only [List.countP_append, List.countP_cons, ownsOf, without, owning, decide_true,
      Bool.and_true, Bool.and_false, Bool.false_eq_true, if_true, if_false] at tally ⊢
    omega
  · rw [Function.update_of_ne (Ne.symm same)] at left
    have tally := one sem m left
    simpa [List.countP_cons, ownsOf, same] using tally

theorem OnePermit.give (one : OnePermit permits (before ++ c :: after)) (owning : c.owns = true)
    (without : Acquire.owns { c with stage } = false) :
    OnePermit (Function.update permits c.sem ((permits c.sem).map (· + 1)))
      (before ++ { c with stage } :: after) := by
  intro sem m left
  by_cases same : c.sem = sem
  · subst same
    simp only [Function.update_self, Option.map_eq_some_iff] at left
    obtain ⟨n, held, rfl⟩ := left
    have tally := one c.sem n held
    simp only [List.countP_append, List.countP_cons, ownsOf, without, owning, decide_true,
      Bool.and_true, Bool.and_false, Bool.false_eq_true, if_true, if_false] at tally ⊢
    omega
  · rw [Function.update_of_ne (Ne.symm same)] at left
    have tally := one sem m left
    simpa [List.countP_cons, ownsOf, same] using tally

/-- Coming to another stage changes no name, whatever happens to the permits. -/
theorem Named.moved {permits' : Nat → Option Nat} (named : Named permits (before ++ c :: after))
    (kept : ∀ sem, (permits sem).isSome = true → (permits' sem).isSome = true) :
    Named permits' (before ++ { c with stage } :: after) := by
  have old {d : Acquire} (member : d ∈ before ++ { c with stage } :: after) :
      ∃ e ∈ before ++ c :: after, e.key = d.key ∧ e.sem = d.sem := by
    rw [List.mem_append, List.mem_cons] at member
    rcases member with early | rfl | late
    · exact ⟨d, by simp [early], rfl, rfl⟩
    · exact ⟨c, by simp, rfl, rfl⟩
    · exact ⟨d, by simp [late], rfl, rfl⟩
  constructor
  · simpa using named.distinct
  · intro d member
    obtain ⟨e, there, _, sem⟩ := old member
    exact kept d.sem (sem ▸ named.made e there)
  · intro d member d' member' same
    obtain ⟨e, there, key, sem⟩ := old member
    obtain ⟨e', there', key', sem'⟩ := old member'
    rw [← key, ← key']
    exact named.apart e there e' there' (by rw [sem, sem', same])

end Permit

theorem isSome_update {permits : Nat → Option Nat} {sem other : Nat} {n : Option Nat}
    (given : (permits sem).isSome = true → n.isSome = true) (made : (permits other).isSome = true) :
    (Function.update permits sem n other).isSome = true := by
  by_cases same : other = sem
  · subst same; rw [Function.update_self]; exact given made
  · rw [Function.update_of_ne same]; exact made

theorem not_owned_by_new {calls : List Acquire} {id sem sem' : Nat} {key : String} :
    (⟨id, key, sem', .waiting⟩ :: calls : List Acquire).countP (ownsOf sem) =
      calls.countP (ownsOf sem) := by
  simp [ownsOf, Acquire.owns]

theorem Named.begin {permits : Nat → Option Nat} {calls : List Acquire} {id sem : Nat}
    {key : String} (named : Named permits calls) (unused : id ∉ calls.map Acquire.id)
    (made : (permits sem).isSome = true) (own : ∀ c ∈ calls, c.sem = sem → c.key = key) :
    Named permits (⟨id, key, sem, .waiting⟩ :: calls) := by
  constructor
  · exact List.nodup_cons.mpr ⟨unused, named.distinct⟩
  · intro c member
    rcases List.mem_cons.mp member with rfl | old
    · exact made
    · exact named.made c old
  · intro c member d member' same
    rcases List.mem_cons.mp member with rfl | old <;> rcases List.mem_cons.mp member' with rfl | old'
    · rfl
    · exact (own d old' same.symm).symm
    · exact own c old same
    · exact named.apart c old d old' same

namespace Inv

variable {s t : State}

theorem new : Inv new := by
  constructor
  · exact Tallied.new
  · intro sem n free; cases free
  · constructor
    · exact List.nodup_nil
    · intro c member; cases member
    · intro c member; cases member

theorem enter {id fresh : Nat} {key : String} (inv : Inv s) (unused : id ∉ s.calls.map Acquire.id)
    (unmade : s.permits fresh = none) : Inv (s.enter id key fresh) := by
  have tallied : Tallied (s.enter id key fresh).slots (s.enter id key fresh).calls :=
    inv.tallied.enter
  refine ⟨tallied, ?_, ?_⟩
  · intro sem n free
    simp only [State.enter] at free ⊢
    rw [not_owned_by_new]
    cases present : s.slots key with
    | some slot =>
      rw [entry_present present] at free
      exact inv.permit sem n free
    | none =>
      rw [entry_absent present] at free
      dsimp only at free
      by_cases same : sem = fresh
      · subst same
        -- Nobody knows the new semaphore yet.
        have nobody : s.calls.countP (ownsOf sem) = 0 := by
          rw [List.countP_eq_zero]
          intro c member owned
          simp only [ownsOf, Bool.and_eq_true, decide_eq_true_eq] at owned
          have made := inv.named.made c member
          rw [owned.1, unmade] at made
          cases made
        simp only [Function.update_self, Option.some.injEq] at free
        omega
      · rw [Function.update_of_ne same] at free
        exact inv.permit sem n free
  · simp only [State.enter]
    cases present : s.slots key with
    | some slot =>
      rw [entry_present present]
      obtain ⟨d, member, own, sem, _⟩ := inv.tallied.known present
      apply inv.named.begin unused
      · exact sem ▸ inv.named.made d member
      · intro c there same
        rw [← own]
        exact inv.named.apart c there d member (same.trans sem.symm)
    | none =>
      rw [entry_absent present]
      have grown : Named (Function.update s.permits fresh (some 1)) s.calls :=
        ⟨inv.named.distinct,
          fun c member => isSome_update (fun _ => rfl) (inv.named.made c member), inv.named.apart⟩
      apply grown.begin unused
      · simp
      · intro c there same
        have made := inv.named.made c there
        rw [same, unmade] at made
        cases made

theorem step {a : Act} (inv : Inv s) (stepped : step s a = some t) : Inv t := by
  obtain ⟨tallied, permit, named⟩ := inv
  cases step_moves named.distinct stepped with
  | enter unused unmade => exact enter ⟨tallied, permit, named⟩ unused unmade
  | grant split stage free =>
    rw [split] at tallied permit named
    constructor
    · exact tallied.keep (by simp [Acquire.counted, stage])
    · exact permit.take free (by simp [Acquire.owns, stage]) rfl
    · exact named.moved fun _ => isSome_update fun _ => rfl
  | expire split stage =>
    rw [split] at tallied permit named
    constructor
    · exact tallied.keep (by simp [Acquire.counted, stage])
    · exact permit.keep (by simp [Acquire.owns, stage])
    · exact named.moved fun _ => id
  | giveUp split stage =>
    rw [split] at tallied permit named
    constructor
    · exact tallied.less (by simp [Acquire.counted, stage]) rfl
    · exact permit.keep (by simp [Acquire.owns, stage])
    · exact named.moved fun _ => id
  | drop split stage =>
    rw [split] at tallied permit named
    constructor
    · exact tallied.less (by simp [Acquire.counted, stage]) rfl
    · exact permit.keep (by simp [Acquire.owns, stage])
    · exact named.moved fun _ => id
  | release split stage =>
    rw [split] at tallied permit named
    constructor
    · exact tallied.keep (by simp [Acquire.counted, stage])
    · exact permit.give (by simp [Acquire.owns, stage]) rfl
    · exact named.moved fun _ => isSome_update (by simp)

end Inv

/-- Every state that any calls on any keys lead to. -/
theorem inv_of_run {acts : List Act} {s : State} (ran : machine.run new acts = some s) : Inv s :=
  Machine.invariant (m := machine) (fun _ _ _ inv stepped => inv.step stepped) Inv.new ran

end Atmin.KeyedMutex
