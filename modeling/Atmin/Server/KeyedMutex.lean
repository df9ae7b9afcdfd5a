import Atmin.Interaction.Machine
import Mathlib.Data.List.Nodup
import Mathlib.Logic.Function.Basic

/-!
# The keyed mutex (`keyed_mutex.rs`)

A map from keys to semaphores with one permit. The map is changed only under its own lock,
which no call holds while it waits, so each block under that lock is one action here and any
other action may come between two of them. Semaphores are named by where they are allocated.
-/

namespace Atmin.KeyedMutex

open Interaction

structure Slot where
  sem : Nat
  refcount : Nat
  deriving DecidableEq, Repr

/-- How far a call of `acquire`, and the guard it returns, have come. -/
inductive Stage where
  /-- The refcount is bumped and the semaphore awaited. -/
  | waiting
  /-- The wait has timed out; `decrement` is still to come. -/
  | timedOut
  /-- The guard is live. -/
  | held
  /-- `drop` has run `decrement`; the permit field is still to be dropped. -/
  | dropped
  | over
  deriving DecidableEq, Repr

/-- One call of `acquire`, together with the guard it returns. -/
structure Acquire where
  id : Nat
  key : String
  sem : Nat
  stage : Stage
  deriving DecidableEq, Repr

structure State where
  slots : String → Option Slot := fun _ => none
  /-- The free permits of every semaphore made so far. -/
  permits : Nat → Option Nat := fun _ => none
  calls : List Acquire := []

/-- `Inner::decrement`. -/
def decrement (slots : String → Option Slot) (key : String) : String → Option Slot :=
  match slots key with
  | none => slots
  | some slot =>
    if slot.refcount - 1 = 0 then Function.update slots key none
    else Function.update slots key (some { slot with refcount := slot.refcount - 1 })

/-- `slots.entry(key).or_insert_with(..)`, and the semaphores there are afterwards. -/
def State.entry (s : State) (key : String) (fresh : Nat) : Slot × (Nat → Option Nat) :=
  match s.slots key with
  | some slot => (slot, s.permits)
  | none => (⟨fresh, 0⟩, Function.update s.permits fresh (some 1))

/-- The block of `acquire` under the map lock. -/
def State.enter (s : State) (id : Nat) (key : String) (fresh : Nat) : State :=
  let (slot, permits) := s.entry key fresh
  { slots := Function.update s.slots key (some { slot with refcount := slot.refcount + 1 })
    permits
    calls := ⟨id, key, slot.sem, .waiting⟩ :: s.calls }

def setStage (calls : List Acquire) (id : Nat) (stage : Stage) : List Acquire :=
  calls.map fun c => if c.id = id then { c with stage } else c

inductive Move where
  /-- A call of `acquire` begins; `fresh` is where a new semaphore would be allocated. -/
  | enter (fresh : Nat)
  /-- The semaphore grants its permit: `acquire` returns the guard. -/
  | grant
  | expire
  /-- The timed-out call runs `decrement` and returns `Contention`. -/
  | giveUp
  /-- `drop` of the guard runs `decrement`. -/
  | drop
  /-- The permit field of the dropped guard is dropped. -/
  | release
  deriving DecidableEq, Repr

/-- A move of the call `id` on `key`. -/
structure Act where
  key : String
  id : Nat
  move : Move
  deriving DecidableEq, Repr

/-- The call that moves, if it has come to `stage`. -/
def State.call (s : State) (key : String) (id : Nat) (stage : Stage) : Option Acquire :=
  s.calls.find? fun c => decide (c.key = key ∧ c.id = id ∧ c.stage = stage)

def step (s : State) : Act → Option State
  | ⟨key, id, .enter fresh⟩ =>
    if id ∈ s.calls.map Acquire.id ∨ (s.permits fresh).isSome = true then none
    else some (s.enter id key fresh)
  -- a permit of the semaphore it entered by, which the slot may no longer hold
  | ⟨key, id, .grant⟩ => match s.call key id .waiting with
    | none => none
    | some c => match s.permits c.sem with
      | some (n + 1) => some { s with
          permits := Function.update s.permits c.sem (some n)
          calls := setStage s.calls id .held }
      | _ => none
  | ⟨key, id, .expire⟩ => match s.call key id .waiting with
    | none => none
    | some _ => some { s with calls := setStage s.calls id .timedOut }
  -- after a timeout the reference is given back without a permit
  | ⟨key, id, .giveUp⟩ => match s.call key id .timedOut with
    | none => none
    | some _ => some { s with
        slots := decrement s.slots key
        calls := setStage s.calls id .over }
  -- the guard first gives back its reference, then the permit
  | ⟨key, id, .drop⟩ => match s.call key id .held with
    | none => none
    | some _ => some { s with
        slots := decrement s.slots key
        calls := setStage s.calls id .dropped }
  | ⟨key, id, .release⟩ => match s.call key id .dropped with
    | none => none
    | some c => some { s with
        permits := Function.update s.permits c.sem ((s.permits c.sem).map (· + 1))
        calls := setStage s.calls id .over }

/-- Any number of calls, on any keys, in any order. -/
def machine : Machine State Act := ⟨step⟩

/-- `KeyedMutex::new`. -/
def new : State := {}

/-- Holder or waiter: what the refcount counts. -/
def Acquire.counted (c : Acquire) : Bool :=
  match c.stage with
  | .waiting | .timedOut | .held => true
  | .dropped | .over => false

/-- The call has a permit of its semaphore. -/
def Acquire.owns (c : Acquire) : Bool :=
  match c.stage with
  | .held | .dropped => true
  | .waiting | .timedOut | .over => false

/-! ### What an action does -/

inductive Moves (s : State) : Act → State → Prop where
  | enter {id fresh : Nat} {key : String} :
      id ∉ s.calls.map Acquire.id → s.permits fresh = none →
      Moves s ⟨key, id, .enter fresh⟩ (s.enter id key fresh)
  | grant {before after : List Acquire} {c : Acquire} {n : Nat} :
      s.calls = before ++ c :: after → c.stage = .waiting → s.permits c.sem = some (n + 1) →
      Moves s ⟨c.key, c.id, .grant⟩ { s with
        permits := Function.update s.permits c.sem (some n)
        calls := before ++ { c with stage := .held } :: after }
  | expire {before after : List Acquire} {c : Acquire} :
      s.calls = before ++ c :: after → c.stage = .waiting →
      Moves s ⟨c.key, c.id, .expire⟩ { s with
        calls := before ++ { c with stage := .timedOut } :: after }
  | giveUp {before after : List Acquire} {c : Acquire} :
      s.calls = before ++ c :: after → c.stage = .timedOut →
      Moves s ⟨c.key, c.id, .giveUp⟩ { s with
        slots := decrement s.slots c.key
        calls := before ++ { c with stage := .over } :: after }
  | drop {before after : List Acquire} {c : Acquire} :
      s.calls = before ++ c :: after → c.stage = .held →
      Moves s ⟨c.key, c.id, .drop⟩ { s with
        slots := decrement s.slots c.key
        calls := before ++ { c with stage := .dropped } :: after }
  | release {before after : List Acquire} {c : Acquire} :
      s.calls = before ++ c :: after → c.stage = .dropped →
      Moves s ⟨c.key, c.id, .release⟩ { s with
        permits := Function.update s.permits c.sem ((s.permits c.sem).map (· + 1))
        calls := before ++ { c with stage := .over } :: after }

theorem setStage_absent {calls : List Acquire} {id : Nat} (stage : Stage)
    (absent : id ∉ calls.map Acquire.id) : setStage calls id stage = calls := by
  induction calls with
  | nil => rfl
  | cons c rest ih =>
    simp only [List.map_cons, List.mem_cons, not_or] at absent
    simp only [setStage, List.map_cons, if_neg (Ne.symm absent.1)]
    exact congrArg (c :: ·) (ih absent.2)

theorem setStage_split {before after : List Acquire} {c : Acquire} (stage : Stage)
    (distinct : ((before ++ c :: after).map Acquire.id).Nodup) :
    setStage (before ++ c :: after) c.id stage = before ++ { c with stage } :: after := by
  rw [List.map_append, List.map_cons, List.nodup_append] at distinct
  obtain ⟨_, tail, apart⟩ := distinct
  have early : c.id ∉ before.map Acquire.id := by
    intro member
    exact apart c.id member c.id (by simp) rfl
  have late := (List.nodup_cons.mp tail).1
  have head := setStage_absent stage early
  have last := setStage_absent stage late
  unfold setStage at head last ⊢
  rw [List.map_append, List.map_cons, head, last, if_pos rfl]

theorem call_split {s : State} {key : String} {id : Nat} {stage : Stage} {c : Acquire}
    (distinct : (s.calls.map Acquire.id).Nodup) (found : s.call key id stage = some c) :
    c.key = key ∧ c.id = id ∧ c.stage = stage ∧ ∃ before after, s.calls = before ++ c :: after ∧
      ∀ next, setStage s.calls c.id next = before ++ { c with stage := next } :: after := by
  have hit := List.find?_some found
  simp only [decide_eq_true_eq] at hit
  obtain ⟨before, after, split⟩ := List.append_of_mem (List.mem_of_find?_eq_some found)
  rw [split] at distinct ⊢
  exact ⟨hit.1, hit.2.1, hit.2.2, before, after, rfl, fun next => setStage_split next distinct⟩

theorem step_moves {s t : State} {a : Act} (distinct : (s.calls.map Acquire.id).Nodup)
    (stepped : step s a = some t) : Moves s a t := by
  obtain ⟨key, id, move⟩ := a
  cases move with
  | enter fresh =>
    simp only [step] at stepped
    split at stepped
    next => cases stepped
    next clear =>
      cases stepped
      simp only [not_or, Option.not_isSome_iff_eq_none] at clear
      exact .enter clear.1 clear.2
  -- every other move is one of a call at its stage, which splits the calls around it
  | grant =>
    simp only [step] at stepped
    split at stepped
    next => cases stepped
    next c found =>
      obtain ⟨rfl, rfl, stage, before, after, split, moved⟩ := call_split distinct found
      split at stepped
      next n free =>
        cases stepped
        rw [moved]
        exact .grant split stage free
      next => cases stepped
  | expire =>
    simp only [step] at stepped
    split at stepped
    next => cases stepped
    next c found =>
      obtain ⟨rfl, rfl, stage, before, after, split, moved⟩ := call_split distinct found
      cases stepped
      rw [moved]
      exact .expire split stage
  | giveUp =>
    simp only [step] at stepped
    split at stepped
    next => cases stepped
    next c found =>
      obtain ⟨rfl, rfl, stage, before, after, split, moved⟩ := call_split distinct found
      cases stepped
      rw [moved]
      exact .giveUp split stage
  | drop =>
    simp only [step] at stepped
    split at stepped
    next => cases stepped
    next c found =>
      obtain ⟨rfl, rfl, stage, before, after, split, moved⟩ := call_split distinct found
      cases stepped
      rw [moved]
      exact .drop split stage
  | release =>
    simp only [step] at stepped
    split at stepped
    next => cases stepped
    next c found =>
      obtain ⟨rfl, rfl, stage, before, after, split, moved⟩ := call_split distinct found
      cases stepped
      rw [moved]
      exact .release split stage

end Atmin.KeyedMutex
