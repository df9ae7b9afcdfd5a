import Atmin.Server.Refcounts
import Atmin.Server.Effect

/-!
# The keyed mutex is a lock

One guard a key at most, no slot that nobody holds or awaits, and no key that feels another. The
lock that the handlers are modelled with is what the mutex shows of its live guards.
-/

namespace Atmin.KeyedMutex

open Interaction

/-! ### One key at a time -/

def knownTo (calls : List Acquire) (key : String) (sem : Nat) : Bool :=
  calls.any fun c => decide (c.key = key ∧ c.sem = sem)

/-- What there is of a key: its slot, its calls, and the semaphores these know. -/
def State.view (s : State) (key : String) : State where
  slots k := if k = key then s.slots k else none
  permits sem := if knownTo s.calls key sem then s.permits sem else none
  calls := s.calls.filter fun c => decide (c.key = key)

section View

variable {s : State} {key : String}

theorem view_call (id : Nat) (stage : Stage) :
    (s.view key).call key id stage = s.call key id stage := by
  simp only [State.call, State.view, List.find?_filter]
  congr 1
  funext c
  by_cases own : c.key = key
  · simp [own]
  · simp [own]

theorem knownTo_setStage (calls : List Acquire) (id : Nat) (stage : Stage) (key : String) (sem : Nat) :
    knownTo (setStage calls id stage) key sem = knownTo calls key sem := by
  simp only [knownTo, setStage, List.any_map]
  congr 1
  funext c
  by_cases moves : c.id = id
  · simp [moves]
  · simp [moves]

theorem filter_setStage (calls : List Acquire) (id : Nat) (stage : Stage) :
    (setStage calls id stage).filter (fun c => decide (c.key = key)) =
      setStage (calls.filter fun c => decide (c.key = key)) id stage := by
  simp only [setStage, List.filter_map]
  congr 2
  funext c
  by_cases moves : c.id = id
  · simp [moves]
  · simp [moves]

theorem view_decrement (slots : String → Option Slot) :
    (fun k => if k = key then decrement slots key k else none) =
      decrement (fun k => if k = key then slots k else none) key := by
  funext k
  by_cases same : k = key
  · subst same
    cases present : slots k with
    | none => rw [if_pos rfl, decrement_absent present, decrement_absent (by simp [present])]
    | some slot =>
      have here : (fun j => if j = k then slots j else none) k = some slot := by simp [present]
      rw [if_pos rfl, decrement_present present, decrement_present here]
  · rw [if_neg same, decrement_other _ same, if_neg same]

theorem view_update {known : Nat → Bool} {permits : Nat → Option Nat} {sem : Nat} {n : Option Nat}
    (here : known sem = true) :
    (fun x => if known x then Function.update permits sem n x else none) =
      Function.update (fun x => if known x then permits x else none) sem n := by
  funext x
  by_cases same : x = sem
  · subst same; simp [here]
  · simp [Function.update_of_ne same]

theorem known_of_call {id : Nat} {stage : Stage} {c : Acquire} (found : s.call key id stage = some c) :
    knownTo s.calls key c.sem = true := by
  have hit := List.find?_some found
  simp only [decide_eq_true_eq] at hit
  have member := List.mem_of_find?_eq_some found
  exact List.any_eq_true.mpr ⟨c, member, by simp [hit.1]⟩

theorem view_enter {id fresh : Nat} (inv : Inv s) :
    (s.enter id key fresh).view key = (s.view key).enter id key fresh := by
  have slot : (s.view key).slots key = s.slots key := by simp [State.view]
  cases present : s.slots key with
  | some old =>
    obtain ⟨d, member, own, sem, _⟩ := inv.tallied.known present
    have known : knownTo s.calls key old.sem = true :=
      List.any_eq_true.mpr ⟨d, member, by simp [own, sem]⟩
    simp only [State.enter, entry_present present, entry_present (slot.trans present)]
    simp only [State.view, State.mk.injEq, List.filter_cons, decide_true, if_true, and_true]
    constructor
    · funext k
      by_cases same : k = key
      · subst same; simp
      · simp [same]
    · funext sem
      by_cases same : old.sem = sem
      · subst same; rw [if_pos (by simp [knownTo]), if_pos known]
      · simp [knownTo, same]
  | none =>
    simp only [State.enter, entry_absent present, entry_absent (slot.trans present)]
    simp only [State.view, State.mk.injEq, List.filter_cons, decide_true, if_true, and_true]
    constructor
    · funext k
      by_cases same : k = key
      · subst same; simp
      · simp [same]
    · funext sem
      by_cases same : fresh = sem
      · subst same; simp [knownTo]
      · simp [knownTo, same, Function.update_of_ne (Ne.symm same)]

/-- An action on the key acts on the view as on the whole. -/
theorem view_step (inv : Inv s) {id : Nat} {move : Move}
    (named : ∀ fresh, move = .enter fresh → id ∉ s.calls.map Acquire.id ∧ s.permits fresh = none) :
    step (s.view key) ⟨key, id, move⟩ = (step s ⟨key, id, move⟩).map (·.view key) := by
  cases move with
  -- a fresh semaphore is fresh in the view, too
  | enter fresh =>
    obtain ⟨unused, unmade⟩ := named fresh rfl
    have unused' : id ∉ (s.view key).calls.map Acquire.id :=
      fun member => unused ((List.filter_sublist.map _).subset member)
    have unmade' : (s.view key).permits fresh = none := by simp [State.view, unmade]
    simp [step, unused, unmade, unused', unmade', view_enter inv]
  -- the permits of a call are those of a semaphore known to its key
  | grant =>
    simp only [step, view_call]
    cases found : s.call key id .waiting with
    | none => rfl
    | some c =>
      have known := known_of_call found
      have permits : (s.view key).permits c.sem = s.permits c.sem := by simp [State.view, known]
      simp only [permits]
      cases s.permits c.sem with
      | none => rfl
      | some n =>
        cases n with
        | zero => rfl
        | succ n => simp [State.view, filter_setStage, knownTo_setStage, view_update known]
  | expire =>
    simp only [step, view_call]
    cases s.call key id .waiting with
    | none => rfl
    | some c => simp [State.view, filter_setStage, knownTo_setStage]
  -- the two ways to leave, and the count goes down in either
  | giveUp =>
    simp only [step, view_call]
    cases s.call key id .timedOut with
    | none => rfl
    | some c => simp [State.view, filter_setStage, knownTo_setStage, view_decrement]
  | drop =>
    simp only [step, view_call]
    cases s.call key id .held with
    | none => rfl
    | some c => simp [State.view, filter_setStage, knownTo_setStage, view_decrement]
  | release =>
    simp only [step, view_call]
    cases found : s.call key id .dropped with
    | none => rfl
    | some c =>
      have known := known_of_call found
      have permits : (s.view key).permits c.sem = s.permits c.sem := by simp [State.view, known]
      simp only [permits]
      simp [State.view, filter_setStage, knownTo_setStage, view_update known]

/-- No call of the key knows the semaphore of a call on another key. -/
theorem unknown_of_apart (inv : Inv s) {c : Acquire} (member : c ∈ s.calls) (apart : c.key ≠ key) :
    knownTo s.calls key c.sem = false := by
  rw [Bool.eq_false_iff]
  intro known
  obtain ⟨d, there, own⟩ := List.any_eq_true.mp known
  simp only [decide_eq_true_eq] at own
  exact apart (inv.named.apart c member d there own.2.symm ▸ own.1)

theorem view_of_move {before after : List Acquire} {c : Acquire} {stage : Stage}
    {slots : String → Option Slot} {permits : Nat → Option Nat}
    (split : s.calls = before ++ c :: after) (apart : c.key ≠ key) (slot : slots key = s.slots key)
    (known : ∀ sem, knownTo s.calls key sem = true → permits sem = s.permits sem) :
    State.view ⟨slots, permits, before ++ { c with stage } :: after⟩ key = s.view key := by
  have same : ∀ sem,
      knownTo (before ++ { c with stage } :: after) key sem = knownTo s.calls key sem := by
    intro sem
    simp [knownTo, split]
  simp only [State.view, State.mk.injEq, same]
  refine ⟨?_, ?_, ?_⟩
  · funext k
    by_cases own : k = key
    · subst own; simp [slot]
    · simp [own]
  · funext sem
    cases here : knownTo s.calls key sem with
    | true => simp [known sem here]
    | false => rfl
  · simp [split, apart]

/-- An action on another key leaves the view alone. -/
theorem view_other (inv : Inv s) {t : State} {a : Act} (apart : a.key ≠ key)
    (stepped : step s a = some t) : t.view key = s.view key := by
  -- a semaphore of this key is not one of a call under another
  have other {c : Acquire} {n : Option Nat} (member : c ∈ s.calls) (apart : c.key ≠ key) :
      ∀ sem, knownTo s.calls key sem = true →
        Function.update s.permits c.sem n sem = s.permits sem := by
    intro sem known
    apply Function.update_of_ne
    rintro rfl
    rw [unknown_of_apart inv member apart] at known
    cases known
  cases step_moves inv.named.distinct stepped with
  | @enter id fresh name unused unmade =>
    have apart : name ≠ key := apart
    -- the fresh semaphore is made for the other key
    have unknown : ∀ sem, knownTo s.calls key sem = true → sem ≠ fresh := by
      rintro sem known rfl
      obtain ⟨d, there, own⟩ := List.any_eq_true.mp known
      simp only [decide_eq_true_eq] at own
      have made := inv.named.made d there
      rw [own.2, unmade] at made
      cases made
    simp only [State.enter, State.view, State.mk.injEq, List.filter_cons, decide_eq_false apart,
      Bool.false_eq_true, if_false, and_true]
    constructor
    · funext k
      by_cases own : k = key
      · subst own; simp [Ne.symm apart]
      · simp [own]
    · funext sem
      have same : knownTo (⟨id, name, (s.entry name fresh).1.sem, .waiting⟩ :: s.calls) key sem =
          knownTo s.calls key sem := by
        simp [knownTo, apart]
      simp only [same]
      cases here : knownTo s.calls key sem with
      | false => rfl
      | true =>
        simp only [if_true]
        cases present : s.slots name with
        | some slot => rw [entry_present present]
        | none => rw [entry_absent present]; exact Function.update_of_ne (unknown sem here) ..
  | grant split stage free =>
    have member : _ ∈ s.calls := split ▸ List.mem_append_right _ List.mem_cons_self
    exact view_of_move split apart rfl (other member apart)
  | expire split stage => exact view_of_move split apart rfl fun _ _ => rfl
  | giveUp split stage =>
    exact view_of_move split apart (decrement_other _ (Ne.symm apart)) fun _ _ => rfl
  | drop split stage =>
    exact view_of_move split apart (decrement_other _ (Ne.symm apart)) fun _ _ => rfl
  | release split stage =>
    have member : _ ∈ s.calls := split ▸ List.mem_append_right _ List.mem_cons_self
    exact view_of_move split apart rfl (other member apart)

end View

/-- What has become of a key is what its own calls alone would have made of it. -/
theorem view_of_run {acts : List Act} {s : State} (ran : machine.run new acts = some s)
    (key : String) :
    machine.run new (acts.filter fun a => decide (a.key = key)) = some (s.view key) := by
  have fresh : new.view key = new := by simp [new, State.view, knownTo]
  rw [← fresh]
  apply Machine.run_filter (n := machine) (I := Inv) (v := (·.view key)) _ _ _ Inv.new ran
  · exact fun _ _ _ inv stepped => inv.step stepped
  · rintro u ⟨own, id, move⟩ v inv mine stepped
    have stepped : step u ⟨own, id, move⟩ = some v := stepped
    simp only [decide_eq_true_eq] at mine
    subst mine
    have named : ∀ fresh, move = .enter fresh →
        id ∉ u.calls.map Acquire.id ∧ u.permits fresh = none := by
      rintro fresh rfl
      cases step_moves inv.named.distinct stepped with
      | enter unused unmade => exact ⟨unused, unmade⟩
    exact (view_step inv named).trans (by rw [stepped]; rfl)
  · intro u a v inv other stepped
    exact view_other inv (by simpa using other) stepped

/-! ### What a reachable state looks like -/

/-- The undropped guards of a key. -/
def State.guards (s : State) (key : String) : Nat :=
  s.calls.countP fun c => decide (c.key = key ∧ c.stage = .held)

/-- The calls of `acquire` on a key that have not returned yet. -/
def State.pending (s : State) (key : String) : Nat :=
  s.calls.countP fun c => decide (c.key = key ∧ (c.stage = .waiting ∨ c.stage = .timedOut))

theorem guards_add_pending (s : State) (key : String) :
    s.guards key + s.pending key = s.calls.countP (countedAt key) := by
  unfold State.guards State.pending
  induction s.calls with
  | nil => rfl
  | cons c rest ih =>
    obtain ⟨id, name, sem, stage⟩ := c
    simp only [List.countP_cons, ← ih, countedAt, Acquire.counted]
    by_cases own : name = key
    · cases stage <;> simp [own] <;> omega
    · simp [own]

/-- The slot of a key has the refcount and the semaphore that its holders and waiters need. -/
structure Locked (s : State) (key : String) : Prop where
  one_guard : s.guards key ≤ 1
  refcount : ∀ slot, s.slots key = some slot → slot.refcount = s.guards key + s.pending key
  slot_iff : (s.slots key).isSome = true ↔ 0 < s.guards key + s.pending key
  no_underflow : ∀ c ∈ s.calls, c.key = key → c.stage = .held ∨ c.stage = .timedOut →
    ∃ slot, s.slots key = some slot ∧ 1 ≤ slot.refcount
  shared : ∀ c ∈ s.calls, c.key = key → c.stage = .held ∨ c.stage = .waiting ∨ c.stage = .timedOut →
    ∃ slot, s.slots key = some slot ∧ c.sem = slot.sem

theorem counted_iff {c : Acquire} :
    c.counted = true ↔ c.stage = .held ∨ c.stage = .waiting ∨ c.stage = .timedOut := by
  unfold Acquire.counted
  cases c.stage <;> simp

/-- Two guards of one key would both have the one permit of the semaphore they share. -/
theorem Inv.one_guard {s : State} (inv : Inv s) (key : String) : s.guards key ≤ 1 := by
  cases present : s.slots key with
  | none =>
    have none_counted := inv.tallied.refcount key
    rw [← guards_add_pending, refcountOf, present] at none_counted
    simp only at none_counted
    omega
  | some slot =>
    have holders : s.guards key ≤ s.calls.countP (ownsOf slot.sem) := by
      apply List.countP_mono_left
      intro c member held
      simp only [decide_eq_true_eq] at held
      obtain ⟨here, there, sem⟩ := inv.tallied.shared c member (counted_iff.mpr (Or.inl held.2))
      rw [held.1, present] at there
      cases there
      simp [ownsOf, Acquire.owns, sem, held.2]
    obtain ⟨d, member, _, sem, _⟩ := inv.tallied.known present
    obtain ⟨n, free⟩ := Option.isSome_iff_exists.mp (inv.named.made d member)
    have tally := inv.permit d.sem n free
    rw [sem] at tally
    omega

theorem Inv.locked {s : State} (inv : Inv s) (key : String) : Locked s key := by
  have tally := inv.tallied.refcount key
  rw [← guards_add_pending] at tally
  constructor
  · exact inv.one_guard key
  · intro slot present
    rwa [refcountOf, present] at tally
  · cases present : s.slots key with
    | none =>
      rw [refcountOf, present] at tally
      simp only at tally
      simp [← tally]
    | some slot =>
      have positive := inv.tallied.occupied key slot present
      rw [refcountOf, present] at tally
      simp only at tally
      simp [← tally, positive]
  · rintro c member rfl stage
    have counted : c.counted = true := counted_iff.mpr (stage.imp_right Or.inr)
    obtain ⟨slot, present, _⟩ := inv.tallied.shared c member counted
    exact ⟨slot, present, inv.tallied.occupied c.key slot present⟩
  · rintro c member rfl stage
    obtain ⟨slot, present, sem⟩ := inv.tallied.shared c member (counted_iff.mpr stage)
    exact ⟨slot, present, sem.symm⟩

/-- Whatever calls of `acquire`, timeouts and drops there have been, in whatever order, the
mutex is sound at every key, and a key is as its own calls alone have made it: no action on
another key changes it, and none takes away or adds an action on it. -/
theorem keyed_mutex_excludes (acts : List Act) (s : State) (ran : machine.run new acts = some s)
    (key : String) :
    Locked s key ∧
    machine.run new (acts.filter fun a => decide (a.key = key)) = some (s.view key) ∧
    (∀ a t, a.key ≠ key → machine.step s a = some t → t.view key = s.view key) ∧
    ∀ id move, (∀ fresh, move = .enter fresh → id ∉ s.calls.map Acquire.id ∧ s.permits fresh = none) →
      machine.step (s.view key) ⟨key, id, move⟩ =
        (machine.step s ⟨key, id, move⟩).map (·.view key) := by
  have inv := inv_of_run ran
  refine ⟨inv.locked key, view_of_run ran key, ?_, ?_⟩
  · intro a t apart stepped
    exact view_other inv apart stepped
  · intro id move named
    exact view_step inv named

/-- One call holds the key and another waits; the first drops its guard, the second is granted the
permit once it is released, and a third call on another key times out beside them. -/
def handover : List Act :=
  [⟨"k", 0, .enter 0⟩, ⟨"k", 0, .grant⟩, ⟨"k", 1, .enter 1⟩, ⟨"l", 2, .enter 1⟩, ⟨"l", 2, .expire⟩,
    ⟨"k", 0, .drop⟩, ⟨"l", 2, .giveUp⟩, ⟨"k", 0, .release⟩, ⟨"k", 1, .grant⟩]

theorem handover_excludes :
    ∃ s, machine.run new handover = some s ∧ s.guards "k" = 1 ∧ Locked s "k" := by
  have ran : ((machine.run new handover).any fun s => decide (s.guards "k" = 1)) = true := by decide
  obtain ⟨s, reached, one⟩ := (Option.any_eq_true _ _).mp ran
  exact ⟨s, reached, of_decide_eq_true one, (keyed_mutex_excludes handover s reached "k").1⟩

/-! ### The lock of the handlers -/

/-- The handlers' lock of a key is held by the call whose guard is live. -/
def Shows (lock : String → Lock) (s : State) (sys : Sys Nat) : Prop :=
  ∀ key id, sys.holder (lock key) = some id ↔
    ∃ c ∈ s.calls, c.id = id ∧ c.key = key ∧ c.stage = .held

/-- Beside a live guard there is no other of its key. -/
theorem Inv.held_alone {s : State} (inv : Inv s) {before after : List Acquire} {c d : Acquire}
    (split : s.calls = before ++ c :: after) (held : c.stage = .held) (other : d ∈ before ++ after)
    (same : d.key = c.key) : d.stage ≠ .held := by
  intro also
  have most := inv.one_guard c.key
  have beside : 0 < (before ++ after).countP fun e => decide (e.key = c.key ∧ e.stage = .held) :=
    List.countP_pos_iff.mpr ⟨d, other, by simp [same, also]⟩
  simp only [State.guards, split, List.countP_append, List.countP_cons, held, and_self,
    decide_true, if_true] at most beside
  omega

/-- A move that leaves every guard as it was is no move of the lock. -/
theorem Shows.keep {lock : String → Lock} {s t : State} {sys : Sys Nat} (shows_ : Shows lock s sys)
    (same : ∀ c, c.stage = .held → (c ∈ t.calls ↔ c ∈ s.calls)) : Shows lock t sys := by
  intro key id
  rw [shows_ key id]
  constructor
  · rintro ⟨c, member, own, there, held⟩
    exact ⟨c, (same c held).mpr member, own, there, held⟩
  · rintro ⟨c, member, own, there, held⟩
    exact ⟨c, (same c held).mp member, own, there, held⟩

theorem mem_moved_iff {before after : List Acquire} {c d : Acquire} {stage : Stage}
    (was : c.stage ≠ .held) (becomes : stage ≠ .held) (held : d.stage = .held) :
    d ∈ before ++ { c with stage } :: after ↔ d ∈ before ++ c :: after := by
  have not_old : d ≠ c := by rintro rfl; exact was held
  have not_new : d ≠ { c with stage } := by rintro rfl; exact becomes held
  simp [not_old, not_new]

theorem mem_other_iff {before after : List Acquire} {c d : Acquire} {stage : Stage}
    (apart : d.key ≠ c.key) :
    d ∈ before ++ { c with stage } :: after ↔ d ∈ before ++ c :: after := by
  have not_old : d ≠ c := by rintro rfl; exact apart rfl
  have not_new : d ≠ { c with stage } := by rintro rfl; exact apart rfl
  simp [not_old, not_new]

/-- The mutex carries out the lock of the handlers: a grant acquires it, a drop releases it, a
call that gives up is a timeout, and the rest is not seen. -/
theorem mutex_serves_lock {lock : String → Lock} (injective : Function.Injective lock)
    {s t : State} {sys : Sys Nat} {a : Act} (inv : Inv s) (shows_ : Shows lock s sys)
    (stepped : machine.step s a = some t) :
    match a.move with
    | .grant => ∃ sys', exec a.id (.acquire (lock a.key)) .ok sys = some (.ok (), sys') ∧
        Shows lock t sys'
    | .giveUp => exec a.id (.acquire (lock a.key)) .expire sys = some (.error .mk, sys) ∧
        Shows lock t sys
    | .drop => ∃ sys', exec a.id (.release (lock a.key)) .ok sys = some ((), sys') ∧
        Shows lock t sys'
    | .enter _ | .expire | .release => Shows lock t sys := by
  have after_ := inv.step stepped
  cases step_moves inv.named.distinct stepped with
  | enter unused unmade =>
    apply shows_.keep
    intro c held
    simp only [State.enter, List.mem_cons, or_iff_right_iff_imp]
    rintro rfl
    cases held
  -- nobody else holds the key, so the lock is free
  | @grant before after c n split stage free =>
    have nobody {d : Acquire} (member : d ∈ before ++ after) (same : d.key = c.key) : d.stage ≠ .held :=
      after_.held_alone (c := { c with stage := .held }) rfl rfl member same
    have unheld : sys.holder (lock c.key) = none := by
      apply Option.eq_none_iff_forall_ne_some.mpr
      intro id holds
      obtain ⟨d, member, _, own, held⟩ := (shows_ c.key id).mp holds
      have other : d ≠ c := by rintro rfl; rw [stage] at held; cases held
      rw [split] at member
      exact nobody (by simpa [other] using member) own held
    refine ⟨{ sys with holder := Function.update sys.holder (lock c.key) (some c.id) }, ?_, ?_⟩
    · simp only [exec, unheld]
    · intro key id
      by_cases same : key = c.key
      · subst same
        simp only [Function.update_self, Option.some.injEq]
        constructor
        · rintro rfl
          exact ⟨{ c with stage := .held }, by simp, rfl, rfl, rfl⟩
        · rintro ⟨d, member, own, there, held⟩
          by_cases new_ : d = { c with stage := .held }
          · subst new_; exact own
          · exact absurd held (nobody (by simpa [new_] using member) there)
      · simp only [Function.update_of_ne (injective.ne same)]
        rw [shows_ key id, split]
        constructor
        · rintro ⟨d, member, own, rfl, held⟩
          exact ⟨d, (mem_other_iff same).mpr member, own, rfl, held⟩
        · rintro ⟨d, member, own, rfl, held⟩
          exact ⟨d, (mem_other_iff same).mp member, own, rfl, held⟩
  | expire split stage =>
    exact shows_.keep fun d held => by
      rw [split]; exact mem_moved_iff (by simp [stage]) (by simp) held
  | giveUp split stage =>
    refine ⟨rfl, shows_.keep fun d held => ?_⟩
    rw [split]
    exact mem_moved_iff (by simp [stage]) (by simp) held
  -- the one holder of the key lets go
  | @drop before after c split stage =>
    refine ⟨{ sys with holder := Function.update sys.holder (lock c.key) none }, rfl, ?_⟩
    intro key id
    by_cases same : key = c.key
    · subst same
      simp only [Function.update_self, reduceCtorEq, false_iff, not_exists, not_and]
      rintro d member _ there held
      have other : d ≠ { c with stage := .dropped } := by rintro rfl; cases held
      exact inv.held_alone split stage (by simpa [other] using member) there held
    · simp only [Function.update_of_ne (injective.ne same)]
      rw [shows_ key id, split]
      constructor
      · rintro ⟨d, member, own, rfl, held⟩
        exact ⟨d, (mem_other_iff same).mpr member, own, rfl, held⟩
      · rintro ⟨d, member, own, rfl, held⟩
        exact ⟨d, (mem_other_iff same).mp member, own, rfl, held⟩
  | release split stage =>
    exact shows_.keep fun d held => by
      rw [split]; exact mem_moved_iff (by simp [stage]) (by simp) held

end Atmin.KeyedMutex
