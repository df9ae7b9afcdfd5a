import Atmin.Interaction.Machine
import Mathlib.Data.List.Nodup
import Mathlib.Logic.Function.Basic

/-!
# The event hub (`events.rs`)

One channel a connection, and for every user the list of its connections. The list is read and
changed under a lock that `notify` holds from its first `try_send` to its last; a receiver needs no
lock, so it may receive between two of them. A channel is named by the id of its connection.
-/

namespace Atmin.EventHub

open Interaction

def CHANNEL_BUFFER : Nat := 10

inductive Stage where
  /-- `register` has made the channel and taken the id. -/
  | opened
  /-- The connection is in its user's list, and `register` returns the subscription. -/
  | live
  /-- `drop` has unregistered it, and the receiver is gone. -/
  | dropped
  deriving DecidableEq, Repr

/-- A `Subscription`, with what its channel holds and what it has received so far. -/
structure Subscription where
  user : String
  stage : Stage
  buffer : List String
  received : List String
  deriving DecidableEq, Repr

/-- A `notify` that holds the lock, and the connections it has not come to yet. -/
structure Fanout where
  user : String
  event : String
  rest : List Nat
  deriving DecidableEq, Repr

/-- `nextId` is a `u64`, which no server lives long enough to use up. -/
structure State where
  clients : String → Option (List Nat) := fun _ => none
  nextId : Nat := 0
  subs : Nat → Option Subscription := fun _ => none
  fanout : Option Fanout := none

/-- The connections that `notify` finds for a user. -/
def State.conns (s : State) (user : String) : List Nat := (s.clients user).getD []

/-- `entry(..).or_default().push(..)`. -/
def push (clients : String → Option (List Nat)) (user : String) (id : Nat) :
    String → Option (List Nat) :=
  Function.update clients user (some ((clients user).getD [] ++ [id]))

/-- `HubInner::unregister`. -/
def unregister (clients : String → Option (List Nat)) (user : String) (id : Nat) :
    String → Option (List Nat) :=
  match clients user with
  | none => clients
  | some conns =>
    let left := conns.filter (· ≠ id)
    Function.update clients user (if left = [] then none else some left)

/-- A full channel refuses the event, and so does one whose receiver is gone. -/
def Subscription.trySend (sub : Subscription) (event : String) : Subscription :=
  if sub.stage ≠ .dropped ∧ sub.buffer.length < CHANNEL_BUFFER then
    { sub with buffer := sub.buffer ++ [event] }
  else sub

inductive Act where
  /-- `register` makes a channel and takes an id. -/
  | take (user : String)
  /-- `register` adds the connection to the list. -/
  | push (id : Nat)
  | drop (id : Nat)
  | recv (id : Nat)
  /-- `notify` takes the lock. -/
  | lock (user event : String)
  /-- `notify` comes to the next connection. -/
  | trySend
  /-- `notify` has come to all of them and returns. -/
  | unlock
  deriving DecidableEq, Repr

def step (s : State) : Act → Option State
  | .take user => some { s with
      nextId := s.nextId + 1
      subs := Function.update s.subs s.nextId (some ⟨user, .opened, [], []⟩) }
  -- registering takes the mutex that a fan-out holds
  | .push id => match s.fanout, s.subs id with
    | none, some ⟨user, .opened, buffer, received⟩ => some { s with
        clients := push s.clients user id
        subs := Function.update s.subs id (some ⟨user, .live, buffer, received⟩) }
    | _, _ => none
  -- so does unregistering
  | .drop id => match s.fanout, s.subs id with
    | none, some ⟨user, .live, buffer, received⟩ => some { s with
        clients := unregister s.clients user id
        subs := Function.update s.subs id (some ⟨user, .dropped, buffer, received⟩) }
    | _, _ => none
  | .recv id => match s.subs id with
    | some ⟨user, .live, event :: buffer, received⟩ => some { s with
        subs := Function.update s.subs id (some ⟨user, .live, buffer, received ++ [event]⟩) }
    | _ => none
  -- `notify` sends to the connections registered when it took the mutex
  | .lock user event => match s.fanout with
    | none => some { s with fanout := some ⟨user, event, s.conns user⟩ }
    | some _ => none
  -- one connection after another, without waiting for any
  | .trySend => match s.fanout with
    | some ⟨user, event, id :: rest⟩ => some { s with
        subs := Function.update s.subs id ((s.subs id).map (·.trySend event))
        fanout := some ⟨user, event, rest⟩ }
    | _ => none
  | .unlock => match s.fanout with
    | some ⟨_, _, []⟩ => some { s with fanout := none }
    | _ => none

/-- Any number of connections of any users, coming and going in any order. -/
def machine : Machine State Act := ⟨step⟩

/-- `EventHub::new`. -/
def new : State := {}

/-! ### What an action does -/

inductive Moves (s : State) : Act → State → Prop where
  | take {user : String} : Moves s (.take user) { s with
      nextId := s.nextId + 1
      subs := Function.update s.subs s.nextId (some ⟨user, .opened, [], []⟩) }
  | push {id : Nat} {sub : Subscription} : s.fanout = none → s.subs id = some sub →
      sub.stage = .opened → Moves s (.push id) { s with
        clients := push s.clients sub.user id
        subs := Function.update s.subs id (some { sub with stage := .live }) }
  | drop {id : Nat} {sub : Subscription} : s.fanout = none → s.subs id = some sub →
      sub.stage = .live → Moves s (.drop id) { s with
        clients := unregister s.clients sub.user id
        subs := Function.update s.subs id (some { sub with stage := .dropped }) }
  | recv {id : Nat} {sub : Subscription} {event : String} {buffer : List String} :
      s.subs id = some sub → sub.stage = .live → sub.buffer = event :: buffer →
      Moves s (.recv id) { s with
        subs := Function.update s.subs id
          (some { sub with buffer := buffer, received := sub.received ++ [event] }) }
  | lock {user event : String} : s.fanout = none →
      Moves s (.lock user event) { s with fanout := some ⟨user, event, s.conns user⟩ }
  | trySend {user event : String} {id : Nat} {rest : List Nat} :
      s.fanout = some ⟨user, event, id :: rest⟩ → Moves s .trySend { s with
        subs := Function.update s.subs id ((s.subs id).map (·.trySend event))
        fanout := some ⟨user, event, rest⟩ }
  | unlock {user event : String} : s.fanout = some ⟨user, event, []⟩ →
      Moves s .unlock { s with fanout := none }

theorem step_moves {s t : State} {a : Act} (stepped : step s a = some t) : Moves s a t := by
  cases a with
  | take user => cases stepped; exact .take
  | push id =>
    simp only [step] at stepped
    split at stepped
    next idle present => cases stepped; exact .push idle present rfl
    next => cases stepped
  | drop id =>
    simp only [step] at stepped
    split at stepped
    next idle present => cases stepped; exact .drop idle present rfl
    next => cases stepped
  | recv id =>
    simp only [step] at stepped
    split at stepped
    next present => cases stepped; exact .recv present rfl rfl
    next => cases stepped
  | lock user event =>
    simp only [step] at stepped
    split at stepped
    next idle => cases stepped; exact .lock idle
    next => cases stepped
  | trySend =>
    simp only [step] at stepped
    split at stepped
    next fanning => cases stepped; exact .trySend fanning
    next => cases stepped
  | unlock =>
    simp only [step] at stepped
    split at stepped
    next fanning => cases stepped; exact .unlock fanning
    next => cases stepped

/-! ### The lists -/

theorem conns_push {s : State} {user other : String} {id : Nat} :
    (push s.clients user id other).getD [] =
      if other = user then s.conns user ++ [id] else s.conns other := by
  by_cases same : other = user
  · subst same; simp [push, State.conns]
  · simp [push, State.conns, same]

theorem push_kept {clients : String → Option (List Nat)} {user : String} {id : Nat}
    (kept : ∀ u, clients u ≠ some []) (other : String) : push clients user id other ≠ some [] := by
  by_cases same : other = user
  · subst same; simp [push]
  · simp [push, same, kept other]

theorem conns_unregister {s : State} {user other : String} {id : Nat} :
    (unregister s.clients user id other).getD [] =
      if other = user then (s.conns user).filter (· ≠ id) else s.conns other := by
  unfold unregister
  cases present : s.clients user with
  | none =>
    by_cases same : other = user
    · subst same; simp [State.conns, present]
    · simp [State.conns, same]
  | some conns =>
    by_cases same : other = user
    · subst same
      by_cases last : conns.filter (· ≠ id) = []
      · simp only [last, State.conns, present, if_true, Function.update_self, Option.getD_none,
          Option.getD_some]
      · simp only [last, State.conns, present, if_true, if_false, Function.update_self,
          Option.getD_some]
    · simp [State.conns, same]

theorem unregister_kept {clients : String → Option (List Nat)} {user : String} {id : Nat}
    (kept : ∀ u, clients u ≠ some []) (other : String) :
    unregister clients user id other ≠ some [] := by
  unfold unregister
  cases clients user with
  | none => exact kept other
  | some conns =>
    by_cases same : other = user
    · subst same
      by_cases last : conns.filter (· ≠ id) = []
      · simp only [last, if_true, Function.update_self]; nofun
      · simp only [last, if_false, Function.update_self, ne_eq, Option.some.injEq, not_false_eq_true]
    · simp only [Function.update_of_ne same]
      exact kept other

/-! ### The list is that of the live connections -/

structure Inv (s : State) : Prop where
  fresh : ∀ id, s.nextId ≤ id → s.subs id = none
  listed : ∀ user id, id ∈ s.conns user ↔
    ∃ sub, s.subs id = some sub ∧ sub.user = user ∧ sub.stage = .live
  nodup : ∀ user, (s.conns user).Nodup
  kept : ∀ user, s.clients user ≠ some []
  bounded : ∀ id sub, s.subs id = some sub → sub.buffer.length ≤ CHANNEL_BUFFER
  fanning : ∀ f, s.fanout = some f → f.rest.Sublist (s.conns f.user)

theorem Inv.new : Inv new := by
  constructor
  · intro id _; rfl
  · intro user id
    simp [State.conns, EventHub.new]
  · intro user; exact List.nodup_nil
  · intro user; simp [EventHub.new]
  · intro id sub present; cases present
  · intro f fanning; cases fanning

section Update

variable {subs : Nat → Option Subscription} {id : Nat} {sub sub' : Subscription}

/-- An update of one subscription that leaves its user and stage leaves who is live. -/
theorem live_update (present : subs id = some sub) (user : sub'.user = sub.user)
    (stage : sub'.stage = sub.stage) (name : String) (other : Nat) :
    (∃ d, Function.update subs id (some sub') other = some d ∧ d.user = name ∧ d.stage = .live) ↔
      ∃ d, subs other = some d ∧ d.user = name ∧ d.stage = .live := by
  by_cases same : other = id
  · subst same; simp [present, user, stage]
  · simp [same]

theorem bounded_update (bounded : ∀ i d, subs i = some d → d.buffer.length ≤ CHANNEL_BUFFER)
    (fits : sub'.buffer.length ≤ CHANNEL_BUFFER) (other : Nat) (d : Subscription)
    (there : Function.update subs id (some sub') other = some d) :
    d.buffer.length ≤ CHANNEL_BUFFER := by
  by_cases same : other = id
  · subst same
    rw [Function.update_self] at there
    cases there
    exact fits
  · rw [Function.update_of_ne same] at there
    exact bounded other d there

theorem fresh_update {n : Nat} (fresh : ∀ i, n ≤ i → subs i = none) (present : subs id = some sub)
    (i : Nat) (late : n ≤ i) : Function.update subs id (some sub') i = none := by
  have apart : i ≠ id := by
    rintro rfl
    rw [fresh i late] at present
    cases present
  rw [Function.update_of_ne apart]
  exact fresh i late

end Update

@[simp] theorem trySend_user (sub : Subscription) (event : String) :
    (sub.trySend event).user = sub.user := by
  unfold Subscription.trySend
  split <;> rfl

@[simp] theorem trySend_stage (sub : Subscription) (event : String) :
    (sub.trySend event).stage = sub.stage := by
  unfold Subscription.trySend
  split <;> rfl

theorem trySend_bounded {sub : Subscription} {event : String}
    (fits : sub.buffer.length ≤ CHANNEL_BUFFER) :
    (sub.trySend event).buffer.length ≤ CHANNEL_BUFFER := by
  unfold Subscription.trySend
  split
  next room =>
    simp only [List.length_append, List.length_singleton]
    exact room.2
  next => exact fits

/-! ### Every action keeps it -/

section Actions

variable {s : State} {id : Nat} {sub sub' : Subscription}

/-- A connection is in no list but its user's, and only while it is live. -/
theorem Inv.own_list (inv : Inv s) (present : s.subs id = some sub) {name : String}
    (member : id ∈ s.conns name) : name = sub.user ∧ sub.stage = .live := by
  obtain ⟨d, there, own, live⟩ := (inv.listed name id).mp member
  rw [present] at there
  cases there
  exact ⟨own.symm, live⟩

/-- The id is new, and nobody's list has it. -/
theorem Inv.taken (inv : Inv s) (user : String) : Inv { s with
    nextId := s.nextId + 1
    subs := Function.update s.subs s.nextId (some ⟨user, .opened, [], []⟩) } := by
  constructor
  · intro id late
    have later : s.nextId + 1 ≤ id := late
    dsimp only
    rw [Function.update_of_ne (by omega)]
    exact inv.fresh id (by omega)
  · intro name id
    refine (inv.listed name id).trans ?_
    by_cases same : id = s.nextId
    · subst same
      simp [inv.fresh s.nextId (Nat.le_refl _)]
    · simp [same]
  · exact inv.nodup
  · exact inv.kept
  · exact bounded_update inv.bounded (Nat.zero_le _)
  · exact inv.fanning

/-- A connection changes its stage while no `notify` runs: its user's list becomes `own`, which has
it if it is live and the others as before, and no other list changes. -/
theorem Inv.staged (inv : Inv s) (idle : s.fanout = none) (present : s.subs id = some sub)
    {stage : Stage} {clients : String → Option (List Nat)} {own : List Nat}
    (conns : ∀ name, (clients name).getD [] = if name = sub.user then own else s.conns name)
    (members : ∀ i, i ∈ own ↔ if i = id then stage = .live else i ∈ s.conns sub.user)
    (nodup : own.Nodup) (kept : ∀ name, clients name ≠ some []) : Inv { s with
      clients := clients
      subs := Function.update s.subs id (some { sub with stage := stage }) } := by
  constructor
  · exact fresh_update inv.fresh present
  · intro name i
    show i ∈ (clients name).getD [] ↔ _
    rw [conns]
    by_cases same : i = id
    · subst same
      by_cases here : name = sub.user
      · subst here; simp [members]
      · have other : i ∉ s.conns name := fun member => here (inv.own_list present member).1
        simp [here, Ne.symm here, other]
    · by_cases here : name = sub.user
      · subst here; simp [same, members, inv.listed]
      · simp [here, same, inv.listed]
  · intro name
    show ((clients name).getD []).Nodup
    rw [conns]
    split
    next => exact nodup
    next => exact inv.nodup name
  · exact kept
  · exact bounded_update inv.bounded (inv.bounded id sub present)
  · intro f busy
    simp only at busy
    rw [idle] at busy
    cases busy

theorem Inv.pushed (inv : Inv s) (idle : s.fanout = none) (present : s.subs id = some sub)
    (opened : sub.stage = .opened) : Inv { s with
      clients := push s.clients sub.user id
      subs := Function.update s.subs id (some { sub with stage := .live }) } := by
  have unlisted : id ∉ s.conns sub.user := by
    intro member
    have live := (inv.own_list present member).2
    rw [opened] at live
    cases live
  apply inv.staged idle present (fun _ => conns_push)
  · intro i
    by_cases same : i = id <;> simp [same]
  · exact List.nodup_append.mpr ⟨inv.nodup _, List.nodup_singleton id, by
      intro i member j last
      rw [List.mem_singleton] at last
      rintro rfl
      exact unlisted (last ▸ member)⟩
  · exact push_kept inv.kept

theorem Inv.dropped (inv : Inv s) (idle : s.fanout = none) (present : s.subs id = some sub) :
    Inv { s with
      clients := unregister s.clients sub.user id
      subs := Function.update s.subs id (some { sub with stage := .dropped }) } := by
  apply inv.staged idle present (fun _ => conns_unregister)
  · intro i
    by_cases same : i = id <;> simp [same]
  · exact (inv.nodup _).filter _
  · exact unregister_kept inv.kept

/-- What passes through a channel changes no list. -/
theorem Inv.buffered (inv : Inv s) (present : s.subs id = some sub) (user : sub'.user = sub.user)
    (stage : sub'.stage = sub.stage) (fits : sub'.buffer.length ≤ CHANNEL_BUFFER) :
    Inv { s with subs := Function.update s.subs id (some sub') } where
  fresh := fresh_update inv.fresh present
  listed name i := (inv.listed name i).trans (live_update present user stage name i).symm
  nodup := inv.nodup
  kept := inv.kept
  bounded := bounded_update inv.bounded fits
  fanning := inv.fanning

/-- A `notify` may go on with any sublist of its user's list. -/
theorem Inv.fanned (inv : Inv s) {fanout : Option Fanout}
    (within : ∀ f, fanout = some f → f.rest.Sublist (s.conns f.user)) :
    Inv { s with fanout := fanout } where
  fresh := inv.fresh
  listed := inv.listed
  nodup := inv.nodup
  kept := inv.kept
  bounded := inv.bounded
  fanning := within

end Actions

theorem Inv.step {s t : State} {a : Act} (inv : Inv s) (stepped : step s a = some t) : Inv t := by
  cases step_moves stepped with
  | take => exact inv.taken _
  | push idle present opened => exact inv.pushed idle present opened
  | drop idle present _ => exact inv.dropped idle present
  | @recv id sub event buffer present _ oldest =>
    have fits := inv.bounded id sub present
    rw [oldest, List.length_cons] at fits
    apply inv.buffered present
    · rfl
    · rfl
    · exact Nat.le_of_succ_le fits
  | lock idle =>
    apply inv.fanned
    rintro f ⟨⟩
    exact List.Sublist.refl _
  | @trySend user event id rest busy =>
    -- the next connection is listed, so its channel is there
    have sublist := inv.fanning _ busy
    have member : id ∈ s.conns user := sublist.subset List.mem_cons_self
    obtain ⟨sub, present, _, _⟩ := (inv.listed user id).mp member
    simp only [present, Option.map_some]
    have sent : Inv { s with subs := Function.update s.subs id (some (sub.trySend event)) } :=
      inv.buffered present (trySend_user sub event) (trySend_stage sub event)
        (trySend_bounded (inv.bounded id sub present))
    apply sent.fanned
    rintro f ⟨⟩
    exact (List.sublist_cons_self id rest).trans sublist
  | unlock _ =>
    apply inv.fanned
    rintro f ⟨⟩

theorem inv_of_run {acts : List Act} {s : State} (ran : machine.run new acts = some s) : Inv s :=
  Machine.invariant (m := machine) (fun _ _ _ inv stepped => inv.step stepped) Inv.new ran

end Atmin.EventHub
