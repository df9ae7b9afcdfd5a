import Atmin.Server.EventHub

/-!
# What the event hub sends

A `notify` comes to each connection of its user once, and each connection receives what it was
sent in the order of the notifies.
-/

namespace Atmin.EventHub

open Interaction

/-! ### What a subscription is sent -/

/-- The events that have got into the channel, in order. -/
def Subscription.sent (sub : Subscription) : List String := sub.received ++ sub.buffer

theorem trySend_sent {sub : Subscription} (event : String) (live : sub.stage = .live) :
    (sub.trySend event).sent =
      sub.sent ++ if sub.buffer.length < CHANNEL_BUFFER then [event] else [] := by
  unfold Subscription.trySend
  by_cases room : sub.buffer.length < CHANNEL_BUFFER
  · simp [room, live, Subscription.sent]
  · simp [room, Subscription.sent]

/-- A subscription stays its user's, and nothing but a `notify` that comes to it sends it anything. -/
theorem sent_step {s t : State} {a : Act} (inv : Inv s) (stepped : step s a = some t) {id : Nat}
    {sub : Subscription} (present : s.subs id = some sub) :
    ∃ sub', t.subs id = some sub' ∧ sub'.user = sub.user ∧ (sub'.sent = sub.sent ∨
      a = .trySend ∧ ∃ user event rest, s.fanout = some ⟨user, event, id :: rest⟩ ∧
        sub' = sub.trySend event) := by
  -- a change of another subscription, or one that sends nothing
  have update {other : Nat} {old : Subscription} (new_ : Subscription)
      (there : s.subs other = some old) (user : new_.user = old.user) (sent : new_.sent = old.sent) :
      ∃ sub', Function.update s.subs other (some new_) id = some sub' ∧ sub'.user = sub.user ∧
        sub'.sent = sub.sent := by
    by_cases same : id = other
    · subst same
      rw [present] at there
      cases there
      exact ⟨new_, Function.update_self .., user, sent⟩
    · exact ⟨sub, (Function.update_of_ne same ..).trans present, rfl, rfl⟩
  cases step_moves stepped with
  -- a new subscription has a new id
  | take =>
    have old : id ≠ s.nextId := by
      rintro rfl
      rw [inv.fresh _ (Nat.le_refl _)] at present
      cases present
    exact ⟨sub, (Function.update_of_ne old ..).trans present, rfl, Or.inl rfl⟩
  | @push _ old _ there _ =>
    obtain ⟨sub', found, user, sent⟩ := update { old with stage := .live } there rfl rfl
    exact ⟨sub', found, user, Or.inl sent⟩
  | @drop _ old _ there _ =>
    obtain ⟨sub', found, user, sent⟩ := update { old with stage := .dropped } there rfl rfl
    exact ⟨sub', found, user, Or.inl sent⟩
  -- what is received moves from the buffer to the received, and stays sent
  | @recv other old event buffer there _ oldest =>
    obtain ⟨sub', found, user, sent⟩ :=
      update { old with buffer := buffer, received := old.received ++ [event] } there rfl
        (by simp [Subscription.sent, oldest])
    exact ⟨sub', found, user, Or.inl sent⟩
  | lock => exact ⟨sub, present, rfl, Or.inl rfl⟩
  -- only this sends
  | @trySend user event head rest busy =>
    by_cases same : id = head
    · subst same
      refine ⟨sub.trySend event, ?_, trySend_user sub event, Or.inr ⟨rfl, user, event, rest, busy, rfl⟩⟩
      simp [present]
    · exact ⟨sub, (Function.update_of_ne same ..).trans present, rfl, Or.inl rfl⟩
  | unlock => exact ⟨sub, present, rfl, Or.inl rfl⟩

/-! ### In the order of the notifies -/

/-- The events that were notified to a user, in the order in which the lock was taken. -/
def notices (user : String) (acts : List Act) : List String :=
  acts.filterMap fun
    | .lock u event => if u = user then some event else none
    | _ => none

theorem notices_quiet {user : String} {acts : List Act} {a : Act} (quiet : ∀ u e, a ≠ .lock u e) :
    notices user (acts ++ [a]) = notices user acts := by
  cases a with
  | lock u e => exact absurd rfl (quiet u e)
  | _ => simp [notices]

theorem notices_lock {user other event : String} {acts : List Act} :
    notices user (acts ++ [.lock other event]) =
      notices user acts ++ if other = user then [event] else [] := by
  by_cases same : other = user
  · simp [notices, same]
  · simp [notices, same]

/-- What was sent is what was notified, with events left out; one that a `notify` has still to come
to has not been sent the last of them. -/
def InOrder (acts : List Act) (s : State) : Prop :=
  ∀ id sub, s.subs id = some sub → sub.sent.Sublist (notices sub.user acts) ∧
    ∀ f, s.fanout = some f → id ∈ f.rest →
      ∃ earlier, notices sub.user acts = earlier ++ [f.event] ∧ sub.sent.Sublist earlier

/-- A `notify` goes on with the list it began with, and only `lock` begins one. -/
theorem fanout_step {s t : State} {a : Act} (stepped : step s a = some t)
    (quiet : ∀ u e, a ≠ .lock u e) {f : Fanout} (fanning : t.fanout = some f) :
    s.fanout = some f ∨ ∃ id, a = .trySend ∧ s.fanout = some ⟨f.user, f.event, id :: f.rest⟩ := by
  cases step_moves stepped with
  | lock => exact absurd rfl (quiet _ _)
  | trySend busy =>
    simp only [Option.some.injEq] at fanning
    subst fanning
    exact Or.inr ⟨_, rfl, busy⟩
  | unlock => cases fanning
  | _ => exact Or.inl fanning

/-- A subscription that a step makes has been sent nothing. -/
theorem subs_new {s t : State} {a : Act} (inv : Inv s) (stepped : step s a = some t) {id : Nat}
    {sub : Subscription} (absent : s.subs id = none) (present : t.subs id = some sub) :
    sub.sent = [] ∧ sub.stage = .opened := by
  have other {i : Nat} {old : Subscription} (there : s.subs i = some old) : id ≠ i := by
    rintro rfl
    rw [absent] at there
    cases there
  cases step_moves stepped with
  | take =>
    by_cases same : id = s.nextId
    · subst same
      simp only [Function.update_self, Option.some.injEq] at present
      subst present
      exact ⟨rfl, rfl⟩
    · simp only [Function.update_of_ne same, absent] at present
      cases present
  | push _ there | drop _ there | recv there =>
    simp only [Function.update_of_ne (other there), absent] at present
    cases present
  | @trySend user event head rest busy =>
    obtain ⟨old, there, _⟩ := (inv.listed user head).mp
      ((inv.fanning _ busy).subset List.mem_cons_self)
    simp only [Function.update_of_ne (other there), absent] at present
    cases present
  | lock | unlock => rw [show s.subs id = some sub from present] at absent; cases absent

theorem InOrder.step {acts : List Act} {s t : State} {a : Act} (order : InOrder acts s) (inv : Inv s)
    (stepped : step s a = some t) : InOrder (acts ++ [a]) t := by
  intro id sub' present'
  have after_ := inv.step stepped
  cases old : s.subs id with
  | none =>
    obtain ⟨unsent, opened⟩ := subs_new inv stepped old present'
    rw [unsent]
    refine ⟨List.nil_sublist _, fun f fanning member => ?_⟩
    -- It is in no list yet.
    obtain ⟨live, here, _, stage⟩ :=
      (after_.listed f.user id).mp ((after_.fanning f fanning).subset member)
    rw [present'] at here
    cases here
    rw [opened] at stage
    cases stage
  | some sub =>
    obtain ⟨again, there, user, sent⟩ := sent_step inv stepped old
    rw [present'] at there
    cases there
    obtain ⟨sublist, last⟩ := order id sub old
    rw [user]
    cases a with
    | lock name event =>
      have same : sub'.sent = sub.sent := by
        rcases sent with same | ⟨mismatch, _⟩
        · exact same
        · cases mismatch
      rw [notices_lock, same]
      refine ⟨sublist.trans (List.sublist_append_left ..), fun f fanning member => ?_⟩
      cases step_moves stepped with
      | lock =>
        simp only [Option.some.injEq] at fanning
        subst fanning
        obtain ⟨listed, here, own, _⟩ := (inv.listed name id).mp member
        rw [old] at here
        cases here
        exact ⟨notices sub.user acts, by simp [own], sublist⟩
    | trySend =>
      rw [notices_quiet (by simp)]
      cases step_moves stepped with
      | @trySend name event head rest busy =>
        have unique : (head :: rest).Nodup := (inv.fanning _ busy).nodup (inv.nodup name)
        by_cases same : id = head
        · subst same
          obtain ⟨earlier, split, before⟩ := last _ busy List.mem_cons_self
          have grows : sub'.sent.Sublist (earlier ++ [event]) := by
            rcases sent with same | ⟨_, name', event', rest', busy', rfl⟩
            · rw [same]; exact before.trans (List.sublist_append_left ..)
            · rw [busy] at busy'
              cases busy'
              obtain ⟨listed, here, _, live⟩ := (inv.listed name id).mp
                ((inv.fanning _ busy).subset List.mem_cons_self)
              rw [old] at here
              cases here
              rw [trySend_sent event live]
              split
              next => exact before.append (List.Sublist.refl _)
              next => exact before.append (List.nil_sublist _)
          refine ⟨split ▸ grows, fun f fanning member => ?_⟩
          simp only [Option.some.injEq] at fanning
          subst fanning
          exact absurd member (List.nodup_cons.mp unique).1
        · have same' : sub'.sent = sub.sent := by
            rcases sent with same' | ⟨_, name', event', rest', busy', _⟩
            · exact same'
            · rw [busy] at busy'
              cases busy'
              exact absurd rfl same
          rw [same']
          refine ⟨sublist, fun f fanning member => ?_⟩
          simp only [Option.some.injEq] at fanning
          subst fanning
          exact last ⟨name, event, head :: rest⟩ busy (List.mem_cons_of_mem _ member)
    | take | push | drop | recv | unlock =>
      have same : sub'.sent = sub.sent := by
        rcases sent with same | ⟨mismatch, _⟩
        · exact same
        · cases mismatch
      rw [notices_quiet (by simp), same]
      refine ⟨sublist, fun f fanning member => last f ?_ member⟩
      rcases fanout_step stepped (by simp) fanning with before | ⟨_, mismatch, _⟩
      · exact before
      · cases mismatch

theorem inOrder_of_run {acts : List Act} {s : State} (ran : machine.run new acts = some s) :
    InOrder acts s := by
  apply Machine.run_induction (P := InOrder) _ _ ran
  · intro id sub present
    cases present
  · intro acts s a t reached order stepped
    exact order.step (inv_of_run reached) stepped

/-! ### One notify -/

/-- A `notify` has come to the connection once, when its buffer was as `cur` says. -/
def Tried (s : State) (user event : String) (mid : List Act) (id : Nat) (cur : Subscription) : Prop :=
  ∃ first last v rest, mid = first ++ .trySend :: last ∧
    machine.run s (.lock user event :: first) = some v ∧
    v.fanout = some ⟨user, event, id :: rest⟩ ∧ v.subs id = some cur

/-- While a `notify` of the user is at work: who it has come to was sent the event if there was room
for it, and to all others nothing was sent. -/
def Sending (s : State) (user event : String) (mid : List Act) (w : State) : Prop :=
  ∃ rest, w.fanout = some ⟨user, event, rest⟩ ∧ rest ⊆ s.conns user ∧
    ∀ id sub, s.subs id = some sub → ∃ sub', w.subs id = some sub' ∧
      (id ∈ rest ∨ id ∉ s.conns user → sub'.sent = sub.sent) ∧
      (id ∉ rest → id ∈ s.conns user → ∃ cur, Tried s user event mid id cur ∧
        sub'.sent = sub.sent ++ if cur.buffer.length < CHANNEL_BUFFER then [event] else [])

theorem Tried.more {s : State} {user event : String} {mid : List Act} {id : Nat} {cur : Subscription}
    (tried : Tried s user event mid id cur) (a : Act) : Tried s user event (mid ++ [a]) id cur := by
  obtain ⟨first, last, v, rest, split, ran, fanning, present⟩ := tried
  exact ⟨first, last ++ [a], v, rest, by simp [split], ran, fanning, present⟩

theorem Sending.step {s w t : State} {user event : String} {mid : List Act} {a : Act} (inv : Inv w)
    (ran : machine.run s (.lock user event :: mid) = some w) (sending : Sending s user event mid w)
    (stepped : step w a = some t) (on : a ≠ .unlock) : Sending s user event (mid ++ [a]) t := by
  obtain ⟨rest, fanning, own, each⟩ := sending
  -- The lock is held, so what moves is this `notify`, a receiver, or a `register` that takes an id.
  have busy : a = .trySend ∨ t.fanout = w.fanout ∧ a ≠ .trySend := by
    cases step_moves stepped with
    | trySend => exact Or.inl rfl
    | take | recv => exact Or.inr ⟨rfl, by simp⟩
    | push idle | drop idle | lock idle => rw [idle] at fanning; cases fanning
    | unlock => exact absurd rfl on
  rcases busy with rfl | ⟨same, quiet⟩
  · cases step_moves stepped with
    | @trySend name event' head later working =>
      rw [fanning] at working
      cases working
      have unique : (head :: later).Nodup := (inv.fanning _ fanning).nodup (inv.nodup user)
      refine ⟨later, rfl, fun i member => own (List.mem_cons_of_mem _ member), fun id sub present => ?_⟩
      obtain ⟨old, there, untouched, touched⟩ := each id sub present
      obtain ⟨new_, here, _, sent⟩ := sent_step inv stepped there
      have kept (other : id ≠ head) : new_.sent = old.sent := by
        rcases sent with kept | ⟨_, _, _, _, working', _⟩
        · exact kept
        · rw [fanning] at working'
          cases working'
          exact absurd rfl other
      refine ⟨new_, here, fun out => ?_, fun come listed => ?_⟩
      · have other : id ≠ head := by
          rintro rfl
          rcases out with still | unlisted
          · exact (List.nodup_cons.mp unique).1 still
          · exact unlisted (own List.mem_cons_self)
        exact (kept other).trans (untouched (out.imp_left (List.mem_cons_of_mem _)))
      · by_cases now : id = head
        · subst now
          obtain ⟨live, found, _, stage⟩ := (inv.listed user id).mp
            ((inv.fanning _ fanning).subset List.mem_cons_self)
          rw [there] at found
          cases found
          simp only [Function.update_self, there, Option.map_some, Option.some.injEq] at here
          subst here
          refine ⟨old, ⟨mid, [], w, later, rfl, ran, fanning, there⟩, ?_⟩
          rw [trySend_sent event stage, untouched (Or.inl List.mem_cons_self)]
        · obtain ⟨cur, tried, got⟩ := touched (by simp [now, come]) listed
          exact ⟨cur, tried.more .trySend, (kept now).trans got⟩
  · refine ⟨rest, same.trans fanning, own, fun id sub present => ?_⟩
    obtain ⟨old, there, untouched, touched⟩ := each id sub present
    obtain ⟨new_, here, _, sent⟩ := sent_step inv stepped there
    have kept : new_.sent = old.sent := by
      rcases sent with kept | ⟨mismatch, _⟩
      · exact kept
      · exact absurd mismatch quiet
    refine ⟨new_, here, fun out => kept.trans (untouched out), fun come listed => ?_⟩
    obtain ⟨cur, tried, got⟩ := touched come listed
    exact ⟨cur, tried.more a, kept.trans got⟩

theorem sending_of_run {s w : State} {user event : String} {mid : List Act} (inv : Inv s)
    (ran : machine.run s (.lock user event :: mid) = some w) (on : .unlock ∉ mid) :
    Sending s user event mid w := by
  obtain ⟨begun, locked, further⟩ := Machine.run_cons.mp ran
  have locked' : step s (.lock user event) = some begun := locked
  have start : Inv begun := inv.step locked'
  apply Machine.run_induction
    (P := fun mid w => Act.unlock ∉ mid → Sending s user event mid w) _ _ further on
  · intro _
    cases step_moves locked' with
    | lock idle =>
      refine ⟨s.conns user, rfl, fun _ => id, fun id sub present => ⟨sub, present, fun _ => rfl, ?_⟩⟩
      intro out listed
      exact absurd listed out
  · intro mid w a t reached sending stepped on
    simp only [List.mem_append, List.mem_singleton, not_or] at on
    have whole : machine.run s (.lock user event :: mid) = some w :=
      Machine.run_cons.mpr ⟨begun, locked, reached⟩
    have kept : Inv w := Machine.invariant (m := machine) (fun _ _ _ inv stepped => inv.step stepped)
      start reached
    exact (sending on.1).step kept whole stepped (Ne.symm on.2)

/-- In every interleaving: the hub's list of a user is that of its undropped subscriptions, and no
empty list is kept; every subscription is sent events of its user only, in the order of the
notifies; a `notify` that returns has sent its event once to each listed subscription whose buffer
held fewer than ten when it came to it, and nothing else to anyone; and what there is in the
channels never keeps it from coming to the next connection, or from returning. -/
theorem event_hub_mirrors (acts : List Act) (s : State) (ran : machine.run new acts = some s) :
    (∀ user, (s.conns user).Nodup ∧ s.clients user ≠ some [] ∧ ∀ id, id ∈ s.conns user ↔
      ∃ sub, s.subs id = some sub ∧ sub.user = user ∧ sub.stage = .live) ∧
    (∀ id sub, s.subs id = some sub → sub.buffer.length ≤ 10 ∧
      (sub.received ++ sub.buffer).Sublist (notices sub.user acts)) ∧
    (∀ user event mid t, machine.run s (.lock user event :: (mid ++ [.unlock])) = some t →
      .unlock ∉ mid → ∀ id sub, s.subs id = some sub → ∃ sub', t.subs id = some sub' ∧
        if id ∈ s.conns user then ∃ cur, Tried s user event mid id cur ∧
          sub'.sent = sub.sent ++ if cur.buffer.length < 10 then [event] else []
        else sub'.sent = sub.sent) ∧
    ∀ f, s.fanout = some f →
      ∃ t, machine.step s (if f.rest = [] then .unlock else .trySend) = some t := by
  have inv := inv_of_run ran
  refine ⟨fun user => ⟨inv.nodup user, inv.kept user, inv.listed user⟩, ?_, ?_, ?_⟩
  · intro id sub present
    exact ⟨inv.bounded id sub present, (inOrder_of_run ran id sub present).1⟩
  · intro user event mid t notified on id sub present
    rw [← List.cons_append] at notified
    obtain ⟨w, sent, returned⟩ := Machine.run_snoc.mp notified
    have returned : step w .unlock = some t := returned
    obtain ⟨rest, fanning, _, each⟩ := sending_of_run inv sent on
    cases step_moves returned with
    | unlock done =>
      rw [fanning] at done
      cases done
      obtain ⟨sub', there, untouched, touched⟩ := each id sub present
      refine ⟨sub', there, ?_⟩
      split
      next listed => exact touched List.not_mem_nil listed
      next unlisted => exact untouched (Or.inr unlisted)
  · rintro ⟨user, event, rest⟩ busy
    cases rest with
    | nil => exact ⟨{ s with fanout := none }, by simp [machine, EventHub.step, busy]⟩
    | cons id rest =>
      simp only [machine, EventHub.step, busy, reduceCtorEq, if_false, Option.some.injEq,
        exists_eq']

/-- Two connections of one user and one of another; a `notify` of the first user, between the two
sends of which the one that has it receives. -/
def twoDevices : List Act :=
  [.take "u", .push 0, .take "v", .take "u", .push 2, .push 1, .lock "u" "new_message", .trySend,
    .recv 0, .trySend, .unlock, .drop 0]

theorem twoDevices_mirrored :
    ∃ s, machine.run new twoDevices = some s ∧ s.conns "u" = [2] ∧ (s.conns "u").Nodup := by
  have ran : ((machine.run new twoDevices).any fun s => decide (s.conns "u" = [2])) = true := by decide
  obtain ⟨s, reached, left⟩ := (Option.any_eq_true _ _).mp ran
  exact ⟨s, reached, of_decide_eq_true left, ((event_hub_mirrors twoDevices s reached).1 "u").1⟩

end Atmin.EventHub
