import Atmin.Web.Argon2Worker

/-!
# What becomes of a call to the worker

A call gets the answer to its own request or none. It gets none where the timer that the answer to
another call started goes off before its own answer arrives, and in no other way.
-/

namespace Atmin.Argon2Worker

open Interaction Web

variable {crate : Crate} {s t : State} {a : Act} {acts : List Act}

/-! ### A call gets its own answer -/

/-- What the call would come to if the module ran on the page. -/
def Task.direct (crate : Crate) (fuel : Nat) (task : Task) : Option Outcome :=
  match task.request with
  | none => some .undecodable
  | some request => (answer crate fuel request).map task.settle

/-- The handler that had the request of call `id` ended without the module, with this text. -/
def NotLoaded (crate : Crate) (acts : List Act) (id : Nat) (text : String) : Prop :=
  ∃ before k place after s job, acts = before ++ .post k place (.notLoaded text) :: after ∧
    (machine crate).run start before = some s ∧
      (s.workers k).handling[place]? = some job ∧ job.id = id

/-- A response to the request of call `id`. -/
def Answers (crate : Crate) (acts : List Act) (id : Nat) (request : Request) (response : Response) :
    Prop :=
  (∃ fuel, answer crate fuel request = some response) ∨
    ∃ text, NotLoaded crate acts id text ∧ response = .error text

/-- An outcome of the task of call `id`. -/
def Due (crate : Crate) (acts : List Act) (id : Nat) (task : Task) (outcome : Outcome) : Prop :=
  (∃ fuel, task.direct crate fuel = some outcome) ∨
    ∃ text, NotLoaded crate acts id text ∧ outcome = .rejected text

theorem NotLoaded.later {id : Nat} {text : String} (here : NotLoaded crate acts id text) :
    NotLoaded crate (acts ++ [a]) id text := by
  obtain ⟨before, k, place, after, s, job, rfl, rest⟩ := here
  exact ⟨before, k, place, after ++ [a], s, job, by simp, rest⟩

theorem Answers.later {id : Nat} {request : Request} {response : Response}
    (here : Answers crate acts id request response) :
    Answers crate (acts ++ [a]) id request response := by
  refine here.imp_right ?_
  rintro ⟨text, failed, same⟩
  exact ⟨text, failed.later, same⟩

theorem Due.later {id : Nat} {task : Task} {outcome : Outcome}
    (here : Due crate acts id task outcome) : Due crate (acts ++ [a]) id task outcome := by
  refine here.imp_right ?_
  rintro ⟨text, failed, same⟩
  exact ⟨text, failed.later, same⟩

theorem Answers.settle {id : Nat} {task : Task} {request : Request} {response : Response}
    (its : task.request = some request) (here : Answers crate acts id request response) :
    Due crate acts id task (task.settle response) := by
  rcases here with ⟨fuel, answered⟩ | ⟨text, failed, rfl⟩
  · left
    refine ⟨fuel, ?_⟩
    simp only [Task.direct, its, answered, Option.map_some]
  · right
    refine ⟨text, failed, ?_⟩
    cases task <;> rfl

/-- The request that a call posted to worker `k`. -/
def Asks (s : State) (k id : Nat) (request : Request) : Prop :=
  ∃ c, s.calls id = some c ∧ c.worker = some k ∧ c.task.request = some request

/-- Whatever is under way at a worker belongs to the call whose id it bears. -/
structure Worker.Sound (crate : Crate) (acts : List Act) (s : State) (k : Nat) (w : Worker) :
    Prop where
  jobs : ∀ job, job ∈ w.inbox ∨ job ∈ w.handling → Asks s k job.id job.request
  responses : ∀ e ∈ w.outbox, ∃ request, Asks s k e.1 request ∧ Answers crate acts e.1 request e.2

structure Sound (crate : Crate) (acts : List Act) (s : State) : Prop where
  fresh : ∀ id, s.nextId ≤ id → s.calls id = none
  workers : ∀ k, (s.workers k).Sound crate acts s k
  settled : ∀ id c outcome, s.calls id = some c → c.outcome = some outcome →
    Due crate acts id c.task outcome

theorem Worker.Sound.later {k : Nat} {w : Worker} (sound : w.Sound crate acts s k)
    (asks : ∀ id request, Asks s k id request → Asks t k id request) :
    w.Sound crate (acts ++ [a]) t k where
  jobs job member := asks _ _ (sound.jobs job member)
  responses e member := by
    obtain ⟨request, its, answers⟩ := sound.responses e member
    exact ⟨request, asks _ _ its, answers.later⟩

/-- A call that is new, or that only gets its outcome, leaves the others' requests alone. -/
theorem asks_putCall {new k id : Nat} {c : Call} {request : Request}
    (kept : ∀ c', s.calls new = some c' → c.worker = c'.worker ∧ c.task = c'.task)
    (asks : Asks s k id request) : Asks (s.putCall new c) k id request := by
  obtain ⟨c', found, its, request⟩ := asks
  by_cases this : id = new
  · subst this
    obtain ⟨worker, task⟩ := kept c' found
    exact ⟨c, Function.update_self .., worker.trans its, by rw [task, request]⟩
  · exact ⟨c', (Function.update_of_ne this ..).trans found, its, request⟩

/-- The settled calls after a call was made or got its outcome. -/
theorem settled_putCall {new : Nat} {c : Call}
    (all : ∀ id c outcome, s.calls id = some c → c.outcome = some outcome →
      Due crate acts id c.task outcome)
    (this : ∀ outcome, c.outcome = some outcome → Due crate (acts ++ [a]) new c.task outcome) :
    ∀ id c' outcome, (s.putCall new c).calls id = some c' → c'.outcome = some outcome →
      Due crate (acts ++ [a]) id c'.task outcome := by
  intro id c' outcome found its
  by_cases same : id = new
  · subst same
    cases (Function.update_self ..).symm.trans found
    exact this outcome its
  · exact (all id c' outcome ((Function.update_of_ne same ..).symm.trans found) its).later

/-- Only one worker moves. -/
theorem sound_update {k : Nat} {w : Worker} (here : w.Sound crate acts t k)
    (others : ∀ j, (s.workers j).Sound crate acts t j) (j : Nat) :
    (Function.update s.workers k w j).Sound crate acts t j := by
  by_cases same : j = k
  · subst same
    rw [Function.update_self]
    exact here
  · rw [Function.update_of_ne same]
    exact others j

theorem Sound.step (sound : Sound crate acts s) (ran : (machine crate).run start acts = some s)
    (stepped : step crate s a = some t) : Sound crate (acts ++ [a]) t := by
  have new (c : Call) : ∀ c', s.calls s.nextId = some c' → c.worker = c'.worker ∧ c.task = c'.task := by
    intro c' found
    rw [sound.fresh _ le_rfl] at found
    cases found
  have others (c : Call) (id : Nat) (above : s.nextId + 1 ≤ id) :
      (s.putCall s.nextId c).calls id = none :=
    (Function.update_of_ne (by omega) ..).trans (sound.fresh id (by omega))
  have kept : ∀ id c outcome, s.calls id = some c → c.outcome = some outcome →
      Due crate (acts ++ [a]) id c.task outcome :=
    fun id c outcome found its => (sound.settled id c outcome found its).later
  -- A worker other than the one that moves.
  have idle {u : State} (same : u.calls = s.calls) (j : Nat) :
      (s.workers j).Sound crate (acts ++ [a]) u j := by
    refine (sound.workers j).later fun id request asks => ?_
    rw [Asks, same]
    exact asks
  cases step_moves stepped with
  | undecodable none_ =>
    refine ⟨others _, fun k => (sound.workers k).later fun _ _ => asks_putCall (new _), ?_⟩
    refine settled_putCall sound.settled fun outcome its => ?_
    cases its
    left
    exact ⟨0, by simp only [Task.direct, none_]⟩
  | @call task request k n some_ which =>
    refine ⟨others _, sound_update ?_ fun j => (sound.workers j).later fun _ _ =>
      asks_putCall (new _), settled_putCall sound.settled fun outcome its => by cases its⟩
    have before := (sound.workers k).later (a := .call task) fun id request =>
      asks_putCall (c := ⟨task, some k, none⟩) (new _)
    refine ⟨fun job member => ?_, before.responses⟩
    rcases member with waiting | handled
    · rcases List.mem_append.mp waiting with old | this
      · exact before.jobs job (.inl old)
      · obtain rfl := List.mem_singleton.mp this
        exact ⟨_, Function.update_self .., rfl, some_⟩
    · exact before.jobs job (.inr handled)
  | @receive k job rest waiting =>
    refine ⟨sound.fresh, sound_update ?_ (idle rfl), kept⟩
    refine ⟨fun job' member => (idle rfl k).jobs job' ?_, (idle rfl k).responses⟩
    rw [waiting]
    rcases member with later | handled
    · exact .inl (List.mem_cons_of_mem _ later)
    · rcases List.mem_append.mp handled with old | this
      · exact .inr old
      · obtain rfl := List.mem_singleton.mp this
        exact .inl List.mem_cons_self
  | @post k place how job response found ended =>
    refine ⟨sound.fresh, sound_update ?_ (idle rfl), kept⟩
    refine ⟨fun job' member => (idle rfl k).jobs job' ?_, fun e member => ?_⟩
    · exact member.imp_right List.mem_of_mem_eraseIdx
    · rcases List.mem_append.mp member with old | this
      · exact (idle rfl k).responses e old
      · obtain rfl := List.mem_singleton.mp this
        refine ⟨job.request, (idle rfl k).jobs job (.inr (List.mem_of_getElem? found)), ?_⟩
        cases how with
        | answered fuel => exact .inl ⟨fuel, ended⟩
        | notLoaded text =>
          cases ended
          exact .inr ⟨text, ⟨acts, k, place, [], s, job, rfl, ran, found, rfl⟩, rfl⟩
  | @settle k id response rest task first pending =>
    have same (c' : Call) (found : s.calls id = some c') : some k = c'.worker ∧ task = c'.task := by
      rw [pending] at found
      cases found
      exact ⟨rfl, rfl⟩
    obtain ⟨request, ⟨c, found, _, its⟩, answers⟩ :=
      (sound.workers k).responses (id, response) (by simp [first])
    rw [pending] at found
    cases found
    refine ⟨fun id' above => ?_, sound_update ?_ fun j => (sound.workers j).later fun _ _ =>
      asks_putCall same, settled_putCall sound.settled fun outcome here => ?_⟩
    · have older : id' ≠ id := by
        rintro rfl
        rw [sound.fresh _ above] at pending
        cases pending
      exact (Function.update_of_ne older ..).trans (sound.fresh id' above)
    · have before := (sound.workers k).later (a := .deliver k) fun id' request =>
        asks_putCall (c := ⟨task, some k, some (task.settle response)⟩) same
      exact ⟨before.jobs, fun e member => before.responses e (by simp [first, member])⟩
    · cases here
      exact answers.later.settle its
  | @unheard k id response rest first silent =>
    refine ⟨sound.fresh, sound_update ?_ (idle rfl), kept⟩
    exact ⟨(idle rfl k).jobs, fun e member => (idle rfl k).responses e (by simp [first, member])⟩
  | tick => exact ⟨sound.fresh, idle rfl, kept⟩
  | @fire due k armed late current =>
    refine ⟨sound.fresh, sound_update ?_ (idle rfl), kept⟩
    exact ⟨fun job member => by simp at member, fun e member => by simp at member⟩
  | idle => exact ⟨sound.fresh, idle rfl, kept⟩

theorem sound_of_run (ran : (machine crate).run start acts = some s) : Sound crate acts s := by
  refine Machine.run_induction (P := Sound crate) ?_ ?_ ran
  · exact ⟨fun _ _ => rfl, fun _ => ⟨fun _ member => by simp [start] at member,
      fun _ member => by simp [start] at member⟩, fun _ _ _ found => by cases found⟩
  · exact fun _ _ _ _ before sound stepped => sound.step before stepped

/-! ### What is settled stays -/

theorem settled_step {id : Nat} {c : Call} (fresh : ∀ id, s.nextId ≤ id → s.calls id = none)
    (found : s.calls id = some c) (done : c.outcome ≠ none) (stepped : step crate s a = some t) :
    t.calls id = some c := by
  have old : id ≠ s.nextId := by
    rintro rfl
    rw [fresh _ le_rfl] at found
    cases found
  cases step_moves stepped with
  | undecodable | call => exact (Function.update_of_ne old ..).trans found
  | @settle k id' response rest task first pending =>
    have other : id ≠ id' := by
      rintro rfl
      rw [pending] at found
      cases found
      exact done rfl
    exact (Function.update_of_ne other ..).trans found
  | _ => exact found

/-- A call comes to what its own job comes to, unless the module did not load for the handler of its
own request, and whatever it comes to is the last word. -/
theorem call_gets_own_answer (ran : (machine crate).run start acts = some s) {id : Nat} {c : Call}
    {outcome : Outcome} (found : s.calls id = some c) (settled : c.outcome = some outcome) :
    ((∃ fuel, c.task.direct crate fuel = some outcome) ∨
        ∃ text, NotLoaded crate acts id text ∧ outcome = .rejected text) ∧
      ∀ more t, (machine crate).run s more = some t → t.calls id = some c := by
  constructor
  · exact (sound_of_run ran).settled id c outcome found settled
  · intro more t further
    refine Machine.run_induction (P := fun _ t => t.calls id = some c) found ?_ further
    intro more t a u there before stepped
    have sound := sound_of_run (Machine.run_append.mpr ⟨s, ran, there⟩)
    exact settled_step sound.fresh before (by rw [settled]; simp) stepped

/-! ### When a call gets no answer -/

/-- The worker still has the request or the response. -/
def Worker.Has (w : Worker) (id : Nat) : Prop :=
  (∃ job, (job ∈ w.inbox ∨ job ∈ w.handling) ∧ job.id = id) ∨ ∃ response, (id, response) ∈ w.outbox

/-- A call that waits for worker `k`. -/
def State.Waits (s : State) (id k : Nat) : Prop := ∃ task, s.calls id = some ⟨task, some k, none⟩

/-- After `before` worker `k` delivers the answer to a call, and `during` leads on to `last`. -/
structure Answered (crate : Crate) (before during : List Act) (k other : Nat) (first last : State) :
    Prop where
  here : (machine crate).run start before = some first
  there : (machine crate).run first (.deliver k :: during) = some last
  response : ∃ response rest, (first.workers k).outbox = (other, response) :: rest
  heard : first.Waits other k

/-- The answer to another call came while this one was waiting, and the timer that it started went
off and took the worker with it. -/
def Lost (crate : Crate) (acts : List Act) (id k : Nat) : Prop :=
  ∃ before during after other first last, acts = before ++ .deliver k :: during ++ .fire :: after ∧
    Answered crate before during k other first last ∧ other ≠ id ∧ first.Waits id k ∧
      last.idleTimer = some (first.now + IDLE_SHUTDOWN_MS) ∧ last.worker = some k ∧
        first.now + IDLE_SHUTDOWN_MS ≤ last.now

theorem Lost.later {id k : Nat} (lost : Lost crate acts id k) : Lost crate (acts ++ [a]) id k := by
  obtain ⟨before, during, after, other, first, last, rfl, rest⟩ := lost
  exact ⟨before, during, after ++ [a], other, first, last, by simp, rest⟩

/-- A call that has its outcome does not wait. -/
theorem waits_putCall {new id k : Nat} {c : Call} {outcome : Outcome}
    (settled : c.outcome = some outcome) (waits : (s.putCall new c).Waits id k) :
    id ≠ new ∧ s.Waits id k := by
  obtain ⟨task, found⟩ := waits
  by_cases this : id = new
  · subst this
    cases (Function.update_self ..).symm.trans found
    cases settled
  · exact ⟨this, task, (Function.update_of_ne this ..).symm.trans found⟩

/-- A timer that runs was started by an answer, and every call that waits now waited then. -/
def Timed (crate : Crate) (acts : List Act) (s : State) : Prop :=
  ∀ due, s.idleTimer = some due → ∃ before during k other first,
    acts = before ++ .deliver k :: during ∧ Answered crate before during k other first s ∧
      due = first.now + IDLE_SHUTDOWN_MS ∧ s.worker = some k ∧
        ∀ id j, s.Waits id j → other ≠ id ∧ first.Waits id j

/-- An action that starts no timer and makes no call. -/
theorem Timed.later (timed : Timed crate acts s) (stepped : step crate s a = some t)
    (timer : t.idleTimer = s.idleTimer) (worker : t.worker = s.worker)
    (calls : ∀ id k, t.Waits id k → s.Waits id k) : Timed crate (acts ++ [a]) t := by
  intro due armed
  obtain ⟨before, during, k, other, first, rfl, answered, its, current, waited⟩ :=
    timed due (timer ▸ armed)
  refine ⟨before, during ++ [a], k, other, first, by simp, ?_, its, worker.trans current, ?_⟩
  · exact { answered with
      there := by
        rw [← List.cons_append]
        exact Machine.run_snoc.mpr ⟨s, answered.there, stepped⟩ }
  · exact fun id j waits => waited id j (calls id j waits)

/-- A call waits for the worker that runs and that has its request or response, or it is lost. -/
def Kept (crate : Crate) (acts : List Act) (s : State) : Prop :=
  ∀ id k, s.Waits id k → s.worker = some k ∧ (s.workers k).Has id ∨ Lost crate acts id k

/-- An action that makes no call, ends none and keeps what the worker has. -/
theorem Kept.later (kept : Kept crate acts s) (worker : t.worker = s.worker)
    (calls : ∀ id k, t.Waits id k → s.Waits id k)
    (has : ∀ id k, t.Waits id k → (s.workers k).Has id → (t.workers k).Has id) :
    Kept crate (acts ++ [a]) t := by
  intro id k waits
  rcases kept id k (calls id k waits) with ⟨current, here⟩ | lost
  · exact .inl ⟨worker.trans current, has id k waits here⟩
  · exact .inr lost.later

/-- A worker that is not the current one has nothing, and no call belongs to one yet to come. -/
structure Spawned (s : State) : Prop where
  current : ∀ k, s.worker = some k → k < s.spawned
  others : ∀ k, s.worker ≠ some k → s.workers k = {}
  calls : ∀ id c k, s.calls id = some c → c.worker = some k → k < s.spawned

theorem Spawned.nonempty {k : Nat} (spawned : Spawned s) (some_ : s.workers k ≠ {}) :
    s.worker = some k := by
  by_contra other
  exact some_ (spawned.others k other)

/-- Only the current worker moves. -/
theorem others_update {k : Nat} {w : Worker} (spawned : Spawned s) (some_ : s.workers k ≠ {}) :
    ∀ j, s.worker ≠ some j → Function.update s.workers k w j = {} := by
  intro j other
  have moves : j ≠ k := by
    rintro rfl
    exact other (spawned.nonempty some_)
  rw [Function.update_of_ne moves]
  exact spawned.others j other

theorem Spawned.step (spawned : Spawned s) (stepped : step crate s a = some t) : Spawned t := by
  cases step_moves stepped with
  -- a call that is refused at once has no worker
  | undecodable none_ =>
    refine ⟨spawned.current, spawned.others, fun id c k found its => ?_⟩
    by_cases this : id = s.nextId
    · subst this
      cases (Function.update_self ..).symm.trans found
      cases its
    · exact spawned.calls id c k ((Function.update_of_ne this ..).symm.trans found) its
  -- the request goes to the current worker or to a new one
  | @call task request k n some_ which =>
    have grown : s.spawned ≤ n ∧ k < n := by
      rcases which with ⟨current, rfl⟩ | ⟨_, rfl, rfl⟩
      · exact ⟨le_rfl, spawned.current k current⟩
      · exact ⟨Nat.le_succ _, Nat.lt_succ_self _⟩
    refine ⟨fun j its => Option.some.inj its ▸ grown.2, fun j other => ?_, fun id c j found its => ?_⟩
    · have apart : j ≠ k := fun same => other (congrArg some same.symm)
      refine (Function.update_of_ne apart ..).trans (spawned.others j ?_)
      rcases which with ⟨current, _⟩ | ⟨none_, _⟩
      · rw [current]
        exact fun same => apart (Option.some.inj same).symm
      · simp [none_]
    · by_cases this : id = s.nextId
      · subst this
        cases (Function.update_self ..).symm.trans found
        cases its
        exact grown.2
      · exact (spawned.calls id c j ((Function.update_of_ne this ..).symm.trans found) its).trans_le
          grown.1
  -- messages come only from workers that were spawned
  | @receive k job rest waiting =>
    refine ⟨spawned.current, others_update spawned fun none_ => ?_, spawned.calls⟩
    simp [none_] at waiting
  | @post k place how job response found ended =>
    refine ⟨spawned.current, others_update spawned fun none_ => ?_, spawned.calls⟩
    simp [none_] at found
  | @settle k id response rest task first pending =>
    refine ⟨spawned.current, others_update spawned fun none_ => ?_, fun id' c j found its => ?_⟩
    · simp [none_] at first
    · by_cases this : id' = id
      · subst this
        cases (Function.update_self ..).symm.trans found
        exact spawned.calls id' _ j pending its
      · exact spawned.calls id' c j ((Function.update_of_ne this ..).symm.trans found) its
  | @unheard k id response rest first silent =>
    refine ⟨spawned.current, others_update spawned fun none_ => ?_, spawned.calls⟩
    simp [none_] at first
  | tick => exact ⟨spawned.current, spawned.others, spawned.calls⟩
  -- the current worker is shut down
  | @fire due k armed late current =>
    refine ⟨fun j its => by simp at its, fun j _ => ?_, spawned.calls⟩
    by_cases same : j = k
    · subst same
      exact Function.update_self ..
    · refine (Function.update_of_ne same ..).trans (spawned.others j ?_)
      rw [current]
      exact fun same' => same (Option.some.inj same').symm
  | idle => exact ⟨spawned.current, spawned.others, spawned.calls⟩

/-- A worker that changes still has what it had. -/
theorem has_update {k j id : Nat} {w : Worker} (here : (s.workers j).Has id)
    (has : j = k → (s.workers k).Has id → w.Has id) : (Function.update s.workers k w j).Has id := by
  by_cases same : j = k
  · subst same
    rw [Function.update_self]
    exact has rfl here
  · rw [Function.update_of_ne same]
    exact here

theorem Timed.step (spawned : Spawned s) (timed : Timed crate acts s)
    (ran : (machine crate).run start acts = some s) (stepped : step crate s a = some t) :
    Timed crate (acts ++ [a]) t := by
  have moves := step_moves stepped
  cases moves with
  | undecodable none_ =>
    exact timed.later stepped rfl rfl fun id j waits => (waits_putCall rfl waits).2
  | call => intro due armed; cases armed
  | receive | post | unheard | tick => exact timed.later stepped rfl rfl fun _ _ waits => waits
  | @settle k id response rest task first pending =>
    intro due armed
    cases armed
    refine ⟨acts, [], k, id, s, rfl, ⟨ran, ?_, ⟨response, rest, first⟩, ⟨task, pending⟩⟩, rfl, ?_, ?_⟩
    · exact Machine.run_cons.mpr ⟨_, stepped, rfl⟩
    · exact spawned.nonempty fun none_ => by simp [none_] at first
    · intro id' j waits
      obtain ⟨other, before⟩ := waits_putCall rfl waits
      exact ⟨other.symm, before⟩
  | fire | idle => intro due armed; cases armed

theorem Kept.step (timed : Timed crate acts s) (kept : Kept crate acts s)
    (stepped : step crate s a = some t) : Kept crate (acts ++ [a]) t := by
  cases step_moves stepped with
  | undecodable none_ =>
    exact kept.later rfl (fun id k waits => (waits_putCall rfl waits).2) fun _ _ _ has => has
  | @call task request k n some_ which =>
    rintro id j ⟨task', waits⟩
    by_cases this : id = s.nextId
    · subst this
      cases (Function.update_self ..).symm.trans waits
      left
      refine ⟨rfl, .inl ⟨⟨s.nextId, request⟩, .inl ?_, rfl⟩⟩
      simp [State.posted]
    · rcases kept id j ⟨task', (Function.update_of_ne this ..).symm.trans waits⟩ with
        ⟨current, here⟩ | lost
      · rcases which with ⟨running, _⟩ | ⟨none_, _⟩
        · refine .inl ⟨(running.symm.trans current), ?_⟩
          refine has_update here fun _ had => had.imp_left ?_
          rintro ⟨job, place, its⟩
          exact ⟨job, place.imp_left (List.mem_append_left _), its⟩
        · rw [none_] at current
          cases current
      · exact .inr lost.later
  | @receive k job rest waiting =>
    refine kept.later rfl (fun _ _ waits => waits) fun id j _ here => ?_
    refine has_update here fun _ had => had.imp_left ?_
    rintro ⟨job', place, its⟩
    refine ⟨job', ?_, its⟩
    rw [waiting, List.mem_cons] at place
    rcases place with (rfl | later) | handled
    · exact .inr (by simp)
    · exact .inl later
    · exact .inr (List.mem_append_left _ handled)
  | @post k place how job response found ended =>
    refine kept.later rfl (fun _ _ waits => waits) fun id j _ here => ?_
    refine has_update here fun _ had => ?_
    rcases had with ⟨job', inbox | handled, its⟩ | ⟨response', posted⟩
    · exact .inl ⟨job', .inl inbox, its⟩
    · -- It was the handler that ended, or another one.
      obtain ⟨i, bound, at_⟩ := List.getElem_of_mem handled
      by_cases this : i = place
      · subst this
        rw [List.getElem?_eq_getElem bound, at_] at found
        cases found
        exact .inr ⟨response, by simp [its]⟩
      · refine .inl ⟨job', .inr ?_, its⟩
        exact List.mem_eraseIdx_iff_getElem.mpr ⟨i, bound, this, at_⟩
    · exact .inr ⟨response', List.mem_append_left _ posted⟩
  | @settle k id response rest task first pending =>
    refine kept.later rfl (fun id' j waits => (waits_putCall rfl waits).2) fun id' j waits here => ?_
    refine has_update here fun _ had => had.imp_right ?_
    rintro ⟨response', posted⟩
    rw [first, List.mem_cons] at posted
    rcases posted with same | later
    · exact absurd (congrArg Prod.fst same) (waits_putCall rfl waits).1
    · exact ⟨response', later⟩
  | @unheard k id response rest first silent =>
    refine kept.later rfl (fun _ _ waits => waits) fun id' j waits here => ?_
    refine has_update here fun at_ had => had.imp_right ?_
    rintro ⟨response', posted⟩
    rw [first, List.mem_cons] at posted
    rcases posted with same | later
    · -- Its own listener would have heard it.
      obtain ⟨task, found⟩ := waits
      cases same
      subst at_
      exact absurd found (silent task)
    · exact ⟨response', later⟩
  | tick => exact kept.later rfl (fun _ _ waits => waits) fun _ _ _ has => has
  | @fire due k armed late current =>
    rintro id j ⟨task, waits⟩
    right
    rcases kept id j ⟨task, waits⟩ with ⟨current', _⟩ | lost
    · obtain ⟨before, during, k', other, first, rfl, answered, rfl, running, waited⟩ := timed due armed
      obtain ⟨apart, then_⟩ := waited id j ⟨task, waits⟩
      rw [running] at current'
      cases current'
      exact ⟨before, during, [], other, first, s, by simp, answered, apart, then_, armed, running, late⟩
    · exact lost.later
  | idle => exact kept.later rfl (fun _ _ waits => waits) fun _ _ _ has => has

/-- In every run a call that waits has its request or response at the worker that runs, or the answer
to another call that waited at the same time has shut that worker down. -/
theorem waiting_call_is_kept_or_lost (ran : (machine crate).run start acts = some s) {id k : Nat}
    (waits : s.Waits id k) : s.worker = some k ∧ (s.workers k).Has id ∨ Lost crate acts id k := by
  have all : Spawned s ∧ Timed crate acts s ∧ Kept crate acts s := by
    refine Machine.run_induction
      (P := fun acts s => Spawned s ∧ Timed crate acts s ∧ Kept crate acts s) ⟨?_, ?_, ?_⟩ ?_ ran
    · exact ⟨fun _ its => (by cases its), fun _ _ => rfl, fun _ _ _ found => (by cases found)⟩
    · intro _ armed
      cases armed
    · rintro _ _ ⟨_, found⟩
      cases found
    · rintro acts t a u before ⟨spawned, timed, kept⟩ stepped
      exact ⟨spawned.step stepped, timed.step spawned before stepped, kept.step timed stepped⟩
  exact all.2.2 id k waits

/-! ### Two calls at once -/

def sampleCrate : Crate where
  params _ _ _ _ := true
  hashInto _ _ _ len _ _ := some (List.replicate len 0)
  paramsText _ _ _ _ := ""
  hashText _ _ _ _ _ := ""

def stretch : Task := .argonStretch "pass" (List.replicate 16 0) ⟨"argon2id", 65536, 3, 1⟩

/-- Two stretches; the second is still computed ten seconds after the first was answered. -/
def twoStretches : List Act :=
  [.call stretch, .call stretch, .receive 0, .receive 0, .post 0 0 (.answered 0), .deliver 0,
    .tick IDLE_SHUTDOWN_MS, .fire]

theorem first_stretch_answered : ∃ s c, (machine sampleCrate).run start twoStretches = some s ∧
    s.calls 0 = some c ∧ c.outcome = some (.secret (List.replicate 16 0)) ∧
      ((∃ fuel, c.task.direct sampleCrate fuel = some (.secret (List.replicate 16 0))) ∨
        ∃ text, NotLoaded sampleCrate twoStretches 0 text ∧
          Outcome.secret (List.replicate 16 0) = .rejected text) ∧
        ∀ more t, (machine sampleCrate).run s more = some t → t.calls 0 = some c := by
  refine ⟨_, _, rfl, rfl, rfl, ?_⟩
  exact call_gets_own_answer rfl rfl rfl

theorem second_stretch_lost : ∃ s, (machine sampleCrate).run start twoStretches = some s ∧
    s.Waits 1 0 ∧ (s.worker = some 0 ∧ (s.workers 0).Has 1 ∨ Lost sampleCrate twoStretches 1 0) := by
  refine ⟨_, rfl, ⟨stretch, rfl⟩, ?_⟩
  exact waiting_call_is_kept_or_lost rfl ⟨stretch, rfl⟩

end Atmin.Argon2Worker
