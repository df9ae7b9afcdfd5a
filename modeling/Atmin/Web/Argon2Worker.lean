import Atmin.Access.ProofOfWork
import Atmin.Interaction.Machine
import Mathlib.Logic.Function.Basic

/-!
# The Argon2id worker (`argon2-worker.client.ts`, `argon2-worker.ts`, `argon2.rs`)

A page keeps one worker for all its calls. A call takes an id, posts its request under it, and
listens for the answer with that id; each answer starts a timer, which terminates the worker unless
another call stops it first.
-/

namespace Atmin.Argon2Worker

open Interaction Web

/-! ### The jobs -/

/-- The `argon2` crate, with the texts of its errors. They do not depend on the password. -/
structure Crate extends Argon2id where
  paramsText : UInt32 → UInt32 → UInt32 → Nat → String
  hashText : UInt32 → UInt32 → UInt32 → Nat → List UInt8 → String

/-- `Argon2Request` without its id. -/
inductive Request where
  | derive (password salt : List UInt8) (kdf : KdfParams)
  | pow (nonce : List UInt8) (m t p bits : UInt32)
  deriving DecidableEq, Repr

/-- `Argon2Response` without its id. -/
inductive Response where
  | secret (bytes : List UInt8)
  | counter (n : Nat)
  | error (text : String)
  deriving DecidableEq, Repr

section Jobs

variable (crate : Crate)

def derive_secret (password salt : List UInt8) (m t p : UInt32) : Except String (List UInt8) :=
  if salt.length ≠ 16 then
    .error ("salt must be 16 bytes, got " ++ toString salt.length)
  else if crate.params m t p 16 then
    match crate.hashInto m t p 16 password salt with
    | some out => .ok out
    | none => .error ("argon2 derivation failed: " ++ crate.hashText m t p 16 salt)
  else .error ("invalid argon2 params: " ++ crate.paramsText m t p 16)

def powError (nonce : List UInt8) (m t p : UInt32) : String :=
  if crate.params m t p 32 then "argon2 pow failed: " ++ crate.hashText m t p 32 nonce
  else "invalid argon2 params: " ++ crate.paramsText m t p 32

/-- What the worker posts; a search may still be running after so many attempts. -/
def answer (fuel : Nat) : Request → Option Response
  | .derive password salt kdf => match derive_secret crate password salt kdf.m kdf.t kdf.p with
    | .ok bytes => some (.secret bytes)
    | .error text => some (.error text)
  | .pow nonce m t p bits => match solve_pow crate.toArgon2id nonce m t p bits fuel with
    | .running => none
    | .failed => some (.error (powError crate nonce m t p))
    | .found n => some (.counter n)

end Jobs

/-! ### The calls -/

inductive Task where
  | argonStretch (password : String) (salt : List UInt8) (kdf : KdfParams)
  | solvePow (challenge : PowChallenge)
  deriving DecidableEq, Repr

/-- The request of a call, unless the nonce is no base64. -/
def Task.request : Task → Option Request
  | .argonStretch password salt kdf => some (.derive (Token.utf8 password) salt kdf)
  | .solvePow c =>
    (base64UrlDecode atob (.str c.nonce)).map fun nonce => .pow nonce c.m c.t c.p c.bits

inductive Outcome where
  | secret (bytes : List UInt8)
  | counter (n : Nat)
  /-- The error of a job or of loading the module. -/
  | rejected (text : String)
  /-- `unexpected worker response`. -/
  | unexpected
  /-- The nonce cannot be decoded. -/
  | undecodable
  deriving DecidableEq, Repr

/-- What a call makes of its response. -/
def Task.settle : Task → Response → Outcome
  | _, .error text => .rejected text
  | .argonStretch .., .secret bytes => .secret bytes
  | .argonStretch .., .counter _ => .unexpected
  | .solvePow _, .counter n => .counter n
  | .solvePow _, .secret _ => .unexpected

/-! ### The page and its workers -/

structure Job where
  id : Nat
  request : Request
  deriving DecidableEq, Repr

/-- Handlers wait for the module to load, so several can be open; they end in any order. -/
structure Worker where
  inbox : List Job := []
  handling : List Job := []
  /-- Posted to the page and not delivered yet. -/
  outbox : List (Nat × Response) := []
  deriving DecidableEq, Repr

/-- A call is named by its id. Its listener stays at its worker until it has its answer. -/
structure Call where
  task : Task
  worker : Option Nat
  outcome : Option Outcome
  deriving DecidableEq, Repr

structure State where
  /-- In milliseconds. -/
  now : Nat := 0
  nextId : Nat := 0
  worker : Option Nat := none
  /-- When it is due. -/
  idleTimer : Option Nat := none
  spawned : Nat := 0
  workers : Nat → Worker := fun _ => {}
  calls : Nat → Option Call := fun _ => none

def IDLE_SHUTDOWN_MS : Nat := 10000

namespace State

variable (s : State)

def putWorker (k : Nat) (w : Worker) : State := { s with workers := Function.update s.workers k w }

def putCall (id : Nat) (c : Call) : State := { s with calls := Function.update s.calls id (some c) }

/-- The worker stops for good, and what it has not delivered is discarded. -/
def terminate (k : Nat) : State := s.putWorker k {}

/-- `getWorker`. -/
def getWorker : Nat × State :=
  match s.worker with
  | some k => (k, { s with idleTimer := none })
  | none => (s.spawned, { s with
      idleTimer := none
      worker := some s.spawned
      spawned := s.spawned + 1 })

def scheduleShutdown : State := { s with idleTimer := some (s.now + IDLE_SHUTDOWN_MS) }

/-- `w.postMessage(req)`. -/
def postMessage (k : Nat) (job : Job) : State :=
  s.putWorker k { s.workers k with inbox := (s.workers k).inbox ++ [job] }

/-- `nextId++`, and then `runWorker`, unless the arguments throw. -/
def call (task : Task) : State :=
  let id := s.nextId
  let s := { s with nextId := id + 1 }
  match task.request with
  | none => s.putCall id ⟨task, none, some .undecodable⟩
  | some request =>
    let (k, s) := s.getWorker
    (s.putCall id ⟨task, some k, none⟩).postMessage k ⟨id, request⟩

/-- The response comes to every listener at the worker; the one with its id takes it. -/
def dispatch (k id : Nat) (response : Response) : State :=
  match s.calls id with
  | some ⟨task, some k', none⟩ =>
    if k' = k then
      (s.putCall id ⟨task, some k, some (task.settle response)⟩).scheduleShutdown
    else s
  | _ => s

/-- The callback of the timer. -/
def shutdown : State :=
  match s.worker with
  | some k => { s.terminate k with worker := none, idleTimer := none }
  | none => { s with idleTimer := none }

end State

/-- How a handler ends: with the answer to its request, or because the module does not load. -/
inductive Ending where
  | answered (fuel : Nat)
  | notLoaded (text : String)
  deriving DecidableEq, Repr

inductive Act where
  | call (task : Task)
  /-- The worker takes up the next message. -/
  | receive (k : Nat)
  /-- The handler at this place of the list ends. -/
  | post (k place : Nat) (how : Ending)
  /-- The page gets the next response of the worker. -/
  | deliver (k : Nat)
  | tick (ms : Nat)
  | fire
  deriving DecidableEq, Repr

section Steps

variable (crate : Crate)

def Ending.response (request : Request) : Ending → Option Response
  | .answered fuel => answer crate fuel request
  | .notLoaded text => some (.error text)

def step (s : State) : Act → Option State
  | .call task => some (s.call task)
  | .receive k => match (s.workers k).inbox with
    | job :: rest => some (s.putWorker k { s.workers k with
        inbox := rest
        handling := (s.workers k).handling ++ [job] })
    | [] => none
  -- a worker handles its jobs concurrently, so it answers in any order
  | .post k place how => match (s.workers k).handling[place]? with
    | some job => (how.response crate job.request).map fun response =>
      s.putWorker k { s.workers k with
        handling := (s.workers k).handling.eraseIdx place
        outbox := (s.workers k).outbox ++ [(job.id, response)] }
    | none => none
  -- the client takes the answers in the order in which they were posted
  | .deliver k => match (s.workers k).outbox with
    | (id, response) :: rest =>
      some ((s.putWorker k { s.workers k with outbox := rest }).dispatch k id response)
    | [] => none
  | .tick ms => some { s with now := s.now + ms }
  | .fire => match s.idleTimer with
    | some due => if due ≤ s.now then some s.shutdown else none
    | none => none

/-- Any calls at any times, and a worker that takes as long as it takes. -/
def machine : Machine State Act := ⟨step crate⟩

end Steps

def start : State := {}

/-! ### What an action does -/

/-- The state after a call has posted its request to worker `k`, of `n` workers by then. -/
def State.posted (s : State) (task : Task) (request : Request) (k n : Nat) : State :=
  { s with
    nextId := s.nextId + 1
    idleTimer := none
    worker := some k
    spawned := n
    calls := Function.update s.calls s.nextId (some ⟨task, some k, none⟩)
    workers := Function.update s.workers k
      { s.workers k with inbox := (s.workers k).inbox ++ [⟨s.nextId, request⟩] } }

inductive Moves (crate : Crate) (s : State) : Act → State → Prop where
  | undecodable {task : Task} : task.request = none → Moves crate s (.call task)
      ({ s with nextId := s.nextId + 1 }.putCall s.nextId ⟨task, none, some .undecodable⟩)
  | call {task : Task} {request : Request} {k n : Nat} : task.request = some request →
      (s.worker = some k ∧ n = s.spawned ∨ s.worker = none ∧ k = s.spawned ∧ n = s.spawned + 1) →
      Moves crate s (.call task) (s.posted task request k n)
  | receive {k : Nat} {job : Job} {rest : List Job} : (s.workers k).inbox = job :: rest →
      Moves crate s (.receive k) (s.putWorker k { s.workers k with
        inbox := rest
        handling := (s.workers k).handling ++ [job] })
  | post {k place : Nat} {how : Ending} {job : Job} {response : Response} :
      (s.workers k).handling[place]? = some job → how.response crate job.request = some response →
      Moves crate s (.post k place how) (s.putWorker k { s.workers k with
        handling := (s.workers k).handling.eraseIdx place
        outbox := (s.workers k).outbox ++ [(job.id, response)] })
  | settle {k id : Nat} {response : Response} {rest : List (Nat × Response)} {task : Task} :
      (s.workers k).outbox = (id, response) :: rest → s.calls id = some ⟨task, some k, none⟩ →
      Moves crate s (.deliver k) (((s.putWorker k { s.workers k with outbox := rest }).putCall id
        ⟨task, some k, some (task.settle response)⟩).scheduleShutdown)
  /-- No listener takes the response. -/
  | unheard {k id : Nat} {response : Response} {rest : List (Nat × Response)} :
      (s.workers k).outbox = (id, response) :: rest →
      (∀ task, s.calls id ≠ some ⟨task, some k, none⟩) →
      Moves crate s (.deliver k) (s.putWorker k { s.workers k with outbox := rest })
  | tick {ms : Nat} : Moves crate s (.tick ms) { s with now := s.now + ms }
  | fire {due k : Nat} : s.idleTimer = some due → due ≤ s.now → s.worker = some k →
      Moves crate s .fire { s.terminate k with worker := none, idleTimer := none }
  | idle {due : Nat} : s.idleTimer = some due → due ≤ s.now → s.worker = none →
      Moves crate s .fire { s with idleTimer := none }

theorem step_moves {crate : Crate} {s t : State} {a : Act} (stepped : step crate s a = some t) :
    Moves crate s a t := by
  cases a with
  | call task =>
    cases stepped
    unfold State.call
    split
    next none_ => exact .undecodable none_
    next request some_ =>
      -- The worker is the one that runs, or a new one.
      cases current : s.worker with
      | some k =>
        simp only [State.getWorker]
        exact .call some_ (.inl ⟨current, rfl⟩)
      | none =>
        simp only [State.getWorker]
        exact .call some_ (.inr ⟨current, rfl, rfl⟩)
  | receive k =>
    simp only [step] at stepped
    split at stepped
    next waiting => cases stepped; exact .receive waiting
    next => cases stepped
  | post k place how =>
    simp only [step] at stepped
    split at stepped
    next found =>
      obtain ⟨response, ended, rfl⟩ := Option.map_eq_some_iff.mp stepped
      exact .post found ended
    next => cases stepped
  | deliver k =>
    simp only [step] at stepped
    split at stepped
    next id response rest first =>
      cases stepped
      unfold State.dispatch
      split
      next task k' pending =>
        split
        next same =>
          subst same
          exact .settle first pending
        next other =>
          refine .unheard first fun task' here => other ?_
          exact Option.some.inj (congrArg Call.worker (Option.some.inj (pending.symm.trans here)))
      next silent => exact .unheard first fun task here => silent task k here
    next => cases stepped
  | tick ms => cases stepped; exact .tick
  | fire =>
    simp only [step] at stepped
    split at stepped
    next due armed =>
      split at stepped
      next late =>
        cases stepped
        unfold State.shutdown
        split
        next k current => exact .fire armed late current
        next idle => exact .idle armed late idle
      next => cases stepped
    next => cases stepped

end Atmin.Argon2Worker
