import Atmin.Web.InboxSync

/-!
# The tasks of one browser, interleaved with its surroundings

Slots are the calls of `syncAndPublish` and of `addInbound` on any page of one account,
and the moves of the surroundings: the server accepting envelopes, compactions of any
device, other devices backing up keys, a rotation of the sharing key, a reload.
-/

namespace Atmin.Web

open Interaction

inductive Task where
  /-- `syncAndPublish` with the sharing key the page was loaded with. -/
  | sync (sharingPrivateKey : String) (hasBackupKey : Bool)
  /-- Any other code of the page that adds a session: a restore, a session of its own. -/
  | addInbound (fromUser fromDevice : Js) (sessionKey : String)
  | surroundings (act : Act) (surrounds : act.surrounds = true)

variable {ι : Type}

/-- Which tasks there are, and the page each of them belongs to. -/
structure Tasks (ι : Type) where
  task : ι → Task
  epoch : ι → Nat

/-- Steps under the outcomes that `allow` admits. -/
abbrev Taking (allow : Act → Outcome → Bool) (epoch : ι → Nat) :
    ι → (act : Act) → State → Reply act → State → Prop :=
  execOf fun i => takes allow (epoch i)

/-- No read of an inbound session from IndexedDB fails. -/
def Reliable (allow : Act → Outcome → Bool) : Prop :=
  ∀ id e, allow (.loadInboundSession id) (.fail e) = false

/-! ### What a step can do -/

section Inversion

variable {allow : Act → Outcome → Bool} {epoch : ι → Nat} {i : ι} {s t : State}

theorem taking_iff {act : Act} {r : Reply act} : Taking allow epoch i act s r t ↔
    ∃ c, (act.surrounds = true ∨ epoch i = s.epoch) ∧ allow act c = true ∧
      perform act c s = some (r, t) := by
  simp only [execOf, takes, Option.ite_none_right_eq_some, and_assoc]

theorem reading_cases {α : Type} {reply : State → Except Thrown α} {c : Outcome}
    {r : Except Thrown α} (read : reading reply c s = some (r, t)) :
    t = s ∧ (r = reply s ∨ ∃ e, c = .fail e ∧ r = .error e) := by
  cases c with
  | ok => cases read; exact ⟨rfl, .inl rfl⟩
  | fail e => cases read; exact ⟨rfl, .inr ⟨e, rfl, rfl⟩⟩

theorem writing_cases {write : Database → Option Database} {c : Outcome}
    {r : Except Thrown Unit} (wrote : writing write c s = some (r, t)) :
    (t = s ∧ ∃ e, r = .error e) ∨ ∃ db, write s.db = some db ∧ t = { s with db } ∧ r = .ok () := by
  cases c with
  | ok =>
    simp only [writing] at wrote
    split at wrote
    next db written => cases wrote; exact .inr ⟨db, written, rfl, rfl⟩
    next => cases wrote; exact .inl ⟨rfl, _, rfl⟩
  | fail e => cases wrote; exact .inl ⟨rfl, _, rfl⟩

end Inversion

/-! ### Runs -/

variable [CborDecoder]

def Task.prog (account : Account) : Task → Prog Act Reply Unit
  | .sync key backs => (syncAndPublish ⟨account, key, backs⟩).run.bind fun _ => .ret ()
  | .addInbound fromUser fromDevice key =>
    (Atmin.Web.addInbound account.crypto fromUser fromDevice key).run.bind fun _ => .ret ()
  | .surroundings act _ => .op act fun _ => .ret ()

def browser (account : Account) (allow : Act → Outcome → Bool) (tasks : Tasks ι) :
    System ι Act Reply Unit State where
  prog i := (tasks.task i).prog account
  exec := Taking allow tasks.epoch

/-- A schedule that can be followed is a run. -/
theorem reach_of_follow [DecidableEq ι] (account : Account) (allow : Act → Outcome → Bool)
    (tasks : Tasks ι) (schedule : List (ι × Outcome)) (P : World ι Act Reply Unit State → Bool)
    (followed : (World.follow (fun i => takes allow (tasks.epoch i))
      (browser account allow tasks).prog schedule (.init {})).any P = true) :
    ∃ w, Reach (browser account allow tasks) {} w ∧ P w = true := by
  obtain ⟨w, reached, holds⟩ := (Option.any_eq_true _ _).mp followed
  exact ⟨w, steps_of_follow _ _ reached, holds⟩

/-- A run with a stop on the way. -/
theorem reach_of_follow_twice [DecidableEq ι] (account : Account) (allow : Act → Outcome → Bool)
    (tasks : Tasks ι) (first last : List (ι × Outcome))
    (P : World ι Act Reply Unit State → World ι Act Reply Unit State → Bool)
    (followed : ((World.follow (fun i => takes allow (tasks.epoch i))
      (browser account allow tasks).prog first (.init {})).any fun w =>
        (World.follow (fun i => takes allow (tasks.epoch i))
          (browser account allow tasks).prog last w).any (P w)) = true) :
    ∃ w w', Reach (browser account allow tasks) {} w ∧
      Relation.ReflTransGen (Step (browser account allow tasks)) w w' ∧ P w w' = true := by
  exact reach_twice_of_follow _ _ _ _ _ _ followed

end Atmin.Web
