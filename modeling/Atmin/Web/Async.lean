import Atmin.Web.Device

/-!
# Asynchronous functions

An `async` function returns or throws. Awaiting a step, catching what was thrown, and how
these unfold into programs.
-/

namespace Atmin.Web

open Interaction

abbrev Async (α : Type) := ExceptT Thrown (Prog Act Reply) α

section Steps

variable {α β : Type}

/-- A step that throws what it fails with. -/
def await (p : Prog Act Reply (Except Thrown α)) : Async α := ExceptT.mk p

/-- A step of the memory, which cannot fail. -/
def sync (p : Prog Act Reply α) : Async α := ExceptT.mk (p.bind fun a => .ret (.ok a))

/-- `try { … } catch`: the rest sees what was thrown. -/
def attempt (h : Async α) : Async (Except Thrown α) :=
  ExceptT.mk (Prog.bind h.run fun r => .ret (.ok r))

def ofExcept (r : Except Thrown α) : Async α := ExceptT.mk (.ret r)

/-- A conversion that throws when it has no result. -/
def orThrow (e : Thrown) : Option α → Async α
  | some a => ExceptT.mk (.ret (.ok a))
  | none => ExceptT.mk (.ret (.error e))

abbrev step (act : Act) : Prog Act Reply (Reply act) := Prog.request act

-- The reply type is not indexed: at a given act it has already been reduced.
@[simp] theorem step_bind (act : Act) (f : Reply act → Prog Act Reply β) :
    @Prog.bind Act Reply (no_index (Reply act)) β (Prog.request act) f = .op act f := rfl

@[simp] theorem Async.run_bind (h : Async α) (f : α → Async β) :
    (h >>= f).run = Prog.bind h.run fun
      | .ok a => (f a).run
      | .error e => .ret (.error e) := by
  show Prog.bind h.run (ExceptT.bindCont f) = _
  congr 1
  funext r
  cases r <;> rfl

@[simp] theorem Async.run_pure (a : α) : (pure a : Async α).run = .ret (.ok a) := rfl

@[simp] theorem run_await (p : Prog Act Reply (Except Thrown α)) : (await p).run = p := rfl

@[simp] theorem run_sync (p : Prog Act Reply α) :
    (sync p).run = p.bind fun a => .ret (.ok a) := rfl

@[simp] theorem run_attempt (h : Async α) :
    (attempt h).run = Prog.bind h.run fun r => .ret (.ok r) := rfl

@[simp] theorem run_ofExcept (r : Except Thrown α) : (ofExcept r).run = .ret r := rfl

@[simp] theorem run_orThrow_some (e : Thrown) (a : α) : (orThrow e (some a)).run = .ret (.ok a) := rfl

@[simp] theorem run_orThrow_none (e : Thrown) :
    (orThrow e (none : Option α)).run = .ret (.error e) := rfl

end Steps

end Atmin.Web
