import Mathlib.Algebra.Group.Int.Defs
import Mathlib.Algebra.Group.Nat.Defs
import Mathlib.Data.List.Basic

/-!
# JSON texts

The tree of a JSON text as the server's readers see it, and the reading discipline of
a derived struct: members by name, unknown members ignored, a repeated known member an
error, or a sequence read by position.
-/

namespace Atmin

/-- A number literal: an integer, or a decimal `mantissa * 10 ^ exponent`. -/
inductive Number where
  | int (n : Int)
  | real (mantissa exponent : Int)
  deriving DecidableEq, Repr

inductive Json where
  | null
  | bool (b : Bool)
  | num (n : Number)
  | str (s : String)
  /-- A string literal with an escape that is no Unicode scalar value. -/
  | badStr (raw : String)
  | arr (xs : List Json)
  | obj (fields : List (String × Json))
  deriving Repr

namespace Json

def asStr : Json → Option String
  | .str s => some s
  | _ => none

def asU32 : Json → Option UInt32
  | .num (.int (.ofNat n)) => if n < 2 ^ 32 then some (.ofNat n) else none
  | _ => none

def asU16 : Json → Option UInt16
  | .num (.int (.ofNat n)) => if n < 2 ^ 16 then some (.ofNat n) else none
  | _ => none

def asI64 : Json → Option Int
  | .num (.int (.ofNat n)) => if n < 2 ^ 63 then some n else none
  | .num (.int (.negSucc n)) => if n < 2 ^ 63 then some (.negSucc n) else none
  | _ => none

def asU64 : Json → Option Nat
  | .num (.int (.ofNat n)) => if n < 2 ^ 64 then some n else none
  | _ => none

def asArr : Json → Option (List Json)
  | .arr xs => some xs
  | _ => none

/-- An `Option` field: `null` is `None`. -/
def asOption {α : Type} (dec : Json → Option α) : Json → Option (Option α)
  | .null => some none
  | j => (dec j).map some

def lookup (fields : List (String × Json)) (name : String) : Option Json :=
  (fields.find? fun e => decide (e.1 = name)).map Prod.snd

/-- The members a derived reader of a struct with these fields finds. -/
def members (names : List String) : Json → Option (String → Option Json)
  | .obj fields =>
    if ((fields.map Prod.fst).filter fun n => decide (n ∈ names)).Nodup then some (lookup fields)
    else none
  | .arr xs => if xs.length ≤ names.length then some fun n => xs[names.idxOf n]? else none
  | _ => none

/-- A field with a default. -/
def fieldOr {α : Type} (d : α) (dec : Json → Option α) : Option Json → Option α
  | none => some d
  | some j => dec j

/-- A field without a default. -/
def field {α : Type} (dec : Json → Option α) : Option Json → Option α
  | none => none
  | some j => dec j

def ofU32 (n : UInt32) : Json := .num (.int (.ofNat n.toNat))

def ofI64 (n : Int) : Json := .num (.int n)

/-- A member written only when it is not empty (`skip_serializing_if`). -/
def unlessEmpty (name s : String) : List (String × Json) :=
  if s = "" then [] else [(name, .str s)]

@[simp] theorem asU32_ofU32 (n : UInt32) : (ofU32 n).asU32 = some n := by
  have bound : n.toNat < 2 ^ 32 := n.toNat_lt
  simp only [ofU32, asU32, if_pos bound, UInt32.ofNat_toNat]

@[simp] theorem lookup_nil (n : String) : lookup [] n = none := rfl

@[simp] theorem lookup_cons_self (n : String) (v : Json) (rest : List (String × Json)) :
    lookup ((n, v) :: rest) n = some v := by
  simp [lookup]

@[simp] theorem lookup_cons_ne {n m : String} (differ : n ≠ m) (v : Json)
    (rest : List (String × Json)) : lookup ((n, v) :: rest) m = lookup rest m := by
  simp [lookup, differ]

@[simp] theorem lookup_unlessEmpty_self (n s : String) (rest : List (String × Json)) :
    lookup (unlessEmpty n s ++ rest) n = if s = "" then lookup rest n else some (.str s) := by
  unfold unlessEmpty
  split <;> simp

@[simp] theorem lookup_unlessEmpty_ne {n m : String} (differ : n ≠ m) (s : String)
    (rest : List (String × Json)) : lookup (unlessEmpty n s ++ rest) m = lookup rest m := by
  unfold unlessEmpty
  split <;> simp [differ]

@[simp] theorem lookup_unlessEmpty_last (n s : String) :
    lookup (unlessEmpty n s) n = if s = "" then none else some (.str s) := by
  simpa using lookup_unlessEmpty_self n s []

@[simp] theorem lookup_unlessEmpty_last_ne {n m : String} (differ : n ≠ m) (s : String) :
    lookup (unlessEmpty n s) m = none := by
  simpa using lookup_unlessEmpty_ne differ s []

@[simp] theorem field_some {α : Type} (dec : Json → Option α) (j : Json) :
    field dec (some j) = dec j := by
  simp only [field]

@[simp] theorem fieldOr_none {α : Type} (d : α) (dec : Json → Option α) :
    fieldOr d dec none = some d := rfl

@[simp] theorem fieldOr_some {α : Type} (d : α) (dec : Json → Option α) (j : Json) :
    fieldOr d dec (some j) = dec j := by
  simp only [fieldOr]

@[simp] theorem asStr_str (s : String) : asStr (.str s) = some s := rfl

/-- An omitted empty member reads back as the empty default. -/
@[simp] theorem fieldOr_unlessEmpty (s : String) :
    fieldOr "" asStr (if s = "" then none else some (.str s)) = some s := by
  split
  next empty => rw [empty]; rfl
  next => rfl

theorem names_unlessEmpty (n s : String) :
    ((unlessEmpty n s).map Prod.fst).Sublist [n] := by
  unfold unlessEmpty
  split <;> simp

/-- Distinct member names make an object readable. -/
theorem members_obj {names : List String} {fields : List (String × Json)}
    (distinct : (fields.map Prod.fst).Nodup) : (obj fields).members names = some (lookup fields) := by
  have known : ((fields.map Prod.fst).filter fun n => decide (n ∈ names)).Nodup :=
    distinct.filter _
  simp only [members, known, if_true]

end Json

end Atmin
