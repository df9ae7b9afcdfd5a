import Mathlib.Data.String.Basic

/-!
# Domain newtypes (`model.rs`)

Ids and handles carry the proof of their own syntax.
-/

namespace Atmin

/-- A `key_version`, at least 1 by construction. -/
structure KeyVersion where
  get : UInt32
  nonzero : get ≠ 0
  deriving DecidableEq, Repr

namespace KeyVersion

def ONE : KeyVersion := ⟨1, by decide⟩

def new (v : UInt32) : Option KeyVersion := if h : v ≠ 0 then some ⟨v, h⟩ else none

/-- `KeyVersion::new(v).unwrap_or(KeyVersion::ONE)`. -/
def newOrOne (v : UInt32) : KeyVersion := (new v).getD ONE

end KeyVersion

def CROCKFORD : List Char := "0123456789ABCDEFGHJKMNPQRSTVWXYZ".toList

/-- A canonical ULID: 26 characters of the alphabet, the first at most `7`. -/
def validateUlid (s : String) : Bool :=
  decide (s.toList.length = 26) && s.toList.all (fun c => decide (c ∈ CROCKFORD)) &&
    s.toList.head?.all fun c => decide (c.val ≤ '7'.val)

structure UserId where
  str : String
  ulid : validateUlid str = true
  deriving DecidableEq, Repr

structure DeviceId where
  str : String
  ulid : validateUlid str = true
  deriving DecidableEq, Repr

def UserId.new (s : String) : Option UserId := if h : validateUlid s = true then some ⟨s, h⟩ else none

def DeviceId.new (s : String) : Option DeviceId :=
  if h : validateUlid s = true then some ⟨s, h⟩ else none

theorem UserId.new_str {s : String} {u : UserId} (new : UserId.new s = some u) : u.str = s := by
  unfold UserId.new at new
  split at new
  · cases new; rfl
  · cases new

theorem DeviceId.new_str {s : String} {d : DeviceId} (new : DeviceId.new s = some d) :
    d.str = s := by
  unfold DeviceId.new at new
  split at new
  · cases new; rfl
  · cases new

theorem validateUlid_length {s : String} (valid : validateUlid s = true) : s.toList.length = 26 := by
  simp only [validateUlid, Bool.and_eq_true, decide_eq_true_eq] at valid
  exact valid.1.1

theorem validateUlid_no_slash {s : String} (valid : validateUlid s = true) : '/' ∉ s.toList := by
  simp only [validateUlid, Bool.and_eq_true, List.all_eq_true, decide_eq_true_eq] at valid
  exact fun member => absurd (valid.1.2 _ member) (by decide)

def isLower (c : Char) : Bool := decide ('a' ≤ c) && decide (c ≤ 'z')

def isDigit (c : Char) : Bool := decide ('0' ≤ c) && decide (c ≤ '9')

/-- Whether two hyphens stand next to each other. -/
def hasDoubleHyphen : List Char → Bool
  | a :: b :: rest => (a == '-' && b == '-') || hasDoubleHyphen (b :: rest)
  | _ => false

/-- `^[a-z][a-z0-9-]{1,30}[a-z0-9]$` with no consecutive hyphens. -/
def validateHandleSyntax (s : String) : Bool :=
  let b := s.toList
  decide (3 ≤ b.length ∧ b.length ≤ 32) && b.head?.any isLower &&
    b.getLast?.any (fun c => isLower c || isDigit c) &&
    b.all (fun c => isLower c || isDigit c || c == '-') && !hasDoubleHyphen b

structure Handle where
  str : String
  syntaxOk : validateHandleSyntax str = true
  deriving DecidableEq, Repr

def Handle.new (s : String) : Option Handle :=
  if h : validateHandleSyntax s = true then some ⟨s, h⟩ else none

theorem Handle.ne_empty (h : Handle) : h.str ≠ "" := by
  intro empty
  have valid := h.syntaxOk
  rw [empty] at valid
  exact absurd valid (by decide)

/-- `reserved_handles.txt`. -/
def reservedHandles : List String :=
  ["admin", "root", "atmin", "system", "support", "help", "info", "api", "www", "mail",
    "abuse", "postmaster", "security", "anonymous", "deleted"]

def isReserved (handle : String) : Bool := decide (handle ∈ reservedHandles)

end Atmin
