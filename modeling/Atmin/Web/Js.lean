import Atmin.Data.Value
import Mathlib.Data.List.Nodup

/-!
# JavaScript values

What the web client gets from `JSON.parse` and from its CBOR decoder, how it reads a
member of such a value, and which values IndexedDB takes for a key.
-/

namespace Atmin.Web

/-- The errors the client tells apart no further than by whether something was thrown. -/
inductive Thrown where
  /-- A member of `null` or `undefined`, a call of what is no function. -/
  | type
  /-- IndexedDB: a value that is no valid key. -/
  | data
  /-- Bytes that do not parse, decrypt or verify. -/
  | crypto
  /-- A failed request, or an IndexedDB transaction that aborted. -/
  | failed
  /-- More arguments than one call takes. -/
  | range
  deriving DecidableEq, Repr

inductive Js where
  | undefined
  | null
  | bool (b : Bool)
  | num (n : Number)
  | bigint (n : Int)
  | str (s : String)
  /-- A string with a lone surrogate. -/
  | badStr (raw : String)
  /-- A byte array or a tagged value: neither comes from a JSON text. -/
  | foreign (v : Value)
  | arr (xs : List Js)
  | obj (fields : List (String × Js))
  deriving Repr

/-- A piece of an IndexedDB key. -/
inductive KeyToken where
  | num (n : Number)
  | str (s : String)
  | badStr (raw : String)
  | bytes (b : List UInt8)
  | opened
  | closed
  deriving DecidableEq, Repr

/-- An IndexedDB key: a scalar, or an array of keys between its brackets. -/
abbrev Key := List KeyToken

namespace Js

mutual

/-- `JSON.parse`. -/
def ofJson : Json → Js
  | .null => .null
  | .bool b => .bool b
  | .num n => .num n
  | .str s => .str s
  | .badStr raw => .badStr raw
  | .arr xs => .arr (ofJsons xs)
  | .obj fields => .obj (ofMembers fields)

def ofJsons : List Json → List Js
  | [] => []
  | x :: xs => ofJson x :: ofJsons xs

def ofMembers : List (String × Json) → List (String × Js)
  | [] => []
  | (n, x) :: xs => (n, ofJson x) :: ofMembers xs

end

/-- The last member of a name wins. -/
def lastOf (fields : List (String × Js)) (name : String) : Js :=
  ((fields.reverse.find? fun e => decide (e.1 = name)).map Prod.snd).getD .undefined

end Js

/-- The last pair under a name. -/
def lastValue (fields : List (String × Value)) (name : String) : Option Value :=
  (fields.reverse.find? fun e => decide (e.1 = name)).map Prod.snd

/-- The client's CBOR decoder (`cbor-x`), with what is relied on of it. Integers of more than 32 bits
are left open: it makes a `BigInt` of them. -/
class CborDecoder where
  decode : Value → Js
  text : ∀ s, decode (.text s) = .str s
  integer : ∀ n : Nat, n < 2 ^ 32 → decode (.integer n) = .num (.int n)
  array : ∀ xs, ∃ ys, decode (.array xs) = .arr ys
  /-- It spells `__proto__` in another way. -/
  map : ∀ fields : List (String × Value), ∃ members,
    decode (.map (fields.map fun e => (.text e.1, e.2))) = .obj members ∧
      ∀ name, name ≠ "__proto__" → name ≠ "__proto_" →
        Js.lastOf members name = ((lastValue fields name).map decode).getD .undefined

namespace Js

section Decoding

variable [CborDecoder]

def ofValue (v : Value) : Js := CborDecoder.decode v

def ofValues : List Value → List Js
  | [] => []
  | x :: xs => ofValue x :: ofValues xs

@[simp] theorem ofValue_text (s : String) : ofValue (.text s) = .str s := CborDecoder.text s

end Decoding

/-- `x.name`, for a name that no built-in prototype defines. -/
def member (x : Js) (name : String) : Except Thrown Js :=
  match x with
  | .undefined | .null => .error .type
  | .obj fields => .ok (lastOf fields name)
  | _ => .ok .undefined

/-- `x ?? d`. -/
def orElse (x d : Js) : Js :=
  match x with
  | .undefined | .null => d
  | _ => x

/-- The text of a value that is a string of scalar values. -/
def asStr : Js → Option String
  | .str s => some s
  | _ => none

mutual

/-- The key IndexedDB takes the value for, if it takes it for one. -/
def key : Js → Option Key
  | .num n => some [.num n]
  | .str s => some [.str s]
  | .badStr raw => some [.badStr raw]
  | .foreign (.bytes b) => some [.bytes b]
  | .arr xs => (keys xs).map fun inner => .opened :: inner ++ [.closed]
  | _ => none

def keys : List Js → Option Key
  | [] => some []
  | x :: xs => match key x, keys xs with
    | some k, some ks => some (k ++ ks)
    | _, _ => none

end

/-- Whether two values are one element of a `Set` or one key of a `Map`. Arrays and objects
are compared by identity, and no two values read from the network are identical. -/
def same : Js → Js → Bool
  | .undefined, .undefined | .null, .null => true
  | .bool a, .bool b => a = b
  | .num a, .num b => a = b
  | .bigint a, .bigint b => a = b
  | .str a, .str b | .badStr a, .badStr b => a = b
  | _, _ => false

/-- `set.has(x)`. -/
def isIn (x : Js) (set : List Js) : Bool := set.any (same x)

@[simp] theorem asStr_str (s : String) : asStr (.str s) = some s := rfl

@[simp] theorem key_str (s : String) : key (.str s) = some [.str s] := by
  simp only [key]

@[simp] theorem orElse_str (s : String) (d : Js) : orElse (.str s) d = .str s := rfl

@[simp] theorem orElse_undefined (d : Js) : orElse .undefined d = d := rfl

@[simp] theorem orElse_null (d : Js) : orElse .null d = d := rfl

@[simp] theorem member_obj (fields : List (String × Js)) (name : String) :
    member (.obj fields) name = .ok (lastOf fields name) := rfl

@[simp] theorem same_str (s : String) (x : Js) : same (.str s) x = true ↔ x = .str s := by
  cases x <;> simp [same, eq_comm]

@[simp] theorem same_of_str (s : String) (x : Js) : same x (.str s) = true ↔ x = .str s := by
  cases x <;> simp [same]

theorem isIn_str {s : String} {set : List Js} : isIn (.str s) set = true ↔ .str s ∈ set := by
  simp [isIn, List.any_eq_true, same_str]

theorem eq_of_same {x y : Js} (h : same x y = true) : x = y := by
  cases x <;> cases y <;> simp_all [same]

theorem mem_of_isIn {x : Js} {set : List Js} (h : isIn x set = true) : x ∈ set := by
  obtain ⟨y, member, equal⟩ := List.any_eq_true.mp h
  rw [eq_of_same equal]
  exact member

theorem isIn_append {x : Js} {xs ys : List Js} :
    isIn x (xs ++ ys) = true ↔ isIn x xs = true ∨ isIn x ys = true := by
  simp only [isIn, List.any_append, Bool.or_eq_true]

end Js

/-! ### Members -/

theorem except_bind_ok {ε α β : Type} {x : Except ε α} {f : α → Except ε β} {b : β} :
    (x >>= f) = .ok b ↔ ∃ a, x = .ok a ∧ f a = .ok b := by
  cases x with
  | ok a => simp [bind, Except.bind]
  | error e => simp [bind, Except.bind]

theorem lastOf_eq {fields : List (String × Js)} {name : String} {x : Js}
    (member : (name, x) ∈ fields) (only : ∀ y, (name, y) ∈ fields → y = x) :
    Js.lastOf fields name = x := by
  unfold Js.lastOf
  cases found : fields.reverse.find? fun e => decide (e.1 = name) with
  | none =>
    have absent := List.find?_eq_none.mp found (name, x) (List.mem_reverse.mpr member)
    simp at absent
  | some e =>
    have hit := List.find?_some found
    simp only [decide_eq_true_eq] at hit
    have here := List.mem_reverse.mp (List.mem_of_find?_eq_some found)
    subst hit
    simp only [Option.map_some, Option.getD_some]
    exact only e.2 here

theorem mem_ofMembers {fields : List (String × Json)} {name : String} {x : Js} :
    (name, x) ∈ Js.ofMembers fields ↔ ∃ j, (name, j) ∈ fields ∧ x = Js.ofJson j := by
  induction fields with
  | nil => simp [Js.ofMembers]
  | cons field rest ih =>
    obtain ⟨n, j⟩ := field
    simp only [Js.ofMembers, List.mem_cons, Prod.mk.injEq, ih]
    constructor
    · rintro (⟨rfl, rfl⟩ | ⟨j', here, rfl⟩)
      · exact ⟨j, .inl ⟨rfl, rfl⟩, rfl⟩
      · exact ⟨j', .inr here, rfl⟩
    · rintro ⟨j', ⟨rfl, rfl⟩ | here, rfl⟩
      · exact .inl ⟨rfl, rfl⟩
      · exact .inr ⟨j', here, rfl⟩

/-- A name the server knows occurs at most once. -/
theorem known_once {names : List String} {fields : List (String × Json)} {f : String → Option Json}
    (read : (Json.obj fields).members names = some f) {name : String} (known : name ∈ names)
    {j j' : Json} (first : (name, j) ∈ fields) (last : (name, j') ∈ fields) : j = j' := by
  simp only [Json.members] at read
  split at read
  next distinct =>
    have sub : ((fields.filter fun e => decide (e.1 ∈ names)).map Prod.fst).Nodup := by
      have same : (fields.filter fun e => decide (e.1 ∈ names)).map Prod.fst =
          (fields.map Prod.fst).filter fun n => decide (n ∈ names) := by
        rw [List.filter_map]
        rfl
      rw [same]
      exact distinct
    have here {k : Json} (member : (name, k) ∈ fields) :
        (name, k) ∈ fields.filter fun e => decide (e.1 ∈ names) :=
      List.mem_filter.mpr ⟨member, by simpa using known⟩
    exact (Prod.mk.inj (List.inj_on_of_nodup_map sub (here first) (here last) rfl)).2
  next => cases read

/-- A member the server knows is the one the client reads. -/
theorem lastOf_members {names : List String} {fields : List (String × Json)} {f : String → Option Json}
    (read : (Json.obj fields).members names = some f) {name : String} (known : name ∈ names) :
    Js.lastOf (Js.ofMembers fields) name = ((f name).map Js.ofJson).getD .undefined := by
  have lookup : f = Json.lookup fields := by
    simp only [Json.members] at read
    split at read
    next => exact (Option.some.inj read).symm
    next => cases read
  subst lookup
  cases found : fields.find? fun e => decide (e.1 = name) with
  | none =>
    have absent : (Js.ofMembers fields).reverse.find? (fun e => decide (e.1 = name)) = none := by
      refine List.find?_eq_none.mpr fun e member => ?_
      obtain ⟨n, x⟩ := e
      obtain ⟨j, here, _⟩ := mem_ofMembers.mp (List.mem_reverse.mp member)
      exact List.find?_eq_none.mp found (n, j) here
    simp only [Js.lastOf, absent, Json.lookup, found, Option.map_none, Option.getD_none]
  | some e =>
    obtain ⟨n, j⟩ := e
    have named : n = name := by simpa using List.find?_some found
    subst named
    have here := List.mem_of_find?_eq_some found
    simp only [Json.lookup, found, Option.map_some, Option.getD_some]
    refine lastOf_eq (mem_ofMembers.mpr ⟨j, here, rfl⟩) fun y member => ?_
    obtain ⟨j', there, rfl⟩ := mem_ofMembers.mp member
    rw [known_once read known there here]

/-! ### A decoder -/

namespace Demo

mutual

def decode : Value → Js
  | .integer n => if -2 ^ 31 ≤ n ∧ n < 2 ^ 32 then .num (.int n) else .bigint n
  | .float m e => .num (.real m e)
  | .bytes b => .foreign (.bytes b)
  | .text s => .str s
  | .bool b => .bool b
  | .null => .null
  | .tag t v => .foreign (.tag t v)
  | .array xs => .arr (decodes xs)
  | .map pairs => .obj (decodePairs pairs)

def decodes : List Value → List Js
  | [] => []
  | x :: xs => decode x :: decodes xs

def decodePairs : List (Value × Value) → List (String × Js)
  | [] => []
  | (.text n, x) :: xs => (n, decode x) :: decodePairs xs
  | (_, _) :: xs => decodePairs xs

end

theorem decodePairs_text (fields : List (String × Value)) :
    decodePairs (fields.map fun e => (.text e.1, e.2)) = fields.map fun e => (e.1, decode e.2) := by
  induction fields with
  | nil => rfl
  | cons e rest ih =>
    rw [List.map_cons, List.map_cons, decodePairs, ih]

theorem lastOf_decoded (fields : List (String × Value)) (name : String) :
    Js.lastOf (fields.map fun e => (e.1, decode e.2)) name =
      ((lastValue fields name).map decode).getD .undefined := by
  have found : (fun e : String × Js => decide (e.1 = name)) ∘ (fun e => (e.1, decode e.2)) =
      fun e : String × Value => decide (e.1 = name) := rfl
  rw [Js.lastOf, lastValue, ← List.map_reverse, List.find?_map, found, Option.map_map, Option.map_map]
  rfl

@[reducible] def cbor : CborDecoder where
  decode := decode
  text s := by rw [decode]
  integer n small := by
    rw [decode, if_pos]
    omega
  array xs := ⟨decodes xs, by rw [decode]⟩
  map fields := by
    refine ⟨_, by rw [decode, decodePairs_text], fun name _ _ => ?_⟩
    exact lastOf_decoded fields name

end Demo

end Atmin.Web
