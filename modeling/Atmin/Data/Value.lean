import Atmin.Data.Json

/-!
# CBOR values and stored objects

The self-describing values of an archive, how a JSON text becomes one, and what the
bytes of a stored object are to the readers of this server.
-/

namespace Atmin

inductive Value where
  | integer (n : Int)
  | float (mantissa exponent : Int)
  | bytes (b : List UInt8)
  | text (s : String)
  | bool (b : Bool)
  | null
  | tag (t : Nat) (v : Value)
  | array (xs : List Value)
  | map (pairs : List (Value × Value))
  deriving Repr

/-- Whether `|mantissa| * 10 ^ exponent` rounds to no finite double. -/
def overflowsDouble (mantissa exponent : Int) : Bool :=
  let bound : Nat := 2 ^ 1024 - 2 ^ 970
  if 0 ≤ exponent then decide (bound ≤ mantissa.natAbs * 10 ^ exponent.toNat)
  else decide (bound * 10 ^ (-exponent).toNat ≤ mantissa.natAbs)

namespace Value

def ofReal (mantissa exponent : Int) : Option Value :=
  if overflowsDouble mantissa exponent then none else some (.float mantissa exponent)

/-- Integers keep their type while they fit 64 bits. -/
def ofNumber : Number → Option Value
  | .int n => if -2 ^ 63 ≤ n ∧ n < 2 ^ 64 then some (.integer n) else ofReal n 0
  | .real m e => ofReal m e

mutual

/-- Read a JSON text into a value, with `depth` levels of nesting left. -/
def ofJson (depth : Nat) : Json → Option Value
  | .null => some .null
  | .bool b => some (.bool b)
  | .num n => ofNumber n
  | .str s => some (.text s)
  | .badStr _ => none
  | .arr xs => if depth ≤ 1 then none else (ofJsons (depth - 1) xs).map .array
  | .obj fields => if depth ≤ 1 then none else (ofFields (depth - 1) fields).map .map

def ofJsons (depth : Nat) : List Json → Option (List Value)
  | [] => some []
  | x :: xs => match ofJson depth x, ofJsons depth xs with
    | some v, some vs => some (v :: vs)
    | _, _ => none

def ofFields (depth : Nat) : List (String × Json) → Option (List (Value × Value))
  | [] => some []
  | (n, x) :: xs => match ofJson depth x, ofFields depth xs with
    | some v, some vs => some ((.text n, v) :: vs)
    | _, _ => none

end

end Value

/-- The nesting a JSON reader accepts. -/
def jsonDepth : Nat := 128

/-- The bytes of an object: a JSON text, a CBOR array, or neither. -/
inductive Data where
  | json (j : Json)
  | cbor (entries : List Value)
  | raw (bytes : List UInt8)
  deriving Repr

namespace Data

def asJson : Data → Option Json
  | .json j => some j
  | _ => none

/-- `serde_json::from_slice::<Value>`. -/
def asValue : Data → Option Value
  | .json j => Value.ofJson jsonDepth j
  | _ => none

end Data

end Atmin
