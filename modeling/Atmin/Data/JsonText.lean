import Atmin.Data.Json
import Atmin.Data.Utf16

/-!
# JSON texts, written and read

`JSON.stringify` and `JSON.parse`. Strings are sequences of UTF-16 units, and a number
stands for the shortest decimal of its double, which is what is written for it.
-/

namespace Atmin

/-! ### Numbers -/

/-- The decimal digits. -/
def digits (n : Nat) : List Char := Nat.toDigits 10 n

/-- Without the trailing zeros of the mantissa. -/
def strip (m : Nat) (e : Int) : Nat × Int :=
  if m % 10 = 0 ∧ m ≠ 0 then strip (m / 10) (e + 1) else (m, e)
termination_by m
decreasing_by omega

namespace Number

def ofDecimal (m e : Int) : Number :=
  let d := strip m.natAbs e
  if d.1 = 0 then .int 0
  else if 0 ≤ d.2 ∧ (digits d.1).length + d.2 ≤ 21 then .int (m.sign * d.1 * 10 ^ d.2.toNat)
  else .real (m.sign * d.1) d.2

/-- One form for each value: an integer up to 21 digits, else a mantissa without trailing zeros. -/
def canon : Number → Number
  | .int n => if n.natAbs < 10 ^ 21 then .int n else ofDecimal n 0
  | .real m e => ofDecimal m e

def signed (negative : Bool) (n : Nat) : Int := if negative then -n else n

def minus (n : Int) : List Char := if n < 0 then ['-'] else []

/-- The exponent part, with its sign. -/
def exponentText (n : Int) : List Char :=
  'e' :: (if n < 0 then '-' else '+') :: digits n.natAbs

/-- `ds * 10 ^ e`, which is no integer of up to 21 digits. -/
def decimalText (ds : List Char) (e : Int) : List Char :=
  let n := ds.length + e
  if 0 < n ∧ n ≤ 21 then ds.take n.toNat ++ '.' :: ds.drop n.toNat
  else if -6 < n ∧ n ≤ 0 then '0' :: '.' :: (List.replicate (-n).toNat '0' ++ ds)
  else match ds with
    | [d] => d :: exponentText (n - 1)
    | d :: rest => d :: '.' :: (rest ++ exponentText (n - 1))
    | [] => []

/-- `Number::toString`. -/
def toText (n : Number) : List Char :=
  match n.canon with
  | .int n => minus n ++ digits n.natAbs
  | .real m e => minus m ++ decimalText (digits m.natAbs) e

end Number

namespace JsonText

open Utf16

def readFraction : List Char → Option (List Char × List Char)
  | '.' :: rest =>
    let ds := rest.takeWhile Char.isDigit
    if ds = [] then none else some (ds, rest.dropWhile Char.isDigit)
  | rest => some ([], rest)

def readSign : List Char → Bool × List Char
  | '-' :: rest => (true, rest)
  | '+' :: rest => (false, rest)
  | rest => (false, rest)

/-- The exponent, where there is one. -/
def readExponent : List Char → Option (Option Int × List Char)
  | c :: rest =>
    if c = 'e' ∨ c = 'E' then
      let s := readSign rest
      let ds := s.2.takeWhile Char.isDigit
      if ds = [] then none
      else some (some (Number.signed s.1 (Nat.ofDigitChars 10 ds 0)), s.2.dropWhile Char.isDigit)
    else some (none, c :: rest)
  | [] => some (none, [])

/-- The number of a literal. -/
def number (negative : Bool) (whole fraction : List Char) (exponent : Option Int) : Number :=
  let m := Number.signed negative (Nat.ofDigitChars 10 (whole ++ fraction) 0)
  match fraction, exponent with
  | [], none => (Number.int m).canon
  | _, e => (Number.real m (e.getD 0 - fraction.length)).canon

/-- A literal after its sign. No digit follows a leading zero. -/
def readUnsigned (negative : Bool) (cs : List Char) : Option (Number × List Char) :=
  let whole := cs.takeWhile Char.isDigit
  if whole = [] ∨ (whole.head? = some '0' ∧ whole.length ≠ 1) then none
  else (readFraction (cs.dropWhile Char.isDigit)).bind fun fraction =>
    (readExponent fraction.2).map fun exponent =>
      (number negative whole fraction.1 exponent.1, exponent.2)

def readNumber : List Char → Option (Number × List Char)
  | '-' :: rest => readUnsigned true rest
  | rest => readUnsigned false rest

/-! ### Strings -/

/-- The escapes of one letter. -/
def letters : List (Char × Char) :=
  [('"', '"'), ('\\', '\\'), ('b', '\x08'), ('f', '\x0c'), ('n', '\n'), ('r', '\r'), ('t', '\t')]

def hex (n : Nat) : List Char :=
  [Nat.digitChar (n / 0x1000 % 16), Nat.digitChar (n / 0x100 % 16), Nat.digitChar (n / 0x10 % 16),
    Nat.digitChar (n % 16)]

def unicodeEscape (u : UInt16) : List Char := '\\' :: 'u' :: hex u.toNat

/-- `QuoteJSONString`, for one code point. -/
def escape : CodePoint → List Char
  | .scalar c =>
    match letters.find? fun l => decide (l.2 = c) with
    | some l => ['\\', l.1]
    | none => if c.toNat < 0x20 then unicodeEscape (.ofNat c.toNat) else [c]
  | .lone u => unicodeEscape u

def quote (cs : List CodePoint) : List Char := '"' :: (cs.flatMap escape ++ ['"'])

def hexDigit (c : Char) : Option Nat :=
  if c.isDigit then some (c.toNat - 48)
  else if 'a' ≤ c ∧ c ≤ 'f' then some (c.toNat - 87)
  else if 'A' ≤ c ∧ c ≤ 'F' then some (c.toNat - 55)
  else none

/-- The unit of an escape, after its backslash. -/
def readEscape : List Char → Option (List UInt16 × List Char)
  | 'u' :: a :: b :: c :: d :: rest =>
    match hexDigit a, hexDigit b, hexDigit c, hexDigit d with
    | some a, some b, some c, some d =>
      some ([.ofNat (a * 0x1000 + b * 0x100 + c * 0x10 + d)], rest)
    | _, _, _, _ => none
  | '/' :: rest => some (ofChar '/', rest)
  | c :: rest => (letters.lookup c).map fun c => (ofChar c, rest)
  | [] => none

/-- The units up to the closing quote. -/
def readString : Nat → List Char → Option (List UInt16 × List Char)
  | fuel + 1, c :: rest =>
    if c = '"' then some ([], rest)
    else if c = '\\' then
      (readEscape rest).bind fun e => (readString fuel e.2).map fun r => (e.1 ++ r.1, r.2)
    else if c.toNat < 0x20 then none
    else (readString fuel rest).map fun r => (ofChar c ++ r.1, r.2)
  | _, _ => none

/-- The node of a string. One that is no text keeps what is written for it. -/
def ofUnits (us : List UInt16) : Json :=
  match toString? us with
  | some s => .str s
  | none => .badStr (.ofList ((codePoints us).flatMap escape))

/-! ### Trees -/

def space (c : Char) : Bool := c = ' ' || c = '\t' || c = '\n' || c = '\r'

def skip (cs : List Char) : List Char := cs.dropWhile space

mutual

def print : Json → List Char
  | .null => ['n', 'u', 'l', 'l']
  | .bool true => ['t', 'r', 'u', 'e']
  | .bool false => ['f', 'a', 'l', 's', 'e']
  | .num n => n.toText
  | .str s => quote (codePoints (ofString s))
  | .badStr raw => '"' :: (raw.toList ++ ['"'])
  | .arr xs => '[' :: (printElements xs ++ [']'])
  | .obj fields => '\x7b' :: (printMembers fields ++ ['\x7d'])

def printElements : List Json → List Char
  | [] => []
  | [x] => print x
  | x :: y :: xs => print x ++ ',' :: printElements (y :: xs)

def printMembers : List (String × Json) → List Char
  | [] => []
  | [(n, x)] => quote (codePoints (ofString n)) ++ ':' :: print x
  | (n, x) :: y :: xs =>
    quote (codePoints (ofString n)) ++ ':' :: (print x ++ ',' :: printMembers (y :: xs))

end

/-- `JSON.stringify`. -/
def stringify (j : Json) : String := .ofList (print j)

/-- What follows the mark, when it is the next one. -/
def expect (mark : Char) (cs : List Char) : Option (List Char) :=
  match skip cs with
  | c :: rest => if c = mark then some rest else none
  | [] => none

def readWord (word : List Char) (j : Json) (cs : List Char) : Option (Json × List Char) :=
  if word.isPrefixOf cs then some (j, cs.drop word.length) else none

/-- No member is read by a name that is no text. -/
def addMember (name : List UInt16) (x : Json) (fields : List (String × Json)) : List (String × Json) :=
  match toString? name with
  | some n => (n, x) :: fields
  | none => fields

mutual

def readValue : Nat → List Char → Option (Json × List Char)
  | 0, _ => none
  | fuel + 1, cs =>
    match skip cs with
    | [] => none
    | c :: rest =>
      if c = '"' then (readString (rest.length + 1) rest).map fun r => (ofUnits r.1, r.2)
      else if c = '[' then
        match expect ']' rest with
        | some rest => some (.arr [], rest)
        | none => (readElements fuel rest).map fun r => (.arr r.1, r.2)
      else if c = '\x7b' then
        match expect '\x7d' rest with
        | some rest => some (.obj [], rest)
        | none => (readMembers fuel rest).map fun r => (.obj r.1, r.2)
      else if c = 'n' then readWord ['u', 'l', 'l'] .null rest
      else if c = 't' then readWord ['r', 'u', 'e'] (.bool true) rest
      else if c = 'f' then readWord ['a', 'l', 's', 'e'] (.bool false) rest
      else (readNumber (c :: rest)).map fun r => (.num r.1, r.2)

def readElements : Nat → List Char → Option (List Json × List Char)
  | 0, _ => none
  | fuel + 1, cs =>
    (readValue fuel cs).bind fun x =>
      match expect ',' x.2 with
      | some rest => (readElements fuel rest).map fun r => (x.1 :: r.1, r.2)
      | none => (expect ']' x.2).map fun rest => ([x.1], rest)

def readMembers : Nat → List Char → Option (List (String × Json) × List Char)
  | 0, _ => none
  | fuel + 1, cs =>
    (expect '"' cs).bind fun quoted =>
      (readString (quoted.length + 1) quoted).bind fun name =>
        (expect ':' name.2).bind fun rest =>
          (readValue fuel rest).bind fun x =>
            match expect ',' x.2 with
            | some rest => (readMembers fuel rest).map fun r => (addMember name.1 x.1 r.1, r.2)
            | none => (expect '\x7d' x.2).map fun rest => (addMember name.1 x.1 [], rest)

end

/-- `JSON.parse`. -/
def parse (s : String) : Option Json :=
  match readValue (2 * s.toList.length) s.toList with
  | some (j, rest) => if skip rest = [] then some j else none
  | none => none

end JsonText

end Atmin
