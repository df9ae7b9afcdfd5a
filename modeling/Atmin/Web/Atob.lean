import Atmin.Data.Base64

/-!
# Base64 with padding (`atob`, `btoa`)

The built-in decoder forgives what the server's reader does not: blanks, missing or present
padding, and unused trailing bits. What `btoa` writes it reads back.
-/

namespace Atmin.Web

namespace Atob

/-- The blanks that are stripped: tab, line feed, form feed, carriage return and space. -/
def isBlank (c : Char) : Bool := [9, 10, 12, 13, 32].contains c.toNat

/-- The value of `A`–`Z`, `a`–`z`, `0`–`9`, `+` and `/`. -/
def digit (c : Char) : Option Nat :=
  let n := c.toNat
  if 65 ≤ n ∧ n ≤ 90 then some (n - 65)
  else if 97 ≤ n ∧ n ≤ 122 then some (n - 71)
  else if 48 ≤ n ∧ n ≤ 57 then some (n + 4)
  else if n = 43 then some 62
  else if n = 47 then some 63
  else none

/-- The bits that make no whole byte are dropped. -/
def bytes : List Nat → List UInt8
  | a :: b :: c :: d :: rest =>
    .ofNat (a * 4 + b / 16) :: .ofNat (b % 16 * 16 + c / 4) :: .ofNat (c % 4 * 64 + d) :: bytes rest
  | [a, b, c] => [.ofNat (a * 4 + b / 16), .ofNat (b % 16 * 16 + c / 4)]
  | [a, b] => [.ofNat (a * 4 + b / 16)]
  | [_] | [] => []

/-- Padding counts only where it fills the last group of four. -/
def unpad (cs : List Char) : List Char :=
  if cs.length % 4 = 0 then
    match cs.reverse with
    | '=' :: '=' :: rest | '=' :: rest => rest.reverse
    | _ => cs
  else cs

end Atob

/-- `atob`, with the bytes of the binary string it returns. -/
def atob (s : String) : Option (List UInt8) :=
  let cs := Atob.unpad (s.toList.filter fun c => !Atob.isBlank c)
  if cs.length % 4 = 1 then none
  else (cs.mapM Atob.digit).map Atob.bytes

example : atob " aGk=" = some [104, 105] ∧ atob "!===" = none := by decide +kernel

/-! ### Writing base64 (`btoa`) -/

namespace Atob

def symbol (d : Nat) : Char :=
  if d = 62 then '+' else if d = 63 then '/' else Base64.symbol d

theorem symbol_spec {d : Nat} (small : d < 64) :
    digit (symbol d) = some d ∧ isBlank (symbol d) = false ∧ symbol d ≠ '=' := by
  revert d
  decide

/-- What the digits of whole bytes say. -/
theorem bytes_encodeDigits : ∀ bs : List UInt8, bytes (Base64.encodeDigits (bs.map UInt8.toNat)) = bs
  | [] => rfl
  | [a] => by
    have := a.toNat_lt
    have first : a.toNat / 4 * 4 + a.toNat % 4 * 16 / 16 = a.toNat := by omega
    simp only [List.map, Base64.encodeDigits, bytes, first, UInt8.ofNat_toNat]
  | [a, b] => by
    have := a.toNat_lt
    have := b.toNat_lt
    have first : a.toNat / 4 * 4 + (a.toNat % 4 * 16 + b.toNat / 16) / 16 = a.toNat := by omega
    have second : (a.toNat % 4 * 16 + b.toNat / 16) % 16 * 16 + b.toNat % 16 * 4 / 4 = b.toNat := by omega
    simp only [List.map, Base64.encodeDigits, bytes, first, second, UInt8.ofNat_toNat]
  | a :: b :: c :: rest => by
    have := a.toNat_lt
    have := b.toNat_lt
    have := c.toNat_lt
    have first : a.toNat / 4 * 4 + (a.toNat % 4 * 16 + b.toNat / 16) / 16 = a.toNat := by omega
    have second : (a.toNat % 4 * 16 + b.toNat / 16) % 16 * 16 + (b.toNat % 16 * 4 + c.toNat / 64) / 4 = b.toNat := by
      omega
    have third : (b.toNat % 16 * 4 + c.toNat / 64) % 4 * 64 + c.toNat % 64 = c.toNat := by omega
    simp only [List.map, Base64.encodeDigits, bytes, bytes_encodeDigits rest, first, second, third,
      UInt8.ofNat_toNat]

/-- No group of four has a single digit. -/
theorem length_encodeDigits : ∀ bs : List Nat, (Base64.encodeDigits bs).length % 4 ≠ 1
  | [] | [_] | [_, _] => by simp [Base64.encodeDigits]
  | _ :: _ :: _ :: rest => by
    have := length_encodeDigits rest
    simp only [Base64.encodeDigits, List.length_cons]
    omega

theorem mapM_digit_symbol {ds : List Nat} (small : ∀ d ∈ ds, d < 64) :
    (ds.map symbol).mapM digit = some ds := by
  induction ds with
  | nil => rfl
  | cons d rest ih =>
    rw [List.forall_mem_cons] at small
    rw [List.map_cons, List.mapM_cons, (symbol_spec small.1).1, ih small.2]
    rfl

/-- The padding that is written is taken off again. -/
theorem unpad_padded {cs : List Char} (plain : ∀ c ∈ cs, c ≠ '=') (whole : cs.length % 4 ≠ 1) :
    unpad (cs ++ List.replicate ((4 - cs.length % 4) % 4) '=') = cs := by
  have last : ∀ rest, cs.reverse ≠ '=' :: rest := by
    intro rest same
    exact plain '=' (by rw [← List.mem_reverse, same]; exact List.mem_cons_self) rfl
  have cases_ : cs.length % 4 = 0 ∨ cs.length % 4 = 2 ∨ cs.length % 4 = 3 := by omega
  rcases cases_ with none_ | two | one
  · rw [none_, unpad]
    simp only [Nat.sub_zero, Nat.mod_self, List.replicate_zero, List.append_nil, none_, if_true]
    split
    next rest same => exact absurd same (last _)
    next rest same => exact absurd same (last _)
    next => rfl
  · rw [two, unpad, if_pos (by simp; omega)]
    simp
  · rw [one, unpad, if_pos (by simp; omega)]
    have shape : (cs ++ List.replicate ((4 - 3) % 4) '=').reverse = '=' :: cs.reverse := by simp
    rw [shape]
    split
    next rest same => exact absurd (List.cons.inj same).2 (last _)
    next rest same => rw [← (List.cons.inj same).2, List.reverse_reverse]
    next _ other => exact absurd rfl (other _)

end Atob

/-- `btoa`, of the binary string of these bytes. -/
def btoa (bytes : List UInt8) : String :=
  let cs := (Base64.encodeDigits (bytes.map UInt8.toNat)).map Atob.symbol
  String.ofList (cs ++ List.replicate ((4 - cs.length % 4) % 4) '=')

/-- What was written reads back. -/
theorem atob_btoa (bytes : List UInt8) : atob (btoa bytes) = some bytes := by
  have small := Base64.encodeDigits_small bytes
  let cs := (Base64.encodeDigits (bytes.map UInt8.toNat)).map Atob.symbol
  have plain : ∀ c ∈ cs, Atob.isBlank c = false ∧ c ≠ '=' := by
    intro c member
    obtain ⟨d, here, rfl⟩ := List.mem_map.mp member
    exact (Atob.symbol_spec (small d here)).2
  have whole : cs.length % 4 ≠ 1 := by
    rw [List.length_map]
    exact Atob.length_encodeDigits _
  have kept : (cs ++ List.replicate ((4 - cs.length % 4) % 4) '=').filter (fun c => !Atob.isBlank c) =
      cs ++ List.replicate ((4 - cs.length % 4) % 4) '=' := by
    refine List.filter_eq_self.mpr fun c member => ?_
    rcases List.mem_append.mp member with symbol | pad
    · rw [(plain c symbol).1]
      rfl
    · rw [List.eq_of_mem_replicate pad]
      rfl
  rw [atob, btoa, String.toList_ofList]
  rw [kept, Atob.unpad_padded (fun c member => (plain c member).2) whole, if_neg whole,
    Atob.mapM_digit_symbol small]
  exact congrArg some (Atob.bytes_encodeDigits bytes)

end Atmin.Web
