import Mathlib.Data.List.Basic

/-!
# Unpadded base64url

`URL_SAFE_NO_PAD`: no padding accepted, and unused trailing bits must be zero.
-/

namespace Atmin.Base64

/-- The value of `A`–`Z`, `a`–`z`, `0`–`9`, `-` and `_`. -/
def digit (c : Char) : Option Nat :=
  let n := c.toNat
  if 65 ≤ n ∧ n ≤ 90 then some (n - 65)
  else if 97 ≤ n ∧ n ≤ 122 then some (n - 71)
  else if 48 ≤ n ∧ n ≤ 57 then some (n + 4)
  else if n = 45 then some 62
  else if n = 95 then some 63
  else none

def symbol (d : Nat) : Char :=
  if d < 26 then .ofNat (d + 65)
  else if d < 52 then .ofNat (d + 71)
  else if d < 62 then .ofNat (d - 4)
  else if d = 62 then '-'
  else '_'

def decodeDigits : List Nat → Option (List UInt8)
  | [] => some []
  | [_] => none
  | [a, b] => if b % 16 = 0 then some [.ofNat (a * 4 + b / 16)] else none
  | [a, b, c] =>
    if c % 4 = 0 then some [.ofNat (a * 4 + b / 16), .ofNat (b % 16 * 16 + c / 4)] else none
  | a :: b :: c :: d :: rest => match decodeDigits rest with
    | some bytes => some (.ofNat (a * 4 + b / 16) :: .ofNat (b % 16 * 16 + c / 4) ::
        .ofNat (c % 4 * 64 + d) :: bytes)
    | none => none

def decode (s : String) : Option (List UInt8) :=
  (s.toList.mapM digit).bind decodeDigits

def encodeDigits : List Nat → List Nat
  | [] => []
  | [a] => [a / 4, a % 4 * 16]
  | [a, b] => [a / 4, a % 4 * 16 + b / 16, b % 16 * 4]
  | a :: b :: c :: rest =>
    a / 4 :: (a % 4 * 16 + b / 16) :: (b % 16 * 4 + c / 64) :: c % 64 :: encodeDigits rest

def encode (bytes : List UInt8) : String :=
  String.ofList ((encodeDigits (bytes.map UInt8.toNat)).map symbol)

/-! ### Round trips -/

theorem digit_symbol {d : Nat} (small : d < 64) : digit (symbol d) = some d := by
  revert d
  decide

theorem symbol_digit {c : Char} {d : Nat} (read : digit c = some d) : d < 64 ∧ symbol d = c := by
  have char {n : Nat} (same : c.toNat = n) : Char.ofNat n = c := by rw [← same, Char.ofNat_toNat]
  unfold digit at read
  dsimp only at read
  split at read
  next upper =>
    cases read
    refine ⟨by omega, ?_⟩
    rw [symbol, if_pos (by omega)]
    exact char (by omega)
  split at read
  next lower =>
    cases read
    refine ⟨by omega, ?_⟩
    rw [symbol, if_neg (by omega), if_pos (by omega)]
    exact char (by omega)
  split at read
  next figure =>
    cases read
    refine ⟨by omega, ?_⟩
    rw [symbol, if_neg (by omega), if_neg (by omega), if_pos (by omega)]
    exact char (by omega)
  split at read
  next hyphen =>
    cases read
    exact ⟨by decide, char hyphen⟩
  split at read
  next low =>
    cases read
    exact ⟨by decide, char low⟩
  · cases read

theorem encodeDigits_small : ∀ (bytes : List UInt8), ∀ d ∈ encodeDigits (bytes.map UInt8.toNat), d < 64
  | [] => by simp [encodeDigits]
  | [a] => by
    have := a.toNat_lt
    simp only [List.map, encodeDigits, List.mem_cons, List.not_mem_nil, or_false]
    omega
  | [a, b] => by
    have := a.toNat_lt
    have := b.toNat_lt
    simp only [List.map, encodeDigits, List.mem_cons, List.not_mem_nil, or_false]
    omega
  | a :: b :: c :: rest => by
    have := a.toNat_lt
    have := b.toNat_lt
    have := c.toNat_lt
    simp only [List.map, encodeDigits, List.mem_cons]
    rintro d (rfl | rfl | rfl | rfl | later)
    · omega
    · omega
    · omega
    · omega
    · exact encodeDigits_small rest d later

theorem decodeDigits_encodeDigits : ∀ bytes : List UInt8,
    decodeDigits (encodeDigits (bytes.map UInt8.toNat)) = some bytes
  | [] => rfl
  | [a] => by
    have := a.toNat_lt
    have first : a.toNat / 4 * 4 + a.toNat % 4 * 16 / 16 = a.toNat := by omega
    simp only [List.map, encodeDigits, decodeDigits, first, UInt8.ofNat_toNat]
    rw [if_pos (by omega)]
  | [a, b] => by
    have := a.toNat_lt
    have := b.toNat_lt
    have first : a.toNat / 4 * 4 + (a.toNat % 4 * 16 + b.toNat / 16) / 16 = a.toNat := by omega
    have second : (a.toNat % 4 * 16 + b.toNat / 16) % 16 * 16 + b.toNat % 16 * 4 / 4 = b.toNat := by omega
    simp only [List.map, encodeDigits, decodeDigits, first, second, UInt8.ofNat_toNat]
    rw [if_pos (by omega)]
  | a :: b :: c :: rest => by
    have := a.toNat_lt
    have := b.toNat_lt
    have := c.toNat_lt
    have first : a.toNat / 4 * 4 + (a.toNat % 4 * 16 + b.toNat / 16) / 16 = a.toNat := by omega
    have second : (a.toNat % 4 * 16 + b.toNat / 16) % 16 * 16 + (b.toNat % 16 * 4 + c.toNat / 64) / 4 = b.toNat := by
      omega
    have third : (b.toNat % 16 * 4 + c.toNat / 64) % 4 * 64 + c.toNat % 64 = c.toNat := by omega
    simp only [List.map, encodeDigits, decodeDigits, decodeDigits_encodeDigits rest, first, second, third,
      UInt8.ofNat_toNat]

theorem encodeDigits_decodeDigits : ∀ {ds : List Nat} {bytes : List UInt8}, (∀ d ∈ ds, d < 64) →
    decodeDigits ds = some bytes → encodeDigits (bytes.map UInt8.toNat) = ds
  | [], _, _, read => by cases read; rfl
  | [_], _, _, read => by cases read
  | [a, b], _, small, read => by
    simp only [List.forall_mem_cons] at small
    simp only [decodeDigits, Option.ite_none_right_eq_some, Option.some.injEq] at read
    obtain ⟨zero, rfl⟩ := read
    simp only [List.map, encodeDigits, UInt8.toNat_ofNat']
    congr 1
    · omega
    · congr 1
      omega
  | [a, b, c], _, small, read => by
    simp only [List.forall_mem_cons] at small
    simp only [decodeDigits, Option.ite_none_right_eq_some, Option.some.injEq] at read
    obtain ⟨zero, rfl⟩ := read
    simp only [List.map, encodeDigits, UInt8.toNat_ofNat', List.cons.injEq, and_true]
    omega
  | a :: b :: c :: d :: rest, _, small, read => by
    simp only [List.forall_mem_cons] at small
    obtain ⟨_, _, _, _, later⟩ := small
    simp only [decodeDigits] at read
    split at read
    next bytes found =>
      cases read
      simp only [List.map, encodeDigits, UInt8.toNat_ofNat', List.cons.injEq,
        encodeDigits_decodeDigits later found, and_true]
      omega
    · cases read

theorem mapM_digit_symbol : ∀ {ds : List Nat}, (∀ d ∈ ds, d < 64) → (ds.map symbol).mapM digit = some ds
  | [], _ => rfl
  | d :: ds, small => by
    rw [List.forall_mem_cons] at small
    rw [List.map_cons, List.mapM_cons, digit_symbol small.1, mapM_digit_symbol small.2]
    rfl

theorem map_symbol_digits : ∀ {cs : List Char} {ds : List Nat}, cs.mapM digit = some ds →
    (∀ d ∈ ds, d < 64) ∧ ds.map symbol = cs
  | [], _, read => by cases read; exact ⟨nofun, rfl⟩
  | c :: cs, ds, read => by
    rw [List.mapM_cons] at read
    obtain ⟨d, first, rest⟩ := Option.bind_eq_some_iff.mp read
    obtain ⟨tail, later, same⟩ := Option.bind_eq_some_iff.mp rest
    cases same
    obtain ⟨small, symbols⟩ := map_symbol_digits later
    obtain ⟨here, char⟩ := symbol_digit first
    exact ⟨List.forall_mem_cons.mpr ⟨here, small⟩, by rw [List.map_cons, char, symbols]⟩

/-- Decoding gives the bytes back. -/
theorem decode_encode (bytes : List UInt8) : decode (encode bytes) = some bytes := by
  rw [decode, encode, String.toList_ofList, mapM_digit_symbol (encodeDigits_small bytes)]
  exact decodeDigits_encodeDigits bytes

/-- Each byte string has one encoding only. -/
theorem encode_decode {s : String} {bytes : List UInt8} (read : decode s = some bytes) :
    encode bytes = s := by
  obtain ⟨ds, digits, found⟩ := Option.bind_eq_some_iff.mp read
  obtain ⟨small, symbols⟩ := map_symbol_digits digits
  rw [encode, encodeDigits_decodeDigits small found, symbols, String.ofList_toList]

theorem encode_inj {a b : List UInt8} (same : encode a = encode b) : a = b := by
  have both := decode_encode a
  rw [same, decode_encode] at both
  exact (Option.some.inj both).symm

/-- What is no digit is not in an encoding. -/
theorem not_mem_encode {c : Char} (other : digit c = none) (bytes : List UInt8) :
    c ∉ (encode bytes).toList := by
  intro member
  rw [encode, String.toList_ofList] at member
  obtain ⟨d, here, rfl⟩ := List.mem_map.mp member
  rw [digit_symbol (encodeDigits_small bytes d here)] at other
  cases other

end Atmin.Base64
