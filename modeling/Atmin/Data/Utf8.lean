import Mathlib.Algebra.Group.Int.Defs
import Mathlib.Algebra.Group.Nat.Defs
import Mathlib.Data.List.Basic

/-!
# UTF-8

The bytes of a text, and the decoder of the encoding standard, which never fails: what is no
character becomes U+FFFD. A cut at any byte leaves the whole characters before it, and of a
character cut in two one U+FFFD.
-/

namespace Atmin.Utf8

def replacement : Char := '\uFFFD'

def encode (cs : List Char) : List UInt8 := cs.flatMap String.utf8EncodeChar

/-- A character of which bytes are missing: the value so far, how many bytes are still to come,
and the bounds of the next one. -/
structure Pending where
  value : Nat
  needed : Nat
  lower : Nat
  upper : Nat

/-- The first byte of a character: what it gives at once, and what it leaves pending. -/
def lead (b : Nat) : List Char × Option Pending :=
  if b < 0x80 then ([.ofNat b], none)
  else if 0xC2 ≤ b ∧ b ≤ 0xDF then ([], some ⟨b % 0x20, 1, 0x80, 0xBF⟩)
  else if 0xE0 ≤ b ∧ b ≤ 0xEF then
    ([], some ⟨b % 0x10, 2, if b = 0xE0 then 0xA0 else 0x80, if b = 0xED then 0x9F else 0xBF⟩)
  else if 0xF0 ≤ b ∧ b ≤ 0xF4 then
    ([], some ⟨b % 0x08, 3, if b = 0xF0 then 0x90 else 0x80, if b = 0xF4 then 0x8F else 0xBF⟩)
  else ([replacement], none)

def step (state : Option Pending) (b : Nat) : List Char × Option Pending :=
  match state with
  | none => lead b
  | some p =>
    if p.lower ≤ b ∧ b ≤ p.upper then
      if p.needed = 1 then ([.ofNat (p.value * 0x40 + b % 0x40)], none)
      else ([], some ⟨p.value * 0x40 + b % 0x40, p.needed - 1, 0x80, 0xBF⟩)
    else
      -- the byte is read once more, as the first of a character
      (replacement :: (lead b).1, (lead b).2)

def decodeFrom : Option Pending → List UInt8 → List Char
  | none, [] => []
  | some _, [] => [replacement]
  | state, b :: bs => (step state b.toNat).1 ++ decodeFrom (step state b.toNat).2 bs

/-- A byte order mark at the beginning is taken off. -/
def dropMark : List Char → List Char
  | [] => []
  | c :: cs => if c = '\uFEFF' then cs else c :: cs

def decode (bytes : List UInt8) : List Char := dropMark (decodeFrom none bytes)

@[simp]
theorem encode_nil : encode [] = [] := rfl

@[simp]
theorem encode_cons (c : Char) (cs : List Char) :
    encode (c :: cs) = String.utf8EncodeChar c ++ encode cs := List.flatMap_cons

@[simp]
theorem encode_append (cs ds : List Char) : encode (cs ++ ds) = encode cs ++ encode ds :=
  List.flatMap_append

theorem decodeFrom_cons (state : Option Pending) (b : UInt8) (bs : List UInt8) :
    decodeFrom state (b :: bs) = (step state b.toNat).1 ++ decodeFrom (step state b.toNat).2 bs := by
  cases state <;> rfl

/-! ### One character -/

/-- The last `k` bytes of the character with value `n`, six bits a byte. -/
def continuation (n : Nat) : Nat → List UInt8
  | 0 => []
  | k + 1 => .ofNat (n / 0x40 ^ k % 0x40 + 0x80) :: continuation n k

@[simp]
theorem length_continuation (n k : Nat) : (continuation n k).length = k := by
  induction k with
  | zero => rfl
  | succ k ih => rw [continuation, List.length_cons, ih]

/-- Pending are exactly the last `k` bytes of `n`. -/
structure Pending.Awaits (p : Pending) (n k : Nat) : Prop where
  value : p.value = n / 0x40 ^ (k + 1)
  needed : p.needed = k + 1
  lower : p.lower ≤ n / 0x40 ^ k % 0x40 + 0x80
  upper : n / 0x40 ^ k % 0x40 + 0x80 ≤ p.upper

theorem toNat_ofNat8 {n : Nat} (small : n < 0x100) : (UInt8.ofNat n).toNat = n := by
  rw [UInt8.toNat_ofNat', Nat.mod_eq_of_lt small]

/-- The value grows by the six bits of one byte. -/
theorem shift_digit (n k : Nat) :
    n / 0x40 ^ (k + 1) * 0x40 + (n / 0x40 ^ k % 0x40 + 0x80) % 0x40 = n / 0x40 ^ k := by
  rw [Nat.pow_succ, ← Nat.div_div_eq_div_mul]
  omega

theorem Pending.Awaits.step_last {p : Pending} {n : Nat} (awaits : p.Awaits n 0) :
    step (some p) (n / 0x40 ^ 0 % 0x40 + 0x80) = ([.ofNat n], none) := by
  have value := shift_digit n 0
  rw [step, if_pos ⟨awaits.lower, awaits.upper⟩, if_pos awaits.needed, awaits.value, value,
    Nat.pow_zero, Nat.div_one]

theorem Pending.Awaits.step_more {p : Pending} {n k : Nat} (awaits : p.Awaits n (k + 1)) :
    ∃ q : Pending, q.Awaits n k ∧ step (some p) (n / 0x40 ^ (k + 1) % 0x40 + 0x80) = ([], some q) := by
  have one : ¬ p.needed = 1 := by
    have := awaits.needed
    omega
  rw [step, if_pos ⟨awaits.lower, awaits.upper⟩, if_neg one]
  refine ⟨_, ?_, rfl⟩
  constructor
  · rw [awaits.value, shift_digit]
  · rw [awaits.needed]
    rfl
  · exact Nat.le_add_left _ _
  · have := Nat.mod_lt (n / 0x40 ^ k) (show 0 < 0x40 by decide)
    simp only
    omega

/-- The bytes awaited complete the character. -/
theorem Pending.Awaits.decode_rest {p : Pending} {n k : Nat} (awaits : p.Awaits n k) (bs : List UInt8) :
    decodeFrom (some p) (continuation n (k + 1) ++ bs) = .ofNat n :: decodeFrom none bs := by
  have byte (k : Nat) : (UInt8.ofNat (n / 0x40 ^ k % 0x40 + 0x80)).toNat = n / 0x40 ^ k % 0x40 + 0x80 :=
    toNat_ofNat8 (by omega)
  induction k generalizing p with
  | zero =>
    rw [continuation, List.cons_append, decodeFrom_cons, byte, awaits.step_last]
    rfl
  | succ k ih =>
    obtain ⟨q, next, stepped⟩ := awaits.step_more
    rw [continuation, List.cons_append, decodeFrom_cons, byte, stepped, List.nil_append, ih next]

/-- Fewer bytes than are awaited end in U+FFFD. -/
theorem Pending.Awaits.decode_short {p : Pending} {n k : Nat} (awaits : p.Awaits n k) {j : Nat}
    (short : j ≤ k) : decodeFrom (some p) ((continuation n (k + 1)).take j) = [replacement] := by
  have byte (k : Nat) : (UInt8.ofNat (n / 0x40 ^ k % 0x40 + 0x80)).toNat = n / 0x40 ^ k % 0x40 + 0x80 :=
    toNat_ofNat8 (by omega)
  induction k generalizing p j with
  | zero =>
    obtain rfl := Nat.le_zero.mp short
    rfl
  | succ k ih =>
    cases j with
    | zero => rfl
    | succ j =>
      obtain ⟨q, next, stepped⟩ := awaits.step_more
      rw [continuation, List.take_succ_cons, decodeFrom_cons, byte, stepped, List.nil_append,
        ih next (by omega)]

theorem lead_two {b : Nat} (low : 0xC2 ≤ b) (high : b ≤ 0xDF) :
    lead b = ([], some ⟨b % 0x20, 1, 0x80, 0xBF⟩) := by
  rw [lead, if_neg (by omega), if_pos ⟨low, high⟩]

theorem lead_three {b : Nat} (low : 0xE0 ≤ b) (high : b ≤ 0xEF) :
    lead b = ([], some
      ⟨b % 0x10, 2, if b = 0xE0 then 0xA0 else 0x80, if b = 0xED then 0x9F else 0xBF⟩) := by
  rw [lead, if_neg (by omega), if_neg (by omega), if_pos ⟨low, high⟩]

theorem lead_four {b : Nat} (low : 0xF0 ≤ b) (high : b ≤ 0xF4) :
    lead b = ([], some
      ⟨b % 0x08, 3, if b = 0xF0 then 0x90 else 0x80, if b = 0xF4 then 0x8F else 0xBF⟩) := by
  rw [lead, if_neg (by omega), if_neg (by omega), if_neg (by omega), if_pos ⟨low, high⟩]

/-- A character is one byte, or a first byte that leaves exactly the other ones pending. -/
theorem encodeChar_shape (c : Char) :
    (∃ b : UInt8, String.utf8EncodeChar c = [b] ∧ lead b.toNat = ([c], none)) ∨
    ∃ (b : UInt8) (k : Nat) (p : Pending), String.utf8EncodeChar c = b :: continuation c.toNat (k + 1) ∧
      p.Awaits c.toNat k ∧ lead b.toNat = ([], some p) := by
  have valid : c.toNat.isValidChar := c.valid
  have value : c.val.toNat = c.toNat := rfl
  simp only [Nat.isValidChar] at valid
  rw [String.utf8EncodeChar]
  simp only [value]
  split
  next one =>
    refine .inl ⟨_, rfl, ?_⟩
    rw [toNat_ofNat8 (by omega), lead, if_pos (by omega), Char.ofNat_toNat]
  next =>
  refine .inr ?_
  split
  next two =>
    refine ⟨.ofNat (c.toNat / 0x40 % 0x20 + 0xC0), 0, _, ?_, ?_,
      (congrArg lead (toNat_ofNat8 (by omega))).trans (lead_two (by omega) (by omega))⟩
    · simp only [continuation, Nat.pow_zero, Nat.div_one]
    · constructor <;> simp only [Nat.reducePow, Nat.reduceAdd] <;> omega
  next =>
  split
  next three =>
    refine ⟨.ofNat (c.toNat / 0x1000 % 0x10 + 0xE0), 1, _, ?_, ?_,
      (congrArg lead (toNat_ofNat8 (by omega))).trans (lead_three (by omega) (by omega))⟩
    · simp only [continuation, Nat.pow_zero, Nat.div_one, Nat.pow_one]
    -- the bounds leave out what fits in fewer bytes, and the surrogates
    · constructor <;> simp only [Nat.reducePow, Nat.reduceAdd]
      · omega
      · split <;> omega
      · split <;> omega
  next =>
    refine ⟨.ofNat (c.toNat / 0x40000 % 0x08 + 0xF0), 2, _, ?_, ?_,
      (congrArg lead (toNat_ofNat8 (by omega))).trans (lead_four (by omega) (by omega))⟩
    · simp only [continuation, Nat.pow_zero, Nat.div_one, Nat.pow_one, Nat.reducePow]
    · constructor <;> simp only [Nat.reducePow, Nat.reduceAdd]
      · omega
      · split <;> omega
      · split <;> omega

/-- A character's bytes are decoded to this character. -/
theorem decode_char (c : Char) (bs : List UInt8) :
    decodeFrom none (String.utf8EncodeChar c ++ bs) = c :: decodeFrom none bs := by
  rcases encodeChar_shape c with ⟨b, bytes, read⟩ | ⟨b, k, p, bytes, awaits, read⟩
  · rw [bytes, List.singleton_append, decodeFrom_cons, step, read]
    rfl
  · rw [bytes, List.cons_append, decodeFrom_cons, step, read, List.nil_append, awaits.decode_rest,
      Char.ofNat_toNat]

/-- Of a character that is cut in two one U+FFFD is left. -/
theorem decode_torn (c : Char) {n : Nat} (some_byte : 0 < n) (short : n < c.utf8Size) :
    decodeFrom none ((String.utf8EncodeChar c).take n) = [replacement] := by
  rw [← String.length_utf8EncodeChar] at short
  obtain ⟨j, rfl⟩ := Nat.exists_eq_add_of_lt some_byte
  rcases encodeChar_shape c with ⟨b, bytes, -⟩ | ⟨b, k, p, bytes, awaits, read⟩
  · simp [bytes] at short
  · rw [bytes, List.length_cons, length_continuation] at short
    rw [bytes, Nat.zero_add, List.take_succ_cons, decodeFrom_cons, step, read, List.nil_append,
      awaits.decode_short (by omega)]

/-! ### A cut -/

/-- The characters of a text that are whole within its first `n` bytes, and the others. -/
structure Cut (n : Nat) (text : List Char) where
  whole : List Char
  rest : List Char
  split : text = whole ++ rest
  fits : (encode whole).length ≤ n
  full : ∀ c ∈ rest.head?, n < (encode whole).length + c.utf8Size

def cut (n : Nat) : (text : List Char) → Cut n text
  | [] => ⟨[], [], rfl, Nat.zero_le _, by simp⟩
  | c :: cs =>
    if fits : c.utf8Size ≤ n then
      let later := cut (n - c.utf8Size) cs
      { whole := c :: later.whole
        rest := later.rest
        split := congrArg (c :: ·) later.split
        fits := by
          have := later.fits
          simp only [encode_cons, List.length_append, String.length_utf8EncodeChar]
          omega
        full := by
          intro d first
          have := later.full d first
          simp only [encode_cons, List.length_append, String.length_utf8EncodeChar]
          omega }
    else ⟨[], c :: cs, rfl, Nat.zero_le _, by simpa using fits⟩

/-- A cut leaves something out of a text that is longer, and of no other. -/
theorem Cut.rest_ne_nil_iff {n : Nat} {text : List Char} (made : Cut n text) :
    made.rest ≠ [] ↔ n < (encode text).length := by
  have full := made.full
  have fits := made.fits
  conv_rhs => rw [made.split, encode_append, List.length_append]
  cases rest : made.rest with
  | nil => simpa using fits
  | cons c cs =>
    rw [rest] at full
    have torn := full c rfl
    rw [encode_cons, List.length_append, String.length_utf8EncodeChar]
    exact iff_of_true (List.cons_ne_nil _ _) (by omega)

theorem decode_append (cs : List Char) (bs : List UInt8) :
    decodeFrom none (encode cs ++ bs) = cs ++ decodeFrom none bs := by
  induction cs with
  | nil => rfl
  | cons c cs ih => rw [encode_cons, List.append_assoc, decode_char, ih, List.cons_append]

/-- The first `n` bytes of a text: its whole characters, and one U+FFFD at most. -/
theorem Cut.decode_take {n : Nat} {text : List Char} (made : Cut n text) :
    ∃ torn, decodeFrom none ((encode text).take n) = made.whole ++ torn ∧
      (torn = [] ∨ torn = [replacement]) := by
  have taken : (encode text).take n =
      encode made.whole ++ (encode made.rest).take (n - (encode made.whole).length) := by
    conv_lhs => rw [made.split, encode_append]
    rw [List.take_append, List.take_of_length_le made.fits]
  rw [taken, decode_append]
  refine ⟨_, rfl, ?_⟩
  have full := made.full
  cases rest : made.rest with
  | nil => exact .inl (by rw [encode_nil, List.take_nil]; rfl)
  | cons c cs =>
    rw [rest] at full
    have torn := full c rfl
    rcases Nat.eq_zero_or_pos (n - (encode made.whole).length) with none | some
    · exact .inl (by rw [none, List.take_zero]; rfl)
    · right
      have short : n - (encode made.whole).length < c.utf8Size := by omega
      rw [encode_cons, List.take_append_of_le_length, decode_torn c some short]
      rw [String.length_utf8EncodeChar]
      exact Nat.le_of_lt short

end Atmin.Utf8
