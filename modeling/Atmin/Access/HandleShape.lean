import Atmin.Data.Regex
import Atmin.Data.Utf16
import Atmin.Server.Auth

/-!
# Handles on both sides (`handle-suggest.ts`, `model.rs`)

The client checks the UTF-16 units with a pattern, the server the UTF-8 bytes one by one.
-/

namespace Atmin

open Utf16

/-! ### The client's check -/

def lowerUnit (u : UInt16) : Bool := decide (0x61 ≤ u.toNat ∧ u.toNat ≤ 0x7A)

def digitUnit (u : UInt16) : Bool := decide (0x30 ≤ u.toNat ∧ u.toNat ≤ 0x39)

/-- `^[a-z][a-z0-9-]{1,30}[a-z0-9]$`. -/
def HANDLE_REGEX : Regex UInt16 :=
  .seq .start
    (.seq
      (.seq (.cls lowerUnit)
        (.seq (.times (.cls fun u => lowerUnit u || digitUnit u || u == 0x2D) 1 29)
          (.cls fun u => lowerUnit u || digitUnit u)))
      .finish)

/-- `String.prototype.includes`. -/
def includes {α : Type} [BEq α] (hay needle : List α) : Bool := hay.tails.any needle.isPrefixOf

def validateHandleShape (handle : List UInt16) : Option String :=
  if !HANDLE_REGEX.test handle then
    some "Handle must be 3–32 lowercase letters, digits, or hyphens, starting with a letter."
  else if includes handle [0x2D, 0x2D] then some "Handle cannot contain consecutive hyphens."
  else none

/-! ### The server's check -/

def isAsciiLowercase (b : UInt8) : Bool := decide (0x61 ≤ b.toNat ∧ b.toNat ≤ 0x7A)

def isAsciiDigit (b : UInt8) : Bool := decide (0x30 ≤ b.toNat ∧ b.toNat ≤ 0x39)

/-- `validate_handle_syntax`, on the bytes of the string. -/
def validateHandleBytes (s : String) : Bool :=
  let b := Token.utf8 s
  if ¬ (3 ≤ b.length ∧ b.length ≤ 32) then false
  else if !b.head?.any isAsciiLowercase then false
  else if !b.getLast?.any fun c => isAsciiLowercase c || isAsciiDigit c then false
  else if !b.all fun c => isAsciiLowercase c || isAsciiDigit c || c == 0x2D then false
  else if includes b [0x2D, 0x2D] then false
  else true

/-! ### The shape of a handle -/

/-- The letters, the digits and the hyphen among the units of a string. -/
structure Alphabet (α : Type) where
  letter : α → Bool
  digit : α → Bool
  hyphen : α

/-- Three to 32 letters, digits and hyphens, with a letter first, no hyphen last and no two
hyphens together. -/
structure HandleShape {α : Type} (A : Alphabet α) (cs : List α) : Prop where
  least : 3 ≤ cs.length
  most : cs.length ≤ 32
  all : ∀ c ∈ cs, A.letter c = true ∨ A.digit c = true ∨ c = A.hyphen
  first : ∃ c ∈ cs.head?, A.letter c = true
  last : ∃ c ∈ cs.getLast?, A.letter c = true ∨ A.digit c = true
  apart : ∀ i, ¬ (cs[i]? = some A.hyphen ∧ cs[i + 1]? = some A.hyphen)

def chars : Alphabet Char := ⟨isLower, isDigit, '-'⟩

def units : Alphabet UInt16 := ⟨lowerUnit, digitUnit, 0x2D⟩

def octets : Alphabet UInt8 := ⟨isAsciiLowercase, isAsciiDigit, 0x2D⟩

/-- The shape only depends on what each unit stands for. -/
theorem shape_map {α β : Type} {A : Alphabet α} {B : Alphabet β} {f : α → β} {cs : List α}
    (letter : ∀ c ∈ cs, B.letter (f c) = A.letter c) (digit : ∀ c ∈ cs, B.digit (f c) = A.digit c)
    (hyphen : ∀ c ∈ cs, f c = B.hyphen ↔ c = A.hyphen) :
    HandleShape B (cs.map f) ↔ HandleShape A cs := by
  -- the alphabets agree along the map, on each kind of character and at each place
  have kind (c : α) (member : c ∈ cs) :
      (B.letter (f c) = true ∨ B.digit (f c) = true ∨ f c = B.hyphen) ↔
        (A.letter c = true ∨ A.digit c = true ∨ c = A.hyphen) := by
    rw [letter c member, digit c member, hyphen c member]
  have mark (i : Nat) : (cs.map f)[i]? = some B.hyphen ↔ cs[i]? = some A.hyphen := by
    rw [List.getElem?_map]
    cases found : cs[i]? with
    | none => simp
    | some c => simpa using hyphen c (List.mem_of_getElem? found)
  have first : (∃ c ∈ (cs.map f).head?, B.letter c = true) ↔ ∃ c ∈ cs.head?, A.letter c = true := by
    rw [List.head?_map]
    cases found : cs.head? with
    | none => simp
    | some c => simp [letter c (List.mem_of_mem_head? found)]
  have last : (∃ c ∈ (cs.map f).getLast?, B.letter c = true ∨ B.digit c = true) ↔
      ∃ c ∈ cs.getLast?, A.letter c = true ∨ A.digit c = true := by
    rw [List.getLast?_map]
    cases found : cs.getLast? with
    | none => simp
    | some c =>
      have member := List.mem_of_getLast? found
      simp [letter c member, digit c member]
  constructor
  · intro shape
    refine ⟨?_, ?_, ?_, first.mp shape.first, last.mp shape.last, ?_⟩
    · simpa using shape.least
    · simpa using shape.most
    · exact fun c member => (kind c member).mp (shape.all (f c) (List.mem_map_of_mem member))
    · exact fun i both => shape.apart i ⟨(mark i).mpr both.1, (mark (i + 1)).mpr both.2⟩
  · intro shape
    refine ⟨?_, ?_, ?_, first.mpr shape.first, last.mpr shape.last, ?_⟩
    · simpa using shape.least
    · simpa using shape.most
    · intro d member
      obtain ⟨c, here, rfl⟩ := List.mem_map.mp member
      exact (kind c here).mpr (shape.all c here)
    · exact fun i both => shape.apart i ⟨(mark i).mp both.1, (mark (i + 1)).mp both.2⟩

/-! ### Each check decides the shape -/

/-- Two adjacent occurrences, by their position. -/
theorem includes_pair {α : Type} [BEq α] [LawfulBEq α] (h : α) (cs : List α) :
    includes cs [h, h] = true ↔ ∃ i, cs[i]? = some h ∧ cs[i + 1]? = some h := by
  induction cs with
  | nil => simp [includes]
  | cons c cs ih =>
    have step : includes (c :: cs) [h, h] = true ↔
        (c = h ∧ cs[0]? = some h) ∨ includes cs [h, h] = true := by
      cases cs with
      | nil => simp [includes, List.isPrefixOf]
      | cons d cs => simp [includes, List.isPrefixOf, @eq_comm _ h c, @eq_comm _ h d]
    rw [step, ih]
    constructor
    · rintro (⟨rfl, next⟩ | ⟨i, both⟩)
      · exact ⟨0, rfl, next⟩
      · exact ⟨i + 1, both⟩
    · rintro ⟨i, first, second⟩
      cases i with
      | zero => exact .inl ⟨Option.some.inj first, second⟩
      | succ i => exact .inr ⟨i, first, second⟩

theorem hasDoubleHyphen_includes (cs : List Char) : hasDoubleHyphen cs = includes cs ['-', '-'] := by
  induction cs with
  | nil => rfl
  | cons c cs ih =>
    cases cs with
    | nil => simp [hasDoubleHyphen, includes, List.isPrefixOf]
    | cons d cs =>
      have step : includes (c :: d :: cs) ['-', '-'] =
          ((c == '-' && d == '-') || includes (d :: cs) ['-', '-']) := by
        simp [includes, List.isPrefixOf, Bool.beq_comm]
      rw [step, hasDoubleHyphen, ih]

/-- What the pattern matches: a letter, one to thirty units of the body, a letter or digit. -/
theorem test_handle (us : List UInt16) :
    HANDLE_REGEX.test us = true ↔ ∃ a body z, us = a :: (body ++ [z]) ∧ lowerUnit a = true ∧
      1 ≤ body.length ∧ body.length ≤ 30 ∧
      (∀ u ∈ body, (lowerUnit u || digitUnit u || u == 0x2D) = true) ∧
      (lowerUnit z || digitUnit z) = true := by
  rw [HANDLE_REGEX, Regex.test_anchored]
  constructor
  · rintro ⟨u, first, v, ⟨n, low, high, steps⟩, last⟩
    obtain ⟨a, letter, start⟩ := Regex.matches_cls.mp first
    obtain ⟨body, rfl, all, middle⟩ := Regex.times_cls.mp steps
    obtain ⟨z, alphanumeric, finish⟩ := Regex.matches_cls.mp last
    have whole := ((start.trans middle).trans finish).1
    rw [List.append_nil, List.append_assoc, List.singleton_append] at whole
    exact ⟨a, body, z, whole, letter, low, high, all, alphanumeric⟩
  · rintro ⟨a, body, z, rfl, letter, low, high, all, alphanumeric⟩
    refine ⟨⟨1, body ++ [z]⟩, Regex.matches_cls.mpr ⟨a, letter, rfl, rfl⟩, ⟨1 + body.length, [z]⟩,
      ⟨body.length, low, high, Regex.times_cls.mpr ⟨body, rfl, all, rfl, rfl⟩⟩,
      Regex.matches_cls.mpr ⟨z, alphanumeric, rfl, ?_⟩⟩
    simp only [List.length_cons, List.length_append, List.length_nil]
    omega

theorem shape_client (us : List UInt16) : validateHandleShape us = none ↔ HandleShape units us := by
  have decided : validateHandleShape us = none ↔
      HANDLE_REGEX.test us = true ∧ ¬ includes us [0x2D, 0x2D] = true := by
    unfold validateHandleShape
    by_cases pattern : HANDLE_REGEX.test us = true <;>
      by_cases double : includes us [0x2D, 0x2D] = true <;> simp [pattern, double]
  -- the regular expression gives the characters and the length, `includes` the hyphens
  rw [decided, test_handle, includes_pair, not_exists]
  constructor
  · rintro ⟨⟨a, body, z, rfl, letter, low, high, all, alphanumeric⟩, apart⟩
    simp only [Bool.or_eq_true, beq_iff_eq] at all alphanumeric
    refine ⟨?_, ?_, ?_, ⟨a, rfl, letter⟩, ⟨z, ?_, alphanumeric⟩, apart⟩
    · simp only [List.length_cons, List.length_append, List.length_nil]
      omega
    · simp only [List.length_cons, List.length_append, List.length_nil]
      omega
    · intro u member
      rcases List.mem_cons.mp member with rfl | member
      · exact .inl letter
      · rcases List.mem_append.mp member with inside | last
        · exact or_assoc.mp (all u inside)
        · rw [List.mem_singleton.mp last]
          rcases alphanumeric with letter | digit
          · exact .inl letter
          · exact .inr (.inl digit)
    · rw [← List.cons_append, List.getLast?_append]
      rfl
  · intro shape
    -- two characters at least: the first, those between, and the last
    obtain ⟨a, rest, rfl⟩ := List.exists_cons_of_length_pos (Nat.lt_of_lt_of_le (by omega) shape.least)
    obtain ⟨body, z, rfl⟩ : ∃ body z, rest = body ++ [z] := by
      have some : rest ≠ [] := by
        rintro rfl
        exact absurd shape.least (by simp)
      exact ⟨_, _, (List.dropLast_append_getLast some).symm⟩
    obtain ⟨u, first, letter⟩ := shape.first
    obtain ⟨v, last, alphanumeric⟩ := shape.last
    rw [List.head?_cons, Option.mem_some_iff] at first
    rw [← List.cons_append, List.getLast?_append, List.getLast?_singleton, Option.some_or,
      Option.mem_some_iff] at last
    subst first last
    have least := shape.least
    have most := shape.most
    simp only [List.length_cons, List.length_append, List.length_nil] at least most
    refine ⟨⟨a, body, z, rfl, letter, by omega, by omega, fun u member => ?_, ?_⟩, shape.apart⟩
    · have kind : lowerUnit u = true ∨ digitUnit u = true ∨ u = 0x2D :=
        shape.all u (List.mem_cons_of_mem _ (List.mem_append_left _ member))
      simpa only [Bool.or_eq_true, beq_iff_eq, or_assoc] using kind
    · have kind : lowerUnit z = true ∨ digitUnit z = true := alphanumeric
      simpa only [Bool.or_eq_true] using kind

theorem shape_chars (s : String) : validateHandleSyntax s = true ↔ HandleShape chars s.toList := by
  have double : (!hasDoubleHyphen s.toList) = true ↔
      ∀ i, ¬ (s.toList[i]? = some '-' ∧ s.toList[i + 1]? = some '-') := by
    rw [hasDoubleHyphen_includes, Bool.not_eq_true', ← Bool.not_eq_true, includes_pair, not_exists]
  simp only [validateHandleSyntax, Bool.and_eq_true, double, decide_eq_true_eq, Option.any_eq_true,
    List.all_eq_true, Bool.or_eq_true, beq_iff_eq, or_assoc]
  constructor
  · rintro ⟨⟨⟨⟨⟨least, most⟩, first⟩, last⟩, all⟩, apart⟩
    exact ⟨least, most, all, first, last, apart⟩
  · intro shape
    exact ⟨⟨⟨⟨⟨shape.least, shape.most⟩, shape.first⟩, shape.last⟩, shape.all⟩, shape.apart⟩

theorem shape_octets (s : String) :
    validateHandleBytes s = true ↔ HandleShape octets (Token.utf8 s) := by
  have decided : validateHandleBytes s = true ↔
      (3 ≤ (Token.utf8 s).length ∧ (Token.utf8 s).length ≤ 32) ∧
      (Token.utf8 s).head?.any isAsciiLowercase = true ∧
      (Token.utf8 s).getLast?.any (fun c => isAsciiLowercase c || isAsciiDigit c) = true ∧
      (Token.utf8 s).all (fun c => isAsciiLowercase c || isAsciiDigit c || c == 0x2D) = true ∧
      ¬ includes (Token.utf8 s) [0x2D, 0x2D] = true := by
    simp only [validateHandleBytes, Bool.if_false_left, Bool.and_eq_true, Bool.not_eq_true',
      decide_eq_false_iff_not, not_not, Bool.not_eq_false, and_true]
  rw [decided, includes_pair, not_exists]
  simp only [Option.any_eq_true, List.all_eq_true, Bool.or_eq_true, beq_iff_eq, or_assoc]
  constructor
  · rintro ⟨⟨least, most⟩, first, last, all, apart⟩
    exact ⟨least, most, all, first, last, apart⟩
  · intro shape
    exact ⟨⟨shape.least, shape.most⟩, shape.first, shape.last, shape.all, shape.apart⟩

/-! ### The three encodings of one string -/

def Ascii (s : String) : Prop := ∀ c ∈ s.toList, c.toNat < 128

theorem ofString_ascii {s : String} (ascii : Ascii s) :
    ofString s = s.toList.map fun c => UInt16.ofNat c.toNat := by
  unfold Ascii at ascii
  unfold ofString
  generalize s.toList = cs at ascii ⊢
  induction cs with
  | nil => rfl
  | cons c cs ih =>
    have small : c.toNat < 128 := ascii c List.mem_cons_self
    rw [List.flatMap_cons, ofChar, if_pos (by omega),
      ih fun d member => ascii d (List.mem_cons_of_mem _ member)]
    rfl

theorem utf8_flatMap (s : String) : Token.utf8 s = s.toList.flatMap String.utf8EncodeChar := by
  have bytes : s.toByteArray = s.toList.utf8Encode := String.utf8Encode_toList.symm
  rw [Token.utf8, String.toUTF8, bytes, List.utf8Encode]
  simp

theorem utf8_ascii {s : String} (ascii : Ascii s) :
    Token.utf8 s = s.toList.map fun c => UInt8.ofNat c.toNat := by
  rw [utf8_flatMap]
  unfold Ascii at ascii
  generalize s.toList = cs at ascii ⊢
  induction cs with
  | nil => rfl
  | cons c cs ih =>
    have small : c.toNat < 128 := ascii c List.mem_cons_self
    have single : String.utf8EncodeChar c = [.ofNat c.toNat] := by
      have bound : c.val.toNat ≤ 0x7f := by
        rw [Char.toNat_val]
        omega
      rw [String.utf8EncodeChar, if_pos bound]
      rfl
    rw [List.flatMap_cons, single, ih fun d member => ascii d (List.mem_cons_of_mem _ member)]
    rfl

/-- A character beyond ASCII has a unit beyond it. -/
theorem ascii_of_units {s : String} (all : ∀ u ∈ ofString s, u.toNat < 128) : Ascii s := by
  intro c member
  by_contra beyond
  have inside (u : UInt16) (here : u ∈ ofChar c) : u.toNat < 128 :=
    all u (List.mem_flatMap.mpr ⟨c, member, here⟩)
  unfold ofChar at inside
  split at inside
  next small =>
    have := inside _ (List.mem_singleton_self _)
    rw [toNat_ofNat16 small] at this
    exact beyond this
  next =>
    have valid : c.toNat.isValidChar := c.valid
    simp only [Nat.isValidChar] at valid
    have := inside _ List.mem_cons_self
    rw [toNat_ofNat16 (by omega)] at this
    omega

/-- A character beyond ASCII has a byte beyond it. -/
theorem ascii_of_octets {s : String} (all : ∀ b ∈ Token.utf8 s, b.toNat < 128) : Ascii s := by
  intro c member
  by_contra beyond
  rw [utf8_flatMap] at all
  have inside (b : UInt8) (here : b ∈ String.utf8EncodeChar c) : b.toNat < 128 :=
    all b (List.mem_flatMap.mpr ⟨c, member, here⟩)
  have large : ¬ c.val.toNat ≤ 0x7f := by
    rw [Char.toNat_val]
    omega
  have lead {n : Nat} (low : 128 ≤ n) (high : n < 256) : ¬ (UInt8.ofNat n).toNat < 128 := by
    rw [UInt8.toNat_ofNat', Nat.mod_eq_of_lt high]
    omega
  rw [String.utf8EncodeChar, if_neg large] at inside
  split at inside
  · exact lead (by omega) (by omega) (inside _ List.mem_cons_self)
  · split at inside
    · exact lead (by omega) (by omega) (inside _ List.mem_cons_self)
    · exact lead (by omega) (by omega) (inside _ List.mem_cons_self)

theorem isLower_iff (c : Char) : isLower c = decide (0x61 ≤ c.toNat ∧ c.toNat ≤ 0x7A) := by
  simp [isLower, Char.le_def, UInt32.le_iff_toNat_le]

theorem isDigit_iff (c : Char) : isDigit c = decide (0x30 ≤ c.toNat ∧ c.toNat ≤ 0x39) := by
  simp [isDigit, Char.le_def, UInt32.le_iff_toNat_le]

theorem shape_ascii_units {s : String} (ascii : Ascii s) :
    HandleShape units (ofString s) ↔ HandleShape chars s.toList := by
  rw [ofString_ascii ascii]
  have value (c : Char) (member : c ∈ s.toList) : (UInt16.ofNat c.toNat).toNat = c.toNat := by
    have := ascii c member
    exact toNat_ofNat16 (by omega)
  apply shape_map
  · intro c member
    simp only [units, chars, lowerUnit, value c member, isLower_iff]
  · intro c member
    simp only [units, chars, digitUnit, value c member, isDigit_iff]
  · intro c member
    rw [← UInt16.toNat_inj, value c member, ← Char.toNat_inj]
    rfl

theorem shape_ascii_octets {s : String} (ascii : Ascii s) :
    HandleShape octets (Token.utf8 s) ↔ HandleShape chars s.toList := by
  rw [utf8_ascii ascii]
  have value (c : Char) (member : c ∈ s.toList) : (UInt8.ofNat c.toNat).toNat = c.toNat := by
    have := ascii c member
    rw [UInt8.toNat_ofNat', Nat.mod_eq_of_lt (by omega)]
  apply shape_map
  · intro c member
    simp only [octets, chars, isAsciiLowercase, value c member, isLower_iff]
  · intro c member
    simp only [octets, chars, isAsciiDigit, value c member, isDigit_iff]
  · intro c member
    rw [← UInt8.toNat_inj, value c member, ← Char.toNat_inj]
    rfl

/-- Units of the shape are below 128, wherever the letters, the digits and the hyphen are. -/
theorem HandleShape.below {α : Type} {A : Alphabet α} {cs : List α} {value : α → Nat}
    (shape : HandleShape A cs) (letter : ∀ c, A.letter c = true → value c < 128)
    (digit : ∀ c, A.digit c = true → value c < 128) (hyphen : value A.hyphen < 128) :
    ∀ c ∈ cs, value c < 128 := by
  intro c member
  rcases shape.all c member with isLetter | isDigit | isHyphen
  · exact letter c isLetter
  · exact digit c isDigit
  · rw [isHyphen]
    exact hyphen

theorem ascii_of_shape {s : String} (shape : HandleShape chars s.toList) : Ascii s := by
  refine shape.below (fun c letter => ?_) (fun c digit => ?_) (by decide)
  · have bounds : isLower c = true := letter
    rw [isLower_iff, decide_eq_true_eq] at bounds
    omega
  · have bounds : isDigit c = true := digit
    rw [isDigit_iff, decide_eq_true_eq] at bounds
    omega

theorem units_below {us : List UInt16} (shape : HandleShape units us) : ∀ u ∈ us, u.toNat < 128 := by
  refine shape.below (fun u letter => ?_) (fun u digit => ?_) (by decide)
  · have bounds := of_decide_eq_true letter
    omega
  · have bounds := of_decide_eq_true digit
    omega

theorem ascii_of_shape_octets {s : String} (shape : HandleShape octets (Token.utf8 s)) : Ascii s := by
  refine ascii_of_octets (shape.below (fun b letter => ?_) (fun b digit => ?_) (by decide))
  · have bounds := of_decide_eq_true letter
    omega
  · have bounds := of_decide_eq_true digit
    omega

/-- The checks on characters and on bytes are one check. -/
theorem validateHandleBytes_eq (s : String) : validateHandleBytes s = validateHandleSyntax s := by
  rw [Bool.eq_iff_iff, shape_octets, shape_chars]
  constructor
  · exact fun shape => (shape_ascii_octets (ascii_of_shape_octets shape)).mp shape
  · exact fun shape => (shape_ascii_octets (ascii_of_shape shape)).mpr shape

theorem validateHandleShape_iff (s : String) :
    validateHandleShape (ofString s) = none ↔ HandleShape chars s.toList := by
  rw [shape_client]
  constructor
  · exact fun shape => (shape_ascii_units (ascii_of_units (units_below shape))).mp shape
  · exact fun shape => (shape_ascii_units (ascii_of_shape shape)).mpr shape

theorem handle_new_iff (s : String) : (Handle.new s).isSome = true ↔ HandleShape chars s.toList := by
  rw [← shape_chars]
  unfold Handle.new
  split
  next valid => simp [valid]
  next invalid => simp [invalid]

/-- Client and server accept the same handles: those of the right shape. -/
theorem handles_agree (s : String) :
    (validateHandleShape (ofString s) = none ↔ (Handle.new s).isSome = true) ∧
      ((Handle.new s).isSome = true ↔ validateHandleBytes s = true) ∧
        ((Handle.new s).isSome = true ↔ HandleShape chars s.toList) := by
  refine ⟨?_, ?_, handle_new_iff s⟩
  · rw [validateHandleShape_iff, handle_new_iff]
  · rw [handle_new_iff, validateHandleBytes_eq, shape_chars]

end Atmin
