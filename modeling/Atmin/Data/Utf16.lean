import Mathlib.Data.List.Basic
import Mathlib.Data.List.Lex

/-!
# UTF-16

A string is any sequence of 16-bit units. Read as code points it has scalar values, and
surrogates that lack their partner; written out again, these give back the units.
-/

namespace Atmin.Utf16

def isHigh (u : UInt16) : Bool := decide (0xD800 ≤ u.toNat ∧ u.toNat < 0xDC00)

def isLow (u : UInt16) : Bool := decide (0xDC00 ≤ u.toNat ∧ u.toNat < 0xE000)

/-- A scalar value, or a surrogate without its partner. -/
inductive CodePoint where
  | scalar (c : Char)
  | lone (u : UInt16)
  deriving DecidableEq, Repr

/-- The scalar value of a surrogate pair. -/
def pair (high low : UInt16) : Char :=
  .ofNat (0x10000 + (high.toNat - 0xD800) * 0x400 + (low.toNat - 0xDC00))

def single (u : UInt16) : CodePoint :=
  if isHigh u || isLow u then .lone u else .scalar (.ofNat u.toNat)

def codePoints : List UInt16 → List CodePoint
  | [] => []
  | [u] => [single u]
  | high :: low :: rest =>
    if isHigh high && isLow low then .scalar (pair high low) :: codePoints rest
    else single high :: codePoints (low :: rest)

def ofChar (c : Char) : List UInt16 :=
  if c.toNat < 0x10000 then [.ofNat c.toNat]
  else [.ofNat (0xD800 + (c.toNat - 0x10000) / 0x400), .ofNat (0xDC00 + (c.toNat - 0x10000) % 0x400)]

def CodePoint.units : CodePoint → List UInt16
  | .scalar c => ofChar c
  | .lone u => [u]

def CodePoint.scalar? : CodePoint → Option Char
  | .scalar c => some c
  | .lone _ => none

def ofString (s : String) : List UInt16 := s.toList.flatMap ofChar

/-- The text of the units, where no surrogate is alone. -/
def toString? (us : List UInt16) : Option String :=
  ((codePoints us).mapM CodePoint.scalar?).map String.ofList

/-! ### Round trips -/

theorem toNat_ofNat {n : Nat} (valid : n.isValidChar) : (Char.ofNat n).toNat = n := by
  rw [Char.ofNat, dif_pos valid]
  rfl

theorem units_single (u : UInt16) : (single u).units = [u] := by
  have := u.toNat_lt
  unfold single
  split
  next => rfl
  next plain =>
    simp only [isHigh, isLow, Bool.or_eq_true, decide_eq_true_eq] at plain
    have valid : u.toNat.isValidChar := by
      simp only [Nat.isValidChar]
      omega
    rw [CodePoint.units, ofChar, toNat_ofNat valid, if_pos (by omega), UInt16.ofNat_toNat]

theorem ofChar_pair {high low : UInt16} (first : isHigh high = true) (last : isLow low = true) :
    ofChar (pair high low) = [high, low] := by
  simp only [isHigh, isLow, decide_eq_true_eq] at first last
  have valid : (0x10000 + (high.toNat - 0xD800) * 0x400 + (low.toNat - 0xDC00)).isValidChar := by
    simp only [Nat.isValidChar]
    omega
  rw [ofChar, pair, toNat_ofNat valid, if_neg (by omega)]
  have h : 0xD800 + (0x10000 + (high.toNat - 0xD800) * 0x400 + (low.toNat - 0xDC00) - 0x10000) / 0x400 =
      high.toNat := by omega
  have l : 0xDC00 + (0x10000 + (high.toNat - 0xD800) * 0x400 + (low.toNat - 0xDC00) - 0x10000) % 0x400 =
      low.toNat := by omega
  rw [h, l, UInt16.ofNat_toNat, UInt16.ofNat_toNat]

/-- The code points give back the units. -/
theorem units_codePoints (us : List UInt16) : (codePoints us).flatMap CodePoint.units = us := by
  fun_induction codePoints us with
  | case1 => rfl
  | case2 u => rw [List.flatMap_cons, units_single]; rfl
  | case3 high low rest both ih =>
    obtain ⟨first, last⟩ := Bool.and_eq_true_iff.mp both
    rw [List.flatMap_cons, ih, CodePoint.units, ofChar_pair first last]
    rfl
  | case4 high low rest _ ih => rw [List.flatMap_cons, ih, units_single]; rfl

theorem codePoints_single {u : UInt16} (plain : isHigh u = false) (rest : List UInt16) :
    codePoints (u :: rest) = single u :: codePoints rest := by
  cases rest with
  | nil => rfl
  | cons low rest => rw [codePoints, plain, Bool.false_and, if_neg Bool.false_ne_true]

theorem codePoints_pair {high low : UInt16} (first : isHigh high = true) (last : isLow low = true)
    (rest : List UInt16) :
    codePoints (high :: low :: rest) = .scalar (pair high low) :: codePoints rest := by
  rw [codePoints, first, last, Bool.and_true, if_pos rfl]

theorem toNat_ofNat16 {n : Nat} (small : n < 0x10000) : (UInt16.ofNat n).toNat = n := by
  rw [UInt16.toNat_ofNat', Nat.mod_eq_of_lt small]

/-- The units of a character are read as this character. -/
theorem codePoints_ofChar (c : Char) (rest : List UInt16) :
    codePoints (ofChar c ++ rest) = .scalar c :: codePoints rest := by
  have valid : c.toNat.isValidChar := c.valid
  simp only [Nat.isValidChar] at valid
  unfold ofChar
  split
  next small =>
    have unit : (UInt16.ofNat c.toNat).toNat = c.toNat := toNat_ofNat16 small
    have high : isHigh (.ofNat c.toNat) = false := by
      simp only [isHigh, unit, decide_eq_false_iff_not]
      omega
    have low : isLow (.ofNat c.toNat) = false := by
      simp only [isLow, unit, decide_eq_false_iff_not]
      omega
    have char : single (.ofNat c.toNat) = .scalar c := by
      rw [single, high, low, Bool.or_self, if_neg Bool.false_ne_true, unit, Char.ofNat_toNat]
    rw [List.cons_append, List.nil_append, codePoints_single high, char]
  next large =>
    have first := @toNat_ofNat16 (0xD800 + (c.toNat - 0x10000) / 0x400) (by omega)
    have last := @toNat_ofNat16 (0xDC00 + (c.toNat - 0x10000) % 0x400) (by omega)
    have high : isHigh (.ofNat (0xD800 + (c.toNat - 0x10000) / 0x400)) = true := by
      simp only [isHigh, first, decide_eq_true_eq]
      omega
    have low : isLow (.ofNat (0xDC00 + (c.toNat - 0x10000) % 0x400)) = true := by
      simp only [isLow, last, decide_eq_true_eq]
      omega
    have sum : 0x10000 + (0xD800 + (c.toNat - 0x10000) / 0x400 - 0xD800) * 0x400 +
        (0xDC00 + (c.toNat - 0x10000) % 0x400 - 0xDC00) = c.toNat := by omega
    rw [List.cons_append, List.cons_append, List.nil_append, codePoints_pair high low, pair, first,
      last, sum, Char.ofNat_toNat]

theorem codePoints_chars (cs : List Char) : codePoints (cs.flatMap ofChar) = cs.map .scalar := by
  induction cs with
  | nil => rfl
  | cons c rest ih => rw [List.flatMap_cons, codePoints_ofChar, ih, List.map_cons]

theorem codePoints_ofString (s : String) : codePoints (ofString s) = s.toList.map .scalar :=
  codePoints_chars s.toList

/-! ### The order of strings -/

theorem ofString_inj {s t : String} (same : ofString s = ofString t) : s = t := by
  have points := congrArg codePoints same
  rw [codePoints_ofString, codePoints_ofString] at points
  exact String.toList_inj.mp (List.map_injective_iff.mpr (fun _ _ => CodePoint.scalar.inj) points)

/-- JavaScript and IndexedDB compare strings unit by unit. -/
def place (s : String) : List Nat := (ofString s).map UInt16.toNat

theorem place_inj {s t : String} (same : place s = place t) : s = t :=
  ofString_inj (List.map_injective_iff.mpr (fun _ _ => UInt16.toNat_inj.mp) same)

/-! ### The units of a character -/

theorem ofChar_ne_nil (c : Char) : ofChar c ≠ [] := by
  rw [ofChar]
  split <;> exact List.cons_ne_nil _ _

/-- A unit of a character is its only one, or a surrogate. -/
theorem single_of_mem {c : Char} {u : UInt16} (mem : u ∈ ofChar c) :
    single u = .scalar c ∨ single u = .lone u ∧ 0x10000 ≤ c.toNat := by
  have valid : c.toNat.isValidChar := c.valid
  simp only [Nat.isValidChar] at valid
  unfold ofChar at mem
  split at mem
  next small =>
    obtain rfl := List.mem_singleton.mp mem
    have unit : (UInt16.ofNat c.toNat).toNat = c.toNat := toNat_ofNat16 small
    refine .inl ?_
    rw [single, if_neg, unit, Char.ofNat_toNat]
    simp only [isHigh, isLow, unit, Bool.or_eq_true, decide_eq_true_eq]
    omega
  next large =>
    refine .inr ⟨?_, by omega⟩
    simp only [List.mem_cons, List.not_mem_nil, or_false] at mem
    rcases mem with rfl | rfl
    · have unit := @toNat_ofNat16 (0xD800 + (c.toNat - 0x10000) / 0x400) (by omega)
      rw [single, if_pos]
      simp only [isHigh, isLow, unit, Bool.or_eq_true, decide_eq_true_eq]
      omega
    · have unit := @toNat_ofNat16 (0xDC00 + (c.toNat - 0x10000) % 0x400) (by omega)
      rw [single, if_pos]
      simp only [isHigh, isLow, unit, Bool.or_eq_true, decide_eq_true_eq]
      omega

theorem single_lone {u v : UInt16} (lone : single u = .lone v) : u = v ∧ single v = .lone v := by
  have units := units_single u
  rw [lone, CodePoint.units, List.singleton_inj] at units
  rw [units] at lone
  exact ⟨units.symm, units ▸ lone⟩

/-- The first code point begins with the first unit. -/
theorem codePoints_cons (u : UInt16) (us : List UInt16) :
    ∃ p ps, codePoints (u :: us) = p :: ps ∧ p.units.head? = some u ∧
      ∀ v, p = .lone v → single v = .lone v := by
  have alone : (single u).units.head? = some u ∧ ∀ v, single u = .lone v → single v = .lone v :=
    ⟨by rw [units_single]; rfl, fun v lone => (single_lone lone).2⟩
  cases us with
  | nil => exact ⟨single u, [], rfl, alone⟩
  | cons low rest =>
    rw [codePoints]
    split
    next both =>
      obtain ⟨first, last⟩ := Bool.and_eq_true_iff.mp both
      refine ⟨_, _, rfl, ?_, fun v lone => nomatch lone⟩
      rw [CodePoint.units, ofChar_pair first last]
      rfl
    next => exact ⟨single u, _, rfl, alone⟩

end Atmin.Utf16
