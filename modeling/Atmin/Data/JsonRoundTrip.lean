import Atmin.Data.JsonText

/-!
# Written JSON is read back

Numbers first, then strings, then trees: each reader takes exactly what was written and
leaves what follows it.
-/

namespace Atmin

namespace JsonText

open Utf16

/-! ### Numbers are read back -/

theorem isDigit_digits {n : Nat} {c : Char} (member : c ∈ digits n) : c.isDigit = true :=
  Nat.isDigit_of_mem_toDigits (by omega) (by omega) member

theorem digits_ne_nil (n : Nat) : digits n ≠ [] := Nat.toDigits_ne_nil

theorem value_digits (n : Nat) : Nat.ofDigitChars 10 (digits n) 0 = n := Nat.ofDigitChars_ten_toDigits

/-- Only zero starts with a zero. -/
theorem digits_lead {n : Nat} (positive : n ≠ 0) : (digits n).head? ≠ some '0' := by
  induction n using Nat.strongRecOn with
  | ind n ih =>
    by_cases single : n < 10
    · rw [digits, Nat.toDigits_of_lt_base single, List.head?_cons]
      intro zero
      exact positive (Nat.digitChar_eq_zero.mp (Option.some.inj zero))
    · have split := Nat.toDigits_of_base_le (b := 10) (n := n) (by omega) (by omega)
      rw [digits, split, List.head?_append_of_ne_nil _ Nat.toDigits_ne_nil]
      exact ih (n / 10) (by omega) (by omega)

/-- What follows a number. -/
def Ends (rest : List Char) : Prop :=
  ∀ c ∈ rest.head?, c.isDigit = false ∧ c ≠ '.' ∧ c ≠ 'e' ∧ c ≠ 'E'

def NoDigit (rest : List Char) : Prop := ∀ c ∈ rest.head?, c.isDigit = false

theorem Ends.noDigit {rest : List Char} (ends : Ends rest) : NoDigit rest :=
  fun c first => (ends c first).1

theorem noDigit_cons {c : Char} (plain : c.isDigit = false) (rest : List Char) :
    NoDigit (c :: rest) := by
  intro d first
  rw [List.head?_cons, Option.mem_some_iff] at first
  rw [← first]
  exact plain

theorem takeWhile_noDigit {rest : List Char} (stop : NoDigit rest) :
    rest.takeWhile Char.isDigit = [] ∧ rest.dropWhile Char.isDigit = rest := by
  cases rest with
  | nil => exact ⟨rfl, rfl⟩
  | cons c rest =>
    have plain : c.isDigit = false := stop c rfl
    constructor
    · rw [List.takeWhile_cons_of_neg (by simp [plain])]
    · rw [List.dropWhile_cons_of_neg (by simp [plain])]

theorem span_digits {ds rest : List Char} (all : ∀ c ∈ ds, c.isDigit = true) (stop : NoDigit rest) :
    (ds ++ rest).takeWhile Char.isDigit = ds ∧ (ds ++ rest).dropWhile Char.isDigit = rest := by
  obtain ⟨none, same⟩ := takeWhile_noDigit stop
  constructor
  · rw [List.takeWhile_append_of_pos all, none, List.append_nil]
  · rw [List.dropWhile_append_of_pos all, same]

theorem readFraction_none {rest : List Char} (stop : ∀ c ∈ rest.head?, c ≠ '.') :
    readFraction rest = some ([], rest) := by
  unfold readFraction
  split
  next => exact absurd rfl (stop '.' rfl)
  next => rfl

theorem readFraction_digits {ds rest : List Char} (some : ds ≠ []) (all : ∀ c ∈ ds, c.isDigit = true)
    (stop : NoDigit rest) : readFraction ('.' :: (ds ++ rest)) = .some (ds, rest) := by
  obtain ⟨taken, dropped⟩ := span_digits all stop
  simp only [readFraction, taken, dropped, if_neg some]

theorem readExponent_none {rest : List Char} (stop : ∀ c ∈ rest.head?, c ≠ 'e' ∧ c ≠ 'E') :
    readExponent rest = some (none, rest) := by
  cases rest with
  | nil => rfl
  | cons c rest =>
    obtain ⟨lower, upper⟩ := stop c rfl
    rw [readExponent, if_neg (not_or.mpr ⟨lower, upper⟩)]

theorem signed_natAbs (n : Int) : Number.signed (decide (n < 0)) n.natAbs = n := by
  unfold Number.signed
  by_cases negative : n < 0
  · rw [decide_eq_true negative, if_pos rfl]
    omega
  · rw [decide_eq_false negative, if_neg Bool.false_ne_true]
    omega

theorem readSign_exponent (n : Int) (ds : List Char) :
    readSign ((if n < 0 then '-' else '+') :: ds) = (decide (n < 0), ds) := by
  by_cases negative : n < 0
  · rw [if_pos negative, decide_eq_true negative]
    rfl
  · rw [if_neg negative, decide_eq_false negative]
    rfl

theorem readExponent_text (n : Int) {rest : List Char} (stop : NoDigit rest) :
    readExponent (Number.exponentText n ++ rest) = some (some n, rest) := by
  obtain ⟨taken, dropped⟩ := span_digits (fun c => isDigit_digits (n := n.natAbs)) stop
  rw [Number.exponentText, List.cons_append, List.cons_append, readExponent, if_pos (.inl rfl)]
  simp only [readSign_exponent, taken, dropped, if_neg (digits_ne_nil n.natAbs), value_digits,
    signed_natAbs]

theorem readUnsigned_parts (whole : List Char) {tail tail' rest fraction : List Char}
    {exponent : Option Int} (negative : Bool) (some : whole ≠ []) (all : ∀ c ∈ whole, c.isDigit = true)
    (lead : whole.head? ≠ .some '0' ∨ whole.length = 1) (stop : NoDigit tail)
    (read : readFraction tail = .some (fraction, tail'))
    (read' : readExponent tail' = .some (exponent, rest)) :
    readUnsigned negative (whole ++ tail) = .some (number negative whole fraction exponent, rest) := by
  obtain ⟨taken, dropped⟩ := span_digits all stop
  have proper : ¬ (whole = [] ∨ (whole.head? = .some '0' ∧ whole.length ≠ 1)) := by
    rintro (empty | ⟨zero, long⟩)
    · exact some empty
    · rcases lead with lead | lead
      · exact lead zero
      · exact long lead
  simp only [readUnsigned, taken, dropped, if_neg proper, read, Option.bind_some, read',
    Option.map_some]

/-- A literal with a fraction or an exponent. -/
theorem number_real {negative : Bool} {whole fraction : List Char} {exponent : Option Int}
    (real : fraction ≠ [] ∨ exponent ≠ none) :
    number negative whole fraction exponent =
      (Number.real (Number.signed negative (Nat.ofDigitChars 10 (whole ++ fraction) 0))
        (exponent.getD 0 - fraction.length)).canon := by
  unfold number
  split
  next => simp at real
  next => rfl

theorem noDigit_exponent (n : Int) (rest : List Char) : NoDigit (Number.exponentText n ++ rest) :=
  noDigit_cons rfl _

theorem value_zeros (k : Nat) (ds : List Char) :
    Nat.ofDigitChars 10 (['0'] ++ (List.replicate k '0' ++ ds)) 0 = Nat.ofDigitChars 10 ds 0 := by
  rw [List.singleton_append, Nat.ofDigitChars_cons, Nat.ofDigitChars_append,
    Nat.ofDigitChars_replicate_zero]
  rfl

section

variable {ds rest : List Char} (negative : Bool) (all : ∀ c ∈ ds, c.isDigit = true) (ends : Ends rest)

include all ends

/-- With a point between two digits. -/
theorem readUnsigned_point {k : Nat} (some : 0 < k) (less : k < ds.length)
    (lead : ds.head? ≠ .some '0') :
    readUnsigned negative (ds.take k ++ '.' :: (ds.drop k ++ rest)) =
      .some ((Number.real (Number.signed negative (Nat.ofDigitChars 10 ds 0)) (k - ds.length)).canon,
        rest) := by
  have first : ds.take k ≠ [] := by
    intro empty
    have := congrArg List.length empty
    simp only [List.length_take, List.length_nil] at this
    omega
  have last : ds.drop k ≠ [] := by
    intro empty
    have := congrArg List.length empty
    simp only [List.length_drop, List.length_nil] at this
    omega
  have head : (ds.take k).head? ≠ .some '0' := by
    rw [List.head?_take, if_neg (by omega)]
    exact lead
  have fraction := readFraction_digits last (fun c member => all c (List.mem_of_mem_drop member))
    ends.noDigit
  have exponent : ((none : Option Int).getD 0 - (ds.drop k).length : Int) = k - ds.length := by
    rw [Option.getD_none, List.length_drop]
    omega
  rw [readUnsigned_parts _ negative first (fun c member => all c (List.mem_of_mem_take member))
      (.inl head) (noDigit_cons rfl _) fraction (readExponent_none fun c first => (ends c first).2.2),
    number_real (.inl last), List.take_append_drop, exponent]

/-- With zeros after the point. -/
theorem readUnsigned_zeros (k : Nat) (some : ds ≠ []) :
    readUnsigned negative ('0' :: '.' :: (List.replicate k '0' ++ ds ++ rest)) =
      .some ((Number.real (Number.signed negative (Nat.ofDigitChars 10 ds 0)) (-(k + ds.length))).canon,
        rest) := by
  have last : List.replicate k '0' ++ ds ≠ [] := fun empty => some (List.append_eq_nil_iff.mp empty).2
  have digit : ∀ c ∈ List.replicate k '0' ++ ds, c.isDigit = true := by
    intro c member
    rcases List.mem_append.mp member with zero | member
    · rw [List.eq_of_mem_replicate zero]
      rfl
    · exact all c member
  have fraction := readFraction_digits last digit ends.noDigit
  have parts := readUnsigned_parts ['0'] negative (List.cons_ne_nil _ _) (by simp) (.inr rfl)
    (noDigit_cons rfl _) fraction (readExponent_none fun c first => (ends c first).2.2)
  have exponent : ((none : Option Int).getD 0 - (List.replicate k '0' ++ ds).length : Int) =
      -(k + ds.length) := by
    rw [Option.getD_none, List.length_append, List.length_replicate]
    omega
  rw [number_real (.inl last), value_zeros, exponent] at parts
  exact parts

/-- One digit before the point, and an exponent. -/
theorem readUnsigned_scientific {d : Char} {tail : List Char} (shape : ds = d :: tail) (n : Int) :
    readUnsigned negative
        (d :: ((if tail = [] then [] else '.' :: tail) ++ (Number.exponentText n ++ rest))) =
      some ((Number.real (Number.signed negative (Nat.ofDigitChars 10 ds 0)) (n - tail.length)).canon,
        rest) := by
  subst shape
  have digit : ∀ c ∈ [d], c.isDigit = true := by
    intro c member
    rw [List.mem_singleton.mp member]
    exact all d List.mem_cons_self
  have exponent := readExponent_text n ends.noDigit
  by_cases only : tail = []
  · have fraction : readFraction (Number.exponentText n ++ rest) =
        some ([], Number.exponentText n ++ rest) := by
      apply readFraction_none
      intro c first
      rw [← Option.mem_some_iff.mp first]
      decide
    have parts := readUnsigned_parts [d] negative (List.cons_ne_nil _ _) digit (.inr rfl)
      (noDigit_exponent n rest) fraction exponent
    rw [number_real (.inr (Option.some_ne_none _)), List.append_nil, Option.getD_some] at parts
    rw [if_pos only, only]
    exact parts
  · have fraction := readFraction_digits only (fun c member => all c (List.mem_cons_of_mem _ member))
      (noDigit_exponent n rest)
    have parts := readUnsigned_parts [d] negative (List.cons_ne_nil _ _) digit (.inr rfl)
      (noDigit_cons rfl _) fraction exponent
    rw [number_real (.inl only), List.singleton_append, Option.getD_some] at parts
    rw [if_neg only, List.cons_append]
    exact parts

end

/-- A mantissa with its exponent is read back, whichever form it is written in. -/
theorem readUnsigned_decimal {m : Nat} {e : Int} (negative : Bool) (positive : m ≠ 0)
    (long : ¬ (0 ≤ e ∧ (digits m).length + e ≤ 21)) {rest : List Char} (ends : Ends rest) :
    readUnsigned negative (Number.decimalText (digits m) e ++ rest) =
      some ((Number.real (Number.signed negative m) e).canon, rest) := by
  have all : ∀ c ∈ digits m, c.isDigit = true := fun c => isDigit_digits
  by_cases point : 0 < (digits m).length + e ∧ (digits m).length + e ≤ 21
  · have read := readUnsigned_point (k := ((digits m).length + e).toNat) negative all ends (by omega)
      (by omega) (digits_lead positive)
    have shift : ((((digits m).length + e).toNat : Int) - (digits m).length : Int) = e := by omega
    rw [value_digits, shift] at read
    simpa only [Number.decimalText, if_pos point, List.append_assoc, List.cons_append] using read
  · by_cases zeros : -6 < (digits m).length + e ∧ (digits m).length + e ≤ 0
    · have read := readUnsigned_zeros negative all ends (-((digits m).length + e)).toNat
        (digits_ne_nil m)
      have shift : (-((-((digits m).length + e)).toNat + (digits m).length) : Int) = e := by omega
      rw [value_digits, shift] at read
      simpa only [Number.decimalText, if_neg point, if_pos zeros, List.append_assoc,
        List.cons_append] using read
    · obtain ⟨d, tail, shape⟩ := List.exists_cons_of_ne_nil (digits_ne_nil m)
      have read := readUnsigned_scientific negative all ends shape ((digits m).length + e - 1)
      have shift : ((digits m).length + e - 1 - tail.length : Int) = e := by
        rw [shape, List.length_cons]
        omega
      rw [value_digits, shift] at read
      have text : Number.decimalText (digits m) e ++ rest =
          d :: ((if tail = [] then [] else '.' :: tail) ++
            (Number.exponentText ((digits m).length + e - 1) ++ rest)) := by
        rw [shape] at point zeros ⊢
        simp only [Number.decimalText, if_neg point, if_neg zeros]
        cases tail with
        | nil => rfl
        | cons t tail => simp
      rw [text]
      exact read

theorem readNumber_minus (n : Int) {cs : List Char}
    (digit : ∃ c, c.isDigit = true ∧ cs.head? = some c) :
    readNumber (Number.minus n ++ cs) = readUnsigned (decide (n < 0)) cs := by
  obtain ⟨c, digit, first⟩ := digit
  obtain ⟨rest, shape⟩ : ∃ rest, cs = c :: rest := by
    cases cs with
    | nil => simp at first
    | cons d rest => exact ⟨rest, by rw [Option.some.inj first]⟩
  have plain : c ≠ '-' := by
    intro minus
    rw [minus] at digit
    exact absurd digit (by decide)
  unfold Number.minus
  split
  next negative =>
    rw [decide_eq_true negative]
    rfl
  next negative =>
    rw [decide_eq_false negative, List.nil_append, shape, readNumber]
    intro rest same
    exact plain (List.cons.inj same).1

theorem head_digits (n : Nat) (rest : List Char) :
    ∃ c, c.isDigit = true ∧ (digits n ++ rest).head? = some c := by
  obtain ⟨d, tail, shape⟩ := List.exists_cons_of_ne_nil (digits_ne_nil n)
  refine ⟨d, isDigit_digits (n := n) ?_, ?_⟩
  · rw [shape]
    exact List.mem_cons_self
  · rw [shape]
    rfl

theorem head_decimalText (n : Nat) (e : Int) (rest : List Char) :
    ∃ c, c.isDigit = true ∧ (Number.decimalText (digits n) e ++ rest).head? = some c := by
  obtain ⟨d, tail, shape⟩ := List.exists_cons_of_ne_nil (digits_ne_nil n)
  have digit : d.isDigit = true := isDigit_digits (n := n) (by rw [shape]; exact List.mem_cons_self)
  rw [shape]
  by_cases point : 0 < ((d :: tail).length + e : Int) ∧ (d :: tail).length + e ≤ 21
  · obtain ⟨k, positive⟩ : ∃ k, ((d :: tail).length + e : Int).toNat = k + 1 :=
      ⟨((d :: tail).length + e : Int).toNat - 1, by omega⟩
    refine ⟨d, digit, ?_⟩
    simp only [Number.decimalText, if_pos point, positive, List.take_succ_cons, List.cons_append,
      List.head?_cons]
  · by_cases zeros : -6 < ((d :: tail).length + e : Int) ∧ (d :: tail).length + e ≤ 0
    · refine ⟨'0', rfl, ?_⟩
      simp only [Number.decimalText, if_neg point, if_pos zeros, List.cons_append, List.head?_cons]
    · refine ⟨d, digit, ?_⟩
      simp only [Number.decimalText, if_neg point, if_neg zeros]
      cases tail with
      | nil => rfl
      | cons t tail => rfl

/-- A decimal in its one form is no integer of up to 21 digits. -/
theorem canon_real {m e : Int} (form : (Number.real m e).canon = .real m e) :
    m.natAbs ≠ 0 ∧ ¬ (0 ≤ e ∧ (digits m.natAbs).length + e ≤ 21) := by
  have nonzero : m.natAbs ≠ 0 := by
    intro zero
    have none : strip 0 e = (0, e) := by
      rw [strip, if_neg fun both => both.2 rfl]
    have integer : Number.ofDecimal m e = .int 0 := by
      simp only [Number.ofDecimal, zero, none, if_true]
    rw [Number.canon, integer] at form
    exact Number.noConfusion form
  simp only [Number.canon, Number.ofDecimal] at form
  split at form
  next => simp at form
  next some =>
    split at form
    next => simp at form
    next long =>
      obtain ⟨mantissa, exponent⟩ := Number.real.inj form
      have size : (strip m.natAbs e).1 = m.natAbs := by
        have := congrArg Int.natAbs mantissa
        rw [Int.natAbs_mul, Int.natAbs_sign_of_ne_zero (by omega), Nat.one_mul,
          Int.natAbs_natCast] at this
        exact this
      rw [size, exponent] at long
      exact ⟨nonzero, long⟩

/-- A number in its one form is read back. -/
theorem readNumber_toText {n : Number} (form : n.canon = n) {rest : List Char} (ends : Ends rest) :
    readNumber (n.toText ++ rest) = some (n, rest) := by
  rw [Number.toText, form]
  cases n with
  | int i =>
    have fraction : readFraction rest = some ([], rest) :=
      readFraction_none fun c first => (ends c first).2.1
    have exponent : readExponent rest = some (none, rest) :=
      readExponent_none fun c first => (ends c first).2.2
    have lead : (digits i.natAbs).head? ≠ some '0' ∨ (digits i.natAbs).length = 1 := by
      by_cases zero : i.natAbs = 0
      · right
        rw [zero]
        rfl
      · left
        exact digits_lead zero
    simp only
    rw [List.append_assoc, readNumber_minus i (head_digits _ _),
      readUnsigned_parts _ _ (digits_ne_nil _) (fun c => isDigit_digits) lead ends.noDigit fraction
        exponent]
    simp only [number, List.append_nil, value_digits, signed_natAbs, form]
  | real m e =>
    obtain ⟨positive, long⟩ := canon_real form
    simp only
    rw [List.append_assoc, readNumber_minus m (head_decimalText _ _ _),
      readUnsigned_decimal _ positive long ends, signed_natAbs, form]

/-! ### Strings are read back -/

theorem hexDigit_digitChar : ∀ n < 16, hexDigit (Nat.digitChar n) = some n := by decide

theorem readEscape_unicode (u : UInt16) (rest : List Char) :
    readEscape ('u' :: (hex u.toNat ++ rest)) = some ([u], rest) := by
  have small : u.toNat < 0x10000 := u.toNat_lt
  have sum : u.toNat / 0x1000 % 16 * 0x1000 + u.toNat / 0x100 % 16 * 0x100 +
      u.toNat / 0x10 % 16 * 0x10 + u.toNat % 16 = u.toNat := by omega
  have digit (n : Nat) : hexDigit (Nat.digitChar (n % 16)) = some (n % 16) :=
    hexDigit_digitChar _ (Nat.mod_lt _ (by omega))
  simp only [hex, List.cons_append, List.nil_append, readEscape, digit, sum, UInt16.ofNat_toNat]

theorem readEscape_letter :
    ∀ l ∈ letters, ∀ rest, readEscape (l.1 :: rest) = some (ofChar l.2, rest) := by
  intro l member rest
  simp only [letters, List.mem_cons, List.not_mem_nil, or_false] at member
  rcases member with rfl | rfl | rfl | rfl | rfl | rfl | rfl <;> rfl

theorem readString_backslash (fuel : Nat) (cs : List Char) {us : List UInt16} {rest : List Char}
    (read : readEscape cs = some (us, rest)) :
    readString (fuel + 1) ('\\' :: cs) = (readString fuel rest).map fun r => (us ++ r.1, r.2) := by
  rw [readString, if_neg (by decide), if_pos rfl, read, Option.bind_some]

/-- What is written for a code point is read back as its units. -/
theorem readString_escape (fuel : Nat) (c : CodePoint) (rest : List Char) :
    readString (fuel + 1) (escape c ++ rest) =
      (readString fuel rest).map fun r => (c.units ++ r.1, r.2) := by
  cases c with
  | lone u =>
    rw [escape, unicodeEscape, List.cons_append, List.cons_append,
      readString_backslash fuel _ (readEscape_unicode u rest)]
    rfl
  | scalar c =>
    rw [escape]
    split
    next l found =>
      have member : l ∈ letters := List.mem_of_find?_eq_some found
      have same : l.2 = c := of_decide_eq_true (List.find?_some found :)
      rw [List.cons_append, List.cons_append, List.nil_append,
        readString_backslash fuel _ (readEscape_letter l member rest), same, CodePoint.units]
    next absent =>
      have other (l : Char × Char) (member : l ∈ letters) : l.2 ≠ c :=
        of_decide_eq_false (Bool.eq_false_iff.mpr (List.find?_eq_none.mp absent l member))
      split
      next control =>
        have unit : ofChar c = [.ofNat c.toNat] := by rw [ofChar, if_pos (by omega)]
        rw [unicodeEscape, List.cons_append, List.cons_append,
          readString_backslash fuel _ (readEscape_unicode _ rest), CodePoint.units, unit]
      next plain =>
        have quoted : c ≠ '"' := (other ('"', '"') (by decide)).symm
        have escaped : c ≠ '\\' := (other ('\\', '\\') (by decide)).symm
        rw [List.singleton_append, readString, if_neg quoted, if_neg escaped, if_neg plain,
          CodePoint.units]

theorem readString_quote (cs : List CodePoint) (rest : List Char) {fuel : Nat}
    (enough : cs.length < fuel) :
    readString fuel (cs.flatMap escape ++ '"' :: rest) = some (cs.flatMap CodePoint.units, rest) := by
  induction cs generalizing fuel with
  | nil =>
    obtain ⟨fuel, rfl⟩ := Nat.exists_eq_add_of_lt enough
    rfl
  | cons c cs ih =>
    rw [List.length_cons] at enough
    obtain ⟨less, rfl⟩ : ∃ less, fuel = less + 1 := ⟨fuel - 1, by omega⟩
    rw [List.flatMap_cons, List.append_assoc, readString_escape, ih (by omega), Option.map_some,
      List.flatMap_cons]

theorem escape_ne_nil (c : CodePoint) : escape c ≠ [] := by
  cases c with
  | lone u => exact List.cons_ne_nil _ _
  | scalar c =>
    rw [escape]
    split
    next => exact List.cons_ne_nil _ _
    next => split <;> exact List.cons_ne_nil _ _

theorem length_escapes (cs : List CodePoint) : cs.length ≤ (cs.flatMap escape).length := by
  induction cs with
  | nil => exact Nat.le_refl _
  | cons c cs ih =>
    have some := List.length_pos_of_ne_nil (escape_ne_nil c)
    rw [List.flatMap_cons, List.length_append, List.length_cons]
    omega

/-- The body of a quoted string is read back as its units. -/
theorem readString_body (us : List UInt16) (rest : List Char) :
    readString (((codePoints us).flatMap escape ++ '"' :: rest).length + 1)
      ((codePoints us).flatMap escape ++ '"' :: rest) = some (us, rest) := by
  have enough := length_escapes (codePoints us)
  rw [readString_quote, units_codePoints]
  rw [List.length_append]
  omega

theorem toString?_ofString (s : String) : toString? (ofString s) = some s := by
  have all : (s.toList.map CodePoint.scalar).mapM CodePoint.scalar? = some s.toList := by
    induction s.toList with
    | nil => rfl
    | cons c rest ih => simp [ih, CodePoint.scalar?]
  rw [toString?, codePoints_ofString, all, Option.map_some, String.ofList_toList]

theorem ofUnits_ofString (s : String) : ofUnits (ofString s) = .str s := by
  rw [ofUnits, toString?_ofString]

theorem scalars_of_mapM {cs : List CodePoint} {chars : List Char}
    (all : cs.mapM CodePoint.scalar? = some chars) : cs = chars.map .scalar := by
  induction cs generalizing chars with
  | nil =>
    rw [List.mapM_nil] at all
    rw [← Option.some.inj all]
    rfl
  | cons c cs ih =>
    cases c with
    | lone u => simp [CodePoint.scalar?] at all
    | scalar c =>
      simp only [List.mapM_cons, CodePoint.scalar?, Option.bind_eq_bind, Option.bind_some,
        Option.bind_eq_some_iff, Option.pure_def, Option.some.injEq] at all
      obtain ⟨rest, found, rfl⟩ := all
      rw [List.map_cons, ih found]

theorem ofString_of_toString? {us : List UInt16} {s : String} (text : toString? us = some s) :
    ofString s = us := by
  obtain ⟨chars, all, rfl⟩ := Option.map_eq_some_iff.mp text
  have scalars := scalars_of_mapM all
  rw [ofString, String.toList_ofList, ← units_codePoints us, scalars, List.flatMap_map]
  rfl

/-- A string is written by its code points, whether it is a text or not. -/
theorem print_ofUnits (us : List UInt16) : print (ofUnits us) = quote (codePoints us) := by
  unfold ofUnits
  split
  next s text => rw [print, ofString_of_toString? text]
  next => rw [print, String.toList_ofList, quote]

theorem ofUnits_injective {us vs : List UInt16} (same : ofUnits us = ofUnits vs) : us = vs := by
  have written := congrArg print same
  rw [print_ofUnits, print_ofUnits, quote, quote] at written
  have bodies := (List.cons.inj written).2
  have first := readString_body us []
  have second := readString_body vs []
  rw [bodies, second] at first
  exact (Prod.ext_iff.mp (Option.some.inj first)).1.symm

/-! ### Trees are read back -/

mutual

/-- A tree as a value makes it: its numbers in their one form, its strings units. -/
def Printable : Json → Prop
  | .null | .bool _ | .str _ => True
  | .num n => n.canon = n
  | .badStr raw => ∃ us, ofUnits us = .badStr raw
  | .arr xs => AllPrintable xs
  | .obj fields => MembersPrintable fields

def AllPrintable : List Json → Prop
  | [] => True
  | x :: xs => Printable x ∧ AllPrintable xs

def MembersPrintable : List (String × Json) → Prop
  | [] => True
  | (_, x) :: fields => Printable x ∧ MembersPrintable fields

end

theorem skip_cons {c : Char} (plain : space c = false) (cs : List Char) : skip (c :: cs) = c :: cs := by
  rw [skip, List.dropWhile_cons_of_neg (by simp [plain])]

theorem expect_self {c : Char} (plain : space c = false) (cs : List Char) :
    expect c (c :: cs) = some cs := by
  simp only [expect, skip_cons plain, if_true]

theorem expect_other {c d : Char} (plain : space d = false) (differ : d ≠ c) (cs : List Char) :
    expect c (d :: cs) = none := by
  simp only [expect, skip_cons plain, if_neg differ]

theorem ends_cons {c : Char} (stop : c.isDigit = false ∧ c ≠ '.' ∧ c ≠ 'e' ∧ c ≠ 'E')
    (rest : List Char) : Ends (c :: rest) := by
  intro d first
  rw [List.head?_cons, Option.mem_some_iff] at first
  rw [← first]
  exact stop

theorem ends_nil : Ends [] := by
  intro c first
  simp at first

/-- A number starts with a digit or with its sign. -/
theorem head_toText (n : Number) :
    ∃ c cs, n.toText = c :: cs ∧ (c.isDigit = true ∨ c = '-') := by
  have start (i : Int) (cs : List Char) (digit : ∃ c, c.isDigit = true ∧ (cs ++ []).head? = some c) :
      ∃ c rest, Number.minus i ++ cs = c :: rest ∧ (c.isDigit = true ∨ c = '-') := by
    unfold Number.minus
    split
    · exact ⟨'-', cs, rfl, .inr rfl⟩
    · obtain ⟨c, digit, first⟩ := digit
      rw [List.append_nil] at first
      cases cs with
      | nil => simp at first
      | cons d rest => exact ⟨d, rest, rfl, .inl (Option.some.inj first ▸ digit)⟩
  rw [Number.toText]
  split
  next i _ => exact start i _ (head_digits _ _)
  next m e _ => exact start m _ (head_decimalText _ _ _)

theorem plain_number {c : Char} (first : c.isDigit = true ∨ c = '-') :
    space c = false ∧ c ≠ ']' ∧ c ≠ '"' ∧ c ≠ '[' ∧ c ≠ '\x7b' ∧ c ≠ 'n' ∧ c ≠ 't' ∧ c ≠ 'f' := by
  have differ (d : Char) (other : d.isDigit = false) (sign : d ≠ '-') : c ≠ d := by
    rintro rfl
    rcases first with digit | minus
    · rw [other] at digit
      exact Bool.false_ne_true digit
    · exact sign minus
  refine ⟨?_, differ _ rfl (by decide), differ _ rfl (by decide), differ _ rfl (by decide),
    differ _ rfl (by decide), differ _ rfl (by decide), differ _ rfl (by decide),
    differ _ rfl (by decide)⟩
  have blank : ¬ (c = ' ' ∨ c = '\t' ∨ c = '\n' ∨ c = '\r') := by
    rintro (same | same | same | same)
    · exact differ ' ' rfl (by decide) same
    · exact differ '\t' rfl (by decide) same
    · exact differ '\n' rfl (by decide) same
    · exact differ '\r' rfl (by decide) same
  simpa [space, and_assoc] using blank

/-- No tree starts with a blank or with a bracket that closes. -/
theorem head_print (j : Json) : ∃ c cs, print j = c :: cs ∧ space c = false ∧ c ≠ ']' := by
  cases j with
  | null => exact ⟨_, _, rfl, rfl, by decide⟩
  | bool b => cases b <;> exact ⟨_, _, rfl, rfl, by decide⟩
  | num n =>
    obtain ⟨c, cs, shape, first⟩ := head_toText n
    have plain := plain_number first
    exact ⟨c, cs, shape, plain.1, plain.2.1⟩
  | str s => exact ⟨_, _, rfl, rfl, by decide⟩
  | badStr raw => exact ⟨_, _, rfl, rfl, by decide⟩
  | arr xs => exact ⟨_, _, rfl, rfl, by decide⟩
  | obj fields => exact ⟨_, _, rfl, rfl, by decide⟩

theorem length_print (j : Json) : 0 < (print j).length := by
  obtain ⟨c, cs, shape, _⟩ := head_print j
  rw [shape]
  exact Nat.succ_pos _

theorem readValue_quote (fuel : Nat) (us : List UInt16) (rest : List Char) :
    readValue (fuel + 1) (quote (codePoints us) ++ rest) = some (ofUnits us, rest) := by
  rw [quote, List.cons_append, List.append_assoc, List.singleton_append, readValue,
    skip_cons (by decide)]
  simp only [if_true, readString_body, Option.map_some]

theorem addMember_ofString (n : String) (x : Json) (fields : List (String × Json)) :
    addMember (ofString n) x fields = (n, x) :: fields := by
  rw [addMember, toString?_ofString]

mutual

/-- A written tree is read back, whatever follows it. -/
theorem readValue_print : (j : Json) → Printable j → ∀ {fuel : Nat} {rest : List Char},
    2 * (print j).length ≤ fuel → Ends rest → readValue fuel (print j ++ rest) = some (j, rest) := by
  intro j printable fuel rest enough ends
  have some := length_print j
  obtain ⟨fuel, rfl⟩ : ∃ less, fuel = less + 1 := ⟨fuel - 1, by omega⟩
  cases j with
  | null => rfl
  | bool b => cases b <;> rfl
  | num n =>
    rw [Printable] at printable
    -- a number starts like no other value
    have read := readNumber_toText printable ends
    obtain ⟨c, cs, shape, first⟩ := head_toText n
    obtain ⟨blank, _, quoted, bracket, brace, letters⟩ := plain_number first
    rw [print]
    rw [shape, List.cons_append] at read ⊢
    rw [readValue, skip_cons blank]
    simp only [if_neg quoted, if_neg bracket, if_neg brace, if_neg letters.1, if_neg letters.2.1,
      if_neg letters.2.2, read, Option.map_some]
  | str s => rw [print, readValue_quote, ofUnits_ofString]
  | badStr raw =>
    obtain ⟨us, same⟩ := printable
    rw [← same, print_ofUnits, readValue_quote]
  | arr xs =>
    cases xs with
    | nil => rfl
    | cons x xs =>
      obtain ⟨c, cs, shape, blank, differ⟩ := head_print x
      have open' : ∃ cs, printElements (x :: xs) = c :: cs := by
        cases xs with
        | nil => exact ⟨cs, by rw [printElements, shape]⟩
        | cons y ys => exact ⟨_, by rw [printElements, shape, List.cons_append]⟩
      obtain ⟨body, first⟩ := open'
      -- the first element does not start with the closing bracket
      have closing : expect ']' (printElements (x :: xs) ++ ']' :: rest) = none := by
        rw [first, List.cons_append, expect_other blank differ]
      rw [print, List.length_cons, List.length_append, List.length_singleton] at enough
      have elements := readElements_print (x :: xs) (List.cons_ne_nil _ _) printable fuel rest
        (by omega)
      rw [print, List.cons_append, List.append_assoc, List.singleton_append, readValue,
        skip_cons (by decide)]
      simp only [if_neg (show '[' ≠ '"' by decide), if_true, closing, elements, Option.map_some]
  | obj fields =>
    cases fields with
    | nil => rfl
    | cons f fields =>
      -- nor does the first member with the closing brace
      have closing : expect '\x7d' (printMembers (f :: fields) ++ '\x7d' :: rest) = none := by
        obtain ⟨n, x⟩ := f
        cases fields with
        | nil =>
          rw [printMembers, quote, List.cons_append, List.cons_append]
          exact expect_other (by decide) (by decide) _
        | cons g fields =>
          rw [printMembers, quote, List.cons_append, List.cons_append]
          exact expect_other (by decide) (by decide) _
      rw [print, List.length_cons, List.length_append, List.length_singleton] at enough
      have members := readMembers_print (f :: fields) (List.cons_ne_nil _ _) printable fuel rest
        (by omega)
      rw [print, List.cons_append, List.append_assoc, List.singleton_append, readValue,
        skip_cons (by decide)]
      simp only [if_neg (show '\x7b' ≠ '"' by decide), if_neg (show '\x7b' ≠ '[' by decide), if_true,
        closing, members, Option.map_some]

theorem readElements_print : (xs : List Json) → xs ≠ [] → AllPrintable xs →
    ∀ (fuel : Nat) (rest : List Char), 2 * (printElements xs).length + 1 ≤ fuel →
      readElements fuel (printElements xs ++ ']' :: rest) = some (xs, rest) := by
  intro xs some printable fuel rest enough
  obtain ⟨fuel, rfl⟩ : ∃ less, fuel = less + 1 := ⟨fuel - 1, by omega⟩
  cases xs with
  | nil => exact absurd rfl some
  | cons x xs =>
    cases xs with
    | nil =>
      rw [printElements] at enough ⊢
      rw [readElements, readValue_print x printable.1 (by omega) (ends_cons (by decide) _),
        Option.bind_some]
      simp only [expect_other (show space ']' = false by decide) (show ']' ≠ ',' by decide),
        expect_self (show space ']' = false by decide), Option.map_some]
    | cons y ys =>
      rw [printElements, List.length_append, List.length_cons] at enough
      have later := readElements_print (y :: ys) (List.cons_ne_nil _ _) printable.2 fuel rest
        (by omega)
      rw [printElements, List.append_assoc, List.cons_append, readElements,
        readValue_print x printable.1 (by omega) (ends_cons (by decide) _), Option.bind_some]
      simp only [expect_self (show space ',' = false by decide), later, Option.map_some]

theorem readMembers_print : (fields : List (String × Json)) → fields ≠ [] → MembersPrintable fields →
    ∀ (fuel : Nat) (rest : List Char), 2 * (printMembers fields).length + 1 ≤ fuel →
      readMembers fuel (printMembers fields ++ '\x7d' :: rest) = some (fields, rest) := by
  intro fields some printable fuel rest enough
  obtain ⟨fuel, rfl⟩ : ∃ less, fuel = less + 1 := ⟨fuel - 1, by omega⟩
  cases fields with
  | nil => exact absurd rfl some
  | cons f fields =>
    obtain ⟨n, x⟩ := f
    cases fields with
    | nil =>
      rw [printMembers, List.length_append, List.length_cons] at enough
      rw [printMembers, quote]
      simp only [List.cons_append, List.append_assoc, List.nil_append, readMembers,
        expect_self (show space '"' = false by decide), Option.bind_some, readString_body,
        expect_self (show space ':' = false by decide)]
      rw [readValue_print x printable.1 (by omega) (ends_cons (by decide) _), Option.bind_some]
      simp only [expect_other (show space '\x7d' = false by decide) (show '\x7d' ≠ ',' by decide),
        expect_self (show space '\x7d' = false by decide), Option.map_some, addMember_ofString]
    | cons g fields =>
      rw [printMembers, List.length_append, List.length_cons, List.length_append,
        List.length_cons] at enough
      have later := readMembers_print (g :: fields) (List.cons_ne_nil _ _) printable.2 fuel rest
        (by omega)
      rw [printMembers, quote]
      simp only [List.cons_append, List.append_assoc, List.nil_append, readMembers,
        expect_self (show space '"' = false by decide), Option.bind_some, readString_body,
        expect_self (show space ':' = false by decide)]
      rw [readValue_print x printable.1 (by omega) (ends_cons (by decide) _), Option.bind_some]
      simp only [expect_self (show space ',' = false by decide), later, Option.map_some,
        addMember_ofString]

end

/-- `JSON.parse` reads what `JSON.stringify` wrote. -/
theorem parse_stringify {j : Json} (printable : Printable j) : parse (stringify j) = some j := by
  have read := readValue_print j printable (Nat.le_refl _) ends_nil
  rw [List.append_nil] at read
  simp only [parse, stringify, String.toList_ofList, read, skip, List.dropWhile_nil, if_true]

theorem printable_ofUnits (us : List UInt16) : Printable (ofUnits us) := by
  cases shape : ofUnits us with
  | str s => trivial
  | badStr raw => exact ⟨us, shape⟩
  | _ =>
    unfold ofUnits at shape
    split at shape <;> exact Json.noConfusion shape

/-! ### The strings of what is parsed -/

/-- A string that was read is a sequence of units. -/
theorem readValue_badStr {fuel : Nat} {cs rest : List Char} {raw : String}
    (read : readValue fuel cs = some (.badStr raw, rest)) : ∃ us, ofUnits us = .badStr raw := by
  cases fuel with
  | zero => simp [readValue] at read
  | succ fuel =>
    rw [readValue] at read
    split at read
    next => cases read
    next c tail =>
      split at read
      next =>
        obtain ⟨r, _, same⟩ := Option.map_eq_some_iff.mp read
        exact ⟨r.1, (Prod.mk.inj same).1⟩
      next =>
        -- No other branch makes a string.
        simp only [readWord] at read
        repeat' split at read
        all_goals simp at read

theorem mem_addMember {name : List UInt16} {x : Json} {fields : List (String × Json)}
    {field : String × Json} (member : field ∈ addMember name x fields) :
    field.2 = x ∨ field ∈ fields := by
  unfold addMember at member
  split at member
  next n _ =>
    rcases List.mem_cons.mp member with rfl | later
    · exact .inl rfl
    · exact .inr later
  next => exact .inr member

theorem readMembers_badStr {fuel : Nat} {cs rest : List Char} {fields : List (String × Json)}
    (read : readMembers fuel cs = some (fields, rest)) {field : String × Json} (member : field ∈ fields)
    {raw : String} (bad : field.2 = .badStr raw) : ∃ us, ofUnits us = .badStr raw := by
  induction fuel generalizing cs rest fields with
  | zero => simp [readMembers] at read
  | succ fuel ih =>
    simp only [readMembers, Option.bind_eq_some_iff] at read
    obtain ⟨quoted, _, name, _, after, _, ⟨x, tail⟩, value, read⟩ := read
    have own (here : field.2 = x) : ∃ us, ofUnits us = .badStr raw := by
      rw [← here, bad] at value
      exact readValue_badStr value
    split at read
    next =>
      obtain ⟨⟨others, _⟩, later, same⟩ := Option.map_eq_some_iff.mp read
      cases same
      rcases mem_addMember member with here | there
      · exact own here
      · exact ih later there
    next =>
      obtain ⟨_, _, same⟩ := Option.map_eq_some_iff.mp read
      cases same
      rcases mem_addMember member with here | there
      · exact own here
      · cases there

theorem parse_badStr {text : String} {fields : List (String × Json)}
    (parsed : parse text = some (.obj fields))
    {field : String × Json} (member : field ∈ fields) {raw : String} (bad : field.2 = .badStr raw) :
    ∃ us, ofUnits us = .badStr raw := by
  unfold parse at parsed
  split at parsed
  next j rest read =>
    obtain ⟨_, same⟩ := Option.ite_none_right_eq_some.mp parsed
    cases same
    generalize 2 * text.toList.length = fuel at read
    cases fuel with
    | zero => simp [readValue] at read
    | succ fuel =>
      rw [readValue] at read
      split at read
      next => cases read
      next c tail =>
        split at read
        next =>
          -- a text that begins with a quote is no object
          obtain ⟨r, _, same⟩ := Option.map_eq_some_iff.mp read
          have texts := (Prod.mk.inj same).1
          unfold ofUnits at texts
          split at texts <;> cases texts
        next =>
          split at read
          -- nor is an array
          next => split at read <;> simp at read
          next =>
            split at read
            next =>
              split at read
              next => cases read; cases member
              next =>
                -- an object: the member was read with it
                obtain ⟨⟨others, _⟩, inside, same⟩ := Option.map_eq_some_iff.mp read
                cases same
                exact readMembers_badStr inside member bad
            -- a word, or a number
            next =>
              simp only [readWord] at read
              repeat' split at read
              all_goals simp at read
  next => cases parsed

end JsonText

end Atmin
