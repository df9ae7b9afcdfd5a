import Mathlib.Data.List.DropRight
import Mathlib.Data.List.TakeWhile
import Atmin.Data.Utf16
import Atmin.Data.Utf8
import Atmin.Web.Preview

/-!
# The name of a download (`media.ts`)

A file is saved under the name its sender chose, after `sanitizeDownloadFilename`. No name gets a
path separator or a control character through, or more than 255 bytes. Dots are taken off before
blanks are, and the cut at 255 bytes comes last, so a name can still begin with a dot, end in a
blank or be empty; when it does is a matter of what its allowed characters are.
-/

namespace Atmin.Web

open Utf16 (CodePoint codePoints single ofChar ofString)

def slash : UInt16 := 0x2F
def backslash : UInt16 := 0x5C
def dot : UInt16 := 0x2E
def replacementUnit : UInt16 := 0xFFFD

/-- `ch.charCodeAt(0)`. -/
def charCode (ch : CodePoint) : Nat := (ch.units.headD 0).toNat

/-- The loop over a name skips path separators, NUL and control characters. -/
def kept (ch : CodePoint) : Bool :=
  if ch.units = [slash] ∨ ch.units = [backslash] then false
  else if charCode ch = 0 then false
  else if charCode ch < 0x20 ∨ charCode ch = 0x7F then false
  else true

def isBlank (u : UInt16) : Bool :=
  match single u with
  | .scalar c => isSpace c
  | .lone _ => false

/-- `s.trim()`, on the units of a string. -/
def trimUnits (s : List UInt16) : List UInt16 := (s.dropWhile isBlank).rdropWhile isBlank

/-- Encoded, a surrogate without its partner is U+FFFD. -/
def toScalar : CodePoint → Char
  | .scalar c => c
  | .lone _ => Utf8.replacement

def scalars (s : List UInt16) : List Char := (codePoints s).map toScalar

/-- `new TextEncoder().encode(s)`. -/
def textEncode (s : List UInt16) : List UInt8 := Utf8.encode (scalars s)

/-- `new TextDecoder('utf-8', { fatal: false }).decode(bytes)`. -/
def textDecode (bytes : List UInt8) : List UInt16 := (Utf8.decode bytes).flatMap ofChar

def sanitizeDownloadFilename (name : List UInt16) : List UInt16 :=
  let s := ((codePoints name).filter kept).flatMap CodePoint.units
  -- `s.replace(/^\.+/, '')`
  let s := s.dropWhile (· == dot)
  let s := trimUnits s
  if s = [] then ofString "download"
  else
    let bytes := textEncode s
    if bytes.length ≤ 255 then s
    -- `.replace(/\uFFFD+$/, '')`
    else (textDecode (bytes.take 255)).rdropWhile (· == replacementUnit)

/-! ### The ends of a list -/

section Ends

variable {α β : Type} (p : α → Bool)

theorem rdropWhile_append_of_pos (xs : List α) {ys : List α} (all : ∀ y ∈ ys, p y = true) :
    (xs ++ ys).rdropWhile p = xs.rdropWhile p := by
  rw [List.rdropWhile, List.reverse_append, List.dropWhile_append_of_pos]
  · rfl
  · intro y mem
    exact all y (List.mem_reverse.mp mem)

/-- The last element that a stripped list keeps is the last one not to be stripped. -/
theorem getLast?_rdropWhile (xs : List α) :
    (xs.rdropWhile p).getLast? = (xs.filter fun x => !p x).getLast? := by
  induction xs using List.reverseRecOn with
  | nil => rfl
  | append_singleton xs x ih =>
    rw [List.rdropWhile_concat, List.filter_append]
    by_cases strip : p x = true
    · simp [strip, ih]
    · simp [strip]

/-- Blocks whose elements all go or all stay are stripped whole. -/
theorem rdropWhile_flatMap (q : β → Bool) (block : β → List α) (filled : ∀ x, block x ≠ [])
    (same : ∀ x, ∀ y ∈ block x, p y = q x) (xs : List β) :
    (xs.flatMap block).rdropWhile p = (xs.rdropWhile q).flatMap block := by
  induction xs using List.reverseRecOn with
  | nil => rfl
  | append_singleton xs x ih =>
    rw [List.flatMap_append, List.flatMap_singleton, List.rdropWhile_concat]
    by_cases strip : q x = true
    · rw [if_pos strip, rdropWhile_append_of_pos, ih]
      intro y mem
      rw [same x y mem, strip]
    · rw [if_neg strip, List.flatMap_append, List.flatMap_singleton, List.rdropWhile_eq_self_iff]
      intro nonempty
      rw [List.getLast_append_of_ne_nil _ (filled x), same x _ (List.getLast_mem _)]
      exact strip

theorem dropWhile_of_head {xs : List α} (keep : ∀ x ∈ xs.head?, p x = false) :
    xs.dropWhile p = xs := by
  cases xs with
  | nil => rfl
  | cons x xs => exact List.dropWhile_cons_of_neg (by simp [keep x rfl])

theorem rdropWhile_of_last {xs : List α} (keep : ∀ x ∈ xs.getLast?, p x = false) :
    xs.rdropWhile p = xs := by
  rw [List.rdropWhile_eq_self_iff]
  intro nonempty
  simp [keep _ (List.getLast?_eq_getLast_of_ne_nil nonempty)]

end Ends

/-! ### What the loop keeps -/

/-- No path separator, NUL or control character. -/
def allowed (u : UInt16) : Bool :=
  decide (u ≠ slash ∧ u ≠ backslash ∧ 0x20 ≤ u.toNat ∧ u.toNat ≠ 0x7F)

theorem kept_single (u : UInt16) : kept (single u) = allowed u := by
  have units := Utf16.units_single u
  rw [kept, charCode, units, List.headD_cons]
  simp only [List.cons.injEq, and_true]
  split
  next separator => rcases separator with rfl | rfl <;> rfl
  next other =>
  split
  next nul => exact (decide_eq_false (by omega)).symm
  next =>
  split
  next control => exact (decide_eq_false (by omega)).symm
  next printed =>
    refine (decide_eq_true ⟨?_, ?_, ?_, ?_⟩).symm
    · exact fun same => other (.inl same)
    · exact fun same => other (.inr same)
    · omega
    · omega

theorem allowed_surrogate {u : UInt16} (large : 0xD800 ≤ u.toNat) : allowed u = true := by
  refine decide_eq_true ⟨?_, ?_, by omega, by omega⟩
  · rintro rfl
    simp [slash] at large
  · rintro rfl
    simp [backslash] at large

theorem kept_pair {high low : UInt16} (first : Utf16.isHigh high = true)
    (last : Utf16.isLow low = true) : kept (.scalar (Utf16.pair high low)) = true := by
  have units : (CodePoint.scalar (Utf16.pair high low)).units = [high, low] :=
    Utf16.ofChar_pair first last
  simp only [Utf16.isHigh, decide_eq_true_eq] at first
  rw [kept, charCode, units, List.headD_cons, if_neg (by simp), if_neg (by omega), if_neg (by omega)]

/-- The loop goes over code points, and is a filter on units. -/
theorem units_kept (name : List UInt16) :
    ((codePoints name).filter kept).flatMap CodePoint.units = name.filter allowed := by
  fun_induction codePoints name with
  | case1 => rfl
  | case2 u =>
    rw [List.filter_cons, List.filter_cons, kept_single]
    split
    · rw [List.filter_nil, List.flatMap_singleton, Utf16.units_single, List.filter_nil]
    · rfl
  | case3 high low rest both ih =>
    obtain ⟨first, last⟩ := Bool.and_eq_true_iff.mp both
    have units : (CodePoint.scalar (Utf16.pair high low)).units = [high, low] :=
      Utf16.ofChar_pair first last
    rw [List.filter_cons_of_pos (kept_pair first last), List.flatMap_cons, ih, units]
    simp only [Utf16.isHigh, Utf16.isLow, decide_eq_true_eq] at first last
    rw [List.filter_cons_of_pos (allowed_surrogate (by omega)),
      List.filter_cons_of_pos (allowed_surrogate (by omega))]
    rfl
  | case4 high low rest _ ih =>
    rw [List.filter_cons, List.filter_cons, kept_single]
    split
    · rw [List.flatMap_cons, ih, Utf16.units_single]
      rfl
    · exact ih

/-! ### Units and characters -/

theorem isSpace_bound {c : Char} (space : isSpace c = true) : c.toNat < 0xD800 ∨ c.toNat = 0xFEFF := by
  simp only [isSpace, Bool.or_eq_true, decide_eq_true_eq, List.contains_eq_mem, List.mem_cons,
    List.not_mem_nil, or_false] at space
  omega

/-- `trim` sees the same blanks in the units of a text as in its characters. -/
theorem isBlank_of_mem {c : Char} {u : UInt16} (mem : u ∈ ofChar c) : isBlank u = isSpace c := by
  rcases Utf16.single_of_mem mem with whole | ⟨lone, large⟩
  · rw [isBlank, whole]
  · rw [isBlank, lone]
    refine (Bool.eq_false_iff.mpr fun space => ?_).symm
    have := isSpace_bound space
    omega

/-- A unit that is a character by itself stands in no other character. -/
theorem unit_iff {c d : Char} {u v : UInt16} (mem : u ∈ ofChar c) (alone : single v = .scalar d) :
    u = v ↔ c = d := by
  constructor
  · rintro rfl
    rcases Utf16.single_of_mem mem with whole | ⟨lone, -⟩
    · rw [alone] at whole
      exact (CodePoint.scalar.inj whole).symm
    · rw [alone] at lone
      nomatch lone
  · rintro rfl
    have only : ofChar c = [v] := by
      have units := Utf16.units_single v
      rwa [alone] at units
    rw [only] at mem
    exact List.mem_singleton.mp mem

theorem dot_iff {c : Char} {u : UInt16} (mem : u ∈ ofChar c) : u = dot ↔ c = '.' :=
  unit_iff mem rfl

theorem scalars_chars (cs : List Char) : scalars (cs.flatMap ofChar) = cs := by
  rw [scalars, Utf16.codePoints_chars, List.map_map]
  exact List.map_id' cs

theorem allowed_replacement : ∀ u ∈ ofChar Utf8.replacement, allowed u = true :=
  List.all_eq_true.mp (by decide)

/-- The characters of allowed units have only allowed units. -/
theorem allowed_scalars {s : List UInt16} (all : ∀ u ∈ s, allowed u = true) :
    ∀ c ∈ scalars s, ∀ u ∈ ofChar c, allowed u = true := by
  intro c member u unit
  obtain ⟨p, point, rfl⟩ := List.mem_map.mp member
  cases p with
  | lone v => exact allowed_replacement u unit
  | scalar c =>
    apply all
    rw [← Utf16.units_codePoints s]
    exact List.mem_flatMap.mpr ⟨_, point, unit⟩

/-- The first character of a text is a blank, or a dot, exactly when its first unit is. -/
theorem scalars_cons (u : UInt16) (us : List UInt16) :
    ∃ c cs, scalars (u :: us) = c :: cs ∧ isSpace c = isBlank u ∧ (c = '.' ↔ u = dot) := by
  obtain ⟨p, ps, points, first, alone⟩ := Utf16.codePoints_cons u us
  refine ⟨toScalar p, ps.map toScalar, by rw [scalars, points, List.map_cons], ?_⟩
  cases p with
  | scalar c =>
    have mem : u ∈ ofChar c := List.mem_of_mem_head? first
    exact ⟨(isBlank_of_mem mem).symm, (dot_iff mem).symm⟩
  | lone v =>
    obtain rfl : v = u := Option.some.inj first
    have lone := alone v rfl
    have mark : toScalar (.lone v) = Utf8.replacement := rfl
    rw [mark]
    refine ⟨?_, iff_of_false (by decide) ?_⟩
    · have shown : isBlank v = false := by rw [isBlank, lone]
      rw [shown]
      decide
    · rintro rfl
      have whole : single dot = .scalar '.' := rfl
      rw [whole] at lone
      nomatch lone

/-! ### The text of a name -/

/-- The allowed units of a name are dots, blanks, a text and blanks. The blanks before the text
keep the dots from going on, and the text neither begins nor ends with one. -/
structure Parts (name : List UInt16) where
  dots : List UInt16
  front : List UInt16
  text : List UInt16
  back : List UInt16
  split : name.filter allowed = dots ++ (front ++ (text ++ back))
  dotted : ∀ u ∈ dots, u = dot
  undotted : (front ++ (text ++ back)).head? ≠ some dot
  front_blank : ∀ u ∈ front, isBlank u = true
  back_blank : ∀ u ∈ back, isBlank u = true
  begins : ∀ u ∈ text.head?, isBlank u = false
  ends : ∀ u ∈ text.getLast?, isBlank u = false

theorem head_dropWhile (p : UInt16 → Bool) (xs : List UInt16) :
    ∀ u ∈ (xs.dropWhile p).head?, p u = false := by
  intro u first
  have not := List.head?_dropWhile_not p xs
  rw [Option.mem_def.mp first] at not
  simpa using not

theorem last_rdropWhile (p : UInt16 → Bool) (xs : List UInt16) :
    ∀ u ∈ (xs.rdropWhile p).getLast?, p u = false := by
  intro u last
  rw [getLast?_rdropWhile] at last
  have kept := (List.mem_filter.mp (List.mem_of_getLast? last)).2
  simpa using kept

/-- What begins a prefix begins the list. -/
theorem prefix_head {α : Type} {xs ys : List α} (initial : xs <+: ys) :
    ∀ x ∈ xs.head?, x ∈ ys.head? := by
  obtain ⟨rest, rfl⟩ := initial
  cases xs with
  | nil => exact fun x none => nomatch none
  | cons y xs => exact fun x first => first

def parts (name : List UInt16) : Parts name :=
  let undotted := (name.filter allowed).dropWhile (· == dot)
  let core := undotted.dropWhile isBlank
  { dots := (name.filter allowed).takeWhile (· == dot)
    front := undotted.takeWhile isBlank
    text := core.rdropWhile isBlank
    back := core.rtakeWhile isBlank
    split := by
      rw [List.rdropWhile_append_rtakeWhile, List.takeWhile_append_dropWhile,
        List.takeWhile_append_dropWhile]
    dotted := by
      intro u member
      have equal := List.mem_takeWhile_imp member
      exact eq_of_beq equal
    undotted := by
      rw [List.rdropWhile_append_rtakeWhile, List.takeWhile_append_dropWhile]
      intro first
      have not := head_dropWhile (· == dot) _ dot first
      simp at not
    front_blank := fun u member => List.mem_takeWhile_imp member
    back_blank := fun u member => List.mem_rtakeWhile_imp member
    begins := fun u first =>
      head_dropWhile isBlank _ u (prefix_head (List.rdropWhile_prefix _ _) u first)
    ends := last_rdropWhile isBlank core }

namespace Parts

variable {name : List UInt16} (made : Parts name)

theorem allowed_text : ∀ u ∈ made.text, allowed u = true := by
  intro u member
  have inside : u ∈ name.filter allowed := by
    rw [made.split]
    simp [member]
  exact (List.mem_filter.mp inside).2

/-- The dots and the blanks are taken off, and the text is left. -/
theorem stripped : trimUnits ((name.filter allowed).dropWhile (· == dot)) = made.text := by
  have dots : (name.filter allowed).dropWhile (· == dot) = made.front ++ (made.text ++ made.back) := by
    rw [made.split, List.dropWhile_append_of_pos, dropWhile_of_head]
    · intro u first
      refine beq_false_of_ne ?_
      rintro rfl
      exact made.undotted first
    · intro u member
      exact beq_iff_eq.mpr (made.dotted u member)
  rw [dots, trimUnits, List.dropWhile_append_of_pos made.front_blank]
  cases empty : made.text with
  | nil =>
    rw [List.nil_append, List.rdropWhile_eq_nil_iff]
    intro u member
    exact made.back_blank u ((List.dropWhile_sublist _).subset member)
  | cons u us =>
    rw [dropWhile_of_head, rdropWhile_append_of_pos _ _ made.back_blank, rdropWhile_of_last]
    · exact empty ▸ made.ends
    · intro v first
      exact made.begins v (empty ▸ first)

/-- What is made of a name, by its text alone. -/
theorem sanitized : sanitizeDownloadFilename name =
    if made.text = [] then ofString "download"
    else if (textEncode made.text).length ≤ 255 then made.text
    else (textDecode ((textEncode made.text).take 255)).rdropWhile (· == replacementUnit) := by
  rw [sanitizeDownloadFilename, units_kept]
  simp only [made.stripped]

theorem first_scalar : ∀ c ∈ (scalars made.text).head?,
    isSpace c = false ∧ (c = '.' ↔ made.text.head? = some dot) := by
  intro c first
  have begins := made.begins
  cases text : made.text with
  | nil =>
    rw [text] at first
    nomatch first
  | cons u us =>
    obtain ⟨d, ds, chars, space, dotted⟩ := scalars_cons u us
    rw [text, chars] at first
    obtain rfl : d = c := Option.some.inj first
    rw [text] at begins
    refine ⟨space.trans (begins u rfl), dotted.trans ?_⟩
    rw [List.head?_cons, Option.some_inj]

/-- Cut at 255 bytes, the text keeps its whole characters up to the last that is no U+FFFD. -/
theorem truncated (cut : Utf8.Cut 255 (scalars made.text)) :
    (textDecode ((textEncode made.text).take 255)).rdropWhile (· == replacementUnit) =
      (cut.whole.rdropWhile (· == Utf8.replacement)).flatMap ofChar := by
  obtain ⟨torn, read, ending⟩ := cut.decode_take
  -- a byte order mark is a blank, so none begins the text
  have unmarked : Utf8.dropMark (cut.whole ++ torn) = cut.whole ++ torn := by
    cases whole : cut.whole with
    | nil => rcases ending with rfl | rfl <;> decide
    | cons c cs =>
      have first : c ∈ (scalars made.text).head? := by rw [cut.split, whole]; rfl
      have shown := (made.first_scalar c first).1
      rw [List.cons_append, Utf8.dropMark, if_neg]
      rintro rfl
      cases shown
  have marks (c : Char) : ∀ u ∈ ofChar c, (u == replacementUnit) = (c == Utf8.replacement) := by
    intro u member
    have same : u = replacementUnit ↔ c = Utf8.replacement := unit_iff member rfl
    rw [Bool.eq_iff_iff, beq_iff_eq, beq_iff_eq, same]
  rw [textDecode, Utf8.decode, textEncode, read, unmarked,
    rdropWhile_flatMap _ (· == Utf8.replacement) ofChar Utf16.ofChar_ne_nil marks,
    rdropWhile_append_of_pos]
  rcases ending with rfl | rfl <;> simp

/-- What a cut leaves of the text. -/
def cutText (cut : Utf8.Cut 255 (scalars made.text)) : List Char :=
  cut.whole.rdropWhile (· == Utf8.replacement)

variable (cut : Utf8.Cut 255 (scalars made.text))

theorem cutText_initial : made.cutText cut <+: scalars made.text := by
  have initial : cut.whole <+: scalars made.text := by
    conv_rhs => rw [cut.split]
    exact List.prefix_append _ _
  exact (List.rdropWhile_prefix _ _).trans initial

theorem cutText_allowed : ∀ u ∈ (made.cutText cut).flatMap ofChar, allowed u = true := by
  intro u member
  obtain ⟨c, inside, unit⟩ := List.mem_flatMap.mp member
  exact allowed_scalars made.allowed_text c ((made.cutText_initial cut).subset inside) u unit

theorem cutText_short : (Utf8.encode (made.cutText cut)).length ≤ 255 := by
  obtain ⟨rest, whole⟩ := List.rdropWhile_prefix (· == Utf8.replacement) cut.whole
  have fits := cut.fits
  rw [← whole, Utf8.encode_append, List.length_append] at fits
  exact Nat.le_trans (Nat.le_add_right _ _) fits

/-- A cut text begins as the text does. -/
theorem cutText_head : ∀ u ∈ ((made.cutText cut).flatMap ofChar).head?,
    isBlank u = false ∧ (u = dot ↔ made.text.head? = some dot) := by
  intro u first
  have initial := made.cutText_initial cut
  cases whole : made.cutText cut with
  | nil =>
    rw [whole] at first
    nomatch first
  | cons c cs =>
    rw [whole] at first initial
    rw [List.flatMap_cons, List.head?_append_of_ne_nil _ (Utf16.ofChar_ne_nil c)] at first
    have unit : u ∈ ofChar c := List.mem_of_mem_head? first
    obtain ⟨shown, dotted⟩ := made.first_scalar c (prefix_head initial c rfl)
    exact ⟨(isBlank_of_mem unit).trans shown, (dot_iff unit).trans dotted⟩

theorem cutText_last : (∃ c ∈ (made.cutText cut).getLast?, isSpace c = false) ↔
    made.cutText cut ≠ [] ∧ ∀ u ∈ ((made.cutText cut).flatMap ofChar).getLast?, isBlank u = false := by
  rcases List.eq_nil_or_concat' (made.cutText cut) with none | ⟨cs, c, some⟩
  · simp [none]
  · rw [some, List.getLast?_concat, List.flatMap_append, List.flatMap_singleton,
      List.getLast?_append_of_ne_nil _ (Utf16.ofChar_ne_nil c)]
    constructor
    · rintro ⟨d, last, shown⟩
      obtain rfl : c = d := Option.some.inj last
      refine ⟨by simp, fun u last => ?_⟩
      exact (isBlank_of_mem (List.mem_of_getLast? last)).trans shown
    · rintro ⟨-, shown⟩
      have last := List.getLast?_eq_getLast_of_ne_nil (Utf16.ofChar_ne_nil c)
      refine ⟨c, rfl, ?_⟩
      rw [← isBlank_of_mem (List.getLast_mem (Utf16.ofChar_ne_nil c))]
      exact shown _ last

/-- A text that is longer than 255 bytes is cut. -/
theorem sanitized_long (long : cut.rest ≠ []) :
    sanitizeDownloadFilename name = (made.cutText cut).flatMap ofChar := by
  have more : 255 < (textEncode made.text).length := cut.rest_ne_nil_iff.mp long
  have filled : made.text ≠ [] := by
    intro none
    rw [none] at more
    exact absurd more (by decide)
  rw [made.sanitized, if_neg filled, if_neg (Nat.not_le.mpr more), made.truncated cut, cutText]

/-- An allowed string that begins with neither a dot nor a blank is a text, and blanks. -/
def ofText (s : List UInt16) (clean : ∀ u ∈ s, allowed u = true) (shown : s.head? ≠ some dot)
    (begins : ∀ u ∈ s.head?, isBlank u = false) : Parts s where
  dots := []
  front := []
  text := s.rdropWhile isBlank
  back := s.rtakeWhile isBlank
  split := by
    rw [List.nil_append, List.nil_append, List.rdropWhile_append_rtakeWhile]
    exact List.filter_eq_self.mpr clean
  dotted := fun u none => nomatch none
  undotted := by rwa [List.nil_append, List.rdropWhile_append_rtakeWhile]
  front_blank := fun u none => nomatch none
  back_blank := fun u member => List.mem_rtakeWhile_imp member
  begins := fun u first => begins u (prefix_head (List.rdropWhile_prefix _ _) u first)
  ends := last_rdropWhile isBlank s

end Parts

/-! ### Safe names -/

/-- A file can be saved under this name, and the name stays as it is. -/
structure SafeName (s : List UInt16) : Prop where
  named : s ≠ []
  clean : ∀ u ∈ s, u ≠ slash ∧ u ≠ backslash ∧ 0x20 ≤ u.toNat ∧ u.toNat ≠ 0x7F
  shown : s.head? ≠ some dot
  short : (textEncode s).length ≤ 255
  settled : sanitizeDownloadFilename s = s

/-- An allowed string of at most 255 bytes that begins with neither a dot nor a blank is safe
exactly when it does not end in a blank. -/
theorem SafeName.of_clean {s : List UInt16} (named : s ≠ []) (clean : ∀ u ∈ s, allowed u = true)
    (shown : s.head? ≠ some dot) (short : (textEncode s).length ≤ 255)
    (begins : ∀ u ∈ s.head?, isBlank u = false) (ends : ∀ u ∈ s.getLast?, isBlank u = false) :
    SafeName s := by
  have text : (Parts.ofText s clean shown begins).text = s := rdropWhile_of_last isBlank ends
  refine ⟨named, fun u member => of_decide_eq_true (clean u member), shown, short, ?_⟩
  rw [(Parts.ofText s clean shown begins).sanitized, text, if_neg named, if_pos short]

/-- A safe name made of characters does not end in a blank. -/
theorem SafeName.ends {cs : List Char} (safe : SafeName (cs.flatMap ofChar))
    (begins : ∀ u ∈ (cs.flatMap ofChar).head?, isBlank u = false) :
    ∀ u ∈ (cs.flatMap ofChar).getLast?, isBlank u = false := by
  have text : (cs.flatMap ofChar).rdropWhile isBlank = (cs.rdropWhile isSpace).flatMap ofChar :=
    rdropWhile_flatMap isBlank isSpace ofChar Utf16.ofChar_ne_nil (fun c u mem => isBlank_of_mem mem) cs
  have clean : ∀ u ∈ cs.flatMap ofChar, allowed u = true :=
    fun u member => decide_eq_true (safe.clean u member)
  let made := Parts.ofText _ clean safe.shown begins
  -- what is trimmed off makes the name shorter only
  have short : (textEncode made.text).length ≤ 255 := by
    have all := safe.short
    rw [textEncode, scalars_chars] at all
    obtain ⟨blanks, whole⟩ := List.rdropWhile_prefix isSpace cs
    rw [← whole, Utf8.encode_append, List.length_append] at all
    have encoded : textEncode made.text = Utf8.encode (cs.rdropWhile isSpace) := by
      rw [textEncode, show made.text = _ from text, scalars_chars]
    rw [encoded]
    exact Nat.le_trans (Nat.le_add_right _ _) all
  have filled : made.text ≠ [] := by
    intro none
    obtain ⟨u, us, units⟩ := List.exists_cons_of_ne_nil safe.named
    have blank := List.rdropWhile_eq_nil_iff.mp none u (by rw [units]; exact List.mem_cons_self)
    rw [begins u (by rw [units]; rfl)] at blank
    nomatch blank
  have settled := safe.settled
  rw [made.sanitized, if_neg filled, if_pos short] at settled
  have last := made.ends
  rwa [settled] at last

theorem allowed_download : ∀ u ∈ ofString "download", allowed u = true :=
  List.all_eq_true.mp (by decide)

theorem safe_download : SafeName (ofString "download") where
  named := by decide
  clean := fun u member => of_decide_eq_true (allowed_download u member)
  shown := by decide
  short := by decide
  settled := by decide

namespace Parts

variable {name : List UInt16} (made : Parts name)

/-- The text of a name does not begin with a dot. And where it is longer than 255 bytes, some of
the characters that are whole within these is no U+FFFD, and the last such is no blank. -/
structure Lasting : Prop where
  shown : made.text.head? ≠ some dot
  ends : ∀ cut : Utf8.Cut 255 (scalars made.text), cut.rest ≠ [] →
    ∃ c ∈ (cut.whole.filter (· != Utf8.replacement)).getLast?, isSpace c = false

theorem last_cutText (cut : Utf8.Cut 255 (scalars made.text)) :
    (made.cutText cut).getLast? = (cut.whole.filter (· != Utf8.replacement)).getLast? :=
  getLast?_rdropWhile _ _

theorem sanitized_short (filled : made.text ≠ []) (short : (textEncode made.text).length ≤ 255) :
    sanitizeDownloadFilename name = made.text := by
  rw [made.sanitized, if_neg filled, if_pos short]

/-- Where the name made is safe, the text does not begin with a dot. -/
theorem shown_of_safe (safe : SafeName (sanitizeDownloadFilename name)) :
    made.text.head? ≠ some dot := by
  intro dotted
  have filled : made.text ≠ [] := by
    intro none
    rw [none] at dotted
    nomatch dotted
  rcases Nat.lt_or_ge 255 (textEncode made.text).length with long | short
  · let cut := Utf8.cut 255 (scalars made.text)
    rw [made.sanitized_long cut (cut.rest_ne_nil_iff.mpr long)] at safe
    obtain ⟨u, us, units⟩ := List.exists_cons_of_ne_nil safe.named
    have shown := safe.shown
    have head := made.cutText_head cut
    rw [units] at shown head
    exact shown (congrArg some ((head u rfl).2.mpr dotted))
  · rw [made.sanitized_short filled short] at safe
    exact safe.shown dotted

/-- Where the name made is safe, its text is not cut after a blank, or before all of it. -/
theorem ends_of_safe (safe : SafeName (sanitizeDownloadFilename name))
    (cut : Utf8.Cut 255 (scalars made.text)) (long : cut.rest ≠ []) :
    ∃ c ∈ (cut.whole.filter (· != Utf8.replacement)).getLast?, isSpace c = false := by
  rw [made.sanitized_long cut long] at safe
  rw [← made.last_cutText cut, made.cutText_last cut]
  constructor
  · intro none
    apply safe.named
    rw [none]
    rfl
  · exact safe.ends fun u first => (made.cutText_head cut u first).1

theorem Lasting.safe {made : Parts name} (lasting : made.Lasting) :
    SafeName (sanitizeDownloadFilename name) := by
  by_cases none : made.text = []
  · rw [made.sanitized, if_pos none]
    exact safe_download
  rcases Nat.lt_or_ge 255 (textEncode made.text).length with long | short
  · let cut := Utf8.cut 255 (scalars made.text)
    have more := cut.rest_ne_nil_iff.mpr long
    have last := lasting.ends cut more
    rw [← made.last_cutText cut, made.cutText_last cut] at last
    have head := made.cutText_head cut
    rw [made.sanitized_long cut more]
    apply SafeName.of_clean
    · intro empty
      obtain ⟨c, cs, chars⟩ := List.exists_cons_of_ne_nil last.1
      rw [chars, List.flatMap_cons] at empty
      exact Utf16.ofChar_ne_nil c (List.append_eq_nil_iff.mp empty).1
    · exact made.cutText_allowed cut
    · exact fun dotted => lasting.shown ((head dot dotted).2.mp rfl)
    · rw [textEncode, scalars_chars]
      exact made.cutText_short cut
    · exact fun u first => (head u first).1
    · exact last.2
  · rw [made.sanitized_short none short]
    exact .of_clean none made.allowed_text lasting.shown short made.begins made.ends

end Parts

/-- No name of a download has a path separator, NUL or control character, or more than 255 bytes. -/
theorem sanitized_bounded (name : List UInt16) :
    (∀ u ∈ sanitizeDownloadFilename name, allowed u = true) ∧
      (textEncode (sanitizeDownloadFilename name)).length ≤ 255 := by
  let made := parts name
  by_cases none : made.text = []
  · rw [made.sanitized, if_pos none]
    exact ⟨allowed_download, by decide⟩
  rcases Nat.lt_or_ge 255 (textEncode made.text).length with long | short
  · let cut := Utf8.cut 255 (scalars made.text)
    rw [made.sanitized_long cut (cut.rest_ne_nil_iff.mpr long), textEncode, scalars_chars]
    exact ⟨made.cutText_allowed cut, made.cutText_short cut⟩
  · rw [made.sanitized_short none short]
    exact ⟨made.allowed_text, short⟩

/-- The name a download is given is safe exactly when its text lasts. -/
theorem sanitized_safe_iff (name : List UInt16) :
    SafeName (sanitizeDownloadFilename name) ↔ ∃ made : Parts name, made.Lasting := by
  constructor
  · intro safe
    exact ⟨parts name, (parts name).shown_of_safe safe, (parts name).ends_of_safe safe⟩
  · rintro ⟨made, lasting⟩
    exact lasting.safe

/-- The blank keeps the dot, which is the first character once the blank is taken off. -/
theorem hidden_name_unsafe : ¬ SafeName (sanitizeDownloadFilename (ofString " .bashrc")) :=
  fun safe => safe.shown (by decide)

end Atmin.Web
