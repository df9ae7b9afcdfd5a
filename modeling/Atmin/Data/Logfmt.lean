import Mathlib.Data.List.Basic

/-!
# logfmt

Lines of `key=value` fields, with a value bare or in double quotes. What a reader makes of a
line, and what it takes for a quoted value to be read back.
-/

namespace Atmin.Logfmt

/-- How a reader understands backslashes: with the character after it, a backslash stands for one
character, and a backslash for itself is written so and no other way. -/
structure Reader where
  unescape : Char → Option Char
  quote : unescape '"' = some '"'
  backslash : ∀ c, unescape c = some '\\' ↔ c = '\\'

/-- The usual escapes. -/
def Reader.usual : Reader where
  unescape c :=
    if c = '"' then some '"' else if c = '\\' then some '\\' else if c = 'n' then some '\n'
    else if c = 'r' then some '\r' else if c = 't' then some '\t' else none
  quote := rfl
  backslash c := by
    by_cases quoted : c = '"'
    · subst quoted; decide
    · by_cases same : c = '\\'
      · simp [same]
      · by_cases n : c = 'n'
        · subst n; decide
        · by_cases r : c = 'r'
          · subst r; decide
          · by_cases t : c = 't'
            · subst t; decide
            · simp [quoted, same, n, r, t]

namespace Reader

variable (reader : Reader)

/-- After the opening quote: the value, and what follows the closing quote. -/
def readQuoted : List Char → Option (List Char × List Char)
  | [] => none
  | [c] => if c = '"' then some ([], []) else none
  | c :: d :: rest =>
    if c = '"' then some ([], d :: rest)
    else if c = '\\' then match reader.unescape d with
      | some x => (readQuoted rest).map fun (value, left) => (x :: value, left)
      | none => none
    else (readQuoted (d :: rest)).map fun (value, left) => (c :: value, left)

/-- A quoted value, or a bare one up to the next space. -/
def readValue (text : List Char) : Option (List Char × List Char) :=
  match text with
  | '"' :: rest => reader.readQuoted rest
  | _ => some (text.takeWhile (· ≠ ' '), text.dropWhile (· ≠ ' '))

/-- A key, and its value. -/
def readField (text : List Char) : Option ((List Char × List Char) × List Char) :=
  match text.dropWhile (· ≠ '=') with
  | [] => none
  | _ :: rest => (reader.readValue rest).map fun (value, left) =>
    ((text.takeWhile (· ≠ '='), value), left)

/-- The fields of a line, at most `fuel` of them. -/
def readFields : Nat → List Char → Option (List (List Char × List Char))
  | 0, _ => none
  | fuel + 1, text => match reader.readField text with
    | some (field, []) => some [field]
    | some (field, c :: rest) =>
      if c = ' ' then (readFields fuel rest).map (field :: ·) else none
    | none => none

/-- No line has more fields than characters. -/
def readLine (text : List Char) : Option (List (List Char × List Char)) :=
  reader.readFields text.length text

/-! ### Quoted values -/

variable {reader}

@[simp] theorem readQuoted_close (rest : List Char) :
    reader.readQuoted ('"' :: rest) = some ([], rest) := by
  cases rest with
  | nil => simp [readQuoted]
  | cons d rest => simp [readQuoted]

theorem readQuoted_plain {c : Char} (quote : c ≠ '"') (backslash : c ≠ '\\') (rest : List Char) :
    reader.readQuoted (c :: rest) =
      (reader.readQuoted rest).map fun (value, left) => (c :: value, left) := by
  cases rest with
  | nil => simp [readQuoted, quote]
  | cons d rest => simp [readQuoted, quote, backslash]

theorem readQuoted_escape {d x : Char} (known : reader.unescape d = some x) (rest : List Char) :
    reader.readQuoted ('\\' :: d :: rest) =
      (reader.readQuoted rest).map fun (value, left) => (x :: value, left) := by
  simp [readQuoted, known]

theorem readQuoted_unknown {d : Char} (unknown : reader.unescape d = none) (rest : List Char) :
    reader.readQuoted ('\\' :: d :: rest) = none := by
  simp [readQuoted, unknown]

end Reader

/-- A backslash before every quote, and nowhere else. -/
def escapeQuotes (value : List Char) : List Char :=
  value.flatMap fun c => if c = '"' then ['\\', '"'] else [c]

section Escape

variable {value : List Char} {c : Char}

@[simp] theorem escapeQuotes_nil : escapeQuotes [] = [] := rfl

@[simp] theorem escapeQuotes_quote :
    escapeQuotes ('"' :: value) = '\\' :: '"' :: escapeQuotes value := by
  simp [escapeQuotes]

theorem escapeQuotes_cons (other : c ≠ '"') : escapeQuotes (c :: value) = c :: escapeQuotes value := by
  simp [escapeQuotes, other]

end Escape

namespace Reader

variable {reader : Reader}

theorem readQuoted_escapeQuotes {value : List Char} (plain : '\\' ∉ value) (rest : List Char) :
    reader.readQuoted (escapeQuotes value ++ '"' :: rest) = some (value, rest) := by
  induction value with
  | nil => simp
  | cons c value ih =>
    simp only [List.mem_cons, not_or] at plain
    have tail := ih plain.2
    by_cases quote : c = '"'
    · subst quote
      rw [escapeQuotes_quote, List.cons_append, List.cons_append, readQuoted_escape reader.quote, tail]
      rfl
    · rw [escapeQuotes_cons quote, List.cons_append, readQuoted_plain quote (Ne.symm plain.1), tail]
      rfl

theorem map_cons_eq {read : Option (List Char × List Char)} {c d : Char} {value left : List Char}
    (same : read.map (fun (value, left) => (c :: value, left)) = some (d :: value, left)) :
    c = d ∧ read = some (value, left) := by
  obtain ⟨⟨value', left'⟩, found, same⟩ := Option.map_eq_some_iff.mp same
  simp only [Prod.mk.injEq, List.cons.injEq] at same
  obtain ⟨⟨rfl, rfl⟩, rfl⟩ := same
  exact ⟨rfl, found⟩

/-- What comes after a first backslash of the value: `c` and the rest, or the closing quote. -/
theorem readQuoted_after_backslash {value rest left : List Char} {d : Char} {expected : List Char}
    (read : reader.readQuoted ('\\' :: (escapeQuotes value ++ '"' :: rest)) =
      some (d :: expected, left)) :
    (value = [] ∧ d = '"') ∨ (∃ more, value = '"' :: more ∧ expected = []) ∨
    ∃ c more, c ≠ '"' ∧ value = c :: more ∧ reader.unescape c = some d ∧
      reader.readQuoted (escapeQuotes more ++ '"' :: rest) = some (expected, left) := by
  cases value with
  | nil =>
    rw [escapeQuotes_nil, List.nil_append, readQuoted_escape reader.quote] at read
    exact Or.inl ⟨rfl, (map_cons_eq read).1.symm⟩
  | cons c more =>
    by_cases quote : c = '"'
    · -- The backslash that was to escape the quote is taken for the second of two.
      subst quote
      rw [escapeQuotes_quote, List.cons_append, List.cons_append,
        readQuoted_escape ((reader.backslash '\\').mpr rfl), readQuoted_close] at read
      have ended := (map_cons_eq read).2
      simp only [Option.some.injEq, Prod.mk.injEq] at ended
      exact Or.inr (Or.inl ⟨more, rfl, ended.1.symm⟩)
    · rw [escapeQuotes_cons quote, List.cons_append] at read
      cases known : reader.unescape c with
      | none => rw [readQuoted_unknown known] at read; cases read
      | some x =>
        rw [readQuoted_escape known] at read
        obtain ⟨rfl, further⟩ := map_cons_eq read
        exact Or.inr (Or.inr ⟨c, more, quote, rfl, known, further⟩)

/-- The reader is behind by some backslashes, and never catches up: two of the text are one to it. -/
theorem readQuoted_behind (value rest left : List Char) : ∀ n,
    reader.readQuoted (escapeQuotes value ++ '"' :: rest) ≠
      some ('\\' :: (List.replicate n '\\' ++ value), left) := by
  induction h : value.length using Nat.strongRecOn generalizing value with
  | ind size ih =>
    intro n read
    cases value with
    | nil => rw [escapeQuotes_nil, List.nil_append, readQuoted_close] at read; cases read
    | cons c value =>
      by_cases quote : c = '"'
      · subst quote
        rw [escapeQuotes_quote, List.cons_append, List.cons_append,
          readQuoted_escape reader.quote] at read
        exact absurd (map_cons_eq read).1 (by decide)
      · rw [escapeQuotes_cons quote, List.cons_append] at read
        by_cases backslash : c = '\\'
        · subst backslash
          rcases readQuoted_after_backslash read with
            ⟨_, wrong⟩ | ⟨more, rfl, wrong⟩ | ⟨d, more, _, rfl, known, further⟩
          · exact absurd wrong (by decide)
          · simp at wrong
          · have same := (reader.backslash d).mp known
            subst same
            have longer : List.replicate n '\\' ++ '\\' :: '\\' :: more =
                '\\' :: (List.replicate (n + 1) '\\' ++ more) := by
              rw [← List.cons_append, ← List.replicate_succ, List.replicate_succ' (n := n + 1)]
              simp [List.replicate_succ']
            rw [longer] at further
            exact ih more.length (by simp at h; omega) more rfl (n + 1) further
        · rw [readQuoted_plain quote backslash] at read
          exact absurd (map_cons_eq read).1 backslash

theorem readQuoted_backslash {value : List Char} (escaped : '\\' ∈ value) (rest left : List Char) :
    reader.readQuoted (escapeQuotes value ++ '"' :: rest) ≠ some (value, left) := by
  induction value with
  | nil => cases escaped
  | cons c value ih =>
    intro read
    by_cases quote : c = '"'
    · subst quote
      rw [escapeQuotes_quote, List.cons_append, List.cons_append,
        readQuoted_escape reader.quote] at read
      exact ih (by simpa using escaped) (map_cons_eq read).2
    · rw [escapeQuotes_cons quote, List.cons_append] at read
      by_cases backslash : c = '\\'
      · subst backslash
        rcases readQuoted_after_backslash read with
          ⟨_, wrong⟩ | ⟨more, rfl, wrong⟩ | ⟨d, more, _, rfl, known, further⟩
        · exact absurd wrong (by decide)
        · cases wrong
        · have same := (reader.backslash d).mp known
          subst same
          exact readQuoted_behind more rest left 0 further
      · rw [readQuoted_plain quote backslash] at read
        exact ih (by simpa [Ne.symm backslash] using escaped) (map_cons_eq read).2

/-- A value whose quotes alone are escaped is read back if it has no backslash, and only then. -/
theorem readQuoted_iff {value rest left : List Char} :
    reader.readQuoted (escapeQuotes value ++ '"' :: rest) = some (value, left) ↔
      '\\' ∉ value ∧ left = rest := by
  constructor
  · intro read
    have plain : '\\' ∉ value := fun escaped => readQuoted_backslash escaped rest left read
    rw [readQuoted_escapeQuotes plain] at read
    cases read
    exact ⟨plain, rfl⟩
  · rintro ⟨plain, rfl⟩
    exact readQuoted_escapeQuotes plain left

end Reader

/-! ### Lines -/

/-- What may follow a value. -/
def Ends (rest : List Char) : Prop := rest = [] ∨ ∃ more, rest = ' ' :: more

/-- A value that can stand without quotes. -/
def Bare (value : List Char) : Prop := ' ' ∉ value ∧ '"' ∉ value

instance (value : List Char) : Decidable (Bare value) := inferInstanceAs (Decidable (_ ∧ _))

theorem takeWhile_stop {stop : Char} {before rest : List Char} (absent : stop ∉ before)
    (ends : rest = [] ∨ ∃ more, rest = stop :: more) :
    (before ++ rest).takeWhile (· ≠ stop) = before ∧
      (before ++ rest).dropWhile (· ≠ stop) = rest := by
  have all : ∀ c ∈ before, (decide (c ≠ stop)) = true := by
    rintro c member
    simp only [ne_eq, decide_not, Bool.not_eq_eq_eq_not, Bool.not_true, decide_eq_false_iff_not]
    rintro rfl
    exact absent member
  rw [List.takeWhile_append_of_pos all, List.dropWhile_append_of_pos all]
  rcases ends with rfl | ⟨more, rfl⟩
  · simp
  · simp

namespace Reader

variable {reader : Reader}

theorem readValue_bare {value rest : List Char} (bare : Bare value) (ends : Ends rest) :
    reader.readValue (value ++ rest) = some (value, rest) := by
  obtain ⟨before, after⟩ := takeWhile_stop bare.1 ends
  have unquoted : ∀ more, value ++ rest ≠ '"' :: more := by
    intro more same
    cases value with
    | nil =>
      rcases ends with rfl | ⟨_, rfl⟩
      · cases same
      · exact absurd (List.cons.inj same).1 (by decide)
    | cons c value => exact bare.2 ((List.cons.inj same).1 ▸ List.mem_cons_self)
  unfold readValue
  split
  next more same => exact absurd same (unquoted more)
  next => rw [before, after]

@[simp] theorem readValue_quote (rest : List Char) :
    reader.readValue ('"' :: rest) = reader.readQuoted rest := rfl

theorem readField_key {key text : List Char} (plain : '=' ∉ key) :
    reader.readField (key ++ '=' :: text) =
      (reader.readValue text).map fun (value, left) => ((key, value), left) := by
  obtain ⟨before, after⟩ := takeWhile_stop plain (Or.inr ⟨text, rfl⟩)
  unfold readField
  rw [before, after]

theorem readFields_inv {fuel : Nat} {text : List Char} {field : List Char × List Char}
    {fields : List (List Char × List Char)}
    (read : reader.readFields fuel text = some (field :: fields)) :
    ∃ fewer, fuel = fewer + 1 ∧ ((reader.readField text = some (field, []) ∧ fields = []) ∨
      ∃ rest, reader.readField text = some (field, ' ' :: rest) ∧
        reader.readFields fewer rest = some fields) := by
  cases fuel with
  | zero => cases read
  | succ fewer =>
    refine ⟨fewer, rfl, ?_⟩
    simp only [readFields] at read
    split at read
    next found => cases read; exact Or.inl ⟨found, rfl⟩
    next c rest found =>
      split at read
      next space =>
        subst space
        obtain ⟨more, further, same⟩ := Option.map_eq_some_iff.mp read
        cases same
        exact Or.inr ⟨rest, found, further⟩
      next => cases read
    next => cases read

theorem readFields_some {fuel : Nat} {text : List Char} :
    reader.readFields fuel text ≠ some [] := by
  intro read
  cases fuel with
  | zero => cases read
  | succ fewer =>
    simp only [readFields] at read
    split at read
    next => cases read
    next =>
      split at read
      next =>
        obtain ⟨_, _, same⟩ := Option.map_eq_some_iff.mp read
        cases same
      next => cases read
    next => cases read

end Reader

/-- A field as it is written; `good` is when a reader finds the value that was meant. -/
structure Field where
  key : List Char
  text : List Char
  value : List Char
  good : Prop

/-- Whatever follows the text on the line. -/
def Field.Written (reader : Reader) (f : Field) : Prop :=
  '=' ∉ f.key ∧ ∀ rest left, Ends rest →
    (reader.readValue (f.text ++ rest) = some (f.value, left) ↔ f.good ∧ left = rest)

/-- The fields of a line, with spaces between them. -/
def write : List Field → List Char
  | [] => []
  | [f] => f.key ++ '=' :: f.text
  | f :: fields => f.key ++ '=' :: (f.text ++ ' ' :: write fields)

theorem write_last (f : Field) : write [f] = f.key ++ '=' :: f.text := rfl

theorem write_cons (f g : Field) (fields : List Field) :
    write (f :: g :: fields) = f.key ++ '=' :: (f.text ++ ' ' :: write (g :: fields)) := rfl

theorem length_write (fields : List Field) : fields.length ≤ (write fields).length := by
  induction fields with
  | nil => exact Nat.le_refl _
  | cons f fields ih =>
    cases fields with
    | nil => simp [write]; omega
    | cons g fields =>
      rw [write_cons]
      simp only [List.length_cons, List.length_append] at ih ⊢
      omega

theorem Field.Written.read_iff {reader : Reader} {f : Field} (written : f.Written reader)
    {rest left : List Char} (ends : Ends rest) :
    reader.readField (f.key ++ '=' :: (f.text ++ rest)) = some ((f.key, f.value), left) ↔
      f.good ∧ left = rest := by
  rw [Reader.readField_key written.1, ← written.2 rest left ends]
  constructor
  · intro read
    obtain ⟨⟨value, left'⟩, found, same⟩ := Option.map_eq_some_iff.mp read
    simp only [Prod.mk.injEq, true_and] at same
    rw [found, same.1, same.2]
  · intro found
    rw [found]
    rfl

/-- A reader finds the values that were meant exactly if each of the fields is good. -/
theorem readFields_write {reader : Reader} (f : Field) (fields : List Field)
    (written : ∀ g ∈ f :: fields, g.Written reader) (fuel : Nat)
    (enough : (f :: fields).length ≤ fuel) :
    reader.readFields fuel (write (f :: fields)) =
        some ((f :: fields).map fun g => (g.key, g.value)) ↔ ∀ g ∈ f :: fields, g.good := by
  obtain ⟨fewer, rfl⟩ : ∃ fewer, fuel = fewer + 1 := ⟨fuel - 1, by simp at enough; omega⟩
  have head := written f List.mem_cons_self
  induction fields generalizing f fewer with
  | nil =>
    have last : ∀ left, reader.readField (f.key ++ '=' :: f.text) =
        some ((f.key, f.value), left) ↔ f.good ∧ left = [] := by
      intro left
      rw [← head.read_iff (Or.inl rfl), List.append_nil]
    constructor
    · intro read g member
      rw [List.mem_singleton.mp member]
      obtain ⟨_, _, ⟨found, _⟩ | ⟨rest, _, further⟩⟩ := Reader.readFields_inv read
      · exact ((last _).mp found).1
      · exact absurd further Reader.readFields_some
    · intro good
      have found := (last []).mpr ⟨good f List.mem_cons_self, rfl⟩
      simp [Reader.readFields, write, found]
  -- the first field ends at the space after it, and the rest is read by induction
  | cons g fields ih =>
    have space : Ends (' ' :: write (g :: fields)) := Or.inr ⟨_, rfl⟩
    have later := fun n (enough : (g :: fields).length ≤ n + 1) =>
      ih g (fun h member => written h (List.mem_cons_of_mem _ member)) n enough
        (written g (by simp))
    constructor
    · intro read
      obtain ⟨n, same, ⟨_, wrong⟩ | ⟨rest, found, further⟩⟩ := Reader.readFields_inv read
      · cases wrong
      · obtain ⟨good, rest_eq⟩ := (head.read_iff space).mp found
        -- a good field is read up to that space, so what is left is the rest as written
        cases rest_eq
        cases n with
        | zero => cases further
        | succ n =>
          have others := (later n (by simp at enough ⊢; omega)).mp further
          intro h member
          rcases List.mem_cons.mp member with rfl | other
          · exact good
          · exact others h other
    · intro good
      have found := (head.read_iff space).mpr ⟨good f List.mem_cons_self, rfl⟩
      cases fewer with
      | zero => simp at enough
      | succ n =>
        have rest := (later n (by simp at enough ⊢; omega)).mpr
          fun h member => good h (List.mem_cons_of_mem _ member)
        rw [write_cons, Reader.readFields, found]
        simp only [if_true, rest, List.map_cons, Option.map_some]

theorem readLine_write {reader : Reader} (f : Field) (fields : List Field)
    (written : ∀ g ∈ f :: fields, g.Written reader) :
    reader.readLine (write (f :: fields)) = some ((f :: fields).map fun g => (g.key, g.value)) ↔
      ∀ g ∈ f :: fields, g.good :=
  readFields_write f fields written _ (length_write _)

end Atmin.Logfmt
