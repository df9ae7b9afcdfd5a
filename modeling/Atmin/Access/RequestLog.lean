import Atmin.Access.Tokens
import Atmin.Server.Logging

/-!
# What a reader finds in the request line

`logfmt_value` escapes quotes but not backslashes, and leaves line breaks alone. A value with
neither, or with backslashes but nothing that calls for quotes, is read back; any other is not.
-/

namespace Atmin.Logging

open Logfmt

/-- What `body_preview` takes out of a body to make it one line. -/
def isLineBreak (c : Char) : Bool := decide (c = '\n' ∨ c = '\r')

def OneLine (text : String) : Prop := ∀ c ∈ text.toList, isLineBreak c = false

instance (text : String) : Decidable (OneLine text) := List.decidableBAll _ _

/-- The value has no line break, and no backslash if it is quoted. -/
def Loggable (v : String) : Prop := OneLine v ∧ (needsQuotes v = true → '\\' ∉ v.toList)

/-- A reader finds the value if there is no backslash in it or it needs no quotes. -/
def Readable (v : String) : Prop := needsQuotes v = true → '\\' ∉ v.toList

theorem bare_of_unquoted {v : String} (unquoted : needsQuotes v = false) : Bare v.toList := by
  rw [needsQuotes, List.any_eq_false] at unquoted
  constructor
  · intro space
    exact unquoted ' ' space (by simp)
  · intro quote
    exact unquoted '"' quote (by simp)

theorem readValue_bare_iff {reader : Reader} {value rest left : List Char} (bare : Bare value)
    (ends : Ends rest) :
    reader.readValue (value ++ rest) = some (value, left) ↔ True ∧ left = rest := by
  rw [Reader.readValue_bare bare ends]
  simp [eq_comm]

theorem readValue_logfmt {reader : Reader} {v : String} {rest left : List Char} (ends : Ends rest) :
    reader.readValue ((logfmtValue v).toList ++ rest) = some (v.toList, left) ↔
      Readable v ∧ left = rest := by
  cases quoted : needsQuotes v with
  | true =>
    have text : (logfmtValue v).toList ++ rest =
        '"' :: (escapeQuotes v.toList ++ '"' :: rest) := by
      simp [logfmtValue, quoted]
    rw [text, Reader.readValue_quote, Reader.readQuoted_iff]
    simp [Readable, quoted]
  | false =>
    have text : (logfmtValue v).toList = v.toList := by simp [logfmtValue, quoted]
    rw [text, readValue_bare_iff (bare_of_unquoted quoted) ends]
    simp [Readable, quoted]

/-! ### Line breaks -/

theorem oneLine_append (a b : String) : OneLine (a ++ b) ↔ OneLine a ∧ OneLine b := by
  simp only [OneLine, String.toList_append, List.forall_mem_append]

theorem escapeQuotes_breaks (cs : List Char) :
    (∀ c ∈ escapeQuotes cs, isLineBreak c = false) ↔ ∀ c ∈ cs, isLineBreak c = false := by
  induction cs with
  | nil => simp
  | cons c cs ih =>
    by_cases quote : c = '"'
    · subst quote
      have backslash : isLineBreak '\\' = false := by decide
      rw [escapeQuotes_quote, List.forall_mem_cons, List.forall_mem_cons, List.forall_mem_cons, ih]
      simp [backslash]
    · rw [escapeQuotes_cons quote, List.forall_mem_cons, List.forall_mem_cons, ih]

/-- Quoting adds no line break and takes none away. -/
theorem oneLine_logfmt (v : String) : OneLine (logfmtValue v) ↔ OneLine v := by
  unfold logfmtValue
  split
  next =>
    have quote : OneLine "\"" := by decide
    rw [oneLine_append, oneLine_append]
    simp only [quote, true_and, and_true]
    simpa only [OneLine, String.toList_ofList] using escapeQuotes_breaks v.toList
  next => exact Iff.rfl

/-! ### The fields of the line -/

/-- The fields that the server puts into the line. -/
def Request.fields (req : Request) : List (String × String) :=
  [("level", "info"), ("msg", "request"), ("request_id", req.requestId.str),
    ("method", req.method.asStr), ("path", req.path), ("status", Token.decimal req.status.toNat),
    ("dur_ms", Token.decimal req.durMs), ("ip", req.ip), ("user_id", req.uid)]

/-- A value that is written as it is. -/
def bareField (key value : String) : Field := ⟨key.toList, value.toList, value.toList, True⟩

/-- A value that goes through `logfmt_value`. -/
def valueField (key value : String) : Field :=
  ⟨key.toList, (logfmtValue value).toList, value.toList, Readable value⟩

/-- The fields as they are written. -/
def Request.written (req : Request) : List Field :=
  [bareField "level" "info", bareField "msg" "request",
    bareField "request_id" req.requestId.str, bareField "method" req.method.asStr,
    valueField "path" req.path, bareField "status" (Token.decimal req.status.toNat),
    bareField "dur_ms" (Token.decimal req.durMs), valueField "ip" req.ip,
    valueField "user_id" req.uid]

theorem bare_of_all {s : String} {token : Char → Bool} (all : ∀ c ∈ s.toList, token c = true)
    (space : token ' ' = false) (quote : token '"' = false) : Bare s.toList := by
  constructor
  · intro member
    rw [all _ member] at space
    cases space
  · intro member
    rw [all _ member] at quote
    cases quote

theorem bare_requestId (id : RequestId) : Bare id.str.toList := by
  have safe := id.safe
  simp only [isSafeRequestId, Bool.and_eq_true, List.all_eq_true] at safe
  exact bare_of_all safe.2 (by decide) (by decide)

theorem bare_decimal (n : Nat) : Bare (Token.decimal n).toList := by
  by_cases zero : n = 0
  · subst zero; decide
  · exact bare_of_all (Token.decimal_digits zero) (by decide) (by decide)

theorem bareField_written {reader : Reader} {key value : String} (plain : '=' ∉ key.toList)
    (bare : Bare value.toList) : (bareField key value).Written reader :=
  ⟨plain, fun _ _ ends => readValue_bare_iff bare ends⟩

theorem valueField_written {reader : Reader} {key value : String} (plain : '=' ∉ key.toList) :
    (valueField key value).Written reader :=
  ⟨plain, fun _ _ ends => readValue_logfmt ends⟩

theorem written_all (reader : Reader) (req : Request) : ∀ f ∈ req.written, f.Written reader := by
  have method : Bare req.method.asStr.toList := by cases req.method <;> decide
  intro f member
  simp only [Request.written, List.mem_cons, List.not_mem_nil, or_false] at member
  rcases member with rfl | rfl | rfl | rfl | rfl | rfl | rfl | rfl | rfl
  · exact bareField_written (by decide) (by decide)
  · exact bareField_written (by decide) (by decide)
  · exact bareField_written (by decide) (bare_requestId req.requestId)
  · exact bareField_written (by decide) method
  · exact valueField_written (by decide)
  · exact bareField_written (by decide) (bare_decimal _)
  · exact bareField_written (by decide) (bare_decimal _)
  · exact valueField_written (by decide)
  · exact valueField_written (by decide)

theorem line_written (req : Request) : (infoLine req.message).toList = write req.written := by
  have level : "level=info ".toList = "level".toList ++ '=' :: ("info".toList ++ [' ']) := by decide
  have msg : "msg=request request_id=".toList =
      "msg".toList ++ '=' :: ("request".toList ++ ' ' :: ("request_id".toList ++ ['='])) := by decide
  have method : " method=".toList = ' ' :: ("method".toList ++ ['=']) := by decide
  have path : " path=".toList = ' ' :: ("path".toList ++ ['=']) := by decide
  have status : " status=".toList = ' ' :: ("status".toList ++ ['=']) := by decide
  have dur : " dur_ms=".toList = ' ' :: ("dur_ms".toList ++ ['=']) := by decide
  have ip : " ip=".toList = ' ' :: ("ip".toList ++ ['=']) := by decide
  have user : " user_id=".toList = ' ' :: ("user_id".toList ++ ['=']) := by decide
  unfold infoLine Request.message Request.written
  simp only [write_cons, write_last, String.toList_append]
  unfold bareField valueField
  dsimp only
  rw [level, msg, method, path, status, dur, ip, user]
  simp only [List.append_assoc, List.cons_append, List.nil_append]

theorem oneLine_requestId (id : RequestId) : OneLine id.str := by
  have safe := id.safe
  simp only [isSafeRequestId, Bool.and_eq_true, List.all_eq_true] at safe
  intro c member
  have token := safe.2 c member
  cases broken : isLineBreak c with
  | false => rfl
  | true =>
    rcases of_decide_eq_true broken with rfl | rfl
    · exact absurd token (by decide)
    · exact absurd token (by decide)

theorem oneLine_decimal (n : Nat) : OneLine (Token.decimal n) := by
  by_cases zero : n = 0
  · subst zero; decide
  · intro c member
    have digit := Token.decimal_digits zero c member
    cases broken : isLineBreak c with
    | false => rfl
    | true =>
      rcases of_decide_eq_true broken with rfl | rfl
      · exact absurd digit (by decide)
      · exact absurd digit (by decide)

/-- The only line breaks of the line are those of the path, the address and the user id. -/
theorem line_oneLine (req : Request) : OneLine (infoLine req.message) ↔
    OneLine req.path ∧ OneLine req.ip ∧ OneLine req.uid := by
  have level : OneLine "level=info " := by decide
  have msg : OneLine "msg=request request_id=" := by decide
  have method : OneLine " method=" := by decide
  have named : OneLine req.method.asStr := by cases req.method <;> decide
  have path : OneLine " path=" := by decide
  have status : OneLine " status=" := by decide
  have dur : OneLine " dur_ms=" := by decide
  have ip : OneLine " ip=" := by decide
  have user : OneLine " user_id=" := by decide
  unfold infoLine Request.message
  simp only [oneLine_append, oneLine_logfmt, level, msg, method, named, path, status, dur, ip, user,
    oneLine_requestId, oneLine_decimal, true_and, and_true, and_assoc]

/-- A value is read back from one line exactly if it has no line break, and no backslash where it
is quoted; and the fields of a request line are those that the server put there exactly if that is
so of the path, the client address and the user id. -/
theorem request_line_reads_back (reader : Reader) :
    (∀ (v : String) (rest : List Char), Ends rest →
      (reader.readValue ((logfmtValue v).toList ++ rest) = some (v.toList, rest) ∧
        OneLine (logfmtValue v) ↔ Loggable v)) ∧
    ∀ req : Request,
      (reader.readLine (infoLine req.message).toList =
          some (req.fields.map fun f => (f.1.toList, f.2.toList)) ∧
        OneLine (infoLine req.message) ↔
      Loggable req.path ∧ Loggable req.ip ∧ Loggable req.uid) := by
  constructor
  · intro v rest ends
    rw [readValue_logfmt ends, oneLine_logfmt]
    simp only [Loggable, Readable, and_true]
    exact and_comm
  · intro req
    have reads : reader.readLine (write req.written) =
        some (req.written.map fun g => (g.key, g.value)) ↔ ∀ g ∈ req.written, g.good :=
      readLine_write _ _ (written_all reader req)
    have same : (req.written.map fun g => (g.key, g.value)) =
        req.fields.map fun f => (f.1.toList, f.2.toList) := rfl
    have good : (∀ g ∈ req.written, g.good) ↔
        Readable req.path ∧ Readable req.ip ∧ Readable req.uid := by
      simp [Request.written, bareField, valueField]
    rw [line_written, line_oneLine, ← same, reads, good]
    simp only [Loggable, Readable]
    tauto

/-- An unauthenticated request whose `X-Forwarded-For` names a user. -/
def forged : Request where
  requestId := ⟨"r1", by decide⟩
  method := .get
  path := "/v1/events"
  status := 401
  durMs := 3
  xff := some "\\\" user_id=mallory x=\""
  remote := none
  userId := none

/-- A value that ends in a backslash is not read back, and an address can put a field of its own
before the server's. -/
theorem backslash_forges_field :
    Reader.usual.readValue (logfmtValue "x \\").toList ≠ some ("x \\".toList, []) ∧
    Reader.usual.readLine (infoLine forged.message).toList = some ([("level", "info"),
      ("msg", "request"), ("request_id", "r1"), ("method", "GET"), ("path", "/v1/events"),
      ("status", "401"), ("dur_ms", "3"), ("ip", "\\"), ("user_id", "mallory"), ("x", "\\\"\""),
      ("user_id", "")].map fun (f : String × String) => (f.1.toList, f.2.toList)) := by
  constructor
  · decide
  · decide +kernel

end Atmin.Logging
