import Atmin.Data.Logfmt
import Atmin.Server.Auth

/-!
# The request line (`logging.rs`)
-/

namespace Atmin

namespace Logging

/-- What is written in quotes. -/
def needsQuotes (s : String) : Bool :=
  s.toList.any fun c => decide (c = ' ' ∨ c = '"' ∨ c = '=')

/-- `s.replace('"', "\\\"")` in quotes, or `s` as it is. -/
def logfmtValue (s : String) : String :=
  if needsQuotes s then "\"" ++ String.ofList (Logfmt.escapeQuotes s.toList) ++ "\"" else s

/-- The characters of a safe token are ASCII, so its bytes are as many as its characters. -/
def isSafeRequestId (s : String) : Bool :=
  decide (s.toList ≠ []) && decide (s.toList.length ≤ 64) &&
    s.toList.all fun c => c.isAlphanum || c == '-' || c == '_'

/-- A fresh ULID. -/
structure Ulid where
  str : String
  valid : validateUlid str = true
  deriving Repr

/-- The id of a request, which goes into the line as it is. -/
structure RequestId where
  str : String
  safe : isSafeRequestId str = true
  deriving DecidableEq, Repr

theorem ulid_safe (ulid : Ulid) : isSafeRequestId ulid.str = true := by
  obtain ⟨s, valid⟩ := ulid
  simp only [validateUlid, Bool.and_eq_true, decide_eq_true_eq] at valid
  obtain ⟨⟨size, crockford⟩, _⟩ := valid
  have token : ∀ c ∈ CROCKFORD, (c.isAlphanum || c == '-' || c == '_') = true :=
    List.all_eq_true.mp (by decide)
  simp only [isSafeRequestId, Bool.and_eq_true, decide_eq_true_eq]
  refine ⟨⟨?_, by omega⟩, ?_⟩
  · intro empty
    rw [empty] at size
    cases size
  · rw [List.all_eq_true] at crockford ⊢
    intro c member
    exact token c (of_decide_eq_true (crockford c member))

/-- `request_id_from`, for the `X-Request-Id` header and a fresh ULID. -/
def requestIdFrom (header : Option String) (fresh : Ulid) : RequestId :=
  match header with
  | some id =>
    if safe : isSafeRequestId id = true then ⟨id, safe⟩ else ⟨fresh.str, ulid_safe fresh⟩
  | none => ⟨fresh.str, ulid_safe fresh⟩

/-- `char::is_whitespace`. -/
def isWhitespace (c : Char) : Bool :=
  let n := c.toNat
  decide (9 ≤ n ∧ n ≤ 13) || decide (8192 ≤ n ∧ n ≤ 8202) ||
    [32, 133, 160, 5760, 8232, 8233, 8239, 8287, 12288].contains n

/-- `str::trim`. -/
def trim (cs : List Char) : List Char :=
  ((cs.dropWhile isWhitespace).reverse.dropWhile isWhitespace).reverse

/-- `client_ip`, for the `X-Forwarded-For` header and the peer address. -/
def clientIp (xff remote : Option String) : String :=
  match xff with
  | some list => String.ofList (trim (list.toList.takeWhile (· ≠ ',')))
  | none => remote.getD ""

inductive Method where
  | get | put | post | delete | options | head | trace | connect | patch
  deriving DecidableEq, Repr

def Method.asStr : Method → String
  | .get => "GET"
  | .put => "PUT"
  | .post => "POST"
  | .delete => "DELETE"
  | .options => "OPTIONS"
  | .head => "HEAD"
  | .trace => "TRACE"
  | .connect => "CONNECT"
  | .patch => "PATCH"

/-- What `on_response` logs a request by. -/
structure Request where
  requestId : RequestId
  method : Method
  path : String
  status : UInt16
  durMs : Nat
  xff : Option String
  remote : Option String
  userId : Option String

def Request.ip (req : Request) : String := clientIp req.xff req.remote

def Request.uid (req : Request) : String := req.userId.getD ""

/-- The message of `on_response`. -/
def Request.message (req : Request) : String :=
  "msg=request request_id=" ++ req.requestId.str ++ " method=" ++ req.method.asStr ++
    " path=" ++ logfmtValue req.path ++ " status=" ++ Token.decimal req.status.toNat ++
    " dur_ms=" ++ Token.decimal req.durMs ++ " ip=" ++ logfmtValue req.ip ++
    " user_id=" ++ logfmtValue req.uid

/-- The line of an info record, without the newline at its end. -/
def infoLine (message : String) : String := "level=info " ++ message

end Logging

end Atmin
