import Mathlib.Data.List.DropRight
import Atmin.Inbox.Mailbox
import Atmin.Server.Sample
import Atmin.Web.Atob
import Atmin.Web.MarkerBlob

/-!
# Backups of session keys (`key-backup-envelope.ts`, `paths.ts`)

The envelope a client writes, the archive entry that the server makes of it, and what a client
reads back. The name of the object is the session id in another alphabet.
-/

namespace Atmin.Web

/-! ### The envelope -/

/-- The bytes are spread into the arguments of one call, which takes so many at most: a throw is none. -/
def bytesToB64 (maxArguments : Nat) (b : List UInt8) : Option String :=
  if b.length ≤ maxArguments then some (btoa b) else none

structure KeyBackupEnvelopeV2 where
  v : Nat
  iv : String
  ciphertext : String
  sessionId : Option String
  msgId : Option String
  deriving Repr

/-- `JSON.stringify`; a member that is undefined is left out. -/
def KeyBackupEnvelopeV2.toJson (env : KeyBackupEnvelopeV2) : Json :=
  .obj ([("v", .num (.int env.v)), ("iv", .str env.iv), ("ciphertext", .str env.ciphertext)] ++
    (env.sessionId.map fun id => ("session_id", .str id)).toList ++
    (env.msgId.map fun id => ("msg_id", .str id)).toList)

namespace KeyBackup

structure ParsedEnvelope where
  v : Number
  iv : List UInt8
  ciphertext : List UInt8
  sessionId : Option Js
  deriving Repr

/-- An empty session id counts as none. -/
def envelope (v : Nat) (iv ciphertext : String) (sessionId : Option String) : KeyBackupEnvelopeV2 :=
  let sessionId := sessionId.filter fun id => decide (id ≠ "")
  { v, iv, ciphertext, sessionId, msgId := sessionId }

def wrapKeyBackupEnvelope (maxArguments v : Nat) (iv ciphertext : List UInt8)
    (sessionId : Option String) :
    Option KeyBackupEnvelopeV2 := do
  let iv ← bytesToB64 maxArguments iv
  let ciphertext ← bytesToB64 maxArguments ciphertext
  pure (envelope v iv ciphertext sessionId)

/-- A text that `atob` takes; one with a lone surrogate it does not. -/
def b64ToBytes : Js → Option (List UInt8)
  | .str s => atob s
  | _ => none

/-- A missing or non-positive version counts as 1. A throw is none. -/
def parseKeyBackupEnvelope (raw : Js) : Option ParsedEnvelope := do
  let obj ← raw.asObject
  if !(obj "iv").isString || !(obj "ciphertext").isString then none
  else
    let v := match obj "v" with
      | .num n => if n.positive then n else .int 1
      | _ => .int 1
    let iv ← b64ToBytes (obj "iv")
    let ciphertext ← b64ToBytes (obj "ciphertext")
    pure { v, iv, ciphertext, sessionId := (obj "session_id").ifTyped Js.isString }

/-- The markers are read in the same way, without a session id. -/
theorem parse_markers (raw : Js) : Web.parseKeyBackupEnvelope atob raw =
    (parseKeyBackupEnvelope raw).map fun p => ⟨p.v, p.iv, p.ciphertext⟩ := by
  cases raw with
  | obj fields =>
    simp only [Web.parseKeyBackupEnvelope, parseKeyBackupEnvelope, Js.asObject, Option.bind_eq_bind,
      Option.bind_some]
    generalize Js.lastOf fields "iv" = nonce, Js.lastOf fields "ciphertext" = text
    cases nonce <;> cases text <;> try rfl
    -- Both are strings; a text with a lone surrogate is decoded by neither.
    next nonce text =>
      simp only [Js.isString, b64ToBytes]
      cases atob nonce <;> cases atob text <;> rfl
    next nonce _ =>
      simp only [Js.isString, b64ToBytes]
      cases atob nonce <;> rfl
  | _ => rfl

/-- What is read back of an envelope. -/
def parsed (v : KeyVersion) (iv ciphertext : List UInt8) (sessionId : String) : ParsedEnvelope :=
  ⟨.int v.get.toNat, iv, ciphertext, some (.str sessionId)⟩

theorem positive_version (v : KeyVersion) : (Number.int v.get.toNat).positive = true := by
  have some_ : v.get.toNat ≠ 0 := fun zero => v.nonzero (UInt32.toNat_inj.mp zero)
  simp only [Number.positive, decide_eq_true_eq]
  omega

/-- Any object with the members of an envelope is read as that envelope. -/
theorem parse_members (v : KeyVersion) (iv ciphertext : List UInt8) (sessionId : String)
    {fields : List (String × Js)} (version : Js.lastOf fields "v" = .num (.int v.get.toNat))
    (nonce : Js.lastOf fields "iv" = .str (btoa iv))
    (text : Js.lastOf fields "ciphertext" = .str (btoa ciphertext))
    (id : Js.lastOf fields "session_id" = .str sessionId) :
    parseKeyBackupEnvelope (.obj fields) = some (parsed v iv ciphertext sessionId) := by
  simp only [parseKeyBackupEnvelope, Js.asObject, Option.bind_eq_bind, Option.bind_some, version, nonce,
    text, id, Js.isString, b64ToBytes, atob_btoa, Js.ifTyped, parsed, positive_version]
  rfl

/-- Only what is too long for one call is not wrapped. -/
theorem wrap_iff {maxArguments v : Nat} {iv ciphertext : List UInt8} {sessionId : Option String}
    {env : KeyBackupEnvelopeV2} : wrapKeyBackupEnvelope maxArguments v iv ciphertext sessionId = some env ↔
      (iv.length ≤ maxArguments ∧ ciphertext.length ≤ maxArguments) ∧
        envelope v (btoa iv) (btoa ciphertext) sessionId = env := by
  unfold wrapKeyBackupEnvelope bytesToB64
  by_cases nonce : iv.length ≤ maxArguments
  · by_cases text : ciphertext.length ≤ maxArguments <;> simp [nonce, text]
  · simp [nonce]

/-- `JSON.parse` of the stored envelope. -/
theorem parse_envelope (v : KeyVersion) (iv ciphertext : List UInt8) {sessionId : String}
    (some_ : sessionId ≠ "") :
    parseKeyBackupEnvelope (Js.ofJson (envelope v.get.toNat (btoa iv) (btoa ciphertext)
      (some sessionId)).toJson) = some (parsed v iv ciphertext sessionId) := by
  have kept : (some sessionId).filter (fun id => decide (id ≠ "")) = some sessionId := by
    simp [some_]
  simp only [envelope, kept, KeyBackupEnvelopeV2.toJson, Option.map_some,
    Option.toList_some, Js.ofJson]
  exact parse_members v iv ciphertext sessionId rfl rfl rfl rfl

/-! ### The archive -/

/-- The entry that compaction makes of an envelope. -/
def entry (v : KeyVersion) (iv ciphertext : List UInt8) (sessionId : String) : Value :=
  .map [(.text "v", .integer v.get.toNat), (.text "iv", .text (btoa iv)),
    (.text "ciphertext", .text (btoa ciphertext)), (.text "session_id", .text sessionId),
    (.text "msg_id", .text sessionId)]

theorem version_small (v : KeyVersion) : v.get.toNat < 2 ^ 32 := v.get.toNat_lt

theorem ofFields_cons {depth : Nat} {name : String} {x : Json} {value : Value}
    {rest : List (String × Json)} {values : List (Value × Value)}
    (here : Value.ofJson depth x = some value) (later : Value.ofFields depth rest = some values) :
    Value.ofFields depth ((name, x) :: rest) = some ((.text name, value) :: values) := by
  rw [Value.ofFields, here, later]

theorem ofFields_str {depth : Nat} {name text : String} {rest : List (String × Json)}
    {values : List (Value × Value)} (later : Value.ofFields depth rest = some values) :
    Value.ofFields depth ((name, .str text) :: rest) = some ((.text name, .text text) :: values) :=
  ofFields_cons (by rw [Value.ofJson]) later

/-- The version stays an integer. -/
theorem asValue_envelope (v : KeyVersion) (iv ciphertext : List UInt8) {sessionId : String}
    (some_ : sessionId ≠ "") :
    (Data.json (envelope v.get.toNat (btoa iv) (btoa ciphertext) (some sessionId)).toJson).asValue =
      some (entry v iv ciphertext sessionId) := by
  have kept : (some sessionId).filter (fun id => decide (id ≠ "")) = some sessionId := by
    simp [some_]
  have small := version_small v
  have version : Value.ofJson (jsonDepth - 1) (.num (.int v.get.toNat)) =
      some (.integer v.get.toNat) := by
    rw [Value.ofJson, Value.ofNumber, if_pos]
    constructor <;> omega
  simp only [Data.asValue, envelope, kept, KeyBackupEnvelopeV2.toJson, Option.map_some,
    Option.toList_some, List.cons_append, List.nil_append]
  rw [Value.ofJson, if_neg (by decide), ofFields_cons version (ofFields_str (ofFields_str
    (ofFields_str (ofFields_str (by rw [Value.ofFields]))))), Option.map_some, entry]

theorem entry_msgId (v : KeyVersion) (iv ciphertext : List UInt8) (sessionId : String) :
    Cbor.getText (entry v iv ciphertext sessionId) "msg_id" = some sessionId := rfl

/-- The CBOR decoder gives the version as a number again. -/
theorem parse_entry [CborDecoder] (v : KeyVersion) (iv ciphertext : List UInt8) (sessionId : String) :
    parseKeyBackupEnvelope (Js.ofValue (entry v iv ciphertext sessionId)) =
      some (parsed v iv ciphertext sessionId) := by
  obtain ⟨members, object, last⟩ := CborDecoder.map [("v", .integer v.get.toNat), ("iv", .text (btoa iv)),
    ("ciphertext", .text (btoa ciphertext)), ("session_id", .text sessionId), ("msg_id", .text sessionId)]
  have version : Js.lastOf members "v" = .num (.int v.get.toNat) := by
    rw [last "v" (by decide) (by decide)]
    exact CborDecoder.integer _ (version_small v)
  have nonce : Js.lastOf members "iv" = .str (btoa iv) := by
    rw [last "iv" (by decide) (by decide)]
    exact CborDecoder.text _
  have text : Js.lastOf members "ciphertext" = .str (btoa ciphertext) := by
    rw [last "ciphertext" (by decide) (by decide)]
    exact CborDecoder.text _
  have id : Js.lastOf members "session_id" = .str sessionId := by
    rw [last "session_id" (by decide) (by decide)]
    exact CborDecoder.text _
  rw [Js.ofValue, entry]
  exact object ▸ parse_members v iv ciphertext sessionId version nonce text id

/-- What comes back from the archive under the session id, among entries of other ids. -/
theorem parse_archived [CborDecoder] (v : KeyVersion) (iv ciphertext : List UInt8) {sessionId : String}
    {before after : List Value}
    (others : ∀ e ∈ before ++ after, Cbor.getText e "msg_id" ≠ some sessionId) :
    entry v iv ciphertext sessionId ∈
        Cbor.deduplicateByMsgId (before ++ entry v iv ciphertext sessionId :: after) ∧
      ∀ e ∈ Cbor.deduplicateByMsgId (before ++ entry v iv ciphertext sessionId :: after),
        Cbor.getText e "msg_id" = some sessionId →
          parseKeyBackupEnvelope (Js.ofValue e) = some (parsed v iv ciphertext sessionId) := by
  have only (e : Value) (member : e ∈ before ++ entry v iv ciphertext sessionId :: after)
      (named : Cbor.getText e "msg_id" = some sessionId) : e = entry v iv ciphertext sessionId := by
    rcases List.mem_append.mp member with first | last
    · exact absurd named (others e (List.mem_append_left _ first))
    rcases List.mem_cons.mp last with rfl | last
    · rfl
    · exact absurd named (others e (List.mem_append_right _ last))
  constructor
  · refine Cbor.mem_deduplicateFrom (by simp) (fun e member id own named => ?_) nofun
    rw [entry_msgId] at own
    exact only e member (named.trans own.symm)
  · intro e member named
    rw [only e (Cbor.deduplicate_subset member) named]
    exact parse_entry v iv ciphertext sessionId

end KeyBackup

/-! ### The key (`paths.ts`) -/

namespace Paths

def nameSymbol (c : Char) : Char := if c = '+' then '-' else if c = '/' then '_' else c

/-- `+` and `/` are replaced, and the padding is cut off. -/
def objectNameSafe (sid : String) : String :=
  String.ofList ((sid.toList.map nameSymbol).rdropWhile fun c => decide (c = '='))

def keysLive (uid : String) : String := "keys/" ++ uid ++ "/live/"

def keyBackup (uid sid : String) : String := "keys/" ++ uid ++ "/live/" ++ objectNameSafe sid

end Paths

/-- Base64 of at least one symbol, with or without padding. -/
def IsBase64 (s : String) : Prop :=
  ∃ symbols pad, s.toList = symbols ++ List.replicate pad '=' ∧ symbols ≠ [] ∧
    ∀ c ∈ symbols, (Atob.digit c).isSome = true

/-- What `btoa` writes of any bytes is such a text. -/
theorem isBase64_btoa {bytes : List UInt8} (some_ : bytes ≠ []) : IsBase64 (btoa bytes) := by
  refine ⟨(Base64.encodeDigits (bytes.map UInt8.toNat)).map Atob.symbol, _, String.toList_ofList,
    ?_, ?_⟩
  · cases bytes with
    | nil => exact absurd rfl some_
    | cons a rest =>
      cases rest with
      | nil => simp [Base64.encodeDigits]
      | cons b rest => cases rest <;> simp [Base64.encodeDigits]
  · intro c member
    obtain ⟨d, small, rfl⟩ := List.mem_map.mp member
    rw [(Atob.symbol_spec (Base64.encodeDigits_small bytes d small)).1]
    rfl

section Names

open Paths

variable {c : Char} {sid sid' : String}

theorem digit_other (digit : (Atob.digit c).isSome = true) :
    c ≠ '=' ∧ c ≠ '-' ∧ c ≠ '_' := by
  refine ⟨?_, ?_, ?_⟩ <;> rintro rfl <;> exact absurd digit (by decide)

/-- A symbol of a name is neither padding nor a slash. -/
theorem nameSymbol_plain (digit : (Atob.digit c).isSome = true) :
    nameSymbol c ≠ '=' ∧ nameSymbol c ≠ '/' := by
  unfold nameSymbol
  split
  next => decide
  next =>
    split
    next => decide
    next slash => exact ⟨(digit_other digit).1, slash⟩

/-- The symbol that is read off a name. -/
def symbolNamed (c : Char) : Char := if c = '-' then '+' else if c = '_' then '/' else c

theorem symbolNamed_nameSymbol (digit : (Atob.digit c).isSome = true) :
    symbolNamed (nameSymbol c) = c := by
  obtain ⟨_, hyphen, low⟩ := digit_other digit
  unfold nameSymbol
  split
  next plus => rw [plus]; rfl
  next =>
    split
    next slash => rw [slash]; rfl
    next => rw [symbolNamed, if_neg hyphen, if_neg low]

theorem map_symbolNamed {symbols : List Char} (digits : ∀ c ∈ symbols, (Atob.digit c).isSome = true) :
    (symbols.map nameSymbol).map symbolNamed = symbols := by
  rw [List.map_map]
  calc symbols.map (symbolNamed ∘ nameSymbol) = symbols.map id :=
        List.map_congr_left fun c member => symbolNamed_nameSymbol (digits c member)
    _ = symbols := List.map_id symbols

/-- The name has the symbols of the id, and nothing of the padding. -/
theorem objectNameSafe_symbols {symbols : List Char} {pad : Nat}
    (shape : sid.toList = symbols ++ List.replicate pad '=')
    (digits : ∀ c ∈ symbols, (Atob.digit c).isSome = true) :
    (objectNameSafe sid).toList = symbols.map nameSymbol := by
  rw [objectNameSafe, String.toList_ofList, shape, List.map_append, List.map_replicate]
  clear shape
  induction pad with
  | zero =>
    rw [List.replicate_zero, List.append_nil, List.rdropWhile_eq_self_iff]
    intro some_
    obtain ⟨c, member, same⟩ := List.mem_map.mp (List.getLast_mem some_)
    rw [← same]
    simpa using (nameSymbol_plain (digits c member)).1
  | succ pad ih =>
    have padding : (fun c => decide (c = '=')) (nameSymbol '=') = true := rfl
    rw [List.replicate_succ', ← List.append_assoc, List.rdropWhile_concat, if_pos padding]
    exact ih

/-! The segments of a key. -/

theorem noDoubleSlash_append {segment : List Char} (plain : '/' ∉ segment) (rest : List Char) :
    hasDoubleSlash (segment ++ rest) = hasDoubleSlash rest := by
  induction segment with
  | nil => rfl
  | cons a segment ih =>
    simp only [List.mem_cons, not_or] at plain
    rw [← ih plain.2, List.cons_append]
    cases segment ++ rest with
    | nil => rfl
    | cons b tail => simp [hasDoubleSlash, Ne.symm plain.1]

theorem noDoubleSlash_segment {segment : List Char} (some_ : segment ≠ []) (plain : '/' ∉ segment)
    (rest : List Char) : hasDoubleSlash ('/' :: (segment ++ rest)) = hasDoubleSlash rest := by
  rw [← noDoubleSlash_append plain rest]
  cases segment with
  | nil => exact absurd rfl some_
  | cons a segment =>
    simp only [List.mem_cons, not_or] at plain
    simp [hasDoubleSlash, Ne.symm plain.1]

theorem keyBackup_eq (uid sid : String) :
    keyBackup uid sid = prefixKeysLive uid ++ objectNameSafe sid := rfl

theorem keyBackup_toList (uid sid : String) : (keyBackup uid sid).toList = "keys".toList ++
    '/' :: (uid.toList ++ '/' :: ("live".toList ++ '/' :: (objectNameSafe sid).toList)) := by
  simp [keyBackup]

/-- A key with no empty segment. -/
theorem keyBackup_safe (uid : UserId) (base64 : IsBase64 sid) :
    isObjectNameSafe (keyBackup uid.str sid) = true := by
  obtain ⟨symbols, pad, shape, some_, digits⟩ := base64
  have name := objectNameSafe_symbols shape digits
  have named : (objectNameSafe sid).toList ≠ [] := by
    rw [name]
    simpa using some_
  -- the name has no slash in it, and the user id has none
  have plain : '/' ∉ (objectNameSafe sid).toList := by
    rw [name, List.mem_map]
    rintro ⟨c, member, same⟩
    exact (nameSymbol_plain (digits c member)).2 same
  have user : uid.str.toList ≠ [] := by
    rw [← List.length_pos_iff, validateUlid_length uid.ulid]
    decide
  have shape := keyBackup_toList uid.str sid
  -- so the key does not end in one
  have last : endsWith (keyBackup uid.str sid) "/" = false := by
    refine Bool.eq_false_iff.mpr fun ends => ?_
    simp only [endsWith, List.isSuffixOf_iff_suffix] at ends
    obtain ⟨front, same⟩ := ends
    have slash := congrArg List.getLast? same
    rw [keyBackup_eq, String.toList_append, List.getLast?_append_of_ne_nil _ named] at slash
    refine plain (List.mem_of_getLast? (slash.symm.trans ?_))
    simp
  -- nor has it an empty segment
  have segments : hasDoubleSlash (keyBackup uid.str sid).toList = false := by
    rw [shape, noDoubleSlash_append (by decide),
      noDoubleSlash_segment user (validateUlid_no_slash uid.ulid),
      noDoubleSlash_segment (by decide) (by decide)]
    have ended := noDoubleSlash_segment named plain []
    rw [List.append_nil] at ended
    exact ended
  have first : startsWith (keyBackup uid.str sid) "/" = false := by
    rw [startsWith, shape]
    rfl
  have nonempty : keyBackup uid.str sid ≠ "" := by
    intro empty
    rw [empty] at shape
    cases shape
  rw [isObjectNameSafe, decide_eq_true nonempty, first, last, segments]
  rfl

/-- Two unpadded ids have two keys. -/
theorem keyBackup_inj (uid : String) (base64 : IsBase64 sid) (base64' : IsBase64 sid')
    (unpadded : '=' ∉ sid.toList) (unpadded' : '=' ∉ sid'.toList)
    (same : keyBackup uid sid = keyBackup uid sid') : sid = sid' := by
  have whole {sid : String} (base64 : IsBase64 sid) (unpadded : '=' ∉ sid.toList) :
      (∀ c ∈ sid.toList, (Atob.digit c).isSome = true) ∧
        (objectNameSafe sid).toList = sid.toList.map nameSymbol := by
    obtain ⟨symbols, pad, shape, _, digits⟩ := base64
    cases pad with
    | zero =>
      rw [List.replicate_zero, List.append_nil] at shape
      rw [shape]
      exact ⟨digits, @objectNameSafe_symbols sid symbols 0 (by simp [shape]) digits⟩
    | succ pad =>
      rw [shape] at unpadded
      exact absurd (by simp) unpadded
  obtain ⟨digits, name⟩ := whole base64 unpadded
  obtain ⟨digits', name'⟩ := whole base64' unpadded'
  rw [keyBackup_eq, keyBackup_eq] at same
  have names := congrArg String.toList (append_left_inj same)
  rw [name, name'] at names
  apply String.toList_inj.mp
  rw [← map_symbolNamed digits, names, map_symbolNamed digits']

end Names

/-! ### The round trip -/

/-- A backup is wrapped and read back as it was written, from its live object and from an archive
with any entries of other sessions. Its key is safe, its owner may write it, and it is under the
prefix that the owner compacts. -/
structure BacksUp [CborDecoder] (maxArguments : Nat) (uid : UserId) (v : KeyVersion)
    (iv ciphertext : List UInt8) (sid : String) : Prop where
  wrapped : ∃ env, KeyBackup.wrapKeyBackupEnvelope maxArguments v.get.toNat iv ciphertext (some sid) =
    some env ∧
    KeyBackup.parseKeyBackupEnvelope (Js.ofJson env.toJson) = some (KeyBackup.parsed v iv ciphertext sid) ∧
    ∃ x, (Data.json env.toJson).asValue = some x ∧
      ∀ before after, (∀ e ∈ before ++ after, Cbor.getText e "msg_id" ≠ some sid) →
        ∃ entries, Cbor.decodeArchive (Cbor.encodeArchive
            (Cbor.deduplicateByMsgId (before ++ x :: after))) = some entries ∧
          x ∈ entries ∧ ∀ e ∈ entries, Cbor.getText e "msg_id" = some sid →
            KeyBackup.parseKeyBackupEnvelope (Js.ofValue e) = some (KeyBackup.parsed v iv ciphertext sid)
  safe : isObjectNameSafe (Paths.keyBackup uid.str sid) = true
  writable : authorizeKeyWrite uid.str (Paths.keyBackup uid.str sid) = true
  live_prefix : startsWith (Paths.keyBackup uid.str sid) (Paths.keysLive uid.str) = true ∧
    authorizeCompactPrefix uid.str (Paths.keysLive uid.str) = true
  injective : '=' ∉ sid.toList → ∀ sid', IsBase64 sid' → '=' ∉ sid'.toList →
    Paths.keyBackup uid.str sid = Paths.keyBackup uid.str sid' → sid = sid'

theorem keyBackup_writable (uid : UserId) (sid : String) :
    startsWith (Paths.keyBackup uid.str sid) (prefixKeysLive uid.str) = true ∧
      authorizeKeyWrite uid.str (Paths.keyBackup uid.str sid) = true := by
  have within : startsWith (Paths.keyBackup uid.str sid) (prefixKeysLive uid.str) = true := by
    rw [keyBackup_eq]
    exact startsWith_append _ _
  have own : startsWith (prefixKeysLive uid.str) ("keys/" ++ uid.str ++ "/") = true := by
    have here := startsWith_append ("keys/" ++ (uid.str ++ "/")) "live/"
    rw [← prefixKeysLive_eq, ← String.append_assoc] at here
    exact here
  refine ⟨within, ?_⟩
  rw [authorizeKeyWrite, Bool.or_eq_true]
  exact .inl (List.any_eq_true.mpr ⟨"keys/", by decide, startsWith_trans within own⟩)

/-- It is, exactly if neither part is too long to be spread into one call. -/
theorem key_backup_round_trip_iff [CborDecoder] {sid : String} (base64 : IsBase64 sid)
    (maxArguments : Nat)
    (uid : UserId) (v : KeyVersion) (iv ciphertext : List UInt8) :
    BacksUp maxArguments uid v iv ciphertext sid ↔
      iv.length ≤ maxArguments ∧ ciphertext.length ≤ maxArguments := by
  constructor
  · intro backsUp
    obtain ⟨env, wrapped, _⟩ := backsUp.wrapped
    exact (KeyBackup.wrap_iff.mp wrapped).1
  · intro short
    have nonempty : sid ≠ "" := by
      rintro rfl
      obtain ⟨symbols, pad, shape, some_, _⟩ := base64
      rw [String.toList_empty, eq_comm, List.append_eq_nil_iff] at shape
      exact some_ shape.1
    obtain ⟨within, writable⟩ := keyBackup_writable uid sid
    refine ⟨⟨_, KeyBackup.wrap_iff.mpr ⟨short, rfl⟩, KeyBackup.parse_envelope v iv ciphertext nonempty,
      _, KeyBackup.asValue_envelope v iv ciphertext nonempty, fun before after others => ?_⟩,
      keyBackup_safe uid base64, writable, ⟨within, ?_⟩, fun unpadded sid' base64' unpadded' same => ?_⟩
    · exact ⟨_, rfl, KeyBackup.parse_archived v iv ciphertext others⟩
    · exact Bool.or_eq_true_iff.mpr (.inr (decide_eq_true rfl))
    · exact keyBackup_inj uid.str base64 base64' unpadded unpadded' same

section Samples

attribute [local instance] Demo.cbor

/-- The backup of the session with the id `aGk=`, in an engine that takes 65535 arguments. -/
theorem padded_session_backs_up :
    BacksUp 65535 Sample.user .ONE [1, 2] [3] (btoa [104, 105]) ∧ btoa [104, 105] = "aGk=" :=
  ⟨(key_backup_round_trip_iff (isBase64_btoa (by decide)) 65535 Sample.user .ONE [1, 2] [3]).mpr (by decide),
    by decide⟩

/-- A ciphertext of 200 000 bytes, in an engine that takes 125 000 arguments: no envelope is made. -/
theorem long_backup_throws :
    ¬ BacksUp 125000 Sample.user .ONE [1, 2] (List.replicate 200000 3) (btoa [104, 105]) := by
  intro backsUp
  obtain ⟨env, wrapped, _⟩ := backsUp.wrapped
  have short := (KeyBackup.wrap_iff.mp wrapped).1.2
  rw [List.length_replicate] at short
  exact absurd short (by decide)

end Samples

end Atmin.Web
