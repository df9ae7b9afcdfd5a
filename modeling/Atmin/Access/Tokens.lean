import Atmin.Server.Auth
import Atmin.Server.Sample

/-!
# Which strings are tokens

A token wraps a message and its MAC twice in base64. Both layers have one spelling for each
content, so a string that is accepted is one that was issued, as long as no MAC is guessed.
-/

namespace Atmin.Token

/-! ### The decimal spelling of a version -/

theorem digitChar_val {d : Nat} (small : d < 10) :
    isDigit (Nat.digitChar d) = true ∧ (Nat.digitChar d).toNat - '0'.toNat = d := by
  revert d
  decide

theorem digits_small (n : Nat) : ∀ d ∈ Nat.digits 10 n, d < 10 :=
  fun _ member => Nat.digits_lt_base (by decide) member

theorem foldl_digitChar : ∀ {ds : List Nat}, (∀ d ∈ ds, d < 10) →
    (ds.reverse.map Nat.digitChar).foldl (fun n c => n * 10 + (c.toNat - '0'.toNat)) 0 =
      Nat.ofDigits 10 ds
  | [], _ => rfl
  | d :: ds, small => by
    rw [List.forall_mem_cons] at small
    rw [List.reverse_cons, List.map_append, List.foldl_append, foldl_digitChar small.2]
    simp only [List.map, List.foldl, (digitChar_val small.1).2, Nat.ofDigits_cons]
    rw [Nat.mul_comm, Nat.add_comm]

theorem toList_decimal {n : Nat} (positive : n ≠ 0) :
    (decimal n).toList = (Nat.digits 10 n).reverse.map Nat.digitChar := by
  rw [decimal, if_neg positive, String.toList_ofList]

theorem decimal_digits {n : Nat} (positive : n ≠ 0) : ∀ c ∈ (decimal n).toList, isDigit c = true := by
  rw [toList_decimal positive]
  intro c member
  obtain ⟨d, here, rfl⟩ := List.mem_map.mp member
  exact (digitChar_val (digits_small n d (List.mem_reverse.mp here))).1

theorem parseU32_digits {s : String} (filled : s.toList ≠ [])
    (digits : ∀ c ∈ s.toList, isDigit c = true) : parseU32 s =
      let n := s.toList.foldl (fun n c => n * 10 + (c.toNat - '0'.toNat)) 0
      if n < 2 ^ 32 then some (.ofNat n) else none := by
  have all := List.all_eq_true.mpr digits
  unfold parseU32
  split
  next rest same =>
    rw [same] at digits
    exact absurd (digits '+' List.mem_cons_self) (by decide)
  next => exact if_pos ⟨filled, all⟩

/-- A version is read back from its decimal spelling. -/
theorem parseU32_decimal {n : UInt32} (positive : n ≠ 0) : parseU32 (decimal n.toNat) = some n := by
  have nonzero : n.toNat ≠ 0 := fun zero => positive (UInt32.toNat_inj.mp zero)
  have filled : (decimal n.toNat).toList ≠ [] := by
    rw [toList_decimal nonzero]
    simp [Nat.digits_ne_nil_iff_ne_zero.mpr nonzero]
  rw [parseU32_digits filled (decimal_digits nonzero), toList_decimal nonzero,
    foldl_digitChar (digits_small _), Nat.ofDigits_digits]
  simp only [n.toNat_lt, if_true, UInt32.ofNat_toNat]

/-! ### The two encodings -/

theorem fromUtf8_utf8 (s : String) : fromUtf8 (utf8 s) = some s := by
  have whole : (⟨(utf8 s).toArray⟩ : ByteArray) = s.toByteArray := by simp [utf8]
  have read {bytes : ByteArray} (same : bytes = s.toByteArray) : String.fromUTF8? bytes = some s := by
    subst same
    rw [String.fromUTF8?, dif_pos s.isValidUTF8]
    rfl
  exact read whole

theorem utf8_fromUtf8 {bytes : List UInt8} {s : String} (read : fromUtf8 bytes = some s) :
    utf8 s = bytes := by
  unfold fromUtf8 String.fromUTF8? at read
  split at read
  next valid =>
    cases read
    simp [utf8, String.fromUTF8]
  · cases read

theorem utf8_inj {a b : String} (same : utf8 a = utf8 b) : a = b := by
  have both := fromUtf8_utf8 a
  rw [same, fromUtf8_utf8] at both
  exact (Option.some.inj both).symm

/-! ### Messages and their wrapping -/

/-- What `generate` authenticates. -/
def payload (userId deviceId version : String) : String := userId ++ "." ++ deviceId ++ "." ++ version

/-- A message with its MAC, as it is handed out. -/
def wrap (env : Env) (message : String) : String :=
  Base64.encode (utf8 (message ++ "." ++ Base64.encode (computeHmac env message)))

theorem generate_eq (env : Env) (userId deviceId : String) (kv : KeyVersion) :
    generate env userId deviceId kv = wrap env (payload userId deviceId (decimal kv.get.toNat)) := rfl

/-- A segment of a token. -/
def Plain (s : String) : Prop := '.' ∉ s.toList

theorem ulid_plain {s : String} (valid : validateUlid s = true) : Plain s := by
  simp only [validateUlid, Bool.and_eq_true, List.all_eq_true, decide_eq_true_eq] at valid
  exact fun member => absurd (valid.1.2 _ member) (by decide)

theorem decimal_plain {n : Nat} (positive : n ≠ 0) : Plain (decimal n) :=
  fun member => absurd (decimal_digits positive _ member) (by decide)

theorem encode_plain (bytes : List UInt8) : Plain (Base64.encode bytes) :=
  Base64.not_mem_encode (by decide) bytes

theorem splitOn_joined {segments : List String} (plain : ∀ s ∈ segments, Plain s)
    (some_ : segments ≠ []) {raw : String}
    (joined : raw.toList = ['.'].intercalate (segments.map String.toList)) :
    (raw.toList.splitOn '.').map String.ofList = segments := by
  have parts : raw.toList.splitOn '.' = segments.map String.toList := by
    rw [joined]
    refine List.splitOn_intercalate '.' (fun part member => ?_) (by simpa using some_)
    obtain ⟨s, here, rfl⟩ := List.mem_map.mp member
    exact plain s here
  rw [parts, List.map_map]
  simp [Function.comp_def]

/-- A part holds no separator. -/
theorem not_mem_of_mem_splitOn {c : Char} {part : List Char} : ∀ {cs : List Char},
    part ∈ cs.splitOn c → c ∉ part
  | [], member => by
    rw [List.splitOn_nil, List.mem_singleton] at member
    simp [member]
  | x :: cs, member => by
    have later {part : List Char} (member : part ∈ cs.splitOn c) : c ∉ part := not_mem_of_mem_splitOn member
    rw [List.splitOn_cons_eq_if_modifyHead] at member
    split at member
    next here =>
      rcases List.mem_cons.mp member with rfl | rest
      · exact List.not_mem_nil
      · exact later rest
    next differs =>
      match parts : cs.splitOn c with
      | [] => exact absurd parts (List.splitOn_ne_nil c cs)
      | first :: rest =>
        rw [parts] at member later
        rcases List.mem_cons.mp member with rfl | tail
        · simp only [List.mem_cons, not_or]
          exact ⟨fun same => differs (by simp [same]), later List.mem_cons_self⟩
        · exact later (List.mem_cons_of_mem _ tail)

theorem splitOn_plain {segments : List String} {raw : String}
    (parts : (raw.toList.splitOn '.').map String.ofList = segments) : ∀ s ∈ segments, Plain s := by
  rw [← parts]
  intro s member
  obtain ⟨part, here, rfl⟩ := List.mem_map.mp member
  rw [Plain, String.toList_ofList]
  exact not_mem_of_mem_splitOn here

theorem joined_of_splitOn {segments : List String} {raw : String}
    (parts : (raw.toList.splitOn '.').map String.ofList = segments) :
    raw.toList = ['.'].intercalate (segments.map String.toList) := by
  rw [← parts, List.map_map]
  simp [Function.comp_def, List.intercalate_splitOn]

theorem payload_sealed (u d v tag : String) : (payload u d v ++ "." ++ tag).toList =
    ['.'].intercalate ([u, d, v, tag].map String.toList) := by
  simp [payload, List.intercalate, String.toList_append]

/-- Accepted are the wrapped payloads whose version has the right value, however it is spelt. -/
theorem parse_ok_iff {env : Env} {token u d : String} {kv : KeyVersion} :
    parse env token = .ok (u, d, kv) ↔ ∃ version, Plain u ∧ Plain d ∧ Plain version ∧
      (parseU32 version).bind KeyVersion.new = some kv ∧ token = wrap env (payload u d version) := by
  constructor
  · intro parsed
    unfold parse at parsed
    split at parsed
    · cases parsed
    next raw read =>
      obtain ⟨bytes, decoded, text⟩ := Option.bind_eq_some_iff.mp read
      split at parsed
      next userId deviceId kvStr sigB64 parts =>
        split at parsed
        · cases parsed
        next version number =>
          split at parsed
          · cases parsed
          next sig unsealed =>
            split at parsed
            next genuine =>
              cases parsed
              -- the four parts put together again are the text that was sealed
              have plain := splitOn_plain parts
              simp only [List.forall_mem_cons] at plain
              refine ⟨kvStr, plain.1, plain.2.1, plain.2.2.1, number, ?_⟩
              have text' : raw = payload u d kvStr ++ "." ++ sigB64 := by
                rw [← String.toList_inj, payload_sealed]
                exact joined_of_splitOn parts
              rw [← Base64.encode_decode decoded, ← utf8_fromUtf8 text, text',
                ← Base64.encode_decode unsealed, genuine]
              rfl
            · cases parsed
      · cases parsed
  · -- a wrapped payload is taken apart into what was put in
    rintro ⟨version, plainU, plainD, plainV, number, rfl⟩
    let tag := Base64.encode (computeHmac env (payload u d version))
    have plain : ∀ s ∈ [u, d, version, tag], Plain s := by
      simpa using ⟨plainU, plainD, plainV, encode_plain _⟩
    have parts := splitOn_joined plain (by simp) (payload_sealed u d version tag)
    unfold parse wrap
    simp only [Base64.decode_encode, Option.bind_some, fromUtf8_utf8, parts, tag, number]
    exact if_pos rfl

/-! ### No MAC is guessed -/

/-- A string that holds a message under its MAC has it from the server, which authenticates
the triples it issues and nothing else. -/
def Unforged (env : Env) (issued : Set (UserId × DeviceId × KeyVersion)) (token : String) : Prop :=
  ∀ message, token = wrap env message → ∃ triple ∈ issued,
    message = payload triple.1.str triple.2.1.str (decimal triple.2.2.get.toNat)

theorem generate_parses (env : Env) (u : UserId) (d : DeviceId) (kv : KeyVersion) :
    parse env (generate env u.str d.str kv) = .ok (u.str, d.str, kv) := by
  have positive : kv.get.toNat ≠ 0 := fun zero => kv.nonzero (UInt32.toNat_inj.mp zero)
  refine parse_ok_iff.mpr ⟨decimal kv.get.toNat, ulid_plain u.ulid, ulid_plain d.ulid,
    decimal_plain positive, ?_, rfl⟩
  rw [parseU32_decimal kv.nonzero]
  exact dif_pos kv.nonzero

/-- A string stands for one triple at most. -/
theorem parse_unique {env : Env} {token : String} {u v : UserId} {d e : DeviceId} {kv kw : KeyVersion}
    (first : parse env token = .ok (u.str, d.str, kv)) (second : parse env token = .ok (v.str, e.str, kw)) :
    (u, d, kv) = (v, e, kw) := by
  have same := first.symm.trans second
  simp only [Except.ok.injEq, Prod.mk.injEq] at same
  obtain ⟨user, device, rfl⟩ := same
  cases u
  cases v
  cases d
  cases e
  cases user
  cases device
  rfl

/-- The tokens that are accepted are those that were issued, and each is issued for one triple. -/
theorem accepted_iff_issued {env : Env} {issued : Set (UserId × DeviceId × KeyVersion)} {token : String}
    (unforged : Unforged env issued token) (u : UserId) (d : DeviceId) (kv : KeyVersion) :
    (parse env token = .ok (u.str, d.str, kv) ↔
      token = generate env u.str d.str kv ∧ (u, d, kv) ∈ issued) ∧
    ∀ v e kw, generate env u.str d.str kv = generate env v.str e.str kw → (u, d, kv) = (v, e, kw) := by
  have from_server (accepted : parse env token = .ok (u.str, d.str, kv)) :
      token = generate env u.str d.str kv ∧ (u, d, kv) ∈ issued := by
    obtain ⟨version, -, -, -, -, wrapped⟩ := parse_ok_iff.mp accepted
    obtain ⟨⟨v, e, kw⟩, member, same⟩ := unforged _ wrapped
    rw [same, ← generate_eq] at wrapped
    have theirs : parse env token = .ok (v.str, e.str, kw) := by
      rw [wrapped]
      exact generate_parses env v e kw
    cases parse_unique accepted theirs
    exact ⟨wrapped, member⟩
  refine ⟨⟨from_server, fun ⟨same, _⟩ => ?_⟩, fun v e kw same => ?_⟩
  · rw [same]
    exact generate_parses env u d kv
  · have theirs := generate_parses env v e kw
    rw [← same] at theirs
    exact parse_unique (generate_parses env u d kv) theirs

/-! ### The token of the sample account -/

section Issued

open Sample

theorem wrap_inj {message other : String} (same : wrap env message = wrap env other) :
    message ++ "." ++ Base64.encode (computeHmac env message) =
      other ++ "." ++ Base64.encode (computeHmac env other) :=
  utf8_inj (Base64.encode_inj same)

/-- An empty text is no token. -/
example : (parse env "").toOption.isNone = true := by decide +kernel

theorem sample_unforged :
    Unforged env {(user, device, .ONE)} (generate env user.str device.str .ONE) := by
  intro message wrapped
  refine ⟨_, rfl, ?_⟩
  have raw := wrap_inj ((generate_eq env user.str device.str .ONE).symm.trans wrapped)
  by_contra other
  have unknown : computeHmac env message = [] := if_neg fun same => other (utf8_inj same)
  -- Its text would end in a dot.
  have dot : (message ++ "." ++ Base64.encode []).toList.getLast? = some '.' := by
    have none_ : Base64.encode [] = "" := rfl
    rw [none_, String.append_empty, String.toList_append]
    exact List.getLast?_concat
  rw [unknown] at raw
  rw [← raw] at dot
  revert dot
  decide

theorem sample_accepted : parse env (generate env user.str device.str .ONE) = .ok (uid, did, .ONE) :=
  ((accepted_iff_issued sample_unforged user device .ONE).1.mpr ⟨rfl, rfl⟩)

end Issued

end Atmin.Token
