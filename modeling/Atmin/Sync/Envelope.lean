import Atmin.Server.Sample
import Atmin.Sync.Contracts

/-!
# What the fields of an accepted envelope look like to a client

The server reads the header of an envelope by name, once; the client reads the members of
a JavaScript object, where the last one wins. On the header fields the two agree, in the
live form and in an archive.
-/

namespace Atmin.Web

/-! ### The members of an archived object -/

/-- Each pair comes from a field. -/
theorem ofFields_pairs {depth : Nat} {fields : List (String × Json)} {pairs : List (Value × Value)}
    (read : Value.ofFields depth fields = some pairs) :
    ∃ values : List (String × Value), pairs = values.map (fun e => (.text e.1, e.2)) ∧
      ∀ name v, (name, v) ∈ values ↔ ∃ j, (name, j) ∈ fields ∧ Value.ofJson depth j = some v := by
  induction fields generalizing pairs with
  | nil =>
    cases read
    exact ⟨[], rfl, by simp⟩
  | cons field rest ih =>
    obtain ⟨n, j⟩ := field
    simp only [Value.ofFields] at read
    split at read
    -- each member converts by itself, in its place
    next v vs first others =>
      cases read
      obtain ⟨values, rfl, members⟩ := ih others
      refine ⟨(n, v) :: values, rfl, fun name w => ?_⟩
      simp only [List.mem_cons, Prod.mk.injEq, members]
      constructor
      · rintro (⟨rfl, rfl⟩ | ⟨j', here, valid⟩)
        · exact ⟨j, .inl ⟨rfl, rfl⟩, first⟩
        · exact ⟨j', .inr here, valid⟩
      · rintro ⟨j', ⟨rfl, rfl⟩ | here, valid⟩
        · exact .inl ⟨rfl, Option.some.inj (valid.symm.trans first)⟩
        · exact .inr ⟨j', here, valid⟩
    next => cases read

theorem lastValue_eq {values : List (String × Value)} {name : String} {v : Value}
    (member : (name, v) ∈ values) (only : ∀ w, (name, w) ∈ values → w = v) :
    lastValue values name = some v := by
  unfold lastValue
  cases found : values.reverse.find? fun e => decide (e.1 = name) with
  | none =>
    have absent := List.find?_eq_none.mp found (name, v) (List.mem_reverse.mpr member)
    simp at absent
  | some e =>
    have hit := List.find?_some found
    simp only [decide_eq_true_eq] at hit
    have here := List.mem_reverse.mp (List.mem_of_find?_eq_some found)
    subst hit
    rw [Option.map_some, only e.2 here]

theorem lastValue_absent {values : List (String × Value)} {name : String}
    (absent : ∀ v, (name, v) ∉ values) : lastValue values name = none := by
  unfold lastValue
  apply Option.map_eq_none_iff.mpr
  apply List.find?_eq_none.mpr
  intro e member same
  simp only [decide_eq_true_eq] at same
  subst same
  exact absent e.2 (List.mem_reverse.mp member)

/-- A header field that is not the default was read from a string. -/
theorem fieldOr_ne_default {d s : String} {o : Option Json} (read : Json.fieldOr d Json.asStr o = some s)
    (differ : s ≠ d) : o = some (.str s) := by
  cases o with
  | none => cases read; exact absurd rfl differ
  | some j =>
    cases j <;> simp_all [Json.fieldOr, Json.asStr]

theorem lastOf_absent {fields : List (String × Js)} {name : String}
    (absent : ∀ x, (name, x) ∉ fields) : Js.lastOf fields name = .undefined := by
  unfold Js.lastOf
  cases found : fields.reverse.find? fun e => decide (e.1 = name) with
  | none => rfl
  | some e =>
    have hit := List.find?_some found
    simp only [decide_eq_true_eq] at hit
    subst hit
    exact absurd (List.mem_reverse.mp (List.mem_of_find?_eq_some found)) (absent e.2)

section Decoding

variable [CborDecoder]

/-- Names that the decoder does not spell in another way. -/
def Spelled (name : String) : Prop := name ≠ "__proto__" ∧ name ≠ "__proto_"

/-- The members of a map are those of the object it was made of. -/
theorem ofValue_map {depth : Nat} {fields : List (String × Json)} {pairs : List (Value × Value)}
    (read : Value.ofFields depth fields = some pairs) :
    ∃ members values, Js.ofValue (.map pairs) = .obj members ∧
      (∀ name v, (name, v) ∈ values ↔ ∃ j, (name, j) ∈ fields ∧ Value.ofJson depth j = some v) ∧
      ∀ name, Spelled name →
        Js.lastOf members name = ((lastValue values name).map Js.ofValue).getD .undefined := by
  obtain ⟨values, rfl, each⟩ := ofFields_pairs read
  obtain ⟨members, object, last⟩ := CborDecoder.map values
  exact ⟨members, values, object, each, fun name plain => last name plain.1 plain.2⟩

/-- A string under a name the server knows is the string the client reads. -/
theorem view_str {names : List String} {fields : List (String × Json)} {f : String → Option Json}
    (read : (Json.obj fields).members names = some f) {name s : String} (known : name ∈ names)
    (plain : Spelled name) (found : f name = some (.str s)) {e : Js} (view : View (.obj fields) e) :
    e.member name = .ok (.str s) := by
  -- the member is among the fields, and there once
  have here : (name, Json.str s) ∈ fields := by
    simp only [Json.members] at read
    split at read
    next =>
      cases read
      obtain ⟨entry, hit, same⟩ := Option.map_eq_some_iff.mp found
      have named := List.find?_some hit
      simp only [decide_eq_true_eq] at named
      have member := List.mem_of_find?_eq_some hit
      obtain ⟨n, j⟩ := entry
      cases same
      cases named
      exact member
    next => cases read
  cases view with
  -- a live object is read as JSON
  | live =>
    simp only [Js.ofJson, Js.member_obj, lastOf_members read known, found, Option.map_some, Option.getD_some]
  -- an archived one as the CBOR of the same fields
  | @archived v valid =>
    simp only [Value.ofJson] at valid
    split at valid
    next => cases valid
    next =>
      obtain ⟨pairs, all, rfl⟩ := Option.map_eq_some_iff.mp valid
      obtain ⟨members, values, object, each, last⟩ := ofValue_map all
      have only : lastValue values name = some (.text s) := by
        apply lastValue_eq
        · exact (each name _).mpr ⟨_, here, by simp only [Value.ofJson]⟩
        · intro w member
          obtain ⟨j, there, valid'⟩ := (each name w).mp member
          rw [known_once read known there here] at valid'
          simpa [Value.ofJson] using valid'.symm
      rw [object, Js.member_obj, last name plain, only, Option.map_some, Option.getD_some, Js.ofValue_text]

/-- A message envelope is an object: an array has no members. -/
theorem view_message {raw : Json} {e id : Js} (view : View raw e) (message : IsMessage e id)
    {header : EnvelopeHeader} (parsed : EnvelopeHeader.fromJson raw = some header) :
    ∃ fields, raw = .obj fields := by
  cases raw with
  | obj fields => exact ⟨fields, rfl⟩
  -- an array has no content type in either form
  | arr xs =>
    exfalso
    cases view with
    | live =>
      obtain ⟨type_, _⟩ := message
      simp [Js.ofJson, Js.member] at type_
    | @archived v valid =>
      obtain ⟨type_, _⟩ := message
      simp only [Value.ofJson] at valid
      split at valid
      next => cases valid
      next =>
        obtain ⟨vs, _, rfl⟩ := Option.map_eq_some_iff.mp valid
        obtain ⟨ys, array⟩ := CborDecoder.array vs
        rw [Js.ofValue, array] at type_
        simp [Js.member] at type_
  | _ => cases parsed

/-- A member the server does not find is undefined for the client. -/
theorem view_absent {names : List String} {fields : List (String × Json)} {f : String → Option Json}
    (read : (Json.obj fields).members names = some f) {name : String} (plain : Spelled name)
    (found : f name = none) {e : Js} (view : View (.obj fields) e) : e.member name = .ok .undefined := by
  have absent (j : Json) : (name, j) ∉ fields := by
    simp only [Json.members] at read
    split at read
    next =>
      cases read
      intro member
      have none_ := List.find?_eq_none.mp (Option.map_eq_none_iff.mp found) _ member
      simp at none_
    next => cases read
  cases view with
  | live =>
    simp only [Js.ofJson, Js.member_obj]
    refine congrArg Except.ok (lastOf_absent fun x member => ?_)
    obtain ⟨j, here, _⟩ := mem_ofMembers.mp member
    exact absent j here
  | @archived v valid =>
    simp only [Value.ofJson] at valid
    split at valid
    next => cases valid
    next =>
      obtain ⟨pairs, all, rfl⟩ := Option.map_eq_some_iff.mp valid
      obtain ⟨members, values, object, each, last⟩ := ofValue_map all
      -- no pair of the map has this name
      have none_ : lastValue values name = none := by
        apply lastValue_absent
        intro v member
        obtain ⟨j, here, _⟩ := (each name v).mp member
        exact absent j here
      rw [object, Js.member_obj, last name plain, none_, Option.map_none, Option.getD_none]

/-- The header fields of a message envelope, as the client reads them. -/
theorem delivered_header {user : UserId} {s : State} {e id : Js} (delivered : Delivered user s e)
    (message : IsMessage e id) : (∃ sender : UserId, e.member "from_user" = .ok (.str sender.str)) ∧
      (id = .undefined ∨ ∃ name, id = .str name) := by
  obtain ⟨raw, ⟨⟨_, header, parsed, sender, named⟩, _⟩, view⟩ := delivered
  obtain ⟨fields, rfl⟩ := view_message view message parsed
  -- the sender is a ULID, so the default did not stand in for it
  have nonempty : sender.str ≠ "" := fun empty => by
    have := validateUlid_length sender.ulid
    rw [empty] at this
    cases this
  simp only [EnvelopeHeader.fromJson, Option.bind_eq_bind, Option.bind_eq_some_iff, Option.pure_def,
    Option.some.injEq] at parsed
  obtain ⟨f, read, toUser, _, fromUser, from_, fromDevice, _, msgId, id_, rfl⟩ := parsed
  dsimp only at named
  subst named
  refine ⟨⟨sender, view_str read (by simp) (by simp [Spelled]) (fieldOr_ne_default from_ nonempty) view⟩, ?_⟩
  -- the id may be missing, but it is a text where it is there
  cases found : f "msg_id" with
  | none =>
    have absent := message.2.symm.trans (view_absent read (by simp [Spelled]) found view)
    exact .inl (Except.ok.inj absent)
  | some j =>
    rw [found] at id_
    cases j with
    | str name =>
      have present := message.2.symm.trans (view_str read (by simp) (by simp [Spelled]) found view)
      exact .inr ⟨name, Except.ok.inj present⟩
    | _ => cases id_

/-- A row under the id of a message is under no other id. -/
theorem key_inj {user : UserId} {s : State} {e e' id id' : Js} (first : Delivered user s e)
    (message : IsMessage e id) (last : Delivered user s e') (message' : IsMessage e' id') {key : Key}
    (same : id.key = some key) (same' : id'.key = some key) : id = id' := by
  rcases (delivered_header first message).2 with rfl | ⟨name, rfl⟩
  · simp [Js.key] at same
  · rcases (delivered_header last message').2 with rfl | ⟨name', rfl⟩
    · simp [Js.key] at same'
    · simp only [Js.key_str, Option.some.injEq] at same same'
      subst same
      simpa using same'.symm

end Decoding

/-! ### A sample inbox -/

namespace Demo

def user : UserId := Atmin.Sample.user

def device : DeviceId := Atmin.Sample.device

/-- Two other accounts. -/
theorem mallory_ulid : validateUlid "01MMMMMMMMMMMMMMMMMMMMMMMM" = true := by decide +kernel

def mallory : UserId := ⟨"01MMMMMMMMMMMMMMMMMMMMMMMM", mallory_ulid⟩

theorem bob_ulid : validateUlid "01BBBBBBBBBBBBBBBBBBBBBBBB" = true := by decide +kernel

def bob : UserId := ⟨"01BBBBBBBBBBBBBBBBBBBBBBBB", bob_ulid⟩

/-- Cryptography without secrets: a key share is its own plaintext, a session key names its
session, and a ciphertext is the session id with the text. -/
def crypto : Crypto where
  eciesDecrypt _ sealed_ := some sealed_.ciphertext
  eciesEncrypt _ text _ := some ⟨"", "", text⟩
  importSession key := some ⟨key, 0⟩
  sessionKey id _ := id
  encrypt id _ text := id ++ ":" ++ text
  opens id ciphertext := (stripPrefix ciphertext (id ++ ":")).map fun text => (0, text)

def account : Account where
  userId := user
  crypto := crypto
  date _ := .ok (some 0)
  parse _ := none
  render _ := ""
  pages := 3

def envelope (sender to_ : UserId) (contentType msgId : String) (payload : List (String × Json)) :
    Json :=
  .obj [("to_user", .str to_.str), ("from_user", .str sender.str), ("from_device", .str device.str),
    ("msg_id", .str msgId), ("content_type", .str contentType), ("payload", .obj payload)]

def keyShare (sender to_ : UserId) (msgId sessionKey : String) : Json :=
  envelope sender to_ "megolm.key_share" msgId
    [("ephemeral_key", .str ""), ("iv", .str ""), ("ciphertext", .str sessionKey)]

def message (sender to_ : UserId) (msgId session text : String) (conversation : Json) : Json :=
  envelope sender to_ "megolm.message" msgId
    [("conversation_id", conversation), ("session_id", .str session),
      ("ciphertext", .str (session ++ ":" ++ text))]

/-- One slot for each delivery, and one for a sync. -/
def tasks (mail : List (UserId × Json)) : Tasks (Fin (mail.length + 1)) where
  task i := match mail[i.val]? with
    | some (sender, raw) => .surroundings (.deliver sender device raw) rfl
    | none => .sync "" false
  epoch _ := 0

/-- Every delivery, and then so many steps of the sync. -/
def schedule (mail : List (UserId × Json)) (steps : Nat) : List (Fin (mail.length + 1) × Outcome) :=
  ((List.finRange mail.length).flatMap fun i => List.replicate 3 (i.castSucc, .ok)) ++
    List.replicate steps (Fin.last _, .ok)

/-- One slot for each task, all of them on one page. -/
def script (ts : List Task) : Tasks (Fin ts.length) := ⟨fun i => ts[i], fun _ => 0⟩

/-- The tasks in turn, each for so many steps. -/
def inTurn (n : Nat) (steps : List Nat) : List (Fin n × Outcome) :=
  ((List.finRange n).zip steps).flatMap fun e => List.replicate e.2 (e.1, .ok)

def delivery (sender : UserId) (raw : Json) : Task := .surroundings (.deliver sender device raw) rfl

/-- A compaction: the archive is written, and the live objects are deleted. -/
def compaction (name : String) (picks : List Nat) (keys : List String) : List Task :=
  [.surroundings (.archive user name picks) rfl, .surroundings (.remove keys) rfl]

end Demo

end Atmin.Web
