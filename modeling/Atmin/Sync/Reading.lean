import Atmin.Sync.Calm
import Atmin.Sync.Ingested

/-!
# What a sync reads

Which sessions a sync learns, which messages it gathers, and which objects it lists, as facts
about the functions a sync without faults computes.
-/

namespace Atmin.Web

open Interaction

/-! ### Sessions -/

section Learning

/-- Every session of `K` is in `K'`. -/
def Extends (K K' : Sessions) : Prop := ∀ id k, K id = some k → K' id = some k

theorem Extends.refl (K : Sessions) : Extends K K := fun _ _ known => known

theorem Extends.trans {K K' K'' : Sessions} (first : Extends K K') (last : Extends K' K'') :
    Extends K K'' := fun id k known => last id k (first id k known)

theorem learn_extends (K : Sessions) (k : Inbound) : Extends K (learn K k) := by
  intro id k' known
  unfold learn
  split
  next => exact known
  next unknown =>
    have other : id ≠ k.sessionId := by
      rintro rfl
      exact unknown (by rw [known]; rfl)
    rw [Function.update_of_ne other]
    exact known

theorem learnFrom_extends (page : Page) (seen : List Js) (K : Sessions) (e : Js) :
    Extends K (learnFrom page seen K e) := by
  unfold learnFrom
  split
  next =>
    split
    next k _ => exact learn_extends K k
    next => exact .refl K
  next => exact .refl K

theorem learnAll_extends (page : Page) (seen : List Js) (es : List Js) (K : Sessions) :
    Extends K (learnAll page seen es K) := by
  induction es generalizing K with
  | nil => exact .refl K
  | cons e rest ih => exact (learnFrom_extends page seen K e).trans (ih _)

/-- A key share that opens under the key of the page, and carries the session. -/
def SharesKey (page : Page) (e : Js) (k : Inbound) : Prop :=
  e.member "content_type" = .ok (.str "megolm.key_share") ∧ shareOf page e = some k

theorem isShare_iff {seen : List Js} {e : Js} : isShare seen e = true ↔
    e.member "content_type" = .ok (.str "megolm.key_share") ∧
      ∃ msgId, e.member "msg_id" = .ok msgId ∧ msgId.isIn seen = false := by
  unfold isShare
  split
  next contentType msgId type_ named => simp [type_, named]
  next absent =>
    simp only [Bool.false_eq_true, false_iff, not_and, not_exists]
    exact fun type_ msgId named => absurd named (absent _ msgId type_)

end Learning

/-! ### Messages -/

section Messages

variable {account : Account} {K : Sessions}

/-- What a message envelope with an unseen id does to what was gathered. -/
inductive Effect where
  | none
  | skip
  | advance (sessionId : String)
  | push (sessionId : String) (m : DecryptedMessage)

def Effect.apply : Effect → Gathered → Gathered
  | .none, acc => acc
  | .skip, acc => acc.skip
  | .advance sessionId, acc => acc.advance sessionId
  | .push sessionId m, acc => (acc.advance sessionId).push m

/-- The effect of an envelope under a session. -/
def effectUnder (account : Account) (e payload : Js) (k : Inbound) : Effect :=
  match decryptPayload account k payload with
  | .ok text => match decryptedMessage account e text with
    | .ok m => .push k.sessionId m
    | .error _ => .advance k.sessionId
  | .error _ => .none

def effectOf (account : Account) (K : Sessions) (e : Js) : Effect :=
  match e.member "payload" with
  | .ok payload => match payload.member "session_id" with
    | .ok sessionId => match got K sessionId with
      | .ok (some k) => effectUnder account e payload k
      | .ok none => .skip
      | .error _ => .none
    | .error _ => .none
  | .error _ => .none

theorem openMessage_effect (account : Account) (e payload : Js) (k : Inbound) (acc : Gathered) :
    (match openMessage account e payload k acc with
      | .ok acc' => acc'
      | .error _ => acc) = (effectUnder account e payload k).apply acc := by
  unfold openMessage effectUnder
  cases decryptPayload account k payload with
  | error _ => rfl
  | ok text =>
    cases made : decryptedMessage account e text with
    | error _ => simp only [bind, Except.bind, made]; rfl
    | ok m => simp only [bind, Except.bind, made]; rfl

theorem readOne_eq (account : Account) (K : Sessions) (acc : Gathered) (e : Js) :
    readOne account K acc e =
      if isUnread acc.seen e then (effectOf account K e).apply acc else acc := by
  unfold readOne
  split
  next =>
    unfold readMessage effectOf
    cases e.member "payload" with
    | error _ => rfl
    | ok payload =>
      dsimp only
      cases payload.member "session_id" with
      | error _ => rfl
      | ok sessionId =>
        dsimp only
        cases got K sessionId with
        | error _ => rfl
        | ok found =>
          cases found with
          | none => rfl
          | some k => exact openMessage_effect account e payload k acc
  next => rfl

theorem isUnread_iff {seen : List Js} {e : Js} : isUnread seen e = true ↔
    ∃ id, IsMessage e id ∧ id.isIn seen = false := by
  unfold isUnread IsMessage
  split
  next contentType msgId type_ named => simp [type_, named]
  next absent =>
    simp only [Bool.false_eq_true, false_iff, not_exists, not_and]
    exact fun id message => absurd message.2 (absent _ id message.1)

/-- An envelope adds one message, or none. -/
theorem readOne_cases (account : Account) (K : Sessions) (acc : Gathered) (e : Js) :
    ((readOne account K acc e).messages = acc.messages ∧ (readOne account K acc e).seen = acc.seen) ∨
      ∃ m, (readOne account K acc e).messages = acc.messages ++ [m] := by
  rw [readOne_eq]
  split
  · cases effectOf account K e with
    | push sessionId m => exact .inr ⟨m, rfl⟩
    | _ => exact .inl ⟨rfl, rfl⟩
  · exact .inl ⟨rfl, rfl⟩

/-- A message that its session opens is gathered, unless its id was seen. -/
theorem readOne_opens {acc : Gathered} {e id : Js} {k : Inbound} {text : String}
    {m : DecryptedMessage} (message : IsMessage e id) (unread : id.isIn acc.seen = false)
    (known : K k.sessionId = some k) (opens : Opens account.crypto k e text)
    (made : decryptedMessage account e text = .ok m) :
    readOne account K acc e = (acc.advance k.sessionId).push m := by
  obtain ⟨payload, ciphertext, inside, session, sealed_, decrypted⟩ := opens
  have text_ : decryptPayload account k payload = .ok text :=
    decryptPayload_iff.mpr ⟨ciphertext, sealed_, decrypted⟩
  have effect : effectOf account K e = .push k.sessionId m := by
    simp only [effectOf, inside, session, got, known, effectUnder, text_, made]
  rw [readOne_eq, if_pos (isUnread_iff.mpr ⟨id, message, unread⟩), effect]
  rfl

theorem readAll_prefix (account : Account) (K : Sessions) (es : List Js) (acc : Gathered) :
    acc.messages <+: (es.foldl (readOne account K) acc).messages := by
  induction es generalizing acc with
  | nil => exact List.prefix_refl _
  | cons e rest ih =>
    refine List.IsPrefix.trans ?_ (ih (readOne account K acc e))
    rcases readOne_cases account K acc e with ⟨same, _⟩ | ⟨m, more⟩
    · exact same ▸ List.prefix_refl _
    · exact more ▸ List.prefix_append _ _

/-- Where nothing was gathered, every message that could be opened had been seen. -/
theorem readAll_nothing {es : List Js} {acc : Gathered}
    (nothing : (es.foldl (readOne account K) acc).messages = acc.messages) :
    (es.foldl (readOne account K) acc).seen = acc.seen ∧
      ∀ e ∈ es, ∀ id k text m, IsMessage e id → K k.sessionId = some k →
        Opens account.crypto k e text → decryptedMessage account e text = .ok m →
        id.isIn acc.seen = true := by
  induction es generalizing acc with
  | nil => exact ⟨rfl, fun e member => nomatch member⟩
  | cons e rest ih =>
    have later := readAll_prefix account K rest (readOne account K acc e)
    rw [List.foldl_cons] at nothing
    rcases readOne_cases account K acc e with ⟨same, seen⟩ | ⟨m, more⟩
    · obtain ⟨unseen, others⟩ := @ih (readOne account K acc e) (nothing.trans same.symm)
      refine ⟨unseen.trans seen, fun e' member id k text m message known opens made => ?_⟩
      rcases List.mem_cons.mp member with rfl | member
      · cases unread : id.isIn acc.seen with
        | true => rfl
        | false =>
          rw [readOne_opens message unread known opens made] at same
          exact absurd same (by simp [Gathered.push, Gathered.advance])
      · rw [← seen]
        exact others e' member id k text m message known opens made
    · rw [nothing, more] at later
      have short := later.length_le
      simp at short

end Messages

/-! ### Archives -/

section Archives

variable {page : Page} {objects : ObjectMap String Data} {ingested : List String}

variable [CborDecoder]

theorem readArchive_starts (page : Page) (objects : ObjectMap String Data) (ingested : List String)
    (acc : ArchiveResult × Sessions) (key : String) : acc.1.gathered.messages <+:
      (readArchive page objects ingested acc key).1.gathered.messages := by
  unfold readArchive
  split
  · exact List.prefix_refl _
  · split
    · exact List.prefix_append _ _
    · exact List.prefix_refl _

theorem readArchive_extends (acc : ArchiveResult × Sessions) (key : String) :
    Extends acc.2 (readArchive page objects ingested acc key).2 := by
  unfold readArchive
  split
  · exact .refl _
  · split
    · exact learnAll_extends page _ _ _
    · exact .refl _

theorem readArchives_prefix (page : Page) (objects : ObjectMap String Data) (ingested : List String)
    (keys : List String) (acc : ArchiveResult × Sessions) :
    acc.1.gathered.messages <+:
      (keys.foldl (readArchive page objects ingested) acc).1.gathered.messages := by
  induction keys generalizing acc with
  | nil => exact List.prefix_refl _
  | cons key rest ih => exact (readArchive_starts page objects ingested acc key).trans (ih _)

theorem readArchives_extends (page : Page) (objects : ObjectMap String Data) (ingested : List String)
    (keys : List String) (acc : ArchiveResult × Sessions) :
    Extends acc.2 (keys.foldl (readArchive page objects ingested) acc).2 := by
  induction keys generalizing acc with
  | nil => exact .refl _
  | cons key rest ih => exact (readArchive_extends acc key).trans (ih _)

/-- Where the archives yield no message, each message in them that a known session opens had
been seen. -/
theorem readArchives_nothing {keys : List String} {acc : ArchiveResult × Sessions}
    (nothing : (keys.foldl (readArchive page objects ingested) acc).1.gathered.messages =
      acc.1.gathered.messages) :
    ∀ key ∈ keys, key ∉ ingested → ∀ entries, objects.get key = some (.cbor entries) →
      ∀ e ∈ Js.ofValues entries, ∀ id k text m, IsMessage e id → acc.2 k.sessionId = some k →
        Opens page.crypto k e text → decryptedMessage page.toAccount e text = .ok m →
        id.isIn acc.1.gathered.seen = true := by
  induction keys generalizing acc with
  | nil => exact fun key member => by cases member
  | cons key rest ih =>
    have first := readArchive_starts page objects ingested acc key
    have last := readArchives_prefix page objects ingested rest
      (readArchive page objects ingested acc key)
    rw [List.foldl_cons] at nothing
    rw [nothing] at last
    have same := first.sublist.antisymm last.sublist
    have others := @ih (readArchive page objects ingested acc key) (nothing.trans same)
    -- The seen ids are those from before, and what was known is still known.
    have here : (readArchive page objects ingested acc key).1.gathered.seen = acc.1.gathered.seen ∧
        (key ∉ ingested → ∀ entries, objects.get key = some (.cbor entries) →
          ∀ e ∈ Js.ofValues entries, ∀ id k text m, IsMessage e id → acc.2 k.sessionId = some k →
            Opens page.crypto k e text → decryptedMessage page.toAccount e text = .ok m →
            id.isIn acc.1.gathered.seen = true) := by
      by_cases known : key ∈ ingested
      · exact ⟨by rw [readArchive, if_pos known], fun new => absurd known new⟩
      · rw [readArchive, if_neg known] at same ⊢
        cases there : objects.get key with
        | none => exact ⟨rfl, fun _ entries found => by cases found⟩
        | some d =>
          rw [there] at same
          cases d with
          | cbor entries =>
            have read := @readAll_nothing page.toAccount
              (learnAll page acc.1.gathered.seen (Js.ofValues entries) acc.2) (Js.ofValues entries)
              { seen := acc.1.gathered.seen } (List.self_eq_append_right.mp same)
            refine ⟨read.1, fun _ entries' found e member id k text m message held opens made => ?_⟩
            cases found
            exact read.2 e member id k text m message (learnAll_extends page _ _ _ _ _ held) opens made
          | _ => exact ⟨rfl, fun _ entries found => by cases found⟩
    intro key' member new entries found e inside id k text m message held opens made
    rcases List.mem_cons.mp member with rfl | later
    · exact here.2 new entries found e inside id k text m message held opens made
    · rw [← here.1]
      exact others key' later new entries found e inside id k text m message
        (readArchive_extends acc key _ _ held) opens made

end Archives

/-! ### Listings -/

/-- With a page for each key there is, the listing is complete. -/
theorem listAll_enough {s : State} {pre : String} (proper : pre ≠ "") {pages : Nat}
    {cursor : Option String}
    (enough : (s.objects.keysAfter (startsWith · pre) cursor).length < pages) :
    listAll s pre pages cursor = some (s.objects.keysAfter (startsWith · pre) cursor) := by
  induction pages generalizing cursor with
  | zero => cases enough
  | succ pages ih =>
    rw [listAll]
    simp only [State.listing, ObjectMap.page]
    split
    next => rfl
    next more =>
      cases last : ((s.objects.keysAfter (startsWith · pre) cursor).take STORE_LIST_LIMIT).getLast? with
      | none =>
        have empty := List.getLast?_eq_none_iff.mp last
        have size := congrArg List.length empty
        simp only [List.length_take, STORE_LIST_LIMIT, List.length_nil] at size more
        omega
      | some c =>
        have listed := List.mem_of_mem_take (List.mem_of_getLast? last)
        have below := ((ObjectMap.mem_keysAfter _ _ _ _).mp listed).2.1
        have named : c ≠ "" := by
          rintro rfl
          simp only [startsWith, List.isPrefixOf_iff_prefix] at below
          exact proper (String.toList_inj.mp (List.prefix_nil.mp below))
        have rest := ObjectMap.keysAfter_last last
        rw [Option.getD_some, if_neg named, ih, rest, Option.map_some, List.take_append_drop]
        rw [rest, List.length_drop]
        simp only [STORE_LIST_LIMIT] at more ⊢
        omega

end Atmin.Web
