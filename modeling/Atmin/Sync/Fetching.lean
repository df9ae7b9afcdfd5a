import Atmin.Interaction.Heard
import Atmin.Sync.Contracts
import Atmin.Web.Accounts

/-!
# What a sync fetches

The messages `fetchMessages` returns are decrypted from what its own requests were
answered, and every object it reads lies in the inbox of the account it was called for.
Nothing is assumed of the state it runs in.
-/

namespace Atmin.Web

open Interaction

/-- The envelopes an object holds. -/
def envelopesIn [CborDecoder] : Data → List Js
  | .json raw => [Js.ofJson raw]
  | .cbor entries => Js.ofValues entries
  | .raw _ => []

/-- The message is what the account makes of the envelope. -/
def Decrypts (account : Account) (e : Js) (m : DecryptedMessage) : Prop :=
  ∃ (k : Inbound) (payload : Js) (text : String), e.member "payload" = .ok payload ∧
    decryptPayload account k payload = .ok text ∧ decryptedMessage account e text = .ok m

/-- The message is in an object that was read from the inbox of the account. -/
def ReadIn [CborDecoder] (R : (act : Act) → Reply act → Prop) (account : Account)
    (m : DecryptedMessage) : Prop :=
  ∃ key d e, R (.storeGet key) (.ok d) ∧ startsWith key (prefixInbox account.userId.str) = true ∧
    e ∈ envelopesIn d ∧ Decrypts account e m

/-- A listing holds keys under the prefix it was asked for. -/
def Honest : (act : Act) → Reply act → Prop
  | .storeList pre _, .ok listed => ∀ key ∈ listed.keys, startsWith key pre = true
  | _, _ => True

theorem perform_honest {act : Act} {c : Outcome} {r : Reply act} {s t : State}
    (done : perform act c s = some (r, t)) : Honest act r := by
  cases act with
  | storeList pre cursor =>
    simp only [perform] at done
    obtain ⟨rfl, rfl | ⟨e, _, rfl⟩⟩ := reading_cases done
    · exact fun key member => (ObjectMap.mem_page _ _ _ _ key member).2
    · trivial
  | _ => trivial

variable {α β : Type} {R : (act : Act) → Reply act → Prop}

/-- Nothing is recorded about messages, and what the function returns satisfies `Q`. -/
abbrev Yields (R : (act : Act) → Reply act → Prop) (Q : α → Prop) (h : Async α) : Prop :=
  Prog.Given (fun act : Act => act.quiet = true) R (fun r => ∀ a, r = .ok a → Q a) h.run

namespace Yields

variable {P : α → Prop} {Q : β → Prop}

theorem pure {a : α} (holds : P a) : Yields R P (pure a : Async α) :=
  .ret fun _ same => by cases same; exact holds

theorem bind {h : Async α} {f : α → Async β} (first : Yields R P h)
    (rest : ∀ a, P a → Yields R Q (f a)) : Yields R Q (h >>= f) := by
  unfold Yields
  rw [Async.run_bind]
  refine Prog.Given.bind first fun r holds => ?_
  cases r with
  | ok a => exact rest a (holds a rfl)
  | error e => exact .ret fun _ same => nomatch same

theorem attempt {h : Async α} (yields : Yields R P h) :
    Yields R (fun r => ∀ a, r = .ok a → P a) (Atmin.Web.attempt h) :=
  Prog.Given.bind yields fun _ holds => .ret fun _ same => by cases same; exact holds

theorem ofExcept {r : Except Thrown α} (holds : ∀ a, r = .ok a → P a) :
    Yields R P (Atmin.Web.ofExcept r) :=
  .ret holds

theorem quietly {h : Async α} (quiet : Quietly h) : Yields R (fun _ => True) h :=
  (Prog.Only.given quiet).weaken fun _ _ _ _ => trivial

/-- The answer of one request. -/
theorem asked (act : Act) {p : Prog Act Reply (Except Thrown α)} (quiet : act.quiet = true)
    (k : Reply act → Except Thrown α) (same : p = .op act fun r => .ret (k r))
    (holds : ∀ r, R act r → ∀ a, k r = .ok a → P a) : Yields R P (Atmin.Web.await p) := by
  subst same
  exact .op quiet fun r heard => .ret (holds r heard)

end Yields

/-! ### Envelopes -/

theorem getInbound_fetches (sessionId : Js) : Fetches (getInbound sessionId) := by
  have load : Fetches (loadInbound sessionId) := by
    refine .bind (.await (.op rfl fun _ => .ret trivial)) fun found => ?_
    cases found with
    | some stored => exact .bind (.sync rfl) fun _ => .pure _
    | none => exact .pure _
  unfold getInbound
  split
  · refine .bind (.sync rfl) fun cached => ?_
    cases cached with
    | some stored => exact .pure _
    | none => exact load
  · exact load

theorem openMessage_messages {account : Account} {e payload : Js} {k : Inbound}
    {acc acc' : Gathered} (found : e.member "payload" = .ok payload)
    (opened : openMessage account e payload k acc = .ok acc') :
    ∀ m ∈ acc'.messages, m ∈ acc.messages ∨ Decrypts account e m := by
  unfold openMessage at opened
  obtain ⟨text, decrypted, made⟩ := except_bind_ok.mp opened
  dsimp only at made
  split at made
  next m made' =>
    cases made
    intro m' member
    rcases List.mem_append.mp member with old | new
    · exact .inl old
    · rw [List.mem_singleton.mp new]
      exact .inr ⟨k, payload, text, found, decrypted, made'⟩
  next =>
    cases made
    exact fun m' member => .inl member

/-- The messages gathered are those there were, and what the account makes of the envelopes. -/
abbrev Adds (account : Account) (es : List Js) (acc acc' : Gathered) : Prop :=
  ∀ m ∈ acc'.messages, m ∈ acc.messages ∨ ∃ e ∈ es, Decrypts account e m

theorem readEnvelope_yields (page : Page) (e : Js) (acc : Gathered) :
    Yields R (Adds page.toAccount [e] acc) (readEnvelope page e acc) := by
  unfold readEnvelope
  refine .bind (.quietly (.ofExcept _)) fun contentType _ =>
    .bind (.quietly (.ofExcept _)) fun msgId _ => ?_
  split
  next =>
    refine .bind (P := fun payload => e.member "payload" = .ok payload)
      (.ofExcept fun _ same => same) fun payload found => ?_
    refine .bind (.quietly (.ofExcept _)) fun sessionId _ =>
      .bind (.quietly (getInbound_fetches sessionId).quietly) fun inbound _ => ?_
    cases inbound with
    | some k =>
      refine .ofExcept fun acc' opened m member => ?_
      refine (openMessage_messages found opened m member).imp_right fun made => ?_
      exact ⟨e, List.mem_cons_self, made⟩
    | none => exact .pure fun m member => .inl member
  next => exact .pure fun m member => .inl member

theorem readEnvelopes_yields (page : Page) (es : List Keyed) (acc : Gathered) :
    Yields R (Adds page.toAccount (es.map Keyed.envelope) acc) (readEnvelopes page es acc) := by
  induction es generalizing acc with
  | nil => exact .pure fun m member => .inl member
  | cons e rest ih =>
    have later {acc₁ acc₂ : Gathered} (more : Adds page.toAccount (rest.map Keyed.envelope) acc₁ acc₂)
        (here : Adds page.toAccount [e.envelope] acc acc₁) :
        Adds page.toAccount ((e :: rest).map Keyed.envelope) acc acc₂ := by
      intro m member
      rcases more m member with old | ⟨e', there, made⟩
      · refine (here m old).imp_right fun made => ?_
        obtain ⟨e', first, made⟩ := made
        rw [List.mem_singleton.mp first] at made
        exact ⟨e.envelope, List.mem_cons_self, made⟩
      · exact .inr ⟨e', List.mem_cons_of_mem _ there, made⟩
    refine .bind (.attempt (readEnvelope_yields page e.envelope acc)) fun r read => ?_
    cases r with
    | ok acc₁ => exact (ih acc₁).weaken fun r more a same => later (more a same) (read acc₁ rfl)
    -- an envelope that throws adds nothing
    | error thrown =>
      exact (ih acc).weaken fun r more a same => later (more a same) fun m member => .inl member

theorem processEnvelopes_yields (page : Page) (es : List Keyed) (seen : List Js) :
    Yields R (fun g => ∀ m ∈ g.messages, ∃ e ∈ es.map Keyed.envelope, Decrypts page.toAccount e m)
      (processEnvelopes page es seen) := by
  refine .bind (.quietly (applyKeyShares_fetches page seen es).quietly) fun _ _ => ?_
  refine (readEnvelopes_yields page es { seen }).weaken fun r adds g same m member => ?_
  exact (adds g same m member).resolve_left List.not_mem_nil

/-! ### Objects -/

section Objects

variable (account : Account)

/-- The envelope was read from the inbox of the account. -/
def EnvelopeIn [CborDecoder] (R : (act : Act) → Reply act → Prop) (e : Js) : Prop :=
  ∃ key d, R (.storeGet key) (.ok d) ∧ startsWith key (prefixInbox account.userId.str) = true ∧
    e ∈ envelopesIn d

variable {account} in
theorem EnvelopeIn.read [CborDecoder] {e : Js} {m : DecryptedMessage} (inside : EnvelopeIn account R e)
    (made : Decrypts account e m) : ReadIn R account m := by
  obtain ⟨key, d, heard, within, member⟩ := inside
  exact ⟨key, d, e, heard, within, member, made⟩

theorem inbox_live {key uid : String} (within : startsWith key (prefixInboxLive uid) = true) :
    startsWith key (prefixInbox uid) = true := by
  simp only [startsWith, List.isPrefixOf_iff_prefix, prefixInboxLive, prefixInbox,
    String.toList_append] at within ⊢
  refine List.IsPrefix.trans ?_ within
  exact ⟨"live/".toList, by simp⟩

theorem inbox_archive {key uid : String} (within : startsWith key (prefixInboxArchive uid) = true) :
    startsWith key (prefixInbox uid) = true := by
  simp only [startsWith, List.isPrefixOf_iff_prefix, prefixInboxArchive, prefixInbox,
    String.toList_append] at within ⊢
  refine List.IsPrefix.trans ?_ within
  exact ⟨"archive/".toList, by simp⟩

theorem fetchEnvelope_yields [CborDecoder] {key : String}
    (within : startsWith key (prefixInbox account.userId.str) = true) :
    Yields R (fun k => EnvelopeIn account R k.envelope) (fetchEnvelope key) := by
  refine .bind (P := fun d => R (.storeGet key) (.ok d))
    (.asked (.storeGet key) rfl (fun r => r) rfl fun r heard d same => by
      subst same
      exact heard) fun d heard => ?_
  cases d with
  | json raw =>
    exact .bind (P := fun e => e = Js.ofJson raw) (.ofExcept fun e same => by cases same; rfl)
      fun e same => .pure ⟨key, _, heard, within, by rw [same]; exact List.mem_cons_self⟩
  | raw _ | cbor _ =>
    exact .bind (P := fun _ => False) (.ofExcept fun _ same => nomatch same) fun _ => False.elim

theorem fetchEnvelopes_yields [CborDecoder] {keys : List String}
    (within : ∀ key ∈ keys, startsWith key (prefixInbox account.userId.str) = true) :
    Yields R (fun es => ∀ k ∈ es, EnvelopeIn account R k.envelope) (fetchEnvelopes keys) := by
  induction keys with
  | nil => exact .pure fun _ member => absurd member List.not_mem_nil
  | cons key rest ih =>
    refine .bind (.attempt (fetchEnvelope_yields account (within key List.mem_cons_self)))
      fun fetched first => ?_
    refine .bind (ih fun other member => within other (List.mem_cons_of_mem _ member))
      fun more others => .pure fun k member => ?_
    rcases List.mem_append.mp member with here | there
    · cases fetched with
      | error e => cases here
      | ok k' =>
        rw [List.mem_singleton.mp here]
        exact first k' rfl
    · exact others k there

theorem fetchArchive_yields [CborDecoder] {key : String}
    (within : startsWith key (prefixInbox account.userId.str) = true) :
    Yields R (fun es => ∀ e ∈ es, EnvelopeIn account R e) (fetchArchive key) := by
  refine .bind (P := fun d => R (.storeGet key) (.ok d))
    (.asked (.storeGet key) rfl (fun r => r) rfl fun r heard d same => by
      subst same
      exact heard) fun d heard => ?_
  cases d with
  | cbor entries =>
    refine .ofExcept fun es same e member => ?_
    cases same
    exact ⟨key, _, heard, within, member⟩
  | raw _ | json _ => exact .ofExcept fun _ same => nomatch same

end Objects

/-! ### The requests of a sync -/

section Requests

variable (page : Page)

theorem readEnvelope_fetches (e : Js) (acc : Gathered) : Fetches (readEnvelope page e acc) := by
  refine .bind (.ofExcept _) fun _ => .bind (.ofExcept _) fun _ => ?_
  split
  next =>
    refine .bind (.ofExcept _) fun _ => .bind (.ofExcept _) fun sessionId =>
      .bind (getInbound_fetches sessionId) fun inbound => ?_
    cases inbound with
    | some k => exact .ofExcept _
    | none => exact .pure _
  next => exact .pure _

theorem readEnvelopes_fetches (es : List Keyed) (acc : Gathered) :
    Fetches (readEnvelopes page es acc) := by
  induction es generalizing acc with
  | nil => exact .pure _
  | cons e rest ih =>
    refine .bind (.attempt (readEnvelope_fetches page e.envelope acc)) fun read => ?_
    cases read with
    | ok acc' => exact ih acc'
    | error thrown => exact ih acc

theorem processEnvelopes_fetches (es : List Keyed) (seen : List Js) :
    Fetches (processEnvelopes page es seen) :=
  .bind (applyKeyShares_fetches page seen es) fun _ => readEnvelopes_fetches page es _

theorem fetchEnvelopes_fetches (keys : List String) : Fetches (fetchEnvelopes keys) := by
  induction keys with
  | nil => exact .pure _
  | cons key rest ih =>
    refine .bind (.attempt ?_) fun _ => .bind ih fun _ => .pure _
    exact .bind (.await (.op rfl fun _ => .ret trivial)) fun _ => .bind (.ofExcept _) fun _ => .pure _

theorem syncLive_fetches : Fetches (syncLive page) :=
  .bind (.await (.op rfl fun _ => .ret trivial)) fun cursor =>
    .bind (listLive_fetches _ cursor) fun _ => .bind (fetchEnvelopes_fetches _) fun es =>
      .bind (processEnvelopes_fetches page es []) fun _ => .pure _

theorem storeListAll_fetches (pre : String) (pages : Nat) (cursor : Option String) :
    Fetches (storeListAll pre pages cursor) := by
  induction pages generalizing cursor with
  | zero => exact .ofExcept _
  | succ n ih =>
    refine .bind (.await (.op rfl fun _ => .ret trivial)) fun listed => ?_
    split
    · exact .pure _
    · exact .bind (ih _) fun _ => .pure _

theorem readArchives_fetches [CborDecoder] (ingested keys : List String) (acc : ArchiveResult) :
    Fetches (readArchives page ingested keys acc) := by
  induction keys generalizing acc with
  | nil => exact .pure _
  | cons key rest ih =>
    unfold readArchives
    split
    · exact ih acc
    · refine .bind (.attempt (.bind (.await (.op rfl fun _ => .ret trivial)) fun _ => .ofExcept _))
        fun fetched => ?_
      cases fetched with
      | error e => exact ih acc
      | ok es => exact .bind (processEnvelopes_fetches page _ _) fun _ => ih _

theorem syncArchive_fetches [CborDecoder] (seen : List Js) : Fetches (syncArchive page seen) := by
  refine .bind (.await (.op rfl fun _ => .ret trivial)) fun ingested =>
    .bind (.attempt (storeListAll_fetches _ _ _)) fun listed => ?_
  cases listed with
  | error e => exact .pure _
  | ok keys => exact readArchives_fetches page ingested keys _

theorem fetchMessages_fetches [CborDecoder] : Fetches (fetchMessages page) :=
  .bind (syncLive_fetches page) fun live => .bind (.await (.op rfl fun _ => .ret trivial)) fun _ =>
    .bind (syncArchive_fetches page _) fun _ => .bind (persistInbounds_fetches _) fun _ =>
      .bind (advanceCursor_fetches page live) fun _ => .bind (triggerFlush_fetches page) fun _ => .pure _

end Requests

/-! ### Passes -/

variable (honest : ∀ act r, R act r → Honest act r)
include honest

theorem listLive_yields (pre : String) (cursor : Option String) :
    Yields R (fun listed => ∀ key ∈ listed.keys, startsWith key pre = true) (listLive pre cursor) := by
  have page (cursor : Option String) :
      Yields R (fun listed => ∀ key ∈ listed.keys, startsWith key pre = true)
        (await (step (.storeList pre cursor))) :=
    .asked (.storeList pre cursor) rfl (fun r => r) rfl fun r heard listed same => by
      subst same
      exact honest _ _ heard
  refine .bind (.attempt (page cursor)) fun r first => ?_
  cases r with
  | ok listed => exact .pure (first listed rfl)
  | error e => exact page none

theorem storeListAll_yields (pre : String) (pages : Nat) (cursor : Option String) :
    Yields R (fun keys => ∀ key ∈ keys, startsWith key pre = true) (storeListAll pre pages cursor) := by
  induction pages generalizing cursor with
  | zero => exact .ofExcept fun _ same => nomatch same
  | succ n ih =>
    refine .bind (P := fun listed => ∀ key ∈ listed.keys, startsWith key pre = true)
      (.asked (.storeList pre cursor) rfl (fun r => r) rfl fun r heard listed same => by
        subst same
        exact honest _ _ heard) fun listed here => ?_
    split
    · exact .pure here
    · refine .bind (ih _) fun more there => .pure fun key member => ?_
      exact (List.mem_append.mp member).elim (here key) (there key)

variable (page : Page)

theorem syncLive_yields [CborDecoder] : Yields R (fun live =>
    ∀ m ∈ live.gathered.messages, ReadIn R page.toAccount m) (syncLive page) := by
  refine .bind (.quietly (.await (.op rfl fun _ => .ret trivial))) fun cursor _ => ?_
  refine .bind (listLive_yields honest _ cursor) fun listed keys => ?_
  refine .bind (fetchEnvelopes_yields page.toAccount fun key member =>
    inbox_live (keys key member)) fun es fetched => ?_
  refine .bind (processEnvelopes_yields page es []) fun g processed => .pure fun m member => ?_
  obtain ⟨e, there, made⟩ := processed m member
  obtain ⟨k, here, rfl⟩ := List.mem_map.mp there
  exact (fetched k here).read made

omit honest in
theorem readArchives_yields [CborDecoder] (ingested : List String) {keys : List String}
    (within : ∀ key ∈ keys, startsWith key (prefixInbox page.userId.str) = true)
    {acc : ArchiveResult} (known : ∀ m ∈ acc.gathered.messages, ReadIn R page.toAccount m) :
    Yields R (fun acc' => ∀ m ∈ acc'.gathered.messages, ReadIn R page.toAccount m)
      (readArchives page ingested keys acc) := by
  induction keys generalizing acc with
  | nil => exact .pure known
  | cons key rest ih =>
    have others := fun other member => within other (List.mem_cons_of_mem key member)
    unfold readArchives
    split
    · exact ih others known
    · -- a failed download is passed over
      refine .bind (.attempt (fetchArchive_yields page.toAccount
        (within key List.mem_cons_self))) fun fetched first => ?_
      cases fetched with
      | error e => exact ih others known
      | ok es =>
        refine .bind (processEnvelopes_yields page _ _) fun one processed => ?_
        refine ih others fun m member => ?_
        rcases List.mem_append.mp member with old | new
        · exact known m old
        · obtain ⟨e, there, made⟩ := processed m new
          obtain ⟨k, keyed, rfl⟩ := List.mem_map.mp there
          obtain ⟨e', here, rfl⟩ := List.mem_map.mp keyed
          exact (first es rfl e' here).read made

theorem syncArchive_yields [CborDecoder] (seen : List Js) : Yields R (fun acc =>
    ∀ m ∈ acc.gathered.messages, ReadIn R page.toAccount m) (syncArchive page seen) := by
  refine .bind (.quietly (.await (.op rfl fun _ => .ret trivial))) fun ingested _ => ?_
  refine .bind (.attempt (storeListAll_yields honest _ _ _)) fun r listed => ?_
  cases r with
  | error e => exact .pure fun _ member => absurd member List.not_mem_nil
  | ok keys =>
    exact readArchives_yields page ingested
      (fun key member => inbox_archive (listed keys rfl key member))
      fun _ member => absurd member List.not_mem_nil

/-- Every message of a sync was read from the inbox of the account it was started for. -/
theorem fetchMessages_yields [CborDecoder] : Yields R (fun result =>
    ∀ m ∈ result.messages, ReadIn R page.toAccount m) (fetchMessages page) := by
  refine .bind (syncLive_yields honest page) fun live fromLive => ?_
  refine .bind (.quietly (.await (.op rfl fun _ => .ret trivial))) fun stored _ => ?_
  refine .bind (syncArchive_yields honest page _) fun archive fromArchive => ?_
  refine .bind (.quietly (persistInbounds_fetches _).quietly) fun _ _ =>
    .bind (.quietly (advanceCursor_fetches page live).quietly) fun _ _ =>
    .bind (.quietly (triggerFlush_fetches page).quietly) fun _ _ => .pure fun m member => ?_
  rcases List.mem_append.mp ((List.mem_insertionSort _).mp member) with here | there
  · exact fromLive m here
  · exact fromArchive m there

end Atmin.Web
