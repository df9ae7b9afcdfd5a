import Atmin.Inbox.Contracts
import Atmin.Server.Log

/-!
# The mailbox invariant

What holds of one user's live inbox and archives while deliveries and compactions
interleave and may fail at any request. An archive is written once, under an id its
writer has just drawn, and deleted only after a later archive holds all it held.
-/

namespace Atmin

open Interaction

/-- A delivery by anybody, or a compaction. -/
inductive InboxRequest where
  | send (token : Option String) (body : Option Json)
  | compact (pages : Nat) (token : Option String) (body : Option Json)

namespace InboxRequest

def run (env : Env) : InboxRequest → Handler Unit
  | send token body => Atmin.send env token body
  | compact pages token body => do
    let _ ← storeCompact env pages token body
    pure ()

/-- The envelopes that a delivery may write. -/
def Carries (env : Env) (raw : Json) (h : EnvelopeHeader) : InboxRequest → Prop
  | send token body => ∃ user envelopes, Token.identity env token = some user ∧
      body.bind sendEnvelopes = some envelopes ∧ raw ∈ envelopes ∧
      EnvelopeHeader.fromJson raw = some h ∧
      h.fromUser = user.userId.str ∧ h.fromDevice = user.deviceId.str
  | compact .. => False

theorem Carries.header {env : Env} {raw : Json} {h : EnvelopeHeader} {r : InboxRequest}
    (carries : r.Carries env raw h) : EnvelopeHeader.fromJson raw = some h := by
  cases r with
  | send token body =>
    obtain ⟨_, _, _, _, _, header, _⟩ := carries
    exact header
  | compact => exact carries.elim

/-- A compaction is one of this user's live inbox. -/
def OnInbox (env : Env) (u : UserId) : InboxRequest → Prop
  | send .. => True
  | compact _ token body => (∀ user, Token.identity env token = some user → user.userId = u) ∧
      ∀ req, body.bind CompactRequest.fromJson = some req → req.pre = prefixInboxLive u.str

end InboxRequest

/-- The entry of an archive that an envelope becomes. -/
def entryOf (raw : Json) : Option Value := Value.ofJson jsonDepth raw

/-- The id at the end of an archive's key. -/
def archiveId (key : String) : String := String.ofList (key.toList.drop (key.toList.length - 26))

section Mailbox

variable {ι : Type} (env : Env) (u : UserId) (req : ι → InboxRequest) (s0 : Sys ι)

/-- `raw` is sent to this user under `msg_id`. -/
def Mail (raw : Json) (msgId : String) : Prop :=
  ∃ i h, (req i).Carries env raw h ∧ h.toUser = u.str ∧ h.msgId = msgId

/-- An entry under a `msg_id` that is sent is that envelope's entry. -/
def Agrees (x : Value) : Prop :=
  ∀ raw msgId, Mail env u req raw msgId → Cbor.getText x "msg_id" = some msgId →
    entryOf raw = some x

/-- The entry of some envelope sent to this user. -/
def Wanted (x : Value) : Prop := ∃ raw msgId, Mail env u req raw msgId ∧ entryOf raw = some x

def InArchive (key : String) : Prop := startsWith key (prefixInboxArchive u.str) = true

def InLive (key : String) : Prop := startsWith key (prefixInboxLive u.str) = true

/-- Something was once put under this key. -/
def Used (key : String) (s : Log ι) : Prop :=
  (s0.objects.get key).isSome = true ∨ ∃ e ∈ s.trace, (e.op.puts key).isSome = true

/-- Slot `i` drew this id. -/
def Minted (i : ι) (id : String) (s : Log ι) : Prop := ⟨i, .newUlid, id⟩ ∈ s.trace

/-- Some archive holds the entry, under an id not in `older`. -/
def CoveredSince (older : List String) (x : Value) (s : Log ι) : Prop :=
  ∃ key entries, InArchive u key ∧ archiveId key ∉ older ∧
    s.state.objects.get key = some (.cbor entries) ∧ x ∈ entries

/-- The envelope is in the live inbox or in an archive. -/
def Delivered (raw : Json) (msgId : String) (s : Log ι) : Prop :=
  s.state.objects.get (keyInboxLive u.str msgId) = some (.json raw) ∨
    ∃ x, entryOf raw = some x ∧ CoveredSince u [] x s

/-- The invariant. -/
structure Mailbox (s : Log ι) : Prop where
  live : ∀ raw msgId d, Mail env u req raw msgId →
    s.state.objects.get (keyInboxLive u.str msgId) = some d → d = .json raw
  agreeLive : ∀ key d x, InLive u key → s.state.objects.get key = some d → d.asValue = some x →
    Agrees env u req x
  agreeArchive : ∀ key entries x, InArchive u key →
    s.state.objects.get key = some (.cbor entries) → x ∈ entries → Agrees env u req x
  used : ∀ key, InArchive u key → (s.state.objects.get key).isSome = true → Used s0 key s
  issued : ∀ key, InArchive u key → Used s0 key s → archiveId key ∈ s.state.issued
  minted : ∀ i id, Minted i id s → id ∈ s.state.issued
  mintedOnce : ∀ i j id, Minted i id s → Minted j id s → i = j

/-- What one request may change: `mine` are the slots whose own ids it leaves alone. -/
structure Change (mine : ι → Prop) (s t : Log ι) : Prop where
  issued : s.state.issued <:+ t.state.issued
  minted : ∀ i id, Minted i id s → Minted i id t
  used : ∀ key, Used s0 key s → Used s0 key t
  fresh : ∀ i key, mine i → InArchive u key → Minted i (archiveId key) s → Used s0 key t →
    Used s0 key s
  archives : ∀ key d, InArchive u key → Used s0 key s → t.state.objects.get key = some d →
    s.state.objects.get key = some d
  covered : ∀ older x, older <:+ s.state.issued → Wanted env u req x →
    CoveredSince u older x s → CoveredSince u older x t
  delivered : ∀ raw msgId, Mail env u req raw msgId → Delivered u raw msgId s →
    Delivered u raw msgId t

def mailRules : Rules ι (Log ι) where
  inv := Mailbox env u req s0
  guar i := Change env u req s0 fun j => j ≠ i
  rely i := Change env u req s0 fun j => j = i
  compat i j differ s t _ _ change := by
    refine { change with fresh := fun k key same => change.fresh k key ?_ }
    rw [same]
    exact Ne.symm differ

end Mailbox

/-! ### Keys -/

theorem archiveId_append {a id : String} (size : id.toList.length = 26) :
    archiveId (a ++ id) = id := by
  apply String.toList_inj.mp
  simp [archiveId, size]

theorem live_not_archive {u : UserId} {key : String} (live : InLive u key) : ¬ InArchive u key := by
  intro archive
  simp only [InLive, InArchive, startsWith, List.isPrefixOf_iff_prefix, prefixInboxLive,
    prefixInboxArchive, String.toList_append] at live archive
  obtain ⟨x, first⟩ := live
  obtain ⟨y, second⟩ := archive
  rw [← second, List.append_assoc, List.append_assoc] at first
  have tails := List.append_cancel_left first
  simp at tails

theorem live_key (u : UserId) (msgId : String) : InLive u (keyInboxLive u.str msgId) := by
  simp only [InLive, startsWith, List.isPrefixOf_iff_prefix, prefixInboxLive, keyInboxLive,
    String.toList_append]
  exact List.prefix_append _ _

theorem live_key_inj {u a b : String} (same : keyInboxLive u a = keyInboxLive u b) : a = b :=
  append_left_inj same

/-- The keys of two users' inboxes differ. -/
theorem other_inbox {u v : UserId} (differ : v ≠ u) (msgId : String) :
    ¬ startsWith (keyInboxLive v.str msgId) (prefixInbox u.str) = true := by
  intro within
  simp only [startsWith, List.isPrefixOf_iff_prefix, prefixInbox, keyInboxLive,
    String.toList_append] at within
  obtain ⟨rest, same⟩ := within
  simp only [List.append_assoc] at same
  have tails := List.append_cancel_left same
  have size : u.str.toList.length = v.str.toList.length := by
    rw [validateUlid_length u.ulid, validateUlid_length v.ulid]
  have ids := (List.append_inj tails size).1
  have strs : u.str = v.str := String.toList_inj.mp ids
  cases u
  cases v
  cases strs
  exact differ rfl

theorem inbox_of_live {u : UserId} {key : String} (live : InLive u key) :
    startsWith key (prefixInbox u.str) = true := by
  refine startsWith_trans live ?_
  simp only [startsWith, List.isPrefixOf_iff_prefix, prefixInbox, prefixInboxLive,
    String.toList_append, List.append_assoc]
  exact List.prefix_append_right_inj _ |>.mpr (List.prefix_append_right_inj _ |>.mpr ⟨_, rfl⟩)

theorem inbox_of_archive {u : UserId} {key : String} (archive : InArchive u key) :
    startsWith key (prefixInbox u.str) = true := by
  refine startsWith_trans archive ?_
  simp only [startsWith, List.isPrefixOf_iff_prefix, prefixInbox, prefixInboxArchive,
    String.toList_append, List.append_assoc]
  exact List.prefix_append_right_inj _ |>.mpr (List.prefix_append_right_inj _ |>.mpr ⟨_, rfl⟩)

/-! ### Envelopes and their entries -/

/-- A named member of an entry is that member of the text. -/
theorem get_ofFields {depth : Nat} {fields : List (String × Json)} {pairs : List (Value × Value)}
    (read : Value.ofFields depth fields = some pairs) (name : String) :
    Cbor.get (.map pairs) name = (Json.lookup fields name).bind (Value.ofJson depth) := by
  induction fields generalizing pairs with
  | nil =>
    rw [Value.ofFields] at read
    cases read
    rfl
  | cons field rest ih =>
    obtain ⟨n, j⟩ := field
    rw [Value.ofFields] at read
    split at read
    next v vs first others =>
      cases read
      by_cases same : n = name
      · subst same
        simp [Cbor.get, first]
      · rw [Json.lookup_cons_ne same, ← ih others]
        simp [Cbor.get, same]
    next => cases read

/-- The `msg_id` of an envelope's entry is the one it is stored under. -/
theorem entry_msgId {raw : Json} {h : EnvelopeHeader} {x : Value} {msgId : String}
    (header : EnvelopeHeader.fromJson raw = some h) (entry : entryOf raw = some x)
    (named : Cbor.getText x "msg_id" = some msgId) : msgId = h.msgId := by
  have text {v : Value} (got : Cbor.get v "msg_id" = some (.text msgId)) (whole : v = x) :
      Cbor.get x "msg_id" = some (.text msgId) := by rw [← whole, got]
  have got : Cbor.get x "msg_id" = some (.text msgId) := by
    unfold Cbor.getText at named
    split at named
    next s found => rw [found]; cases named; rfl
    next => cases named
  cases raw with
  | obj fields =>
    rw [entryOf, Value.ofJson] at entry
    split at entry
    next => cases entry
    next =>
      obtain ⟨pairs, read, rfl⟩ := Option.map_eq_some_iff.mp entry
      rw [get_ofFields read] at got
      obtain ⟨j, found, decoded⟩ := Option.bind_eq_some_iff.mp got
      -- only a JSON string becomes a text
      have str : j = .str msgId := by
        cases j <;> simp only [Value.ofJson] at decoded
        case str s => cases decoded; rfl
        case num n =>
          cases n <;> simp only [Value.ofNumber, Value.ofReal] at decoded <;>
            (repeat' split at decoded) <;> cases decoded
        case arr xs =>
          split at decoded
          · cases decoded
          · obtain ⟨_, _, wrong⟩ := Option.map_eq_some_iff.mp decoded
            cases wrong
        case obj fs =>
          split at decoded
          · cases decoded
          · obtain ⟨_, _, wrong⟩ := Option.map_eq_some_iff.mp decoded
            cases wrong
        all_goals cases decoded
      subst str
      simp only [EnvelopeHeader.fromJson, Json.members] at header
      split at header
      · simp only [Option.bind_eq_bind, Option.bind_some, Option.bind_eq_some_iff] at header
        obtain ⟨_, _, _, _, _, _, id, read, made⟩ := header
        rw [found] at read
        cases read
        cases made
        rfl
      · cases header
  -- an array has no members
  | arr xs =>
    rw [entryOf, Value.ofJson] at entry
    split at entry
    · cases entry
    · obtain ⟨vs, _, rfl⟩ := Option.map_eq_some_iff.mp entry
      cases got
  | _ => cases header

namespace Cbor

/-- Deduplication keeps an entry that shares its `msg_id` with no other entry. -/
theorem mem_deduplicateFrom {x : Value} {seen : List String} {xs : List Value} (member : x ∈ xs)
    (alone : ∀ y ∈ xs, ∀ id, getText x "msg_id" = some id → getText y "msg_id" = some id → y = x)
    (unseen : ∀ id, getText x "msg_id" = some id → id ∉ seen) : x ∈ deduplicateFrom seen xs := by
  induction xs generalizing seen with
  | nil => cases member
  | cons y rest ih =>
    have later (seen' : List String)
        (unseen' : ∀ id, getText x "msg_id" = some id → id ∉ seen') (other : x ∈ rest) :
        x ∈ deduplicateFrom seen' rest :=
      ih other (fun z h => alone z (List.mem_cons_of_mem _ h)) unseen'
    unfold deduplicateFrom
    cases id : getText y "msg_id" with
    | none =>
      rcases List.mem_cons.mp member with rfl | other
      · exact List.mem_cons_self
      · exact List.mem_cons_of_mem _ (later seen unseen other)
    | some id' =>
      dsimp only
      by_cases mine : getText x "msg_id" = some id'
      · have same := alone y List.mem_cons_self id' mine id
        subst same
        rw [if_neg (unseen id' mine)]
        exact List.mem_cons_self
      · have other : x ∈ rest := by
          rcases List.mem_cons.mp member with rfl | other
          · exact absurd id mine
          · exact other
        split
        · exact later seen unseen other
        · refine List.mem_cons_of_mem _ (later _ (fun id named member => ?_) other)
          rcases List.mem_cons.mp member with rfl | old
          · exact mine named
          · exact unseen id named old

theorem deduplicate_subset {seen : List String} {xs : List Value} {x : Value}
    (member : x ∈ deduplicateFrom seen xs) : x ∈ xs := by
  induction xs generalizing seen with
  | nil => cases member
  | cons y rest ih =>
    unfold deduplicateFrom at member
    split at member
    next =>
      split at member
      · exact List.mem_cons_of_mem _ (ih member)
      · rcases List.mem_cons.mp member with rfl | later
        · exact List.mem_cons_self
        · exact List.mem_cons_of_mem _ (ih later)
    next =>
      rcases List.mem_cons.mp member with rfl | later
      · exact List.mem_cons_self
      · exact List.mem_cons_of_mem _ (ih later)

end Cbor

end Atmin
