import Atmin.Inbox.Steps

/-!
# Compaction keeps the mailbox

A run of compaction carries, from its first listing to its delete, what each key it will
delete still stands for: a live key for an envelope that is among the entries read or
archived elsewhere, an archive key for entries that are all among those read.
-/

namespace Atmin

open Interaction

section Compaction

variable {ι : Type} {env : Env} {u : UserId} {req : ι → InboxRequest} {s0 : Sys ι} {i : ι}

/-! ### What a compaction knows of its keys -/

section Assertions

variable (env u req s0)

/-- An assertion that survives whatever a request may do, its own archive write included. -/
def Lasting (A : Log ι → Prop) : Prop :=
  ∀ mine s t, Change env u req s0 mine s t → A s → A t

abbrev MailAssertion (i : ι) := (mailRules env u req s0).Assertion i

def ListedLive (key : String) (s : Log ι) : Prop :=
  InLive u key ∧ ∀ raw msgId, Mail env u req raw msgId → key = keyInboxLive u.str msgId →
    Delivered u raw msgId s

def ReadLive (key : String) (entries : List Value) (s : Log ι) : Prop :=
  InLive u key ∧ ∀ raw msgId, Mail env u req raw msgId → key = keyInboxLive u.str msgId →
    ∃ x, entryOf raw = some x ∧ (x ∈ entries ∨ CoveredSince u [] x s)

def ListedArchive (key : String) (s : Log ι) : Prop := InArchive u key ∧ Used s0 key s

def ReadArchive (key : String) (entries : List Value) (s : Log ι) : Prop :=
  ListedArchive u s0 key s ∧ ∀ d, s.state.objects.get key = some d →
    ∃ es, d = .cbor es ∧ ∀ x ∈ es, x ∈ entries

/-- Slot `i` drew `id` and has not put anything under it. -/
def Pending (i : ι) (id : String) (s : Log ι) : Prop :=
  Minted i id s ∧ ∀ key, InArchive u key → archiveId key = id → ¬ Used s0 key s

/-- The entries stand in archives younger than `older`. -/
def Archived (older : List String) (entries : List Value) (s : Log ι) : Prop :=
  older <:+ s.state.issued ∧ ∀ x ∈ entries, Wanted env u req x → CoveredSince u older x s

variable {env u req s0}

theorem Lasting.stable {A : Log ι → Prop} (lasting : Lasting env u req s0 A) :
    (mailRules env u req s0).Stable i A :=
  fun s t _ _ change => lasting _ s t change

theorem lasting_listedLive (key : String) : Lasting env u req s0 (ListedLive env u req key) :=
  fun _ _ _ change listed => ⟨listed.1, fun raw msgId mail same =>
    change.delivered raw msgId mail (listed.2 raw msgId mail same)⟩

theorem lasting_readLive (key : String) (entries : List Value) :
    Lasting env u req s0 (ReadLive env u req key entries) := by
  intro mine s t change read
  refine ⟨read.1, fun raw msgId mail same => ?_⟩
  obtain ⟨x, entry, here⟩ := read.2 raw msgId mail same
  exact ⟨x, entry, here.imp_right
    (change.covered [] x List.nil_suffix ⟨raw, msgId, mail, entry⟩)⟩

theorem lasting_listedArchive (key : String) : Lasting env u req s0 (ListedArchive u s0 key) :=
  fun _ _ _ change listed => ⟨listed.1, change.used key listed.2⟩

theorem lasting_readArchive (key : String) (entries : List Value) :
    Lasting env u req s0 (ReadArchive u s0 key entries) := by
  intro mine s t change read
  refine ⟨lasting_listedArchive key mine s t change read.1, fun d found => ?_⟩
  exact read.2 d (change.archives key d read.1.1 read.1.2 found)

theorem stable_pending (id : String) :
    (mailRules env u req s0).Stable i (Pending u s0 i id) := by
  intro s t _ _ change pending
  refine ⟨change.minted i id pending.1, fun key archive same used => ?_⟩
  have drew : Minted i (archiveId key) s := same ▸ pending.1
  exact pending.2 key archive same (change.fresh i key rfl archive drew used)

theorem stable_archived (older : List String) (entries : List Value) :
    (mailRules env u req s0).Stable i (Archived env u req older entries) := by
  intro s t _ _ change archived
  exact ⟨archived.1.trans change.issued, fun x member wanted =>
    change.covered older x archived.1 wanted (archived.2 x member wanted)⟩

def liveListed (key : String) : MailAssertion env u req s0 i :=
  ⟨ListedLive env u req key, (lasting_listedLive key).stable⟩

def liveRead (key : String) (entries : List Value) : MailAssertion env u req s0 i :=
  ⟨ReadLive env u req key entries, (lasting_readLive key entries).stable⟩

def archiveListed (key : String) : MailAssertion env u req s0 i :=
  ⟨ListedArchive u s0 key, (lasting_listedArchive key).stable⟩

def archiveRead (key : String) (entries : List Value) : MailAssertion env u req s0 i :=
  ⟨ReadArchive u s0 key entries, (lasting_readArchive key entries).stable⟩

def pending (id : String) : MailAssertion env u req s0 i := ⟨Pending u s0 i id, stable_pending id⟩

def archived (older : List String) (entries : List Value) : MailAssertion env u req s0 i :=
  ⟨Archived env u req older entries, stable_archived older entries⟩

/-- All keys of a compaction, with the entries read from them. -/
def inHand (live archives : List String) (new existing : List Value) :
    MailAssertion env u req s0 i :=
  (Rules.Assertion.each live fun key => liveRead key new).and
    (.each archives fun key => archiveRead key existing)

theorem lasting_inHand {live archives : List String} {new existing : List Value} :
    Lasting env u req s0 (inHand live archives new existing : MailAssertion env u req s0 i) := by
  intro mine s t change hand
  refine ⟨fun key member => ?_, fun key member => ?_⟩
  · exact lasting_readLive key new mine s t change (hand.1 key member)
  · exact lasting_readArchive key existing mine s t change (hand.2 key member)

end Assertions

/-! ### The requests of a compaction -/

section Requests

abbrev MailServes (env : Env) (u : UserId) (req : ι → InboxRequest) (s0 : Sys ι) (i : ι) (o : Op)
    (P : Log ι → Prop) (R : Res o → Log ι → Prop) : Prop :=
  Serves (mailRules env u req s0) Recorded i o P R

theorem lists_live (posting : Posting env u req) :
    Lists (mailRules env u req s0) Recorded i (prefixInboxLive u.str) liveListed := by
  intro limit cursor
  refine (passive_unnoticed posting _ rfl).serves (.pure True) fun s r t mailbox _ served => ?_
  intro page listed key member
  obtain ⟨same, reply⟩ := served_listObjects served.1
  have found : r = .ok (s.state.listing (prefixInboxLive u.str) limit cursor) := by
    rcases reply with found | ⟨_, _, _, fault⟩
    · exact found
    · rw [fault] at listed
      cases listed
  rw [found] at listed
  cases listed
  obtain ⟨⟨d, here⟩, live⟩ := ObjectMap.mem_page _ _ _ _ _ member
  refine ⟨live, fun raw msgId mail key_eq => .inl ?_⟩
  rw [key_eq] at here
  rw [same, here, mailbox.live raw msgId d mail here]

theorem lists_archives (posting : Posting env u req) (day : String) :
    Lists (mailRules env u req s0) Recorded i (prefixInboxArchive u.str ++ day) archiveListed := by
  intro limit cursor
  refine (passive_unnoticed posting _ rfl).serves (.pure True) fun s r t mailbox _ served => ?_
  intro page listed key member
  obtain ⟨_, reply⟩ := served_listObjects served.1
  have found : r = .ok (s.state.listing (prefixInboxArchive u.str ++ day) limit cursor) := by
    rcases reply with found | ⟨_, _, _, fault⟩
    · exact found
    · rw [fault] at listed
      cases listed
  rw [found] at listed
  cases listed
  obtain ⟨⟨d, here⟩, within⟩ := ObjectMap.mem_page _ _ _ _ _ member
  have archive : InArchive u key := startsWith_trans within (startsWith_append _ _)
  refine ⟨archive, (used_served served key).mpr (.inr ?_)⟩
  exact mailbox.used key archive (by rw [here]; rfl)

theorem reads_live (posting : Posting env u req) (key : String) :
    MailServes env u req s0 i (.getObject key) (ListedLive env u req key) fun r t =>
      (r = .error .notFound → ReadLive env u req key [] t) ∧
        ∀ d es, r = .ok d → (d.asValue.map fun v => [v]) = some es →
          ReadLive env u req key es t ∧ ∀ x ∈ es, Agrees env u req x := by
  refine (passive_unnoticed posting _ rfl).serves (liveListed key) fun s r t mailbox listed served => ?_
  obtain ⟨same, reply⟩ := served_getObject served.1
  refine ⟨fun missing => ⟨listed.1, fun raw msgId mail key_eq => ?_⟩, fun d es ok decoded => ?_⟩
  · have absent : s.state.objects.get key = none := by
      rcases reply with found | ⟨_, _, _, fault⟩
      · rw [missing] at found
        unfold Sys.lookup at found
        split at found
        next => cases found
        next none_ => exact none_
      · rw [missing] at fault
        cases fault
    -- The key was listed, so the envelope had arrived; now only an archive can hold it.
    rcases listed.2 raw msgId mail key_eq with live | ⟨x, entry, cover⟩
    · rw [← key_eq, absent] at live
      cases live
    · refine ⟨x, entry, .inr ?_⟩
      unfold CoveredSince
      rw [same]
      exact cover
  · have here : s.state.objects.get key = some d := by
      rcases reply with found | ⟨_, _, _, fault⟩
      · exact lookup_eq_ok.mp (found.symm.trans ok)
      · rw [ok] at fault
        cases fault
    obtain ⟨x, value, rfl⟩ := Option.map_eq_some_iff.mp decoded
    refine ⟨⟨listed.1, fun raw msgId mail key_eq => ⟨x, ?_, .inl List.mem_cons_self⟩⟩, ?_⟩
    · rw [key_eq] at here
      rw [mailbox.live raw msgId d mail here] at value
      exact value
    · intro y member
      rw [List.mem_singleton.mp member]
      exact mailbox.agreeLive key d x listed.1 here value

theorem reads_archive (posting : Posting env u req) (key : String) :
    MailServes env u req s0 i (.getObject key) (ListedArchive u s0 key) fun r t =>
      (r = .error .notFound → ReadArchive u s0 key [] t) ∧
        ∀ d es, r = .ok d → Cbor.decodeArchive d = some es →
          ReadArchive u s0 key es t ∧ ∀ x ∈ es, Agrees env u req x := by
  refine (passive_unnoticed posting _ rfl).serves (archiveListed key)
    fun s r t mailbox listed served => ?_
  obtain ⟨same, reply⟩ := served_getObject served.1
  have used : Used s0 key t := (used_served served key).mpr (.inr listed.2)
  refine ⟨fun missing => ⟨⟨listed.1, used⟩, fun d found => ?_⟩, fun d es ok decoded => ?_⟩
  · rw [same] at found
    rcases reply with read | ⟨_, _, _, fault⟩
    · rw [missing, lookup_eq_ok.mpr found] at read
      cases read
    · rw [missing] at fault
      cases fault
  · have here : s.state.objects.get key = some d := by
      rcases reply with found | ⟨_, _, _, fault⟩
      · exact lookup_eq_ok.mp (found.symm.trans ok)
      · rw [ok] at fault
        cases fault
    cases d <;> cases decoded
    refine ⟨⟨⟨listed.1, used⟩, fun d found => ?_⟩, fun x member => ?_⟩
    · rw [same, here] at found
      cases found
      exact ⟨es, rfl, fun _ h => h⟩
    · exact mailbox.agreeArchive key es x listed.1 here member

/-- A new id is in no archive key, and every archive key in hand is older. -/
theorem mints : MailServes env u req s0 i .newUlid (fun _ => True) fun id t =>
    Pending u s0 i id t ∧ id.toList.length = 26 ∧ ∃ older, older <:+ t.state.issued ∧ id ∉ older ∧
      ∀ key, InArchive u key → Used s0 key t → archiveId key ∈ older := by
  refine mint_unnoticed.serves (.pure True) fun s id t mailbox _ served => ?_
  obtain ⟨valid, new, after⟩ := served_newUlid served.1
  have issued : t.state.issued = id :: s.state.issued := by rw [after]
  have older (key : String) (archive : InArchive u key) (used : Used s0 key t) :
      archiveId key ∈ s.state.issued := by
    rcases (used_served served key).mp used with put | old
    · cases put
    · exact mailbox.issued key archive old
  refine ⟨⟨?_, fun key archive same used => ?_⟩, validateUlid_length valid,
    s.state.issued, ⟨[id], by rw [issued]; rfl⟩, new, older⟩
  · unfold Minted
    rw [served.2]
    exact List.mem_cons_self
  · exact new (same ▸ older key archive used)

/-- The archive is written under the id just drawn. -/
theorem archives (posting : Posting env u req) {older : List String} {id day : String}
    {merged : List Value} {A : Log ι → Prop} (lasting : Lasting env u req s0 A)
    (size : id.toList.length = 26) (young : id ∉ older)
    (agree : ∀ x ∈ merged, Agrees env u req x) :
    MailServes env u req s0 i
      (.putObject (prefixInboxArchive u.str ++ day ++ "-" ++ id) (Cbor.encodeArchive merged))
      (fun s => A s ∧ Pending u s0 i id s ∧ older <:+ s.state.issued)
      fun r t => A t ∧ (r = .ok () → Archived env u req older merged t) := by
  intro s r t mailbox holds served
  obtain ⟨here, fresh, past⟩ := holds
  let key := prefixInboxArchive u.str ++ day ++ "-" ++ id
  have archive : InArchive u key := by
    have whole : key = prefixInboxArchive u.str ++ (day ++ "-" ++ id) := by
      simp only [key, String.append_assoc]
    rw [whole]
    exact startsWith_append _ _
  -- the archive is named by the id that was minted for it, so it replaces none
  have named : archiveId key = id := archiveId_append size
  have written {k : String} {d : Data}
      (put : Op.puts k (.putObject key (Cbor.encodeArchive merged)) = some d) :
      k = key ∧ d = .cbor merged := by
    simp only [Op.puts, Option.ite_none_right_eq_some, Option.some.injEq] at put
    exact ⟨put.1, put.2.symm⟩
  have allowed : Allowed env u req s0 i s (.putObject key (Cbor.encodeArchive merged)) := by
    -- it is no live object, and all its entries stand in the ledger
    refine ⟨fun k d put live => ?_, fun k d put _ => ?_, fun _ _ _ removed => ?_,
      fun _ _ _ _ cover => keeps_cover (fun _ => rfl) cover⟩
    · rw [(written put).1] at live
      exact absurd archive (live_not_archive live)
    · obtain ⟨rfl, rfl⟩ := written put
      refine ⟨named ▸ fresh.1, fresh.2 _ archive named, fun entries x same member => ?_⟩
      cases same
      exact agree x member
    · cases removed
  have step := allowed_step posting mailbox served (fun h => by cases h) allowed
    (fun j k own _ _ => own : ∀ j k, j ≠ i → InArchive u k → _ → j ≠ i)
  refine ⟨step.1, step.2, lasting _ s t step.2 here, fun ok => ⟨past.trans step.2.issued, ?_⟩⟩
  intro x member _
  refine ⟨key, merged, archive, named ▸ young, ?_, member⟩
  -- where the put succeeded, the archive is there
  rcases served_putObject served.1 with ⟨_, after⟩ | ⟨⟨_, _, _, fault⟩, _⟩
  · rw [after]
    simp [Sys.put, Cbor.encodeArchive, key]
  · rw [ok] at fault
    cases fault

/-- What was read is archived by now: the delete loses nothing. -/
theorem deletes (posting : Posting env u req) {older live archives : List String}
    {new existing merged : List Value}
    (ids : ∀ key ∈ archives, archiveId key ∈ older)
    (holdsNew : ∀ x ∈ new, Wanted env u req x → x ∈ merged)
    (holdsOld : ∀ x ∈ existing, Wanted env u req x → x ∈ merged) :
    MailServes env u req s0 i (.deleteObjects (live ++ archives))
      (fun s => (inHand live archives new existing : MailAssertion env u req s0 i) s ∧
        Archived env u req older merged s) fun _ _ => True := by
  intro s r t mailbox holds served
  obtain ⟨⟨lives, olds⟩, past, covers⟩ := holds
  have removed {key : String} (gone : Op.removes key (.deleteObjects (live ++ archives)) = true) :
      key ∈ live ∨ key ∈ archives := by
    simpa [Op.removes] using gone
  have allowed : Allowed env u req s0 i s (.deleteObjects (live ++ archives)) := by
    refine ⟨fun _ _ put => (by cases put), fun _ _ put => (by cases put),
      fun raw msgId mail gone => ?_, fun old x suffix wanted cover => ?_⟩
    · rcases removed gone with member | member
      · obtain ⟨x, entry, read | cover⟩ := (lives _ member).2 raw msgId mail rfl
        · have wanted : Wanted env u req x := ⟨raw, msgId, mail, entry⟩
          obtain ⟨key, entries, archive, _, rest⟩ := covers x (holdsNew x read wanted) wanted
          exact ⟨x, entry, key, entries, archive, fun h => (by cases h), rest⟩
        · exact ⟨x, entry, cover⟩
      · exact absurd (olds _ member).1.1 (live_not_archive (live_key u msgId))
    · obtain ⟨key, entries, archive, young, here, member⟩ := cover
      by_cases gone : Op.removes key (.deleteObjects (live ++ archives)) = true
      · -- The archive goes: its entries stand in a later one, which is not among the deleted.
        have listed : key ∈ archives := (removed gone).resolve_left fun inLive =>
          live_not_archive (lives key inLive).1 archive
        obtain ⟨es, same, all⟩ := (olds key listed).2 _ here
        cases same
        obtain ⟨key', entries', archive', young', here', member'⟩ :=
          covers x (holdsOld x (all x member) wanted) wanted
        have later : old <:+ older := by
          rcases List.suffix_or_suffix_of_suffix suffix past with inside | inside
          · exact inside
          · exact absurd (inside.subset (ids key listed)) young
        refine ⟨key', entries', archive', fun h => young' (later.subset h), ?_, here', member'⟩
        refine Bool.eq_false_iff.mpr fun gone' => ?_
        rcases removed gone' with inLive | inArchives
        · exact live_not_archive (lives key' inLive).1 archive'
        · exact young' (ids key' inArchives)
      · exact ⟨key, entries, archive, young, Bool.eq_false_iff.mpr gone, here, member⟩
  have step := allowed_step posting mailbox served (fun h => by cases h) allowed
    (fun j k own _ _ => own : ∀ j k, j ≠ i → InArchive u k → _ → j ≠ i)
  exact ⟨step.1, step.2, trivial⟩

end Requests

end Compaction

end Atmin
