import Atmin.Inbox.Mailbox

/-!
# Requests against the mailbox

What one request may do to a mailbox, and that the requests of deliveries and
compactions do no more.
-/

namespace Atmin

open Interaction

section Steps

variable {ι : Type} (env : Env) (u : UserId) (req : ι → InboxRequest) (s0 : Sys ι)

/-- How mail is posted: to user ids, the same bytes under the same `msg_id`, and compactions
only by the owner on the live inbox. -/
structure Posting : Prop where
  addressed : ∀ i raw h, (req i).Carries env raw h → validateUlid h.toUser = true
  identical : ∀ raw raw' msgId, Mail env u req raw msgId → Mail env u req raw' msgId → raw = raw'
  owner : ∀ i, (req i).OnInbox env u

/-- An inbox in which nothing contradicts the mail to come. -/
structure Prepared : Prop where
  live : ∀ raw msgId d, Mail env u req raw msgId →
    s0.objects.get (keyInboxLive u.str msgId) = some d → d = .json raw
  agreeLive : ∀ key d x, InLive u key → s0.objects.get key = some d → d.asValue = some x →
    Agrees env u req x
  agreeArchive : ∀ key entries x, InArchive u key → s0.objects.get key = some (.cbor entries) →
    x ∈ entries → Agrees env u req x
  issued : ∀ key, InArchive u key → (s0.objects.get key).isSome = true → archiveId key ∈ s0.issued

variable {env u req s0}

theorem mailbox_init (prepared : Prepared env u req s0) : Mailbox env u req s0 (Traced.init s0) where
  live := prepared.live
  agreeLive := prepared.agreeLive
  agreeArchive := prepared.agreeArchive
  used _ _ present := .inl present
  issued key archive used := by
    rcases used with present | ⟨e, none_, _⟩
    · exact prepared.issued key archive present
    · cases none_
  minted _ _ none_ := by cases none_
  mintedOnce _ _ _ none_ := by cases none_

variable {i : ι} {s t : Log ι} {o : Op} {r : Res o}

theorem used_served (served : Recorded i o s r t) (key : String) :
    Used s0 key t ↔ (o.puts key).isSome = true ∨ Used s0 key s := by
  simp only [Used, served.2, List.mem_cons, exists_eq_or_imp]
  exact or_left_comm

theorem minted_served (served : Recorded i o s r t) (other : o ≠ .newUlid) (j : ι) (id : String) :
    Minted j id t ↔ Minted j id s := by
  simp only [Minted, served.2, List.mem_cons]
  refine ⟨fun either => either.resolve_left fun same => ?_, .inr⟩
  cases same
  exact other rfl

theorem agrees_of_mail (posting : Posting env u req) {raw : Json} {msgId : String} {x : Value}
    (mail : Mail env u req raw msgId) (entry : entryOf raw = some x) : Agrees env u req x := by
  intro raw' msgId' mail' named
  obtain ⟨i, h, carries, _, rfl⟩ := mail
  have same := entry_msgId carries.header entry named
  subst same
  rw [posting.identical raw' raw _ mail' ⟨i, h, carries, by assumption, rfl⟩]
  exact entry

variable (env u req s0 i s o) in
/-- What a request may do to the mailbox. -/
structure Allowed : Prop where
  putsLive : ∀ key d, o.puts key = some d → InLive u key →
    ∃ raw msgId, Mail env u req raw msgId ∧ key = keyInboxLive u.str msgId ∧ d = .json raw
  putsArchive : ∀ key d, o.puts key = some d → InArchive u key → Minted i (archiveId key) s ∧
    ¬ Used s0 key s ∧ ∀ entries x, d = .cbor entries → x ∈ entries → Agrees env u req x
  removesLive : ∀ raw msgId, Mail env u req raw msgId →
    o.removes (keyInboxLive u.str msgId) = true → ∃ x, entryOf raw = some x ∧ CoveredSince u [] x s
  removesArchive : ∀ older x, older <:+ s.state.issued → Wanted env u req x →
    CoveredSince u older x s → ∃ key entries, InArchive u key ∧ archiveId key ∉ older ∧
      o.removes key = false ∧ s.state.objects.get key = some (.cbor entries) ∧ x ∈ entries

/-- A request that does no more keeps the invariant, and all but its writer's own archives. -/
theorem allowed_step (posting : Posting env u req) (mailbox : Mailbox env u req s0 s)
    (served : Recorded i o s r t) (other : o ≠ .newUlid) (allowed : Allowed env u req s0 i s o)
    {mine : ι → Prop}
    (spares : ∀ j key, mine j → InArchive u key → (o.puts key).isSome = true → j ≠ i) :
    Mailbox env u req s0 t ∧ Change env u req s0 mine s t := by
  have object (key : String) := served_get served.1 key
  have usedKept (key : String) (used : Used s0 key s) : Used s0 key t :=
    (used_served served key).mpr (.inr used)
  have issued : t.state.issued = s.state.issued := served_issued served.1 other
  -- an archive that covers an entry goes only where a younger one, not yet removed, covers it
  have covered (older : List String) (x : Value) (past : older <:+ s.state.issued)
      (wanted : Wanted env u req x) (cover : CoveredSince u older x s) :
      CoveredSince u older x t := by
    obtain ⟨key, entries, archive, young, kept, here, member⟩ :=
      allowed.removesArchive older x past wanted cover
    refine ⟨key, entries, archive, young, ?_, member⟩
    rcases object key with same | ⟨d, put, _⟩ | ⟨removed, _⟩
    · rw [same, here]
    · exact absurd (mailbox.used key archive (by rw [here]; rfl))
        (allowed.putsArchive key d put archive).2.1
    · rw [kept] at removed
      cases removed
  -- the objects of the mailbox: each is as before, newly written or gone
  refine ⟨⟨?_, ?_, ?_, ?_, ?_, ?_, ?_⟩, ⟨?_, ?_, usedKept, ?_, ?_, covered, ?_⟩⟩
  · intro raw msgId d mail found
    rcases object (keyInboxLive u.str msgId) with same | ⟨d', put, now⟩ | ⟨_, gone⟩
    · exact mailbox.live raw msgId d mail (same ▸ found)
    · obtain ⟨raw', msgId', mail', key, data⟩ := allowed.putsLive _ d' put (live_key u msgId)
      have id := live_key_inj key
      subst id
      rw [posting.identical raw raw' msgId mail mail', ← data]
      exact Option.some.inj (found.symm.trans now)
    · rw [gone] at found
      cases found
  · intro key d x live found value
    rcases object key with same | ⟨d', put, now⟩ | ⟨_, gone⟩
    · exact mailbox.agreeLive key d x live (same ▸ found) value
    · obtain ⟨raw', msgId', mail', _, data⟩ := allowed.putsLive _ d' put live
      have new : d = .json raw' := data ▸ Option.some.inj (found.symm.trans now)
      rw [new] at value
      exact agrees_of_mail posting mail' value
    · rw [gone] at found
      cases found
  · intro key entries x archive found member
    rcases object key with same | ⟨d', put, now⟩ | ⟨_, gone⟩
    · exact mailbox.agreeArchive key entries x archive (same ▸ found) member
    · have new : d' = .cbor entries := Option.some.inj (now.symm.trans found)
      exact (allowed.putsArchive key d' put archive).2.2 entries x new member
    · rw [gone] at found
      cases found
  · intro key archive present
    rcases object key with same | ⟨d', put, _⟩ | ⟨_, gone⟩
    · exact usedKept key (mailbox.used key archive (same ▸ present))
    · exact (used_served served key).mpr (.inl (by rw [put]; rfl))
    · rw [gone] at present
      cases present
  · -- the ids that archives are named by
    intro key archive used
    rw [issued]
    rcases (used_served served key).mp used with put | old
    · obtain ⟨d, put⟩ := Option.isSome_iff_exists.mp put
      exact mailbox.minted _ _ (allowed.putsArchive key d put archive).1
    · exact mailbox.issued key archive old
  · intro j id drew
    rw [issued]
    exact mailbox.minted j id ((minted_served served other j id).mp drew)
  · intro j k id first second
    exact mailbox.mintedOnce j k id ((minted_served served other j id).mp first)
      ((minted_served served other k id).mp second)
  · -- what has changed since
    exact issued ▸ List.suffix_rfl
  · intro j id drew
    exact (minted_served served other j id).mpr drew
  · intro j key own archive drew used
    refine ((used_served served key).mp used).resolve_left fun put => ?_
    obtain ⟨d, written⟩ := Option.isSome_iff_exists.mp put
    exact spares j key own archive put
      (mailbox.mintedOnce _ _ _ drew (allowed.putsArchive key d written archive).1)
  · intro key d archive used found
    rcases object key with same | ⟨d', put, _⟩ | ⟨_, gone⟩
    · exact same ▸ found
    · exact absurd used (allowed.putsArchive key d' put archive).2.1
    · rw [gone] at found
      cases found
  · -- a live message is removed only under the cover of an archive
    rintro raw msgId mail (live | ⟨x, entry, cover⟩)
    · rcases object (keyInboxLive u.str msgId) with same | ⟨d', put, now⟩ | ⟨removed, _⟩
      · exact .inl (same ▸ live)
      · obtain ⟨raw', msgId', mail', key, data⟩ := allowed.putsLive _ d' put (live_key u msgId)
        have id := live_key_inj key
        subst id
        exact .inl (by rw [now, data, posting.identical raw raw' msgId mail mail'])
      · obtain ⟨x, entry, cover⟩ := allowed.removesLive raw msgId mail removed
        exact .inr ⟨x, entry, covered [] x List.nil_suffix ⟨raw, msgId, mail, entry⟩ cover⟩
    · exact .inr ⟨x, entry, covered [] x List.nil_suffix ⟨raw, msgId, mail, entry⟩ cover⟩

/-- A request that deletes nothing removes no cover. -/
theorem keeps_cover (keeps : ∀ key, o.removes key = false) {older : List String} {x : Value}
    (cover : CoveredSince u older x s) : ∃ key entries, InArchive u key ∧ archiveId key ∉ older ∧
      o.removes key = false ∧ s.state.objects.get key = some (.cbor entries) ∧ x ∈ entries := by
  obtain ⟨key, entries, archive, young, here, member⟩ := cover
  exact ⟨key, entries, archive, young, keeps key, here, member⟩

/-- A request that writes and deletes nothing in this inbox. -/
theorem allowed_of_idle (puts : ∀ key, startsWith key (prefixInbox u.str) = true → o.puts key = none)
    (keeps : ∀ key, o.removes key = false) : Allowed env u req s0 i s o where
  putsLive key d put live := by
    rw [puts key (inbox_of_live live)] at put
    cases put
  putsArchive key d put archive := by
    rw [puts key (inbox_of_archive archive)] at put
    cases put
  removesLive _ msgId _ removed := by
    rw [keeps] at removed
    cases removed
  removesArchive _ _ _ _ cover := keeps_cover keeps cover

abbrev MailUnnoticed (env : Env) (u : UserId) (req : ι → InboxRequest) (s0 : Sys ι) (i : ι)
    (o : Op) : Prop :=
  Unnoticed (mailRules env u req s0) Recorded i o

/-- Outside the inbox, a request goes unnoticed. -/
theorem idle_unnoticed (posting : Posting env u req) (other : o ≠ .newUlid)
    (puts : ∀ key, startsWith key (prefixInbox u.str) = true → o.puts key = none)
    (keeps : ∀ key, o.removes key = false) : MailUnnoticed env u req s0 i o := by
  refine .of fun s r t mailbox served => ?_
  have nothing (key : String) (archive : InArchive u key) : ¬ (o.puts key).isSome = true := by
    rw [puts key (inbox_of_archive archive)]
    exact Bool.false_ne_true
  have step (mine : ι → Prop) : Mailbox env u req s0 t ∧ Change env u req s0 mine s t :=
    allowed_step posting mailbox served other (allowed_of_idle puts keeps)
      fun j key _ archive put => absurd put (nothing key archive)
  exact ⟨(step fun _ => True).1, (step _).2, (step _).2⟩

theorem passive_unnoticed (posting : Posting env u req) (o : Op) (passive : o.passive = true) :
    MailUnnoticed env u req s0 i o := by
  refine idle_unnoticed posting ?_ (fun key _ => Op.puts_passive passive key)
    fun key => Op.removes_passive passive key
  rintro rfl
  cases passive

/-- A new id goes unnoticed. -/
theorem mint_unnoticed : MailUnnoticed env u req s0 i .newUlid := by
  refine .of fun s r t mailbox served => ?_
  obtain ⟨_, new, after⟩ := served_newUlid served.1
  have used (key : String) : Used s0 key t ↔ Used s0 key s := by
    rw [used_served served]
    simp [Op.puts]
  have objects : t.state.objects = s.state.objects := by rw [after]
  have issued : t.state.issued = r :: s.state.issued := by rw [after]
  -- only the new id is new
  have drawn (j : ι) (id : String) (drew : Minted j id t) : j = i ∧ id = r ∨ Minted j id s := by
    unfold Minted at drew
    rw [served.2] at drew
    rcases List.mem_cons.mp drew with same | old
    · cases same
      exact .inl ⟨rfl, rfl⟩
    · exact .inr old
  have change (mine : ι → Prop) : Change env u req s0 mine s t := by
    refine ⟨⟨[r], by rw [issued]; rfl⟩, ?_, fun key h => (used key).mpr h,
      fun j key _ _ _ h => (used key).mp h, fun key d _ _ => by rw [objects]; exact id, ?_, ?_⟩
    · intro j id drew
      unfold Minted
      rw [served.2]
      exact List.mem_cons_of_mem _ drew
    · intro older x _ _ cover
      unfold CoveredSince
      rw [objects]
      exact cover
    · intro raw msgId _ delivered
      unfold Delivered CoveredSince
      rw [objects]
      exact delivered
  -- the mailbox, whose objects are as before
  refine ⟨⟨?_, ?_, ?_, ?_, ?_, ?_, ?_⟩, change _, change _⟩
  · rw [objects]; exact mailbox.live
  · rw [objects]; exact mailbox.agreeLive
  · rw [objects]; exact mailbox.agreeArchive
  · intro key archive present
    rw [objects] at present
    exact (used key).mpr (mailbox.used key archive present)
  · intro key archive h
    rw [issued]
    exact List.mem_cons_of_mem _ (mailbox.issued key archive ((used key).mp h))
  · intro j id drew
    rw [issued]
    rcases drawn j id drew with ⟨_, rfl⟩ | old
    · exact List.mem_cons_self
    · exact List.mem_cons_of_mem _ (mailbox.minted j id old)
  · -- the new id was nobody's
    intro j k id first second
    rcases drawn j id first with ⟨rfl, rfl⟩ | old
    · rcases drawn k id second with ⟨rfl, _⟩ | old'
      · rfl
      · exact absurd (mailbox.minted k id old') new
    · rcases drawn k id second with ⟨rfl, rfl⟩ | old'
      · exact absurd (mailbox.minted j id old) new
      · exact mailbox.mintedOnce j k id old old'

theorem reads_unnoticed (posting : Posting env u req) (o : Op) (reads : o.reads = true) :
    MailUnnoticed env u req s0 i o :=
  passive_unnoticed posting o (Op.passive_of_reads reads)

end Steps

end Atmin
