import Atmin.Inbox.Poison

/-!
# Senders and each other's mail

A storage key is built from two fields that its sender chooses, and compaction tells entries
apart by one of them. Senders are isolated exactly as long as they choose well.
-/

namespace Atmin

open Interaction

/-- The key is one of the live inbox of one account, with nothing below it. -/
def InOneInbox (key : String) : Prop :=
  ∃! to_ : UserId, ∃ id : String, '/' ∉ id.toList ∧ key = keyInboxLive to_.str id

section Isolation

variable {ι : Type} (env : Env) (i : ι)

/-- No request changes an object that another sender delivered. -/
def NeverOverwrites (calls : List SendCall) (s : Sys ι) : Prop :=
  ∀ before call after u v, calls = before ++ call :: after → SentAll env i before s u →
    Runs (Faulty i) (send env call.1 call.2).run u (.ok ()) v →
    ∀ user, Token.identity env call.1 = some user → ∀ k l,
      lastUnder (before.flatMap (SendCall.letters env)) k = some l → l.sender ≠ user.userId →
      v.objects.get k = u.objects.get k

/-- Every object that a request creates is in one inbox. -/
def CreatesInInboxes (calls : List SendCall) (s : Sys ι) : Prop :=
  ∀ before call after u v, calls = before ++ call :: after → SentAll env i before s u →
    Runs (Faulty i) (send env call.1 call.2).run u (.ok ()) v →
    ∀ k, v.objects.get k ≠ u.objects.get k → InOneInbox k

/-- An envelope of this sender and `msg_id` is in the live inbox, or its entry in an archive. -/
def Present (u : UserId) (letters : List Letter) (sender : UserId) (msgId : String) (store : Store) :
    Prop :=
  ∃ l ∈ letters, l.header.toUser = u.str ∧ l.sender = sender ∧ l.header.msgId = msgId ∧
    (store.get l.key = some (.json l.raw) ∨
      ∃ x key entries, entryOf l.raw = some x ∧ InArchive u key ∧ store.get key = some (.cbor entries) ∧
        x ∈ entries)

/-- After a compaction of an inbox, alone and without faults, every pair of a sender and a
`msg_id` that was delivered there is still present. -/
def KeepsPairs (letters : List Letter) (t : Sys ι) : Prop :=
  ∀ limit token body user req pages m r v, Admits env token user t →
    body.bind CompactRequest.fromJson = some req → req.pre = prefixInboxLive user.userId.str →
    req.upTo ≠ "" → t.objects.entries.length < 100 * pages →
    Runs (Alone limit m i) (storeCompact env pages token body).run t r v →
    ∀ l ∈ letters, l.header.toUser = user.userId.str →
      Present user.userId letters l.sender l.header.msgId v.objects

/-- Every recipient is an account, every `msg_id` one path segment, and no two senders share a
recipient and a `msg_id`. -/
structure Apart (letters : List Letter) : Prop where
  recipient : ∀ l ∈ letters, ∃ to_ : UserId, l.header.toUser = to_.str
  msgId : ∀ l ∈ letters, '/' ∉ l.header.msgId.toList
  senders : ∀ l ∈ letters, ∀ l' ∈ letters, l.header.toUser = l'.header.toUser →
    l.header.msgId = l'.header.msgId → l.sender = l'.sender

end Isolation

/-! ### Keys and letters -/

theorem UserId.eq_of_str {u v : UserId} (same : u.str = v.str) : u = v := by
  cases u
  cases v
  cases same
  rfl

/-- What stands before the first slash. -/
theorem before_slash {a b c d : List Char} (clean : '/' ∉ a) (clean' : '/' ∉ b)
    (same : a ++ '/' :: c = b ++ '/' :: d) : a = b ∧ c = d := by
  induction a generalizing b with
  | nil =>
    cases b with
    | nil => exact ⟨rfl, (List.cons.inj same).2⟩
    | cons y b => exact absurd ((List.cons.inj same).1 ▸ List.mem_cons_self) clean'
  | cons x a ih =>
    cases b with
    | nil => exact absurd ((List.cons.inj same).1 ▸ List.mem_cons_self) clean
    | cons y b =>
      obtain ⟨rfl, rest⟩ := List.cons.inj same
      obtain ⟨rfl, rfl⟩ := ih (fun h => clean (List.mem_cons_of_mem _ h))
        (fun h => clean' (List.mem_cons_of_mem _ h)) rest
      exact ⟨rfl, rfl⟩

/-- Slashes tell where the parts of a key are. -/
theorem keyInboxLive_parts {a b : String} {to_ : UserId} {id : String} (segment : '/' ∉ id.toList)
    (same : keyInboxLive a b = keyInboxLive to_.str id) : a = to_.str ∧ b = id := by
  have chars : a.toList ++ '/' :: ("live/".toList ++ b.toList) =
      to_.str.toList ++ '/' :: ("live/".toList ++ id.toList) := by
    have whole := congrArg String.toList same
    simpa [keyInboxLive] using whole
  have clean := validateUlid_no_slash to_.ulid
  -- the whole key has three slashes besides those of its parts
  have counts := congrArg (List.count '/') chars
  simp only [List.count_append, List.count_cons, List.count_eq_zero.mpr clean,
    List.count_eq_zero.mpr segment] at counts
  have none_ : '/' ∉ a.toList := List.count_eq_zero.mp (by omega)
  obtain ⟨first, rest⟩ := before_slash none_ clean chars
  exact ⟨String.toList_inj.mp first, String.toList_inj.mp (List.append_cancel_left rest)⟩

section Letters

variable {ι : Type} {env : Env} {i : ι} {s t : Sys ι} {calls : List SendCall}

theorem letters_of {call : SendCall} {l : Letter} (member : l ∈ call.letters env) :
    (∀ user, Token.identity env call.1 = some user → l.sender = user.userId) ∧
      EnvelopeHeader.fromJson l.raw = some l.header := by
  unfold SendCall.letters at member
  cases known : Token.identity env call.1 with
  | none => rw [known] at member; cases member
  | some user =>
    rw [known] at member
    obtain ⟨raw, _, made⟩ := List.mem_filterMap.mp member
    obtain ⟨header, read, rfl⟩ := Option.map_eq_some_iff.mp made
    refine ⟨fun user' same => ?_, read⟩
    cases same
    rfl

theorem all_letters_of {l : Letter} (member : l ∈ calls.flatMap (SendCall.letters env)) :
    EnvelopeHeader.fromJson l.raw = some l.header := by
  obtain ⟨call, _, here⟩ := List.mem_flatMap.mp member
  exact (letters_of here).2

theorem lastUnder_append (first second : List Letter) (key : String) :
    lastUnder (first ++ second) key = (lastUnder second key).or (lastUnder first key) := by
  rw [lastUnder, List.reverse_append, List.find?_append]
  rfl

theorem lastUnder_none {letters : List Letter} {key : String} :
    lastUnder letters key = none ↔ ∀ l ∈ letters, l.key ≠ key := by
  rw [lastUnder, List.find?_eq_none]
  simp

theorem SentAll.split {before after : List SendCall} {call : SendCall}
    (sent : SentAll env i (before ++ call :: after) s t) : ∃ u v, SentAll env i before s u ∧
      Runs (Faulty i) (send env call.1 call.2).run u (.ok ()) v ∧ SentAll env i after v t := by
  induction before generalizing s with
  | nil =>
    obtain _ | ⟨run, rest⟩ := sent
    exact ⟨s, _, .nil s, run, rest⟩
  | cons first before ih =>
    obtain _ | ⟨run, rest⟩ := sent
    obtain ⟨u, v, sent, run', rest'⟩ := ih rest
    exact ⟨u, v, .cons run sent, run', rest'⟩

/-- A request changes what its letters are written under. -/
theorem send_get {call : SendCall} {u v : Sys ι}
    (run : Runs (Faulty i) (send env call.1 call.2).run u (.ok ()) v) (k : String) :
    v.objects.get k = ((lastUnder (call.letters env) k).map fun l => Data.json l.raw).or (u.objects.get k) := by
  rw [(send_writes call _ _ run rfl).1, postAll_get]

theorem Apart.of_key {letters : List Letter} (apart : Apart letters) {l l' : Letter}
    (member : l ∈ letters) (member' : l' ∈ letters) (same : l.key = l'.key) :
    l.header.toUser = l'.header.toUser ∧ l.header.msgId = l'.header.msgId ∧ l.sender = l'.sender := by
  obtain ⟨to_, named⟩ := apart.recipient l' member'
  unfold Letter.key at same
  rw [named] at same
  obtain ⟨first, last⟩ := keyInboxLive_parts (apart.msgId l' member') same
  exact ⟨first.trans named.symm, last, apart.senders l member l' member' (first.trans named.symm) last⟩

/-! ### Each property by itself -/

theorem Apart.neverOverwrites (apart : Apart (calls.flatMap (SendCall.letters env))) :
    NeverOverwrites env i calls s := by
  rintro before call after u v rfl sent run user known k l last other
  rw [send_get run]
  have clear : lastUnder (call.letters env) k = none := by
    refine lastUnder_none.mpr fun l' member same => other ?_
    obtain ⟨before_, key⟩ := lastUnder_mem last
    have here : l ∈ (before ++ call :: after).flatMap (SendCall.letters env) := by
      rw [List.flatMap_append]
      exact List.mem_append_left _ before_
    have there : l' ∈ (before ++ call :: after).flatMap (SendCall.letters env) := by
      rw [List.flatMap_append, List.flatMap_cons]
      exact List.mem_append_right _ (List.mem_append_left _ member)
    rw [(apart.of_key here there (key.trans same.symm)).2.2]
    exact (letters_of member).1 user known
  rw [clear]
  rfl

theorem Apart.createsInInboxes (apart : Apart (calls.flatMap (SendCall.letters env))) :
    CreatesInInboxes env i calls s := by
  rintro before call after u v rfl sent run k created
  rw [send_get run] at created
  cases last : lastUnder (call.letters env) k with
  | none => exact absurd (by rw [last]; rfl) created
  | some l =>
    obtain ⟨member, rfl⟩ := lastUnder_mem last
    have here : l ∈ (before ++ call :: after).flatMap (SendCall.letters env) := by
      rw [List.flatMap_append, List.flatMap_cons]
      exact List.mem_append_right _ (List.mem_append_left _ member)
    obtain ⟨to_, named⟩ := apart.recipient l here
    have segment := apart.msgId l here
    refine ⟨to_, ⟨l.header.msgId, segment, by rw [Letter.key, named]⟩, ?_⟩
    rintro other ⟨id, segment', same⟩
    obtain ⟨first, _⟩ := keyInboxLive_parts segment' same
    exact UserId.eq_of_str (first.symm.trans named)

/-- Where nothing stood under the inboxes, a letter's key shows whom it was for. -/
theorem recipients_of (sent : SentAll env i calls s t)
    (start : ∀ k, startsWith k "inbox/" = true → s.objects.get k = none)
    (creates : CreatesInInboxes env i calls s) {l : Letter}
    (member : l ∈ calls.flatMap (SendCall.letters env)) :
    (∃ to_ : UserId, l.header.toUser = to_.str) ∧ '/' ∉ l.header.msgId.toList := by
  obtain ⟨call, called, here⟩ := List.mem_flatMap.mp member
  -- the first request that writes under this key creates it
  have wrote : (calls.find? fun c => decide (∃ l' ∈ c.letters env, l'.key = l.key)).isSome := by
    rw [List.find?_isSome]
    exact ⟨call, called, decide_eq_true ⟨l, here, rfl⟩⟩
  obtain ⟨first, found⟩ := Option.isSome_iff_exists.mp wrote
  obtain ⟨writes, before, after, rfl, earlier⟩ := List.find?_eq_some_iff_append.mp found
  obtain ⟨l', member', same⟩ := of_decide_eq_true writes
  obtain ⟨u, v, sent', run, _⟩ := sent.split
  have unwritten : lastUnder (before.flatMap (SendCall.letters env)) l.key = none := by
    refine lastUnder_none.mpr fun l'' member'' same'' => ?_
    obtain ⟨c, in_, there⟩ := List.mem_flatMap.mp member''
    have not_ := earlier c in_
    simp only [Bool.not_eq_true', decide_eq_false_iff_not] at not_
    exact not_ ⟨l'', there, same''⟩
  have absent : u.objects.get l.key = none := by
    rw [sent'.writes.1, postAll_get, unwritten]
    exact start _ (inboxLive_data _ _)
  obtain ⟨last, written⟩ := lastUnder_of_mem member'
  rw [same] at written
  have created : v.objects.get l.key ≠ u.objects.get l.key := by
    rw [send_get run, written, absent]
    exact fun h => nomatch h
  obtain ⟨to_, ⟨id, segment, key⟩, _⟩ := creates before first after u v rfl sent' run l.key created
  obtain ⟨named, rfl⟩ := keyInboxLive_parts segment key
  exact ⟨⟨to_, named⟩, segment⟩

/-- Where nobody's letters are overwritten by others, all letters under one key are of one sender. -/
theorem one_sender (sent : SentAll env i calls s t) (never : NeverOverwrites env i calls s)
    (before after : List SendCall) (split : calls = before ++ after) :
    ∀ l ∈ before.flatMap (SendCall.letters env), ∀ last,
      lastUnder (before.flatMap (SendCall.letters env)) l.key = some last → last.sender = l.sender := by
  induction before using List.reverseRec generalizing after with
  | nil => exact fun _ member => nomatch member
  -- the last request decides for the keys it writes
  | append_singleton before call ih =>
    have split' : calls = before ++ call :: after := by rw [split, List.append_assoc]; rfl
    have earlier := ih (call :: after) split'
    intro l member last found
    rw [List.flatMap_append, List.flatMap_singleton] at member found
    rw [lastUnder_append] at found
    cases new : lastUnder (call.letters env) l.key with
    | none =>
      rw [new, Option.none_or] at found
      refine earlier l ((List.mem_append.mp member).resolve_right fun here => ?_) last found
      exact lastUnder_none.mp new l here rfl
    | some l' =>
      rw [new, Option.some_or] at found
      cases found
      obtain ⟨inCall, key⟩ := lastUnder_mem new
      subst split'
      obtain ⟨u, v, sent', run, _⟩ := sent.split
      cases known : Token.identity env call.1 with
      | none =>
        unfold SendCall.letters at inCall
        rw [known] at inCall
        cases inCall
      | some user =>
        rw [(letters_of inCall).1 user known]
        rcases List.mem_append.mp member with old | mine
        · obtain ⟨prior, standing⟩ := lastUnder_of_mem old
          have owner := earlier l old prior standing
          -- had the key another sender, the request would have overwritten it
          by_contra other
          have kept := never before call after u v rfl sent' run user known l.key prior standing
            fun same => other (same.symm.trans owner)
          rw [send_get run, new, sent'.writes.1, postAll_get, standing] at kept
          have raws : last.raw = prior.raw := by simpa using kept
          have header := (letters_of inCall).2
          have header' := all_letters_of (lastUnder_mem standing).1
          rw [raws, header'] at header
          have headers : prior.header = last.header := Option.some.inj header
          have from_ := sent'.writes.2 prior (lastUnder_mem standing).1
          have from_' := (send_writes call _ _ run rfl).2 last inCall
          rw [(letters_of inCall).1 user known, ← headers, from_] at from_'
          exact other ((UserId.eq_of_str from_').symm.trans owner)
        · exact ((letters_of mine).1 user known).symm

/-- What stands under the inboxes are letters. -/
theorem letter_at (sent : SentAll env i calls s t)
    (start : ∀ k, startsWith k "inbox/" = true → s.objects.get k = none) {k : String} {d : Data}
    (within : startsWith k "inbox/" = true) (here : t.objects.get k = some d) :
    ∃ l, lastUnder (calls.flatMap (SendCall.letters env)) k = some l ∧ d = .json l.raw := by
  rw [sent.writes.1, postAll_get] at here
  cases last : lastUnder (calls.flatMap (SendCall.letters env)) k with
  | none =>
    rw [last, start k within] at here
    cases here
  | some l =>
    rw [last] at here
    cases here
    exact ⟨l, rfl, rfl⟩

/-- A letter under the inbox of an account is in its live inbox, and was for it. -/
theorem Apart.home {letters : List Letter} (apart : Apart letters) {l : Letter} (member : l ∈ letters)
    {u : UserId} (within : startsWith l.key (prefixInbox u.str) = true) :
    l.header.toUser = u.str ∧ InLive u l.key := by
  obtain ⟨to_, named⟩ := apart.recipient l member
  unfold Letter.key at within ⊢
  rw [named] at within ⊢
  by_cases same : to_ = u
  · subst same
    exact ⟨rfl, live_key _ _⟩
  · exact absurd within (other_inbox same _)

/-- No archive exists before the compaction. -/
theorem Apart.no_archives (apart : Apart (calls.flatMap (SendCall.letters env)))
    (sent : SentAll env i calls s t)
    (start : ∀ k, startsWith k "inbox/" = true → s.objects.get k = none) (u : UserId) (day : String) :
    dayArchives t.objects (prefixInboxLive u.str) day = [] := by
  refine List.eq_nil_iff_forall_not_mem.mpr fun k listed => ?_
  obtain ⟨⟨d, here⟩, within, _⟩ := (ObjectMap.mem_keysAfter _ _ _ k).mp listed
  rw [archiveBase_live] at within
  have archive : InArchive u k := startsWith_trans within (startsWith_append _ _)
  have inbox := inbox_of_archive archive
  obtain ⟨l, last, _⟩ := letter_at sent start (inbox_data inbox) here
  obtain ⟨member, rfl⟩ := lastUnder_mem last
  exact live_not_archive (apart.home member inbox).2 archive

/-- The entries of a compaction, each from a letter of its own `msg_id`. -/
theorem Apart.collected_of (apart : Apart (calls.flatMap (SendCall.letters env)))
    (sent : SentAll env i calls s t)
    (start : ∀ k, startsWith k "inbox/" = true → s.objects.get k = none) {u : UserId} {upTo : String}
    {y : Value} (member : y ∈ collected t.objects (liveUpTo t.objects (prefixInboxLive u.str) upTo) []) :
    ∃ l, lastUnder (calls.flatMap (SendCall.letters env)) l.key = some l ∧ l.header.toUser = u.str ∧
      entryOf l.raw = some y := by
  obtain ⟨k, listed, entry⟩ := List.mem_flatMap.mp member
  obtain ⟨⟨d, here⟩, live, _⟩ := (ObjectMap.mem_keysAfter _ _ _ k).mp (List.mem_of_mem_filter listed)
  have inbox := inbox_of_live (u := u) live
  obtain ⟨l, last, rfl⟩ := letter_at sent start (inbox_data inbox) here
  obtain ⟨member, rfl⟩ := lastUnder_mem last
  refine ⟨l, last, (apart.home member inbox).1, ?_⟩
  rw [entriesAt, here, Option.bind_some, liveEntry, Data.asValue] at entry
  cases read : Value.ofJson jsonDepth l.raw with
  | none => rw [read] at entry; cases entry
  | some x =>
    rw [read] at entry
    rw [List.mem_singleton.mp entry, entryOf, read]

/-- A compaction, however it ends, keeps what was delivered under each key. -/
theorem Apart.keepsPairs (apart : Apart (calls.flatMap (SendCall.letters env)))
    (sent : SentAll env i calls s t)
    (start : ∀ k, startsWith k "inbox/" = true → s.objects.get k = none) :
    KeepsPairs env i (calls.flatMap (SendCall.letters env)) t := by
  intro limit token body user req pages m r v admits parsed pre upTo enough run l member mine
  let letters := calls.flatMap (SendCall.letters env)
  have own : authorizeCompactPrefix user.userId.str req.pre = true := by
    simp [authorizeCompactPrefix, pre]
  have compacted := storeCompact_alone admits parsed upTo own enough r v run
  rw [pre] at compacted
  -- the letter that stands under the key of this one is of the same pair
  obtain ⟨last, standing⟩ := lastUnder_of_mem member
  obtain ⟨member', key⟩ := lastUnder_mem standing
  obtain ⟨to_, id, sender⟩ := apart.of_key member' member key
  have stored : t.objects.get last.key = some (.json last.raw) := by
    rw [key, sent.writes.1]
    exact postAll_last _ standing
  have live : InLive user.userId last.key := by
    rw [Letter.key, to_, mine]
    exact live_key _ _
  have stays (kept : v.objects.get last.key = some (.json last.raw)) :
      Present user.userId letters l.sender l.header.msgId v.objects :=
    ⟨last, member', to_.trans mine, sender, id, .inl kept⟩
  have archive : InArchive user.userId (newArchive env (prefixInboxLive user.userId.str) m) := by
    unfold newArchive
    rw [archiveBase_live, String.append_assoc, String.append_assoc]
    exact startsWith_append _ _
  have other : last.key ≠ newArchive env (prefixInboxLive user.userId.str) m := fun same =>
    live_not_archive (same ▸ live) archive
  cases compacted with
  | nothing _ same => exact stays (by rw [same]; exact stored)
  | unreadable _ _ same => exact stays (by rw [same]; exact stored)
  | refused _ _ _ _ same =>
    exact stays (by rw [same, ObjectMap.get_insert, if_neg other]; exact stored)
  | done _ readable _ _ same =>
    rw [apart.no_archives sent start, List.append_nil] at same
    by_cases listed : last.key ∈ liveUpTo t.objects (prefixInboxLive user.userId.str) req.upTo
    · obtain ⟨es, decoded⟩ := readable last.key listed
      rw [stored, Option.bind_some] at decoded
      obtain ⟨x, entry⟩ := (liveEntry_json last.raw).mp ⟨es, decoded⟩
      have inHand : x ∈ collected t.objects
          (liveUpTo t.objects (prefixInboxLive user.userId.str) req.upTo) [] := by
        refine List.mem_flatMap.mpr ⟨last.key, listed, ?_⟩
        have value : Value.ofJson jsonDepth last.raw = some x := entry
        simp [entriesAt, stored, liveEntry, Data.asValue, value]
      -- an entry of the same `msg_id` is of the letter under the same key, so it is this one
      have kept : x ∈ Cbor.deduplicateByMsgId (collected t.objects
          (liveUpTo t.objects (prefixInboxLive user.userId.str) req.upTo) []) := by
        refine Cbor.mem_deduplicateFrom inHand (fun y member'' id' named named' => ?_) (by simp)
        obtain ⟨l'', standing'', to'', entry''⟩ := apart.collected_of sent start member''
        have first := entry_msgId (all_letters_of member') entry named
        have second := entry_msgId (all_letters_of (lastUnder_mem standing'').1) entry'' named'
        have keys : l''.key = last.key := by
          rw [Letter.key, Letter.key, to'', to_, mine, ← first, ← second]
        rw [keys, key, standing] at standing''
        cases standing''
        exact Option.some.inj (entry''.symm.trans entry)
      refine ⟨last, member', to_.trans mine, sender, id, .inr ⟨x, _, _, entry, archive, ?_, kept⟩⟩
      have notListed : newArchive env (prefixInboxLive user.userId.str) m ∉
          liveUpTo t.objects (prefixInboxLive user.userId.str) req.upTo := fun listed =>
        live_not_archive ((ObjectMap.mem_keysAfter _ _ _ _).mp (List.mem_of_mem_filter listed)).2.1 archive
      rw [same, ObjectMap.get_eraseAll, if_neg notListed, ObjectMap.get_insert, if_pos rfl]
    · refine stays ?_
      rw [same, ObjectMap.get_eraseAll, if_neg listed, ObjectMap.get_insert, if_neg other]
      exact stored

/-- Senders are isolated from each other exactly if each recipient they name is an account, each
`msg_id` is one path segment, and no two of them use the same recipient and `msg_id`. -/
theorem senders_isolated (sent : SentAll env i calls s t)
    (start : ∀ k, startsWith k "inbox/" = true → s.objects.get k = none) :
    (NeverOverwrites env i calls s ∧ CreatesInInboxes env i calls s ∧
      KeepsPairs env i (calls.flatMap (SendCall.letters env)) t) ↔
    Apart (calls.flatMap (SendCall.letters env)) := by
  constructor
  · rintro ⟨never, creates, _⟩
    refine ⟨fun l member => (recipients_of sent start creates member).1,
      fun l member => (recipients_of sent start creates member).2, fun l member l' member' to_ id => ?_⟩
    have owners := one_sender sent never calls [] (List.append_nil _).symm
    have keys : l'.key = l.key := by rw [Letter.key, Letter.key, to_, id]
    obtain ⟨last, standing⟩ := lastUnder_of_mem member
    rw [← owners l member last standing]
    exact owners l' member' last (keys ▸ standing)
  · intro apart
    exact ⟨apart.neverOverwrites, apart.createsInInboxes, apart.keepsPairs sent start⟩

end Letters

section Samples

open Sample

/-- Two letters of one inbox, from two senders under two ids. -/
theorem letters_isolated : ∃ t, SentAll twoEnv () ((lettersOf laterId).map Prod.fst)
    (twoAccounts Unit) t ∧
    NeverOverwrites twoEnv () ((lettersOf laterId).map Prod.fst) (twoAccounts Unit) ∧
    CreatesInInboxes twoEnv () ((lettersOf laterId).map Prod.fst) (twoAccounts Unit) ∧
    KeepsPairs twoEnv () (((lettersOf laterId).map Prod.fst).flatMap (SendCall.letters twoEnv)) t := by
  obtain ⟨t, sent, _⟩ := sent_letters (lettersOf laterId) (lettersOf_known laterId)
    (P := fun _ => true) (by decide)
  refine ⟨t, sent, (senders_isolated sent fun k => twoAccounts_data).mpr ?_⟩
  obtain ⟨raw, letters, _⟩ := lettersOf_letters laterId
  have clean (id : String) (ulid : validateUlid id = true) : '/' ∉ id.toList := validateUlid_no_slash ulid
  rw [letters]
  refine ⟨?_, ?_, ?_⟩
  · exact List.forall_mem_cons.mpr ⟨⟨user, rfl⟩, List.forall_mem_singleton.mpr ⟨user, rfl⟩⟩
  · exact List.forall_mem_cons.mpr ⟨clean msgId (by decide +kernel),
      List.forall_mem_singleton.mpr (clean laterId (by decide +kernel))⟩
  · have differ : msgId ≠ laterId := by decide
    intro l member l' member' _ id
    simp only [List.mem_cons, List.not_mem_nil, or_false] at member member'
    rcases member with rfl | rfl <;> rcases member' with rfl | rfl
    · rfl
    · exact absurd id differ
    · exact absurd id.symm differ
    · rfl

/-- The second letter takes the place of the first. -/
theorem letter_overwritten : ∃ t, SentAll twoEnv () ((lettersOf msgId).map Prod.fst)
    (twoAccounts Unit) t ∧
    ¬ NeverOverwrites twoEnv () ((lettersOf msgId).map Prod.fst) (twoAccounts Unit) := by
  obtain ⟨t, sent, _⟩ := sent_letters (lettersOf msgId) (lettersOf_known msgId) (P := fun _ => true)
    (by decide)
  refine ⟨t, sent, fun never => ?_⟩
  obtain ⟨raw, letters, _⟩ := lettersOf_letters msgId
  have owner := one_sender sent never ((lettersOf msgId).map Prod.fst) [] (by simp)
  rw [letters] at owner
  have same := owner ⟨user, ownHeader, envelope⟩ List.mem_cons_self ⟨mallory, plainHeader msgId, raw⟩ rfl
  exact absurd (congrArg UserId.str same) (by decide : ¬ mallory.str = user.str)

end Samples

end Atmin
