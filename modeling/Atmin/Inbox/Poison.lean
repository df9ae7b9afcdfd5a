import Atmin.Inbox.Letters
import Atmin.Inbox.Progress

/-!
# What a sender can do to a compaction

A compaction reads what `send` only looked at: it decodes every live envelope up to its
boundary, and whatever stands under the archive prefix of its day.
-/

namespace Atmin

open Interaction

/-- What a compaction of this inbox may read can be read. -/
structure Decodes (u : UserId) (store : Store) : Prop where
  live : ∀ k d, InLive u k → store.get k = some d → ∃ es, liveEntry d = some es
  archive : ∀ k d, InArchive u k → store.get k = some d → ∃ es, Cbor.decodeArchive d = some es

/-- The envelopes that stand in the live inbox up to the boundary decode, and none stands under
the archives of the day. -/
structure Wholesome (u : UserId) (upTo day : String) (letters : List Letter) : Prop where
  live : ∀ k l, lastUnder letters k = some l → InLive u k → k ≤ prefixInboxLive u.str ++ upTo →
    ∃ x, entryOf l.raw = some x
  archive : ∀ l ∈ letters, ¬ startsWith l.key (prefixInboxArchive u.str ++ day) = true

section Poison

variable {ι : Type} {env : Env} {i : ι} {u : UserId} {store : Store} {letters : List Letter}

theorem liveEntry_json (raw : Json) : (∃ es, liveEntry (.json raw) = some es) ↔
    ∃ x, entryOf raw = some x := by
  simp only [liveEntry, Data.asValue, entryOf, Option.map_eq_some_iff]
  constructor
  · rintro ⟨_, x, read, _⟩
    exact ⟨x, read⟩
  · rintro ⟨x, read⟩
    exact ⟨_, x, read, rfl⟩

variable (store) in
theorem postAll_last {k : String} {l : Letter} (last : lastUnder letters k = some l) :
    (postAll letters store).get k = some (.json l.raw) := by
  rw [postAll_get, last]
  rfl

theorem lastUnder_of_mem {l : Letter} (member : l ∈ letters) :
    ∃ last, lastUnder letters l.key = some last := by
  cases found : lastUnder letters l.key with
  | some last => exact ⟨last, rfl⟩
  | none =>
    have absent := List.find?_eq_none.mp found l (List.mem_reverse.mpr member)
    simp at absent

/-- The live inbox can be read exactly if the envelopes that stand in it decode. -/
theorem readable_live (start : Decodes u store) (upTo : String) :
    Readable liveEntry (postAll letters store) (liveUpTo (postAll letters store) (prefixInboxLive u.str) upTo) ↔
      ∀ k l, lastUnder letters k = some l → InLive u k → k ≤ prefixInboxLive u.str ++ upTo →
        ∃ x, entryOf l.raw = some x := by
  constructor
  · intro readable k l last live within
    have here := postAll_last store last
    obtain ⟨es, read⟩ := readable k (List.mem_filter.mpr
      ⟨(ObjectMap.mem_keysAfter _ _ _ k).mpr ⟨⟨_, here⟩, live, fun _ wrong => nomatch wrong⟩,
        decide_eq_true within⟩)
    rw [here, Option.bind_some] at read
    exact (liveEntry_json l.raw).mp ⟨es, read⟩
  · intro decodes k listed
    obtain ⟨found, within⟩ := List.mem_filter.mp listed
    obtain ⟨⟨d, here⟩, live, _⟩ := (ObjectMap.mem_keysAfter _ _ _ k).mp found
    rw [here, Option.bind_some]
    cases last : lastUnder letters k with
    | some l =>
      rw [postAll_last _ last] at here
      cases here
      exact (liveEntry_json l.raw).mpr (decodes k l last live (of_decide_eq_true within))
    | none =>
      rw [postAll_get, last] at here
      exact start.live k d live here

/-- The archives of the day can be read exactly if no envelope stands among them. -/
theorem readable_archives (start : Decodes u store) (day : String) :
    Readable Cbor.decodeArchive (postAll letters store)
        (dayArchives (postAll letters store) (prefixInboxLive u.str) day) ↔
      ∀ l ∈ letters, ¬ startsWith l.key (prefixInboxArchive u.str ++ day) = true := by
  unfold dayArchives
  rw [archiveBase_live]
  constructor
  · intro readable l member within
    obtain ⟨last, found⟩ := lastUnder_of_mem member
    have here := postAll_last store found
    obtain ⟨es, read⟩ := readable l.key ((ObjectMap.mem_keysAfter _ _ _ _).mpr
      ⟨⟨_, here⟩, within, fun _ wrong => nomatch wrong⟩)
    rw [here, Option.bind_some] at read
    cases read
  · intro none_ k listed
    obtain ⟨⟨d, here⟩, within, _⟩ := (ObjectMap.mem_keysAfter _ _ _ k).mp listed
    rw [here, Option.bind_some]
    cases last : lastUnder letters k with
    | some l =>
      obtain ⟨member, rfl⟩ := lastUnder_mem last
      exact absurd within (none_ l member)
    | none =>
      rw [postAll_get, last] at here
      exact start.archive k d (startsWith_trans within (startsWith_append _ _)) here

/-- A compaction succeeds exactly if it finds nothing to do, or can read everything and the store
takes the delete. -/
theorem Compacted.ok_iff {limit : Option Nat} {key : String} {live archives : List String}
    {r : Except ApiError CompactResponse} {t : Sys ι}
    (compacted : Compacted limit key live archives store r t) : (∃ response, r = .ok response) ↔
      live = [] ∨ (Readable liveEntry store live ∧ Readable Cbor.decodeArchive store archives) ∧
        ∀ n ∈ limit, (live ++ archives).length ≤ n := by
  cases compacted with
  | nothing none_ => exact ⟨fun _ => .inl none_, fun _ => ⟨_, rfl⟩⟩
  | unreadable some_ wrong =>
    constructor
    · rintro ⟨_, ok⟩
      cases ok
    · rintro (none_ | ⟨readable, _⟩)
      · exact absurd none_ some_
      · exact absurd readable wrong
  | refused some_ _ _ refused =>
    constructor
    · rintro ⟨_, ok⟩
      cases ok
    · rintro (none_ | ⟨_, accepted⟩)
      · exact absurd none_ some_
      · exact absurd accepted refused
  | done _ readable readable' accepted =>
    exact ⟨fun _ => .inr ⟨⟨readable, readable'⟩, accepted⟩, fun _ => ⟨_, rfl⟩⟩

/-- After any accepted deliveries, a compaction runs to its end, and it succeeds exactly if no key
is up to its boundary, or no envelope that was sent stands in its way and S3 takes the delete. -/
theorem compaction_unpoisoned {calls : List SendCall} {s t : Sys ι} (env : Env) (pages : Nat)
    (sent : SentAll env i calls s t) {token : Option String} {body : Option Json} {user : AuthedUser}
    {req : CompactRequest} (start : Decodes user.userId s.objects) (admits : Admits env token user t)
    (parsed : body.bind CompactRequest.fromJson = some req)
    (inbox : req.pre = prefixInboxLive user.userId.str) (upTo : req.upTo ≠ "")
    (enough : t.objects.entries.length < 100 * pages) (m : Moment) :
    (∃ r v, Runs (Alone (some S3_DELETE_LIMIT) m i) (storeCompact env pages token body).run t r v) ∧
    ∀ r v, Runs (Alone (some S3_DELETE_LIMIT) m i) (storeCompact env pages token body).run t r v →
      ((∃ response, r = .ok response) ↔
        liveUpTo t.objects (prefixInboxLive user.userId.str) req.upTo = [] ∨
          Wholesome user.userId req.upTo (env.formatDay m.now) (calls.flatMap (SendCall.letters env)) ∧
            (liveUpTo t.objects (prefixInboxLive user.userId.str) req.upTo ++ dayArchives t.objects
              (prefixInboxLive user.userId.str) (env.formatDay m.now)).length ≤ S3_DELETE_LIMIT) := by
  refine ⟨exists_runs (alone_total _ m i) _ t, fun r v run => ?_⟩
  have own : authorizeCompactPrefix user.userId.str req.pre = true := by
    simp [authorizeCompactPrefix, inbox]
  have readable : Readable liveEntry t.objects (liveUpTo t.objects (prefixInboxLive user.userId.str) req.upTo) ∧
      Readable Cbor.decodeArchive t.objects
        (dayArchives t.objects (prefixInboxLive user.userId.str) (env.formatDay m.now)) ↔
      Wholesome user.userId req.upTo (env.formatDay m.now) (calls.flatMap (SendCall.letters env)) := by
    rw [sent.writes.1, readable_live start, readable_archives start]
    exact ⟨fun w => ⟨w.1, w.2⟩, fun w => ⟨w.live, w.archive⟩⟩
  rw [(storeCompact_alone admits parsed upTo own enough r v run).ok_iff, inbox, readable]
  simp only [Option.mem_def, Option.some.injEq, forall_eq']

end Poison

section Samples

open Sample

/-- A send of the other account to the sample user. -/
def letterTo (msgId : String) (fields : List (String × Json)) : SendCall :=
  (mallorysToken, some (.obj [("envelopes", .arr [.obj ([("to_user", .str uid), ("from_user", .str mallory.str),
    ("from_device", .str mallorysDevice.str), ("msg_id", .str msgId)] ++ fields)])]))

def plainLetter (msgId : String) : SendCall := letterTo msgId [("ciphertext", .str "AAAA")]

/-- A number that no double holds. -/
def poisonedLetter : SendCall := letterTo msgId [("ciphertext", .num (.real 1 999))]

/-- The sample user's letter to herself. -/
def ownLetter : SendCall := (token, some mail)

def laterId : String := "01BX5ZZKBKACTAV9WEVGEMMVT0"

example : (Value.ofJson jsonDepth (.num (.real 1 999))).isNone = true := by decide +kernel

theorem twoAccounts_decodes : Decodes user (twoAccounts Unit).objects where
  live k d live found := by
    rw [twoAccounts_data (inbox_data (inbox_of_live live))] at found
    cases found
  archive k d archive found := by
    rw [twoAccounts_data (inbox_data (inbox_of_archive archive))] at found
    cases found

/-- Letters that are accepted lead to a state that can be computed. -/
theorem sent_letters (calls : List (SendCall × AuthedUser))
    (known : ∀ e ∈ calls, Token.identity twoEnv e.1.1 = some e.2) {P : Sys Unit → Bool}
    (checked : (sendAll () calls (twoAccounts Unit)).any P = true) :
    ∃ t, SentAll twoEnv () (calls.map Prod.fst) (twoAccounts Unit) t ∧ P t = true := by
  obtain ⟨t, ran, holds⟩ := (Option.any_eq_true _ _).mp checked
  exact ⟨t, sentAll_of_sendAll known ran, holds⟩

/-- The sample user is still known after letters were sent. -/
theorem admits_after {calls : List SendCall} {t : Sys Unit}
    (sent : SentAll twoEnv () calls (twoAccounts Unit) t)
    (cached : t.profileCache.all (fun e => decide (e.1 = uid → e.2 = 1)) = true) :
    Admits twoEnv token authed t where
  identity := twoEnv_user
  device := by
    rw [sent.writes.1, postAll_other (by simp [keyDevice, authed])]
    decide
  profile := by
    have known : (profileOf user (twoAccounts Unit)).any (fun p => decide (p.currentKv = 1)) = true := by
      decide
    obtain ⟨p, found, current⟩ := (Option.any_eq_true _ _).mp known
    refine ⟨p, ?_, of_decide_eq_true current⟩
    rw [profileOf, sent.writes.1, postAll_other (by simp [keyProfile, authed])]
    exact found
  cached kv member := by
    have here := List.all_eq_true.mp cached _ member
    exact of_decide_eq_true here rfl

/-- A letter of each account. -/
def lettersOf (msgId : String) : List (SendCall × AuthedUser) :=
  [(ownLetter, authed), (plainLetter msgId, malloryAuthed)]

theorem lettersOf_known (msgId : String) : ∀ e ∈ lettersOf msgId, Token.identity twoEnv e.1.1 = some e.2 :=
  List.forall_mem_cons.mpr ⟨twoEnv_user, List.forall_mem_singleton.mpr twoEnv_mallory⟩

def ownHeader : EnvelopeHeader := ⟨uid, uid, did, msgId⟩

def plainHeader (msgId : String) : EnvelopeHeader := ⟨uid, mallory.str, mallorysDevice.str, msgId⟩

theorem ownLetter_letters : ownLetter.letters twoEnv = [⟨user, ownHeader, envelope⟩] := by
  simp only [SendCall.letters, ownLetter, twoEnv_user]
  rfl

theorem plainLetter_letters (msgId : String) : ∃ raw, (plainLetter msgId).letters twoEnv =
    [⟨mallory, plainHeader msgId, raw⟩] ∧ (entryOf raw).isSome = true := by
  simp only [SendCall.letters, plainLetter, letterTo, twoEnv_mallory]
  exact ⟨_, rfl, rfl⟩

theorem lettersOf_letters (id : String) : ∃ raw,
    ((lettersOf id).map Prod.fst).flatMap (SendCall.letters twoEnv) =
      [⟨user, ownHeader, envelope⟩, ⟨mallory, plainHeader id, raw⟩] ∧ (entryOf raw).isSome = true := by
  obtain ⟨raw, plain, decodes⟩ := plainLetter_letters id
  refine ⟨raw, ?_, decodes⟩
  rw [lettersOf, List.map_cons, List.map_singleton, List.flatMap_cons, List.flatMap_singleton,
    ownLetter_letters, plain]
  rfl

/-- Both letters are compacted. -/
theorem letters_compact : ∃ t r v, SentAll twoEnv () ((lettersOf laterId).map Prod.fst)
    (twoAccounts Unit) t ∧
    Runs (Alone (some S3_DELETE_LIMIT) moment ())
      (storeCompact twoEnv 1 token (compactBody laterId)).run t r v ∧
    ∃ response, r = .ok response := by
  obtain ⟨t, sent, checked⟩ := sent_letters (lettersOf laterId) (lettersOf_known laterId) (P := fun t =>
      t.profileCache.all (fun e => decide (e.1 = uid → e.2 = 1)) &&
        decide (t.objects.entries.length < 100) &&
        decide ((liveUpTo t.objects (prefixInboxLive uid) laterId ++ dayArchives t.objects
          (prefixInboxLive uid) (twoEnv.formatDay moment.now)).length ≤ S3_DELETE_LIMIT)) (by decide +kernel)
  rw [Bool.and_eq_true, Bool.and_eq_true] at checked
  obtain ⟨⟨cached, enough⟩, few⟩ := checked
  obtain ⟨raw, letters, decodes⟩ := lettersOf_letters laterId
  have good : ∀ l ∈ ((lettersOf laterId).map Prod.fst).flatMap (SendCall.letters twoEnv),
      (entryOf l.raw).isSome = true ∧
        ¬ startsWith l.key (prefixInboxArchive uid ++ twoEnv.formatDay moment.now) = true := by
    have outside : ¬ startsWith (keyInboxLive uid laterId)
        (prefixInboxArchive uid ++ twoEnv.formatDay moment.now) = true := by decide +kernel
    rw [letters]
    exact List.forall_mem_cons.mpr ⟨⟨by decide, by decide +kernel⟩,
      List.forall_mem_singleton.mpr ⟨decodes, outside⟩⟩
  have wholesome : Wholesome user laterId (twoEnv.formatDay moment.now)
      (((lettersOf laterId).map Prod.fst).flatMap (SendCall.letters twoEnv)) :=
    ⟨fun k l last _ _ => Option.isSome_iff_exists.mp (good l (lastUnder_mem last).1).1,
      fun l member => (good l member).2⟩
  have parsed : (compactBody laterId).bind CompactRequest.fromJson = some (compactMail laterId) := rfl
  obtain ⟨⟨r, v, run⟩, iff⟩ := compaction_unpoisoned twoEnv 1 sent twoAccounts_decodes
    (admits_after sent cached) parsed rfl (by decide) (of_decide_eq_true enough) moment
  exact ⟨t, r, v, sent, run, (iff r v run).mpr (.inr ⟨wholesome, of_decide_eq_true few⟩)⟩

theorem letter_poisons : ∃ t r v, SentAll twoEnv () [poisonedLetter] (twoAccounts Unit) t ∧
    Runs (Alone (some S3_DELETE_LIMIT) moment ())
      (storeCompact twoEnv 1 token (compactBody msgId)).run t r v ∧
    r.isOk = false := by
  have lone : (authenticate twoEnv token true) = admitUser authed true := authenticate_known twoEnv_user true
  obtain ⟨t, sent, checked⟩ := sent_letters [(poisonedLetter, malloryAuthed)]
    (List.forall_mem_singleton.mpr twoEnv_mallory) (P := fun t =>
      ((storeCompact twoEnv 1 token (compactBody msgId)).run.execute
        (fun o s => alone (some S3_DELETE_LIMIT) moment () o .ok s) t).any fun done => !done.1.isOk) (by
    simp only [storeCompact, lone]
    decide +kernel)
  obtain ⟨⟨r, v⟩, ran, refused⟩ := (Option.any_eq_true _ _).mp checked
  exact ⟨t, r, v, sent, (runs_of_execute ran).mono fun _ _ _ _ served => ⟨.ok, served⟩, by simpa using refused⟩

end Samples

end Atmin
