import Atmin.Inbox.NoLoss
import Atmin.Inbox.Outcome
import Atmin.Server.Sample

/-!
# A compaction makes progress

Alone on a healthy S3 store, a compaction replaces the live objects up to its boundary and the
archives of its day by one archive of their entries, each `msg_id` once. It is refused the
delete, after it wrote the archive, when the keys to delete are more than S3 takes in one call.
-/

namespace Atmin

open Interaction

/-- What S3 takes in one `DeleteObjects` call. -/
def S3_DELETE_LIMIT : Nat := 1000

/-- The entry has the `msg_id` of an earlier one. -/
def Repeats (earlier : List Value) (x : Value) : Prop :=
  ∃ y ∈ earlier, (Cbor.getText y "msg_id").isSome ∧ Cbor.getText y "msg_id" = Cbor.getText x "msg_id"

instance (earlier : List Value) (x : Value) : Decidable (Repeats earlier x) :=
  inferInstanceAs (Decidable (∃ y ∈ earlier, _ ∧ _))

/-- The entries that repeat no earlier `msg_id`. -/
def firstByMsgId (entries : List Value) : List Value :=
  (entries.zipIdx.filter fun e => decide (¬ Repeats (entries.take e.2) e.1)).map Prod.fst

/-- One archive instead of the live objects and archives, and nothing else changed. Where there
is no live object, nothing is to be done. -/
def Progressed (key : String) (live archives : List String) (store : Store)
    (r : Except ApiError CompactResponse) (t : Store) : Prop :=
  (∃ response, r = .ok response) ∧
    if live = [] then t = store
    else (∀ k, k ∈ live ∨ k ∈ archives → t.get k = none) ∧
      (∀ k, k ∉ live → k ∉ archives → k ≠ key → t.get k = store.get k) ∧
      t.get key = some (.cbor (firstByMsgId (collected store live archives)))

/-! ### The entries of an archive -/

/-- Deduplication, where `before` was seen already. -/
theorem deduplicateFrom_eq (seen : List String) (before rest : List Value)
    (known : ∀ id, id ∈ seen ↔ ∃ y ∈ before, Cbor.getText y "msg_id" = some id) :
    Cbor.deduplicateFrom seen rest = ((rest.zipIdx before.length).filter fun e =>
      decide (¬ Repeats ((before ++ rest).take e.2) e.1)).map Prod.fst := by
  induction rest generalizing seen before with
  | nil => rfl
  | cons x rest ih =>
    -- the rest, with `x` among what is before it
    have later (seen' : List String)
        (known' : ∀ id, id ∈ seen' ↔ ∃ y ∈ before ++ [x], Cbor.getText y "msg_id" = some id) :
        Cbor.deduplicateFrom seen' rest = ((rest.zipIdx (before.length + 1)).filter fun e =>
          decide (¬ Repeats ((before ++ x :: rest).take e.2) e.1)).map Prod.fst := by
      have split : before ++ x :: rest = before ++ [x] ++ rest := by simp
      rw [ih seen' (before ++ [x]) known', split, List.length_append, List.length_singleton]
    have prior : (before ++ x :: rest).take before.length = before := List.take_left
    rw [List.zipIdx_cons, List.filter_cons]
    simp only [prior]
    cases named : Cbor.getText x "msg_id" with
    -- without an id nothing repeats
    | none =>
      have new : ¬ Repeats before x := by
        rintro ⟨y, _, some_, same⟩
        rw [same, named] at some_
        cases some_
      have kept : Cbor.deduplicateFrom seen (x :: rest) = x :: Cbor.deduplicateFrom seen rest := by
        simp only [Cbor.deduplicateFrom, named]
      rw [kept, later seen (fun id => by rw [known]; simp [named]), if_pos (decide_eq_true new),
        List.map_cons]
    | some id =>
      have repeats : id ∈ seen ↔ Repeats before x := by
        rw [known, Repeats]
        constructor
        · rintro ⟨y, member, same⟩
          exact ⟨y, member, by rw [same]; rfl, same.trans named.symm⟩
        · rintro ⟨y, member, _, same⟩
          exact ⟨y, member, same.trans named⟩
      by_cases again : id ∈ seen
      · -- a repetition is dropped, and the ids seen are the same
        have dropped : Cbor.deduplicateFrom seen (x :: rest) = Cbor.deduplicateFrom seen rest := by
          simp only [Cbor.deduplicateFrom, named, if_pos again]
        have old : ¬ decide (¬ Repeats before x) = true := by simpa using repeats.mp again
        rw [dropped, if_neg old, later seen fun id' => ?_]
        rw [known]
        constructor
        · rintro ⟨y, member, same⟩
          exact ⟨y, List.mem_append_left _ member, same⟩
        · rintro ⟨y, member, same⟩
          rcases List.mem_append.mp member with old | new
          · exact ⟨y, old, same⟩
          · rw [List.mem_singleton.mp new, named] at same
            cases same
            exact (known id).mp again
      · -- a new id is kept and is seen from here on
        have kept : Cbor.deduplicateFrom seen (x :: rest) =
            x :: Cbor.deduplicateFrom (id :: seen) rest := by
          simp only [Cbor.deduplicateFrom, named, if_neg again]
        have new : decide (¬ Repeats before x) = true := decide_eq_true fun old => again (repeats.mpr old)
        rw [kept, if_pos new, later (id :: seen) fun id' => ?_, List.map_cons]
        rw [List.mem_cons, known]
        constructor
        · rintro (rfl | ⟨y, member, same⟩)
          · exact ⟨x, by simp, named⟩
          · exact ⟨y, List.mem_append_left _ member, same⟩
        · rintro ⟨y, member, same⟩
          rcases List.mem_append.mp member with old | new
          · exact .inr ⟨y, old, same⟩
          · rw [List.mem_singleton.mp new, named] at same
            exact .inl (Option.some.inj same).symm

/-- Deduplication keeps each `msg_id` once, at its first occurrence. -/
theorem deduplicateByMsgId_eq (entries : List Value) :
    Cbor.deduplicateByMsgId entries = firstByMsgId entries :=
  deduplicateFrom_eq [] [] entries (by simp)

section Progress

variable {ι : Type} {i : ι} {key : String} {live archives : List String} {store : Store} {m : Moment}

/-- Where everything can be read, the outcome is as it should be exactly if S3 takes the delete. -/
theorem Compacted.progressed_iff {r : Except ApiError CompactResponse} {t : Sys ι}
    (compacted : Compacted (some S3_DELETE_LIMIT) key live archives store r t)
    (stored : ∀ k, k ∈ live ∨ k ∈ archives → ∃ d, store.get k = some d)
    (readable : Readable liveEntry store live) (readable' : Readable Cbor.decodeArchive store archives)
    (fresh : store.get key = none) : Progressed key live archives store r t.objects ↔
      live = [] ∨ (live ++ archives).length ≤ S3_DELETE_LIMIT := by
  have other {k : String} (listed : k ∈ live ∨ k ∈ archives) : k ≠ key := by
    rintro rfl
    obtain ⟨d, here⟩ := stored k listed
    rw [fresh] at here
    cases here
  cases compacted with
  | nothing none_ same =>
    refine ⟨fun _ => .inl none_, fun _ => ⟨⟨_, rfl⟩, ?_⟩⟩
    rw [if_pos none_]
    exact same
  | unreadable _ wrong _ => exact absurd ⟨readable, readable'⟩ wrong
  | refused some_ _ _ refused _ =>
    refine ⟨fun progressed => ?_, fun fits => ?_⟩
    · obtain ⟨⟨_, wrong⟩, _⟩ := progressed
      cases wrong
    · refine absurd (fits.resolve_left some_) fun fits => refused fun n limit => ?_
      cases limit
      exact fits
  | done some_ _ _ accepted after =>
    refine ⟨fun _ => .inr (accepted _ rfl), fun _ => ⟨⟨_, rfl⟩, ?_⟩⟩
    rw [if_neg some_, after]
    refine ⟨fun k listed => ?_, fun k notLive notArchive differ => ?_, ?_⟩
    · simp [List.mem_append.mpr listed]
    · simp [notLive, notArchive, differ]
    · have notListed : key ∉ live ++ archives := fun listed => other (List.mem_append.mp listed) rfl
      simp [notListed, deduplicateByMsgId_eq]

/-- Alone on a healthy S3 store and with a new id, a compaction of decodable objects runs to its
end, and it makes progress exactly if there is nothing to be done or S3 takes the delete. -/
theorem compaction_progresses {s : Sys ι} (env : Env) (pages : Nat) {token : Option String}
    {body : Option Json} {user : AuthedUser} {req : CompactRequest} (admits : Admits env token user s)
    (parsed : body.bind CompactRequest.fromJson = some req) (upTo : req.upTo ≠ "")
    (own : authorizeCompactPrefix user.userId.str req.pre = true)
    (enough : s.objects.entries.length < 100 * pages) (m : Moment)
    (fresh : s.objects.get (newArchive env req.pre m) = none)
    (decodable : Readable liveEntry s.objects (liveUpTo s.objects req.pre req.upTo))
    (decodable' : Readable Cbor.decodeArchive s.objects
      (dayArchives s.objects req.pre (env.formatDay m.now))) :
    (∃ r t, Runs (Alone (some S3_DELETE_LIMIT) m i) (storeCompact env pages token body).run s r t) ∧
    ∀ r t, Runs (Alone (some S3_DELETE_LIMIT) m i) (storeCompact env pages token body).run s r t →
      (Progressed (newArchive env req.pre m) (liveUpTo s.objects req.pre req.upTo)
          (dayArchives s.objects req.pre (env.formatDay m.now)) s.objects r t.objects ↔
        liveUpTo s.objects req.pre req.upTo = [] ∨
          (liveUpTo s.objects req.pre req.upTo ++
            dayArchives s.objects req.pre (env.formatDay m.now)).length ≤ S3_DELETE_LIMIT) := by
  refine ⟨exists_runs (alone_total _ m i) _ s, fun r t run => ?_⟩
  refine (storeCompact_alone admits parsed upTo own enough r t run).progressed_iff ?_ decodable
    decodable' fresh
  rintro k (listed | listed)
  · exact listed_stored (List.mem_of_mem_filter listed)
  · exact listed_stored listed

end Progress

section Samples

open Sample

def moment : Moment := ⟨0, "01BX5ZZKBKACTAV9WEVGEMMVS1"⟩

def compactMail (upTo : String) : CompactRequest := ⟨prefixInboxLive uid, upTo⟩

def compactBody (upTo : String) : Option Json :=
  some (.obj [("prefix", .str (prefixInboxLive uid)), ("up_to", .str upTo)])

/-- The account with these envelopes in its live inbox. -/
def withMail (msgIds : List String) : Sys Unit :=
  { sys Unit with
    objects := msgIds.foldr (fun msgId objects => objects.insert (keyInboxLive uid msgId) (.json envelope))
      Sample.store }

theorem withMail_get (msgIds : List String) (k : String) : (withMail msgIds).objects.get k =
    if ∃ msgId ∈ msgIds, keyInboxLive uid msgId = k then some (.json envelope) else Sample.store.get k := by
  induction msgIds with
  | nil => simp [withMail]
  | cons msgId rest ih =>
    have unfolded : (withMail (msgId :: rest)).objects =
        (withMail rest).objects.insert (keyInboxLive uid msgId) (.json envelope) := rfl
    rw [unfolded, ObjectMap.get_insert, ih]
    by_cases same : keyInboxLive uid msgId = k
    · simp [same]
    · simp [same, Ne.symm same]

theorem withMail_other (msgIds : List String) {k : String} (other : ¬ InLive user k) :
    (withMail msgIds).objects.get k = Sample.store.get k := by
  rw [withMail_get, if_neg]
  rintro ⟨msgId, _, rfl⟩
  exact other (live_key user msgId)

theorem withMail_archive (msgIds : List String) {k : String} (archive : InArchive user k) :
    (withMail msgIds).objects.get k = none := by
  rw [withMail_other msgIds fun live => live_not_archive live archive]
  exact store_inbox (inbox_of_archive archive)

theorem not_live {k : String} (head : k.toList.head? ≠ some 'i') : ¬ InLive user k := by
  intro live
  simp only [InLive, startsWith, List.isPrefixOf_iff_prefix] at live
  obtain ⟨rest, same⟩ := live
  rw [← same] at head
  exact head rfl

theorem withMail_admits (msgIds : List String) : Admits env token authed (withMail msgIds) where
  identity := identity_token
  device := by
    rw [withMail_other _ (not_live (by simp [keyDevice, authed]))]
    decide
  profile := by
    refine ⟨Sample.profile, ?_, by decide⟩
    rw [profileOf, withMail_other _ (not_live (by simp [keyProfile, authed]))]
    exact stored_profile (ι := Unit)
  cached _ member := nomatch member

theorem withMail_live (msgIds : List String) :
    Readable liveEntry (withMail msgIds).objects (liveUpTo (withMail msgIds).objects (prefixInboxLive uid) upTo) := by
  intro k listed
  obtain ⟨⟨d, here⟩, within, _⟩ := (ObjectMap.mem_keysAfter _ _ _ k).mp (List.mem_of_mem_filter listed)
  have mail : d = .json envelope := by
    rw [withMail_get] at here
    split at here
    next => exact (Option.some.inj here).symm
    next => rw [store_inbox (inbox_of_live within)] at here; cases here
  rw [here, mail]
  exact Option.isSome_iff_exists.mp (by decide)

theorem withMail_archives (msgIds : List String) (day : String) :
    dayArchives (withMail msgIds).objects (prefixInboxLive uid) day = [] := by
  refine List.eq_nil_iff_forall_not_mem.mpr fun k listed => ?_
  obtain ⟨⟨d, here⟩, within, _⟩ := (ObjectMap.mem_keysAfter _ _ _ k).mp listed
  have archive : InArchive user k := by
    rw [archiveBase_live] at within
    exact startsWith_trans within (startsWith_append _ _)
  rw [withMail_archive msgIds archive] at here
  cases here

theorem withMail_length (msgIds : List String) :
    (withMail msgIds).objects.entries.length ≤ msgIds.length + 3 := by
  induction msgIds with
  | nil => exact (by decide : Sample.store.entries.length ≤ 3)
  | cons msgId rest ih =>
    have fewer : (((withMail rest).objects.erase (keyInboxLive uid msgId)).entries).length ≤
        (withMail rest).objects.entries.length := List.length_filter_le _ _
    show (((withMail rest).objects.erase (keyInboxLive uid msgId)).entries).length + 1 ≤ rest.length + 1 + 3
    omega

theorem withMail_listed (msgIds : List String) {msgId upTo : String} (member : msgId ∈ msgIds)
    (within : prefixInboxLive uid ++ msgId ≤ prefixInboxLive uid ++ upTo) :
    keyInboxLive uid msgId ∈ liveUpTo (withMail msgIds).objects (prefixInboxLive uid) upTo := by
  refine List.mem_filter.mpr ⟨(ObjectMap.mem_keysAfter _ _ _ _).mpr
    ⟨⟨.json envelope, ?_⟩, live_key user msgId, fun _ wrong => nomatch wrong⟩, decide_eq_true within⟩
  rw [withMail_get, if_pos ⟨msgId, member, rfl⟩]

def secondId : String := "01BX5ZZKBKACTAV9WEVGEMMVS3"

/-- The key of an archive of the day. -/
def morningArchive : String := prefixInboxArchive uid ++ env.formatDay moment.now ++ "-morning"

/-- Two live envelopes, and an archive of the same day with one of them and another entry. -/
def withArchive : Sys Unit :=
  { withMail [msgId, secondId] with
    objects := (withMail [msgId, secondId]).objects.insert morningArchive
      (.cbor [.map [(.text "msg_id", .text msgId)], .map [(.text "msg_id", .text "earlier")]]) }

theorem withArchive_other {k : String} (other : k ≠ morningArchive) :
    withArchive.objects.get k = (withMail [msgId, secondId]).objects.get k := by
  rw [withArchive, ObjectMap.get_insert, if_neg other]

theorem withArchive_admits : Admits env token authed withArchive := by
  have admits := withMail_admits [msgId, secondId]
  refine admits.kept (fun own => withArchive_other ?_) admits.cached
  rintro rfl
  exact absurd own (by decide)

/-- Both live envelopes and the archive are replaced by one archive. -/
theorem mail_compacts : ∃ r t, Runs (Alone (some S3_DELETE_LIMIT) moment ())
      (storeCompact env 1 token (compactBody secondId)).run withArchive r t ∧
    Progressed (newArchive env (prefixInboxLive uid) moment)
      [keyInboxLive uid msgId, keyInboxLive uid secondId] [morningArchive] withArchive.objects r
      t.objects := by
  have live : liveUpTo withArchive.objects (prefixInboxLive uid) secondId =
      [keyInboxLive uid msgId, keyInboxLive uid secondId] := by decide +kernel
  have archives : dayArchives withArchive.objects (prefixInboxLive uid) (env.formatDay moment.now) =
      [morningArchive] := by decide +kernel
  have decodes : Readable liveEntry withArchive.objects
      [keyInboxLive uid msgId, keyInboxLive uid secondId] :=
    List.forall_mem_cons.mpr ⟨Option.isSome_iff_exists.mp (by decide +kernel),
      List.forall_mem_singleton.mpr (Option.isSome_iff_exists.mp (by decide +kernel))⟩
  have decodes' : Readable Cbor.decodeArchive withArchive.objects [morningArchive] :=
    List.forall_mem_singleton.mpr (Option.isSome_iff_exists.mp (by decide +kernel))
  have parsed : (compactBody secondId).bind CompactRequest.fromJson = some (compactMail secondId) := rfl
  obtain ⟨⟨r, t, run⟩, iff⟩ := compaction_progresses (i := ()) env 1 withArchive_admits parsed
    (by decide) (by decide) (by decide +kernel) moment (by decide +kernel)
    (by rw [compactMail, live]; exact decodes) (by rw [compactMail, archives]; exact decodes')
  have done := iff r t run
  simp only [compactMail, live, archives] at done
  exact ⟨r, t, run, done.mpr (.inr (by decide))⟩

/-- Ids of growing length, each a prefix of the next. -/
def crowd (size : Nat) : List String :=
  (List.range size).map fun n => String.ofList (List.replicate (n + 1) '7')

def lastId (size : Nat) : String := String.ofList (List.replicate size '7')

theorem crowd_listed (size : Nat) : size ≤
    (liveUpTo (withMail (crowd size)).objects (prefixInboxLive uid) (lastId size)).length := by
  have distinct : ((crowd size).map (keyInboxLive uid)).Nodup := by
    refine List.Nodup.map (fun _ _ => live_key_inj) (List.Nodup.map (fun a b same => ?_) List.nodup_range)
    have lengths := congrArg (fun s => s.toList.length) same
    simpa using lengths
  have listed : (crowd size).map (keyInboxLive uid) ⊆
      liveUpTo (withMail (crowd size)).objects (prefixInboxLive uid) (lastId size) := by
    intro k member
    obtain ⟨msgId, here, rfl⟩ := List.mem_map.mp member
    refine withMail_listed _ here ?_
    obtain ⟨n, within, rfl⟩ := List.mem_map.mp here
    have few := Nat.succ_le_of_lt (List.mem_range.mp within)
    refine String.le_iff_toList_le.mpr (not_lt.mp (List.IsPrefix.le ?_))
    simp only [String.toList_append, List.prefix_append_right_inj, lastId, String.toList_ofList,
      List.prefix_replicate_iff, List.length_replicate]
    exact ⟨few, trivial⟩
  have all := (List.subperm_of_subset distinct listed).length_le
  rwa [List.length_map, crowd, List.length_map, List.length_range] at all

/-- Of a thousand and one envelopes none is deleted, though their archive is written. -/
theorem crowd_not_compacted : ∃ r t, Runs (Alone (some S3_DELETE_LIMIT) moment ())
      (storeCompact env 20 token (compactBody (lastId 1001))).run (withMail (crowd 1001)) r t ∧
    (∃ e, r = .error e) ∧ (∀ msgId ∈ crowd 1001, (t.objects.get (keyInboxLive uid msgId)).isSome) ∧
    ¬ Progressed (newArchive env (prefixInboxLive uid) moment)
      (liveUpTo (withMail (crowd 1001)).objects (prefixInboxLive uid) (lastId 1001)) [] (withMail (crowd 1001)).objects r
      t.objects := by
  have many : S3_DELETE_LIMIT <
      (liveUpTo (withMail (crowd 1001)).objects (prefixInboxLive uid) (lastId 1001)).length :=
    crowd_listed 1001
  obtain ⟨r, t, run⟩ := exists_runs (alone_total (some S3_DELETE_LIMIT) moment ())
    (storeCompact env 20 token (compactBody (lastId 1001))).run (withMail (crowd 1001))
  have parsed : (compactBody (lastId 1001)).bind CompactRequest.fromJson =
      some (compactMail (lastId 1001)) := rfl
  have compacted := storeCompact_alone (withMail_admits (crowd 1001)) parsed (by decide +kernel)
    (by decide +kernel)
    (lt_of_le_of_lt (withMail_length _) (by simp [crowd])) r t run
  simp only [compactMail, withMail_archives (crowd 1001)] at compacted
  refine ⟨r, t, run, ?_⟩
  cases compacted with
  | nothing none_ => exact absurd many (by rw [none_]; decide)
  | unreadable _ wrong => exact absurd ⟨withMail_live (crowd 1001), fun _ member => nomatch member⟩ wrong
  | refused _ _ _ _ after =>
    refine ⟨⟨_, rfl⟩, fun msgId member => ?_, fun wrong => nomatch wrong.1⟩
    rw [after, ObjectMap.get_insert]
    split
    next => rfl
    next => rw [withMail_get, if_pos ⟨msgId, member, rfl⟩]; rfl
  | done _ _ _ accepted =>
    have fits := accepted _ rfl
    rw [List.append_nil] at fits
    exact absurd many (not_lt.mpr fits)

end Samples

end Atmin
