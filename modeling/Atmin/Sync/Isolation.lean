import Mathlib.Data.List.Pairwise
import Atmin.Sync.Collected

/-!
# Hostile envelopes among honest ones

Two runs of one device, over an inbox and over the same inbox without some envelopes. The
two agree on the sessions and the ids of the honest envelopes, as long as what the hostile
ones bring into the batch does not keep it from being written.
-/

namespace Atmin.Web

open Interaction

section Decoding

variable [CborDecoder]

/-- What is left of an object without its hostile envelopes. -/
def purge (hostile : Js → Bool) : Data → Option Data
  | .json raw => if hostile (Js.ofJson raw) then none else some (.json raw)
  | .cbor entries => some (.cbor (entries.filter fun v => !hostile (Js.ofValue v)))
  | d => some d

/-- The same device over the inbox without the hostile envelopes. -/
def State.without (hostile : Js → Bool) (s : State) : State :=
  { s with objects := s.objects.mapValues (purge hostile) }

section Hostile

variable (page : Page) (hostile : Js → Bool) (s : State)

/-- The id of a hostile envelope. -/
def Alien (id : Js) : Prop :=
  ∃ e, InStore page.userId s e ∧ hostile e = true ∧ e.member "msg_id" = .ok id

/-- The session of a key share, or of a message. -/
def Uses (e : Js) (sessionId : String) : Prop :=
  (∃ k, SharesKey page e k ∧ k.sessionId = sessionId) ∨
    ∃ payload, e.member "payload" = .ok payload ∧ payload.member "session_id" = .ok (.str sessionId)

/-- The hostile envelopes have ids of their own, and share sessions of their own. -/
structure Strangers : Prop where
  named : ∀ e id, InStore page.userId s e → hostile e = true → e.member "msg_id" = .ok id →
    ∃ name, id = .str name
  fresh : ∀ e, InStore page.userId s e → hostile e = false → ∀ id, e.member "msg_id" = .ok id →
    ¬ Alien page hostile s id
  sessions : ∀ e k, InStore page.userId s e → hostile e = true → SharesKey page e k →
    ∀ e', InStore page.userId s e' → hostile e' = false → ¬ Uses page e' k.sessionId

/-- Each hostile message that opens would be stored in a conversation whose id is a key. -/
def Filable : Prop :=
  ∀ e m, InStore page.userId s e → hostile e = true → Materializes page.toAccount e m →
    HasKey m.conversationId

/-- The rows that belong to no hostile envelope are the same. -/
def SameHonest (t t' : State) : Prop :=
  ∀ key row, ¬ Alien page hostile s row.id →
    (t.db.messages.get key = some row ↔ t'.db.messages.get key = some row)

end Hostile

section Agreement

variable {page : Page} {hostile : Js → Bool} {s0 : State} {K K' : Sessions} {seen seen' : List Js}
  {e : Js} {es : List Js}

/-- The two devices know the same sessions of honest envelopes. -/
def SameSessions (page : Page) (hostile : Js → Bool) (s0 : State) (K K' : Sessions) : Prop :=
  ∀ e sessionId, InStore page.userId s0 e → hostile e = false → Uses page e sessionId →
    K sessionId = K' sessionId

/-- The two devices have seen the same ids of honest envelopes. -/
def SameSeen (page : Page) (hostile : Js → Bool) (s0 : State) (seen seen' : List Js) : Prop :=
  ∀ id, ¬ Alien page hostile s0 id → (id.isIn seen = true ↔ id.isIn seen' = true)

/-! ### Sessions -/

theorem SameSeen.isShare (same : SameSeen page hostile s0 seen seen')
    (strangers : Strangers page hostile s0) (inside : InStore page.userId s0 e)
    (honest : hostile e = false) : isShare seen e = isShare seen' e := by
  rw [Bool.eq_iff_iff, isShare_iff, isShare_iff]
  refine and_congr_right fun _ => exists_congr fun id => and_congr_right fun named => ?_
  rw [← Bool.not_eq_true, ← Bool.not_eq_true, same id (strangers.fresh e inside honest id named)]

theorem SameSeen.isUnread (same : SameSeen page hostile s0 seen seen')
    (strangers : Strangers page hostile s0) (inside : InStore page.userId s0 e)
    (honest : hostile e = false) : isUnread seen e = isUnread seen' e := by
  rw [Bool.eq_iff_iff, isUnread_iff, isUnread_iff]
  refine exists_congr fun id => and_congr_right fun message => ?_
  rw [← Bool.not_eq_true, ← Bool.not_eq_true, same id (strangers.fresh e inside honest id message.2)]

theorem learn_same (same : SameSessions page hostile s0 K K') (inside : InStore page.userId s0 e)
    (honest : hostile e = false) {k : Inbound} (shares : SharesKey page e k) :
    SameSessions page hostile s0 (learn K k) (learn K' k) := by
  intro e' sessionId inside' honest' uses
  have known := same e k.sessionId inside honest (.inl ⟨k, shares, rfl⟩)
  have before := same e' sessionId inside' honest' uses
  unfold learn
  rw [known]
  split
  · exact before
  · rw [Function.update_apply, Function.update_apply, before]

/-- An honest envelope teaches both devices the same. -/
theorem learnFrom_same (same : SameSessions page hostile s0 K K')
    (seen_ : SameSeen page hostile s0 seen seen') (strangers : Strangers page hostile s0)
    (inside : InStore page.userId s0 e) (honest : hostile e = false) :
    SameSessions page hostile s0 (learnFrom page seen K e) (learnFrom page seen' K' e) := by
  unfold learnFrom
  rw [seen_.isShare strangers inside honest]
  split
  next share =>
    cases opened : shareOf page e with
    | none => exact same
    | some k => exact learn_same same inside honest ⟨(isShare_iff.mp share).1, opened⟩
  next => exact same

/-- A hostile envelope teaches the one device nothing about honest sessions. -/
theorem learnFrom_hostile (same : SameSessions page hostile s0 K K')
    (strangers : Strangers page hostile s0) (inside : InStore page.userId s0 e)
    (alien : hostile e = true) : SameSessions page hostile s0 (learnFrom page seen K e) K' := by
  unfold learnFrom
  split
  next share =>
    cases opened : shareOf page e with
    | none => exact same
    | some k =>
      intro e' sessionId inside' honest' uses
      have own := strangers.sessions e k inside alien ⟨(isShare_iff.mp share).1, opened⟩ e' inside' honest'
      have other : sessionId ≠ k.sessionId := fun equal => own (equal ▸ uses)
      have kept : learn K k sessionId = K sessionId := by
        unfold learn
        split
        · rfl
        · exact Function.update_of_ne other _ _
      exact kept.trans (same e' sessionId inside' honest' uses)
  next => exact same

theorem learnAll_same (same : SameSessions page hostile s0 K K')
    (seen_ : SameSeen page hostile s0 seen seen') (strangers : Strangers page hostile s0)
    (inside : ∀ e ∈ es, InStore page.userId s0 e) : SameSessions page hostile s0
      (learnAll page seen es K) (learnAll page seen' (es.filter fun e => !hostile e) K') := by
  induction es generalizing K K' with
  | nil => exact same
  | cons e rest ih =>
    have first := inside e List.mem_cons_self
    have others := fun e member => inside e (List.mem_cons_of_mem _ member)
    cases alien : hostile e with
    | true =>
      rw [List.filter_cons_of_neg (by simp [alien])]
      exact ih (learnFrom_hostile same strangers first alien) others
    | false =>
      rw [List.filter_cons_of_pos (by simp [alien])]
      exact ih (learnFrom_same same seen_ strangers first alien) others

/-! ### Messages -/

/-- What was gathered from honest envelopes is the same. -/
structure SameGathered (page : Page) (hostile : Js → Bool) (s0 : State) (acc acc' : Gathered) : Prop where
  messages : ∀ m, m ∈ acc'.messages ↔ m ∈ acc.messages ∧ ¬ Alien page hostile s0 m.id
  seen : SameSeen page hostile s0 acc.seen acc'.seen
  skips : acc'.recoverableSkips ≤ acc.recoverableSkips

theorem SameGathered.start (same : SameSeen page hostile s0 seen seen') :
    SameGathered page hostile s0 { seen } { seen := seen' } :=
  ⟨fun m => by simp, same, Nat.le_refl _⟩

theorem SameGathered.push {acc acc' : Gathered} (same : SameGathered page hostile s0 acc acc')
    {sessionId : String} {m : DecryptedMessage} (honest : ¬ Alien page hostile s0 m.id) :
    SameGathered page hostile s0 ((acc.advance sessionId).push m) ((acc'.advance sessionId).push m) where
  messages m' := by
    simp only [Gathered.push, Gathered.advance, List.mem_append, List.mem_singleton, same.messages]
    constructor
    · rintro (⟨old, own⟩ | rfl)
      · exact ⟨.inl old, own⟩
      · exact ⟨.inr rfl, honest⟩
    · rintro ⟨old | rfl, own⟩
      · exact .inl ⟨old, own⟩
      · exact .inr rfl
  seen id own := by
    simp only [Gathered.push, Gathered.advance, isIn_addOnce_iff, same.seen id own]
  skips := same.skips

theorem SameGathered.alien {acc acc' : Gathered} (same : SameGathered page hostile s0 acc acc')
    {sessionId : String} {m : DecryptedMessage} (alien : Alien page hostile s0 m.id) :
    SameGathered page hostile s0 ((acc.advance sessionId).push m) acc' where
  messages m' := by
    simp only [Gathered.push, Gathered.advance, List.mem_append, List.mem_singleton, same.messages]
    constructor
    · rintro ⟨old, own⟩
      exact ⟨.inl old, own⟩
    · rintro ⟨old | rfl, own⟩
      · exact ⟨old, own⟩
      · exact absurd alien own
  seen id own := by
    simp only [Gathered.push, Gathered.advance, isIn_addOnce_iff, same.seen id own]
    refine ⟨fun either => either.resolve_right fun equal => own ?_, .inl⟩
    rw [Js.eq_of_same equal]
    exact alien
  skips := same.skips

theorem readAll_same {acc acc' : Gathered} (same : SameGathered page hostile s0 acc acc')
    (sessions : SameSessions page hostile s0 K K') (strangers : Strangers page hostile s0)
    (proper : Proper K) (inside : ∀ e ∈ es, InStore page.userId s0 e) :
    SameGathered page hostile s0 (es.foldl (readOne page.toAccount K) acc)
      ((es.filter fun e => !hostile e).foldl (readOne page.toAccount K') acc') := by
  induction es generalizing acc acc' with
  | nil => exact same
  | cons e rest ih =>
    have first := inside e List.mem_cons_self
    have others := fun e member => inside e (List.mem_cons_of_mem _ member)
    cases alien : hostile e with
    -- a hostile envelope adds at most a message of its own and a skip
    | true =>
      rw [List.filter_cons_of_neg (by simp [alien])]
      refine ih ?_ others
      rw [readOne_eq]
      split
      next unread =>
        obtain ⟨id, message, _⟩ := isUnread_iff.mp unread
        cases effect : effectOf page.toAccount K e with
        | push sessionId m =>
          exact same.alien ⟨e, first, alien, (effectOf_push proper message effect).1.2⟩
        | skip => exact ⟨same.messages, same.seen, Nat.le_succ_of_le same.skips⟩
        | _ => exact ⟨same.messages, same.seen, same.skips⟩
      next => exact same
    -- an honest one has the same effect, since its session is the same
    | false =>
      rw [List.filter_cons_of_pos (by simp [alien])]
      refine ih ?_ others
      have effects : effectOf page.toAccount K e = effectOf page.toAccount K' e :=
        effectOf_congr fun payload name found session =>
          sessions e name first alien (.inr ⟨payload, found, session⟩)
      rw [readOne_eq, readOne_eq, same.seen.isUnread strangers first alien, ← effects]
      split
      next unread =>
        obtain ⟨id, message, _⟩ := isUnread_iff.mp unread
        cases effect : effectOf page.toAccount K e with
        | push sessionId m =>
          exact same.push (strangers.fresh e first alien m.id (effectOf_push proper message effect).1.2)
        | skip => exact ⟨same.messages, same.seen, Nat.succ_le_succ same.skips⟩
        | _ => exact ⟨same.messages, same.seen, same.skips⟩
      next => exact same

/-! ### Archives -/

variable {objects objects' : ObjectMap String Data} {ingested ingested' : List String}

theorem ofValues_filter (hostile : Js → Bool) (entries : List Value) :
    Js.ofValues (entries.filter fun v => !hostile (Js.ofValue v)) =
      (Js.ofValues entries).filter fun e => !hostile e := by
  induction entries with
  | nil => rfl
  | cons v rest ih =>
    cases alien : hostile (Js.ofValue v) with
    | true =>
      rw [List.filter_cons_of_neg (by simp [alien]), Js.ofValues,
        List.filter_cons_of_neg (by simp [alien])]
      exact ih
    | false =>
      rw [List.filter_cons_of_pos (by simp [alien]), Js.ofValues, Js.ofValues,
        List.filter_cons_of_pos (by simp [alien]), ih]

/-- Both devices have read the archives up to some point. -/
structure SamePass (page : Page) (hostile : Js → Bool) (s0 : State) (ingested' : List String)
    (acc acc' : ArchiveResult × Sessions) : Prop where
  gathered : SameGathered page hostile s0 acc.1.gathered acc'.1.gathered
  sessions : SameSessions page hostile s0 acc.2 acc'.2
  proper : Proper acc.2
  candidates : ∀ key ∈ acc.1.ingestedCandidates,
    key ∈ ingested' ∨ key ∈ acc'.1.ingestedCandidates

/-- Adding what was read from one archive on both devices. -/
theorem SameGathered.add {acc acc' : ArchiveResult} {one one' : Gathered} (key key' : String)
    (same : SameGathered page hostile s0 acc.gathered acc'.gathered)
    (read : SameGathered page hostile s0 one one') :
    SameGathered page hostile s0 (acc.add key one).gathered (acc'.add key' one').gathered where
  messages m := by
    simp only [ArchiveResult.add, List.mem_append, same.messages, read.messages, or_and_right]
  seen := read.seen
  skips := same.skips

/-- One archive, read by both devices or by the first alone, which had skipped a hostile entry. -/
theorem readArchive_same {acc acc' : ArchiveResult × Sessions} {key : String}
    (strangers : Strangers page hostile s0)
    (purged : objects'.get key = (objects.get key).bind (purge hostile))
    (fewer : ingested ⊆ ingested')
    (done : key ∈ ingested' → key ∉ ingested →
      DoneWith page objects' acc'.2 acc'.1.gathered.seen key)
    (inside : ∀ entries, objects.get key = some (.cbor entries) →
      ∀ e ∈ Js.ofValues entries, InStore page.userId s0 e)
    (same : SamePass page hostile s0 ingested' acc acc') :
    SamePass page hostile s0 ingested' (readArchive page objects ingested acc key)
      (readArchive page objects' ingested' acc' key) := by
  by_cases old : key ∈ ingested
  · rw [readArchive, if_pos old, readArchive, if_pos (fewer old)]
    exact same
  rw [readArchive, if_neg old]
  cases found : objects.get key with
  | none =>
    rw [found] at purged
    simp only [readArchive, purged, Option.bind_none, ite_self]
    exact same
  | some d =>
    rw [found] at purged
    cases d with
    | json raw =>
      have skipped : readArchive page objects' ingested' acc' key = acc' := by
        simp only [readArchive, purged, Option.bind_some, purge]
        split
        · rfl
        · cases hostile (Js.ofJson raw) <;> rfl
      rw [skipped]
      exact same
    | raw b =>
      simp only [readArchive, purged, Option.bind_some, purge, ite_self]
      exact same
    | cbor entries =>
      have members := inside entries found
      have learned := learnAll_same same.sessions same.gathered.seen
        strangers members
      have proper := learnAll_proper page same.proper acc.1.gathered.seen (Js.ofValues entries)
      have read : SameGathered page hostile s0 _ _ := readAll_same
        (.start same.gathered.seen) learned strangers proper members
      have there : objects'.get key =
          some (.cbor (entries.filter fun v => !hostile (Js.ofValue v))) := purged
      by_cases new : key ∈ ingested'
      · -- The second device has read the archive, and would find nothing in it.
        have rest : ∀ e ∈ (Js.ofValues entries).filter fun e => !hostile e,
            Done page e acc'.2 acc'.1.gathered.seen := by
          rw [← ofValues_filter]
          exact done new old _ there
        have idles := readAll_done { seen := acc'.1.gathered.seen } rest
        rw [learnAll_done rest] at learned read
        rw [readArchive, if_pos new]
        refine ⟨⟨fun m => ?_, fun id own => ?_, same.gathered.skips⟩, learned, proper, fun candidate member => ?_⟩
        · have here := read.messages m
          rw [idles.messages] at here
          simp only [List.not_mem_nil, false_iff, not_and, not_not] at here
          simp only [ArchiveResult.add, List.mem_append, same.gathered.messages]
          exact ⟨fun kept => ⟨.inl kept.1, kept.2⟩,
            fun kept => ⟨kept.1.resolve_right fun late => kept.2 (here late), kept.2⟩⟩
        · have here := read.seen id own
          rw [idles.seen] at here
          exact here
        · simp only [ArchiveResult.add] at member
          split at member
          · rcases List.mem_append.mp member with before | last
            · exact same.candidates candidate before
            · rw [List.mem_singleton.mp last]
              exact .inl new
          · exact same.candidates candidate member
      · rw [readArchive, if_neg new, there]
        dsimp only
        rw [ofValues_filter]
        refine ⟨same.gathered.add key key read, learned, proper, fun candidate member => ?_⟩
        simp only [ArchiveResult.add] at member ⊢
        have skips := read.skips
        split at member
        next whole =>
          have whole' : (readAll page.toAccount (learnAll page acc'.1.gathered.seen
              ((Js.ofValues entries).filter fun e => !hostile e) acc'.2) acc'.1.gathered.seen
              ((Js.ofValues entries).filter fun e => !hostile e)).recoverableSkips = 0 :=
            Nat.le_zero.mp (whole ▸ skips)
          rw [if_pos whole']
          rcases List.mem_append.mp member with before | last
          · exact (same.candidates candidate before).imp_right (List.mem_append_left _)
          · exact .inr (List.mem_append_right _ last)
        next =>
          refine (same.candidates candidate member).imp_right fun before => ?_
          split
          · exact List.mem_append_left _ before
          · exact before

theorem readArchives_same {keys : List String} {acc acc' : ArchiveResult × Sessions}
    (strangers : Strangers page hostile s0)
    (purged : ∀ key, objects'.get key = (objects.get key).bind (purge hostile))
    (fewer : ingested ⊆ ingested')
    (done : ∀ key ∈ ingested', key ∉ ingested →
      DoneWith page objects' acc'.2 acc'.1.gathered.seen key)
    (inside : ∀ key ∈ keys, ∀ entries, objects.get key = some (.cbor entries) →
      ∀ e ∈ Js.ofValues entries, InStore page.userId s0 e)
    (same : SamePass page hostile s0 ingested' acc acc') :
    SamePass page hostile s0 ingested' (keys.foldl (readArchive page objects ingested) acc)
      (keys.foldl (readArchive page objects' ingested') acc') := by
  induction keys generalizing acc acc' with
  | nil => exact same
  | cons key rest ih =>
    refine ih (fun other member new => ?_) (fun other member => inside other (List.mem_cons_of_mem _ member))
      (readArchive_same strangers (purged key) fewer (done key) (inside key List.mem_cons_self) same)
    exact (done other member new).later (readArchive_extends acc' key) (readArchive_sees acc' key)

end Agreement

/-! ### One sync on both devices -/

section Both

variable {page : Page} {hostile : Js → Bool} {s0 s s' t t' : State}

/-- The objects of the second device. -/
abbrev Purged (hostile : Js → Bool) (objects objects' : ObjectMap String Data) : Prop :=
  ∀ key, objects'.get key = (objects.get key).bind (purge hostile)

theorem Purged.keysAfter {objects objects' : ObjectMap String Data}
    (purged : Purged hostile objects objects') (p : String → Bool) (cursor : Option String) :
    objects'.keysAfter p cursor =
      (objects.keysAfter p cursor).filter fun key => (objects'.get key).isSome := by
  refine ObjectMap.keysAfter_sub (fun key => ?_) p cursor
  rw [Option.isSome_iff_exists, purged key]
  constructor
  · rintro ⟨d, found⟩
    obtain ⟨d', found', _⟩ := Option.bind_eq_some_iff.mp found
    exact ⟨⟨d', found'⟩, d, found⟩
  · exact And.right

omit [CborDecoder] in
theorem fetched_kept (objects : ObjectMap String Data) (keys : List String) :
    fetched objects (keys.filter fun key => (objects.get key).isSome) = fetched objects keys := by
  rw [fetched, List.filterMap_filter]
  refine List.filterMap_congr fun key _ => ?_
  cases objects.get key <;> rfl

theorem fetched_purged {objects objects' : ObjectMap String Data}
    (purged : Purged hostile objects objects') (keys : List String) :
    (fetched objects' keys).map Keyed.envelope =
      ((fetched objects keys).map Keyed.envelope).filter fun e => !hostile e := by
  induction keys with
  | nil => rfl
  | cons key rest ih =>
    have split (o : ObjectMap String Data) : fetched o (key :: rest) = fetched o [key] ++ fetched o rest :=
      fetched_append o [key] rest
    rw [split, split, List.map_append, List.map_append, List.filter_append, ih]
    congr 1
    have here := purged key
    simp only [fetched, List.filterMap_cons, List.filterMap_nil, here]
    cases objects.get key with
    | none => rfl
    | some d =>
      cases d with
      | json raw =>
        simp only [Option.bind_some, purge]
        cases alien : hostile (Js.ofJson raw) <;> simp [alien]
      | _ => rfl

omit [CborDecoder] in
/-- The live objects fit into one page. -/
theorem liveKeys_all {user : UserId} (fits : (s.objects.keysAfter (startsWith · (prefixInboxLive user.str))
    (s.db.syncCursors.get (prefixInboxLive user.str))).length ≤ STORE_LIST_LIMIT) :
    liveKeys user s = s.objects.keysAfter (startsWith · (prefixInboxLive user.str))
      (s.db.syncCursors.get (prefixInboxLive user.str)) := by
  simp only [liveKeys, State.listing, ObjectMap.page, if_pos fits]

theorem InStore.of_objects {user : UserId} {e : Js} (same : t.objects = s.objects)
    (inside : InStore user t e) : InStore user s e := by
  cases inside with
  | live found within => exact .live (same ▸ found) within
  | archived found within member => exact .archived (same ▸ found) within member

/-- What the second device finds is honest, and lies in the store of the first. -/
theorem InStore.of_purged {user : UserId} {e : Js} (purged : Purged hostile s.objects t.objects)
    (inside : InStore user t e) : InStore user s e ∧ hostile e = false := by
  cases inside with
  | @live key raw found within =>
    rw [purged key] at found
    obtain ⟨d, found', left⟩ := Option.bind_eq_some_iff.mp found
    cases d with
    | json raw' =>
      simp only [purge] at left
      split at left
      next => cases left
      next honest =>
        cases left
        exact ⟨.live found' within, by simpa using honest⟩
    | _ => cases left
  | @archived key entries e found within member =>
    rw [purged key] at found
    obtain ⟨d, found', left⟩ := Option.bind_eq_some_iff.mp found
    cases d with
    | cbor entries' =>
      cases left
      rw [ofValues_filter, List.mem_filter] at member
      exact ⟨.archived found' within member.1, by simpa using member.2⟩
    | json raw => simp only [purge] at left; split at left <;> cases left
    | raw b => cases left

/-- What holds of the two devices between two syncs. -/
structure Alike (page : Page) (hostile : Js → Bool) (s0 s s' : State) : Prop where
  objects : s.objects = s0.objects
  purged : Purged hostile s.objects s'.objects
  idle : s.memory.syncInFlight = none
  idle' : s'.memory.syncInFlight = none
  coherent : Coherent s
  coherent' : Coherent s'
  named : Named s.db.messages
  named' : Named s'.db.messages
  sessions : SameSessions page hostile s0 (sessionOf s) (sessionOf s')
  rows : SameHonest page hostile s0 s s'
  live : (s'.db.syncCursors.get (prefixInboxLive page.userId.str) =
        s.db.syncCursors.get (prefixInboxLive page.userId.str) ∧
      (s.objects.keysAfter (startsWith · (prefixInboxLive page.userId.str))
        (s.db.syncCursors.get (prefixInboxLive page.userId.str))).length ≤ STORE_LIST_LIMIT) ∨
    (liveKeys page.userId s = [] ∧ liveKeys page.userId s' = [])
  ingested : s.db.ingestedArchives ⊆ s'.db.ingestedArchives
  done : ∀ key ∈ s'.db.ingestedArchives, key ∉ s.db.ingestedArchives →
    DoneWith page s'.objects (sessionOf s') (storedIds page s') key

theorem Alike.liveEnvelopes (alike : Alike page hostile s0 s s') : liveEnvelopes page.userId s' =
    (liveEnvelopes page.userId s).filter fun e => !hostile e := by
  rcases alike.live with ⟨cursor, fits⟩ | ⟨none_, none_'⟩
  · have fits' : (s'.objects.keysAfter (startsWith · (prefixInboxLive page.userId.str))
        (s'.db.syncCursors.get (prefixInboxLive page.userId.str))).length ≤ STORE_LIST_LIMIT := by
      rw [alike.purged.keysAfter, cursor]
      exact (List.length_filter_le _ _).trans fits
    rw [Web.liveEnvelopes, Web.liveEnvelopes, liveKeys_all fits, liveKeys_all fits', alike.purged.keysAfter, cursor,
      fetched_kept, fetched_purged alike.purged]
  · rw [Web.liveEnvelopes, Web.liveEnvelopes, none_, none_']
    rfl

theorem Alike.inside (alike : Alike page hostile s0 s s') {e : Js} (member : InStore page.userId s e) :
    InStore page.userId s0 e :=
  member.of_objects alike.objects

/-- The ids stored for honest envelopes are the same. -/
theorem Alike.storedIds (alike : Alike page hostile s0 s s') :
    SameSeen page hostile s0 (storedIds page s) (storedIds page s') := by
  intro id own
  constructor
  · intro known
    obtain ⟨key, row, found, mine, rfl⟩ := mem_storedIds.mp (Js.mem_of_isIn known)
    have there := (alike.rows key row own).mp found
    obtain ⟨name, text, _⟩ := alike.named' key row there
    rw [text, Js.isIn_str, ← text]
    exact mem_storedIds.mpr ⟨key, row, there, mine, rfl⟩
  · intro known
    obtain ⟨key, row, found, mine, rfl⟩ := mem_storedIds.mp (Js.mem_of_isIn known)
    have there := (alike.rows key row own).mpr found
    obtain ⟨name, text, _⟩ := alike.named key row there
    rw [text, Js.isIn_str, ← text]
    exact mem_storedIds.mpr ⟨key, row, there, mine, rfl⟩

/-- The live passes agree. -/
theorem Alike.livePass (alike : Alike page hostile s0 s s') (strangers : Strangers page hostile s0) :
    SameGathered page hostile s0 (livePass page s).1 (livePass page s').1 ∧
      SameSessions page hostile s0 (livePass page s).2 (livePass page s').2 ∧
      Proper (livePass page s).2 := by
  have members : ∀ e ∈ Web.liveEnvelopes page.userId s, InStore page.userId s0 e :=
    fun e member => alike.inside (mem_liveEnvelopes member)
  have nothing : SameSeen page hostile s0 [] [] := fun _ _ => Iff.rfl
  have learned := learnAll_same alike.sessions nothing strangers members
  have proper := learnAll_proper page alike.coherent.proper [] (Web.liveEnvelopes page.userId s)
  rw [Web.livePass, Web.livePass, alike.liveEnvelopes]
  exact ⟨readAll_same (.start nothing) learned strangers proper members,
    learned, proper⟩

theorem Alike.seenAfter (alike : Alike page hostile s0 s s') (strangers : Strangers page hostile s0) :
    SameSeen page hostile s0 (seenAfter page s) (seenAfter page s') := by
  obtain ⟨gathered, _, _⟩ := alike.livePass strangers
  intro id own
  rw [Web.seenAfter, Web.seenAfter, isIn_foldl_addOnce, isIn_foldl_addOnce]
  refine or_congr (alike.storedIds id own) ?_
  simp only [List.mem_map, exists_exists_and_eq_and]
  constructor
  · rintro ⟨m, member, same⟩
    have equal := Js.eq_of_same same
    exact ⟨m, (gathered.messages m).mpr ⟨member, equal ▸ own⟩, same⟩
  · rintro ⟨m, member, same⟩
    exact ⟨m, ((gathered.messages m).mp member).1, same⟩

theorem foldl_readArchive_kept (objects : ObjectMap String Data) (ingested keys : List String)
    (acc : ArchiveResult × Sessions) :
    (keys.filter fun key => (objects.get key).isSome).foldl (readArchive page objects ingested) acc =
      keys.foldl (readArchive page objects ingested) acc := by
  induction keys generalizing acc with
  | nil => rfl
  | cons key rest ih =>
    cases found : objects.get key with
    | none =>
      rw [List.filter_cons_of_neg (by simp [found]), List.foldl_cons, ih]
      simp only [readArchive, found, ite_self]
    | some d => rw [List.filter_cons_of_pos (by simp [found]), List.foldl_cons, List.foldl_cons, ih]

/-- The archive passes agree. -/
theorem Alike.bothPasses (alike : Alike page hostile s0 s s') (strangers : Strangers page hostile s0)
    (enough : s.objects.keys.length < page.pages) : SamePass page hostile s0 s'.db.ingestedArchives
      (bothPasses page s) (bothPasses page s') := by
  obtain ⟨_, sessions, proper⟩ := alike.livePass strangers
  have archives := alike.purged.keysAfter (startsWith · (prefixInboxArchive page.userId.str)) none
  have fits : (s.objects.keysAfter (startsWith · (prefixInboxArchive page.userId.str)) none).length
      < page.pages := by
    refine lt_of_le_of_lt ?_ enough
    rw [ObjectMap.keysAfter, List.length_insertionSort]
    exact List.length_filter_le _ _
  have fits' : (s'.objects.keysAfter (startsWith · (prefixInboxArchive page.userId.str)) none).length
      < page.pages := by
    rw [archives]
    exact lt_of_le_of_lt (List.length_filter_le _ _) fits
  have all := listAll_enough (archive_proper page.userId) fits
  have all' := listAll_enough (archive_proper page.userId) fits'
  simp only [Web.bothPasses, archivePass, all, all', archives, foldl_readArchive_kept]
  refine readArchives_same strangers alike.purged alike.ingested (fun key member new => ?_)
    (fun key member entries found e inside => alike.inside (.archived found ?_ inside))
    ⟨⟨fun m => by simp, alike.seenAfter strangers, Nat.le_refl _⟩, sessions, proper,
      fun _ none_ => absurd none_ List.not_mem_nil⟩
  · refine (alike.done key member new).later (learnAll_extends page _ _ _) fun x known => ?_
    rw [Web.seenAfter, isIn_foldl_addOnce]
    exact .inl known
  · exact ((ObjectMap.mem_keysAfter _ _ _ _).mp member).2.1

/-! ### Saving on both devices -/

omit [CborDecoder] in
/-- The rows after a batch of distinct messages. -/
theorem row_after {messages : List DecryptedMessage} {store store' : ObjectMap Key StoredMessage}
    {userId : String} (put : Database.putRows StoredMessage.id (messages.map (storedMessage userId))
      store = some store') (plain : ∀ m ∈ messages, Plain m.id)
    (once : messages.Pairwise fun a b => a.id ≠ b.id) {key : Key} {row : StoredMessage} :
    store'.get key = some row ↔
      (∃ m ∈ messages, m.id.key = some key ∧ row = storedMessage userId m) ∨
        store.get key = some row ∧ ∀ m ∈ messages, m.id.key ≠ some key := by
  rcases putRows_get put key with ⟨same, absent⟩ | ⟨row', member, named, found⟩
  · have absent : ∀ m ∈ messages, m.id.key ≠ some key :=
      fun m inside => absent _ (List.mem_map_of_mem inside)
    rw [same]
    constructor
    · exact fun found => .inr ⟨found, absent⟩
    · rintro (⟨m, inside, named, _⟩ | ⟨found, _⟩)
      · exact absurd named (absent m inside)
      · exact found
  · obtain ⟨m, inside, rfl⟩ := List.mem_map.mp member
    have named : m.id.key = some key := named
    rw [found]
    constructor
    · intro same
      exact .inl ⟨m, inside, named, (Option.some.inj same).symm⟩
    · rintro (⟨m', inside', named', rfl⟩ | ⟨_, absent⟩)
      · obtain ⟨name, text, rfl⟩ := (plain m inside).key named
        obtain ⟨name', text', same⟩ := (plain m' inside').key named'
        cases same
        have equal : m' = m := by
          by_contra differ
          have symm : Std.Symm fun a b : DecryptedMessage => a.id ≠ b.id := ⟨fun _ _ h => h.symm⟩
          exact once.forall inside' inside differ (text'.trans text.symm)
        rw [equal]
      · exact absurd named (absent m inside)

/-- The messages of both syncs, but for those of hostile envelopes. -/
theorem Alike.result (alike : Alike page hostile s0 s s') (strangers : Strangers page hostile s0)
    (enough : s.objects.keys.length < page.pages) (m : DecryptedMessage) :
    m ∈ (syncResult page s').messages ↔
      m ∈ (syncResult page s).messages ∧ ¬ Alien page hostile s0 m.id := by
  obtain ⟨live, _, _⟩ := alike.livePass strangers
  have archives := (alike.bothPasses strangers enough).gathered
  rw [mem_syncResult, mem_syncResult, List.mem_append, List.mem_append, live.messages,
    archives.messages, or_and_right]

/-- The messages of hostile envelopes keep no batch from being written. -/
theorem Alike.hostile_fits (alike : Alike page hostile s0 s s') (strangers : Strangers page hostile s0)
    (filable : Filable page hostile s0) (plain : PlainAmong (InStore page.userId s))
    {m : DecryptedMessage} (member : m ∈ (syncResult page s).messages)
    (alien : Alien page hostile s0 m.id) : HasKey m.id ∧ HasKey m.conversationId := by
  obtain ⟨e, inside, becomes⟩ :=
    (sync_collected alike.coherent plain).origin m (mem_syncResult.mp member)
  have inside := alike.inside inside
  have guest : hostile e = true := by
    cases own : hostile e with
    | true => rfl
    | false => exact absurd alien (strangers.fresh e inside own m.id becomes.1.2)
  obtain ⟨name, text⟩ := strangers.named e m.id inside guest becomes.1.2
  exact ⟨by simp [HasKey, text], filable e m inside guest becomes⟩

theorem Alike.storable (alike : Alike page hostile s0 s s') (strangers : Strangers page hostile s0)
    (filable : Filable page hostile s0) (plain : PlainAmong (InStore page.userId s))
    (enough : s.objects.keys.length < page.pages) :
    Storable page.parse (syncResult page s).messages ↔
      Storable page.parse (syncResult page s').messages := by
  have same := alike.result strangers enough
  have fits := fun m member => alike.hostile_fits strangers filable plain (m := m) member
  constructor
  · rintro ⟨ids, conversations⟩
    exact ⟨fun m member => ids m ((same m).mp member).1,
      fun m member => conversations m ((same m).mp member).1⟩
  · rintro ⟨ids, conversations⟩
    refine ⟨fun m member => ?_, fun m member counts => ?_⟩
    · by_cases alien : Alien page hostile s0 m.id
      · exact (fits m member alien).1
      · exact ids m ((same m).mpr ⟨member, alien⟩)
    · by_cases alien : Alien page hostile s0 m.id
      · exact (fits m member alien).2
      · exact conversations m ((same m).mpr ⟨member, alien⟩) counts

theorem Alike.correctable (alike : Alike page hostile s0 s s') (strangers : Strangers page hostile s0)
    (filable : Filable page hostile s0) (plain : PlainAmong (InStore page.userId s))
    (enough : s.objects.keys.length < page.pages) :
    Correctable page.parse (syncResult page s).messages ↔
      Correctable page.parse (syncResult page s').messages := by
  have same := alike.result strangers enough
  constructor
  · exact fun all m member => all m ((same m).mp member).1
  · intro all m member amends
    by_cases alien : Alien page hostile s0 m.id
    · exact (alike.hostile_fits strangers filable plain member alien).2
    · exact all m ((same m).mpr ⟨member, alien⟩) amends

theorem Alike.ends {r r' : Published} (alike : Alike page hostile s0 s s')
    (strangers : Strangers page hostile s0) (filable : Filable page hostile s0)
    (plain : PlainAmong (InStore page.userId s)) (enough : s.objects.keys.length < page.pages)
    (turn : Turn page s t r) (turn' : Turn page s' t' r') : r = r' := by
  have same : r = .done ↔ r' = .done := by
    rw [turn.done, turn'.done, alike.storable strangers filable plain enough,
      alike.correctable strangers filable plain enough]
  rcases turn.ends with rfl | rfl
  · exact (same.mp rfl).symm
  · rcases turn'.ends with rfl | rfl
    · exact absurd (same.mpr rfl) nofun
    · rfl

theorem Alike.rowsAfter {r r' : Published} (alike : Alike page hostile s0 s s')
    (strangers : Strangers page hostile s0) (filable : Filable page hostile s0)
    (plain : PlainAmong (InStore page.userId s)) (plain' : PlainAmong (InStore page.userId s'))
    (enough : s.objects.keys.length < page.pages) (turn : Turn page s t r)
    (turn' : Turn page s' t' r') : SameHonest page hostile s0 t t' := by
  intro key row own
  have same := alike.result strangers enough
  by_cases storable : Storable page.parse (syncResult page s).messages
  · have put := turn.stored storable
    have put' := turn'.stored ((alike.storable strangers filable plain enough).mp storable)
    rw [row_after put (fun m => plain_of_result alike.coherent plain) (syncResult_once alike.coherent plain),
      row_after put' (fun m => plain_of_result alike.coherent' plain')
        (syncResult_once alike.coherent' plain')]
    have new : (∃ m ∈ (syncResult page s).messages, m.id.key = some key ∧
          row = storedMessage page.userId.str m) ↔
        ∃ m ∈ (syncResult page s').messages, m.id.key = some key ∧
          row = storedMessage page.userId.str m := by
      constructor
      · rintro ⟨m, member, named, rfl⟩
        exact ⟨m, (same m).mpr ⟨member, own⟩, named, rfl⟩
      · rintro ⟨m, member, named, rfl⟩
        exact ⟨m, ((same m).mp member).1, named, rfl⟩
    refine or_congr new ?_
    rw [alike.rows key row own]
    refine and_congr_right fun found => ?_
    obtain ⟨name, text, rfl⟩ := alike.named' key row found
    -- A message under the key of the row has the id of the row, which is no hostile one.
    constructor
    · exact fun absent m member => absent m ((same m).mp member).1
    · intro absent m member named
      obtain ⟨name', text', key_⟩ := (plain_of_result alike.coherent plain member).key named
      cases key_
      exact absent m ((same m).mpr ⟨member, by rw [text', ← text]; exact own⟩) named
  · rw [turn.kept storable,
      turn'.kept fun other => storable ((alike.storable strangers filable plain enough).mpr other)]
    exact alike.rows key row own

/-- The two devices stay alike. -/
theorem Alike.turn {r r' : Published} (alike : Alike page hostile s0 s s')
    (strangers : Strangers page hostile s0) (filable : Filable page hostile s0)
    (plain : PlainAmong (InStore page.userId s0)) (archives : PlainArchives s'.objects)
    (enough : s.objects.keys.length < page.pages) (turn : Turn page s t r)
    (turn' : Turn page s' t' r') : Alike page hostile s0 t t' := by
  have mine : PlainAmong (InStore page.userId s) := fun e id inside => plain e id (alike.inside inside)
  have mine' : PlainAmong (InStore page.userId s') :=
    fun e id inside => mine e id (inside.of_purged alike.purged).1
  have same := alike.ends strangers filable mine enough turn turn'
  have pass := alike.bothPasses strangers enough
  subst same
  refine ⟨turn.objects.trans alike.objects, by rw [turn.objects, turn'.objects]; exact alike.purged,
    turn.idle, turn'.idle, turn.coherent, turn'.coherent, turn.named alike.coherent mine alike.named,
    turn'.named alike.coherent' mine' alike.named', ?_,
    alike.rowsAfter strangers filable mine mine' enough turn turn', .inr ⟨turn.lists ?_, turn'.lists ?_⟩,
    fun key member => ?_, fun key member new => ?_⟩
  · rw [turn.sessions, turn'.sessions]
    exact pass.sessions
  · exact alike.live.imp And.right And.left
  · refine alike.live.imp (fun ⟨cursor, fits⟩ => ?_) And.right
    rw [alike.purged.keysAfter, cursor]
    exact (List.length_filter_le _ _).trans fits
  · rw [turn'.ingested key]
    rcases (turn.ingested key).mp member with old | ⟨done, candidate⟩
    · exact .inl (alike.ingested old)
    · exact (pass.candidates key candidate).imp_right fun candidate' => ⟨done, candidate'⟩
  · rw [turn'.objects]
    rcases (turn'.ingested key).mp member with old | ⟨rfl, candidate⟩
    · have before : key ∉ s.db.ingestedArchives := fun old => new ((turn.ingested key).mpr (.inl old))
      exact (alike.done key old before).later turn'.extends
        (turn'.sees_stored alike.coherent' mine' alike.named')
    · exact turn'.candidates alike.coherent' mine' alike.named' archives key candidate

/-! ### Any number of syncs -/

/-- Both devices sync any number of times, with the same results, and stay alike. -/
theorem Alike.turns (strangers : Strangers page hostile s0) (filable : Filable page hostile s0)
    (plain : PlainAmong (InStore page.userId s0)) (enough : s0.objects.keys.length < page.pages)
    (readable : Readable s0.objects) (n : Nat) (alike : Alike page hostile s0 s s')
    (readable' : Readable s'.objects) (archives : PlainArchives s'.objects) :
    ∃ rs t t', Web.turns page n s = some (rs, t) ∧ Web.turns page n s' = some (rs, t') ∧
      Alike page hostile s0 t t' := by
  induction n generalizing s s' with
  | zero => exact ⟨[], s, s', rfl, rfl, alike⟩
  | succ n ih =>
    obtain ⟨r, t, ran, turn⟩ := syncAndPublish_turn page alike.idle alike.coherent
      (alike.objects ▸ readable)
    obtain ⟨r', t', ran', turn'⟩ := syncAndPublish_turn page alike.idle' alike.coherent' readable'
    have enough' : s.objects.keys.length < page.pages := by rw [alike.objects]; exact enough
    have mine : PlainAmong (InStore page.userId s) := fun e id inside => plain e id (alike.inside inside)
    have next := alike.turn strangers filable plain archives enough' turn turn'
    obtain rfl := alike.ends strangers filable mine enough' turn turn'
    obtain ⟨rs, u, u', more, more', last⟩ := ih next (by rw [turn'.objects]; exact readable')
      (by rw [turn'.objects]; exact archives)
    exact ⟨.ok r :: rs, u, u', by simp [Web.turns, ran, more], by simp [Web.turns, ran', more'], last⟩

theorem Sourced.plain {account : Account} {reliable : Prop} (inv : Sourced account reliable s)
    (user : UserId) : PlainAmong (InStore user s) :=
  fun _ _ inside message => (delivered_header (inv.inStore inside) message).2

/-- What is left of a store without hostile envelopes can be read like the store. -/
theorem Purged.readable {account : Account} {reliable : Prop} (inv : Sourced account reliable s)
    (purged : Purged hostile s.objects s'.objects) :
    Readable s'.objects ∧ PlainArchives s'.objects := by
  have archived (key : String) (entries : List Value) (found : s'.objects.get key = some (.cbor entries))
      (e : Js) (member : e ∈ Js.ofValues entries) : ∃ user, Delivered user s e := by
    rw [purged key] at found
    obtain ⟨d, found', left⟩ := Option.bind_eq_some_iff.mp found
    cases d with
    | cbor entries' =>
      cases left
      rw [ofValues_filter, List.mem_filter] at member
      obtain ⟨user, name, rfl, each⟩ := inv.entries key entries' (inv.archives key entries' found')
      obtain ⟨v, here, rfl⟩ := mem_ofValues member.1
      obtain ⟨n, archivable⟩ := each v here
      exact ⟨user, archivable_delivered inv archivable⟩
    | json raw => simp only [purge] at left; split at left <;> cases left
    | raw b => cases left
  refine ⟨⟨fun key raw found => ?_, fun key entries found e member => ?_⟩,
    fun key entries found e member id message => ?_⟩
  · rw [purged key] at found
    obtain ⟨d, found', left⟩ := Option.bind_eq_some_iff.mp found
    cases d with
    | json raw' =>
      simp only [purge] at left
      split at left
      next => cases left
      next => cases left; exact inv.readable.live key raw found'
    | _ => cases left
  · obtain ⟨user, delivered⟩ := archived key entries found e member
    exact delivered.members
  · obtain ⟨user, delivered⟩ := archived key entries found e member
    exact (delivered_header delivered message).2

end Both

end Decoding

section Samples

open Demo

attribute [local instance] Demo.cbor

/-- A page that lists enough. -/
def roomyPage : Page := ⟨{ account with pages := 9 }, "", false⟩

def fromMallory (e : Js) : Bool :=
  match e.member "from_user" with
  | .ok fromUser => fromUser.same (.str mallory.str)
  | .error _ => false

def envelopes (user : UserId) (s : State) : List Js :=
  s.objects.entries.flatMap fun e => match e.2 with
    | .json raw => if startsWith e.1 (prefixInboxLive user.str) then [Js.ofJson raw] else []
    | .cbor entries => if startsWith e.1 (prefixInboxArchive user.str) then Js.ofValues entries else []
    | _ => []

/-- A test that the ids are two strings. -/
def differ (e e' : Js) : Bool :=
  match e.member "msg_id", e'.member "msg_id" with
  | .ok (.str id), .ok (.str id') => decide (id ≠ id')
  | _, _ => false

/-- A test that the envelope names the session. -/
def mayUse (page : Page) (e : Js) (sessionId : String) : Bool :=
  (shareOf page e).any (fun k => decide (k.sessionId = sessionId)) ||
    match e.member "payload" with
    | .ok payload => match payload.member "session_id" with
      | .ok named => named.same (.str sessionId)
      | .error _ => false
    | .error _ => false

/-- A test that Mallory's envelopes are strangers among the others. -/
def strange (page : Page) (s : State) : Bool :=
  ((envelopes page.userId s).filter fromMallory).all fun e =>
    ((envelopes page.userId s).filter fun e => !fromMallory e).all fun e' =>
      differ e e' && (shareOf page e).all fun k => !mayUse page e' k.sessionId

/-- A test that Mallory's messages name conversations that are keys. -/
def filed (page : Page) (s : State) : Bool :=
  ((envelopes page.userId s).filter fromMallory).all fun e =>
    match e.member "payload", e.member "from_user" with
    | .ok payload, .ok fromUser => match payload.member "conversation_id" with
      | .ok conversation =>
        (conversation.orElse (conversationWith fromUser page.userId.str)).key.isSome
      | .error _ => false
    | _, _ => false

/-- A test that one page holds the live objects, and that there are pages for all objects. -/
def paged (page : Page) (s : State) : Bool :=
  decide ((s.objects.keysAfter (startsWith · (prefixInboxLive page.userId.str))
    (s.db.syncCursors.get (prefixInboxLive page.userId.str))).length ≤ STORE_LIST_LIMIT) &&
  decide (s.objects.keys.length < page.pages)

/-- A test that Bob has something in the inbox, and Mallory's envelopes are strangers. -/
def mixed (s : State) : Bool :=
  (s.objects.entries.any fun e => startsWith e.1 (prefixInboxLive user.str) &&
    match e.2 with
    | .json raw => !fromMallory (Js.ofJson raw)
    | _ => false) &&
  strange roomyPage s && paged roomyPage s && s.memory.syncInFlight.isNone

example : paged roomyPage {} = true := by decide +kernel

end Samples

end Atmin.Web
