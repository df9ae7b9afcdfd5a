import Atmin.Sync.Reading

/-!
# Messages that are read in the end

Once nothing is sent any more, a device that syncs without faults, with every compaction it
starts running to its end, moves the live inbox into archives and reads the archives. A live
object at or below the cursor is read again only through an archive, so it takes a live object
above the cursor to have it compacted.
-/

namespace Atmin.Web

open Interaction

variable {page : Page} {s t : State}

/-! ### Listed keys -/

/-- A key listed for the live inbox lies in it. -/
theorem mem_liveKeys {user : UserId} {key : String} (listed : key ∈ liveKeys user s) :
    startsWith key (prefixInboxLive user.str) = true :=
  (ObjectMap.mem_page _ _ _ _ key listed).2

theorem mem_listAll {pre : String} {pages : Nat} {cursor : Option String} {keys : List String}
    (all : listAll s pre pages cursor = some keys) : ∀ key ∈ keys, startsWith key pre = true := by
  induction pages generalizing cursor keys with
  | zero => cases all
  | succ pages ih =>
    rw [listAll] at all
    intro key member
    split at all
    next =>
      cases all
      exact (ObjectMap.mem_page _ _ _ _ key member).2
    next =>
      obtain ⟨more, rest, rfl⟩ := Option.map_eq_some_iff.mp all
      rcases List.mem_append.mp member with first | later
      · exact (ObjectMap.mem_page _ _ _ _ key first).2
      · exact ih rest key later

/-- Where no key is listed, every live key is at or below the cursor. -/
theorem below_cursor {user : UserId} {key : String} {d : Data} (none_ : liveKeys user s = [])
    (found : s.objects.get key = some d)
    (within : startsWith key (prefixInboxLive user.str) = true) :
    ∃ cursor, s.db.syncCursors.get (prefixInboxLive user.str) = some cursor ∧ ¬ cursor < key := by
  by_contra above
  have listed : key ∈ s.objects.keysAfter (startsWith · (prefixInboxLive user.str))
      (s.db.syncCursors.get (prefixInboxLive user.str)) := by
    refine (ObjectMap.mem_keysAfter _ _ _ _).mpr ⟨⟨_, found⟩, within, fun c given => ?_⟩
    by_contra le
    exact above ⟨c, given, le⟩
  simp only [liveKeys, State.listing, ObjectMap.page] at none_
  split at none_
  next =>
    have empty : key ∈ ([] : List String) := none_ ▸ listed
    cases empty
  next more =>
    have size := congrArg List.length none_
    simp only [List.length_take, STORE_LIST_LIMIT, List.length_nil] at size more
    omega

/-- Without live envelopes, an archive is read against the stored messages. -/
theorem seenAfter_stored (none_ : liveKeys page.userId s = []) :
    seenAfter page s = (s.db.messagesOf page.userId.str).map StoredMessage.id := by
  simp only [seenAfter, livePass, liveEnvelopes, none_, fetched, List.filterMap_nil, List.map_nil,
    readAll, List.foldl_nil]

theorem livePass_sessions (none_ : liveKeys page.userId s = []) :
    (livePass page s).2 = sessionOf s := by
  simp only [livePass, liveEnvelopes, none_, fetched, List.filterMap_nil, List.map_nil, learnAll,
    List.foldl_nil]

theorem archive_proper (user : UserId) : prefixInboxArchive user.str ≠ "" := fun empty => by
  have size := congrArg (fun s => s.toList.length) empty
  simp [prefixInboxArchive, String.toList_append] at size

theorem append_drop {key pre : String} (within : startsWith key pre = true) :
    pre ++ String.ofList (key.toList.drop pre.toList.length) = key := by
  simp only [startsWith, List.isPrefixOf_iff_prefix] at within
  obtain ⟨rest, same⟩ := within
  apply String.toList_inj.mp
  rw [String.toList_append, String.toList_ofList, ← same, List.drop_left]

/-- Live objects of the inbox lie at or below the cursor, and none above it: no sync lists them any
more, and none has them compacted. -/
def Stranded (user : UserId) (s : State) : Prop :=
  ∃ cursor, s.db.syncCursors.get (prefixInboxLive user.str) = some cursor ∧
    (∃ key raw, s.objects.get key = some (.json raw) ∧
      startsWith key (prefixInboxLive user.str) = true ∧ ¬ cursor < key) ∧
    ∀ key d, s.objects.get key = some d → startsWith key (prefixInboxLive user.str) = true →
      ¬ cursor < key

theorem not_stranded {user : UserId} (listed : liveKeys user s ≠ []) : ¬ Stranded user s := by
  rintro ⟨cursor, stored, _, below⟩
  obtain ⟨key, member⟩ := List.exists_mem_of_ne_nil _ listed
  obtain ⟨⟨d, found⟩, within⟩ := ObjectMap.mem_page _ _ _ _ key member
  exact below key d found within (ObjectMap.page_above _ _ _ _ key member cursor stored)

/-! ### Steps without faults -/

/-- No step but a reload changes the epoch, and a reload raises it. -/
theorem calm_epoch {act : Act} {r : Reply act} (done : calm act s = some (r, t)) :
    s.epoch ≤ t.epoch := by
  unfold calm at done
  cases act with
  | archive user name picks =>
    simp only [perform] at done
    split at done
    next => cases done
    next =>
      obtain ⟨entries, _, same⟩ := Option.map_eq_some_iff.mp done
      cases same
      exact Nat.le_refl _
  | deliver sender device raw =>
    simp only [perform] at done
    obtain ⟨header, _, same⟩ := Option.map_eq_some_iff.mp done
    cases same
    exact Nat.le_refl _
  | joinSync =>
    simp only [perform] at done
    split at done
    · cases done; exact Nat.le_refl _
    · cases done; exact Nat.le_refl _
  | awaitSync n =>
    simp only [perform] at done
    split at done
    next => cases done; exact Nat.le_refl _
    next => cases done
  | putMessages _ _ | putConversations _ =>
    simp only [perform] at done
    rcases writing_cases done with ⟨rfl, _⟩ | ⟨db, _, rfl, _⟩
    · exact Nat.le_refl _
    · exact Nat.le_refl _
  | reload => cases done; exact Nat.le_succ _
  | _ => cases done; exact Nat.le_refl _

theorem calm_runs_epoch {α : Type} {p : Prog Act Reply α} {a : α}
    (run : Runs (fun act s r t => calm act s = some (r, t)) p s a t) : s.epoch ≤ t.epoch := by
  induction run with
  | ret => exact Nat.le_refl _
  | op first _ ih => exact (calm_epoch first).trans ih

/-- Without a reload, steps without faults are steps of one page. -/
theorem calm_taking {ι α : Type} {epoch : ι → Nat} {i : ι} {p : Prog Act Reply α} {a : α}
    (run : Runs (fun act s r t => calm act s = some (r, t)) p s a t) (own : epoch i = s.epoch)
    (same : t.epoch = s.epoch) : Runs (Taking noFault epoch i) p s a t := by
  induction run with
  | ret a s => exact .ret a s
  | op first rest ih =>
    have before := calm_epoch first
    have after := calm_runs_epoch rest
    refine .op (taking_iff.mpr ⟨.ok, .inr own, rfl, first⟩) (ih ?_ ?_)
    · omega
    · omega

/-- A step of a compaction, by whatever device. -/
def Compacting (s t : State) : Prop :=
  (∃ user name picks, perform (.archive user name picks) .ok s = some ((), t)) ∨
    ∃ keys, perform (.remove keys) .ok s = some ((), t)

/-- No live object of the inbox is left at or below `last`. -/
def Swept (user : UserId) (last : String) (s : State) : Prop :=
  ∀ key raw, s.objects.get key = some (.json raw) →
    startsWith key (prefixInboxLive user.str) = true → last < key

/-- From `m` to `t` the compactions have completed that were started between `s` and `m`. -/
def Completed (user : UserId) (s m t : State) : Prop :=
  Relation.ReflTransGen Compacting m t ∧
    ∃ started, m.memory.background = started ++ s.memory.background ∧
      ∀ upTo, .storeCompact (prefixInboxLive user.str) upTo ∈ started →
        Swept user (prefixInboxLive user.str ++ upTo) t

/-- A compaction leaves alone what the device keeps, and adds no live object. -/
theorem compacting_step (step : Compacting s t) :
    t.db = s.db ∧ t.memory = s.memory ∧ t.accepted = s.accepted ∧
      ∀ key raw, t.objects.get key = some (.json raw) → s.objects.get key = some (.json raw) := by
  rcases step with ⟨user, name, picks, done⟩ | ⟨keys, done⟩
  · simp only [perform] at done
    split at done
    next => cases done
    next =>
      obtain ⟨entries, _, same⟩ := Option.map_eq_some_iff.mp done
      cases same
      refine ⟨rfl, rfl, rfl, fun key raw found => ?_⟩
      simp only [State.writeArchive, ObjectMap.get_insert] at found
      split at found
      next => cases found
      next => exact found
  · cases done
    refine ⟨rfl, rfl, rfl, fun key raw found => ?_⟩
    simp only [ObjectMap.get_eraseAll, Option.ite_none_left_eq_some] at found
    exact found.2

section Decoding

variable [CborDecoder]

/-! ### The inbox -/

/-- The envelopes that lie in the inbox, live or in an archive. -/
inductive InStore (user : UserId) (s : State) : Js → Prop where
  | live {key : String} {raw : Json} : s.objects.get key = some (.json raw) →
    startsWith key (prefixInboxLive user.str) = true → InStore user s (Js.ofJson raw)
  | archived {key : String} {entries : List Value} {e : Js} :
    s.objects.get key = some (.cbor entries) →
    startsWith key (prefixInboxArchive user.str) = true → e ∈ Js.ofValues entries → InStore user s e

/-- Every message of the inbox is stored that the session held by the device opens. -/
def AllRead (account : Account) (s : State) : Prop :=
  ∀ e id k text, InStore account.userId s e → IsMessage e id → sessionOf s k.sessionId = some k →
    Opens account.crypto k e text → Present s e id text

/-! ### Rounds -/

/-- A call of `syncAndPublish` without faults, and the compactions it starts. -/
def Round (page : Page) (s t : State) : Prop :=
  ∃ r m, (syncAndPublish page).run.execute calm s = some (r, m) ∧ Completed page.userId s m t

/-- A call of `syncAndPublish` that finds nothing new: no live object above the cursor, no
message, no session. -/
structure FindsNothing (page : Page) (s t : State) : Prop where
  runs : ∃ r, (syncAndPublish page).run.execute calm s = some (r, t)
  keys : liveKeys page.userId s = []
  messages : ∃ candidates, t.memory.syncs.getLast? = some (some (.ok ⟨[], candidates⟩))
  sessions : sessionOf t = sessionOf s

/-- Nothing else keeps a message from being stored that the device can open. -/
structure Unhindered (account : Account) (s : State) : Prop where
  /-- The device never held the session under a key that does not open the message. -/
  keys : ∀ e id k text, InStore account.userId s e → IsMessage e id →
    sessionOf s k.sessionId = some k → Opens account.crypto k e text →
    ∀ k' ∈ s.held, k'.sessionId = k.sessionId → ∃ text', Opens account.crypto k' e text'
  /-- The date of the message can be converted. -/
  dates : ∀ e id sentAt, InStore account.userId s e → IsMessage e id →
    e.member "sent_at" = .ok sentAt →
    ∃ timestamp, account.date (sentAt.orElse (.num (.int 0))) = .ok timestamp
  /-- No other message was sent under its id. -/
  ids : ∀ e e' id k k' text text', InStore account.userId s e → IsMessage e id →
    Opens account.crypto k e text → Delivered account.userId s e' → IsMessage e' id →
    Opens account.crypto k' e' text' → text' = text ∧ e'.member "from_user" = e.member "from_user"

/-! ### What lies in the store -/

section Store

variable {account : Account} {reliable : Prop} {s t : State}

/-- What the server accepted is no value without members. -/
theorem view_members {raw : Json} {e : Js} (view : View raw e) {header : EnvelopeHeader}
    (parsed : EnvelopeHeader.fromJson raw = some header) : HasMembers e := by
  cases raw with
  | obj fields =>
    cases view with
    | live => exact ⟨_, rfl⟩
    | archived valid =>
      simp only [Value.ofJson] at valid
      split at valid
      next => cases valid
      next =>
        obtain ⟨pairs, all, rfl⟩ := Option.map_eq_some_iff.mp valid
        obtain ⟨members, _, object, _, _⟩ := ofValue_map all
        rw [object]
        exact ⟨_, rfl⟩
  | arr xs =>
    cases view with
    | live => exact ⟨_, rfl⟩
    | archived valid =>
      simp only [Value.ofJson] at valid
      split at valid
      next => cases valid
      next =>
        obtain ⟨vs, _, rfl⟩ := Option.map_eq_some_iff.mp valid
        obtain ⟨ys, array⟩ := CborDecoder.array vs
        rw [Js.ofValue, array]
        exact ⟨_, rfl⟩
  | _ => cases parsed

theorem Delivered.members {user : UserId} {e : Js} (delivered : Delivered user s e) : HasMembers e := by
  obtain ⟨raw, ⟨_, header, parsed, _⟩, view⟩ := delivered
  exact view_members view parsed

theorem Sourced.inStore (inv : Sourced account reliable s) {user : UserId} {e : Js}
    (inside : InStore user s e) : Delivered user s e := by
  cases inside with
  | @live key raw found within =>
    obtain ⟨accepted, header, parsed, rfl⟩ := inv.live key raw found
    exact ⟨raw, ⟨⟨accepted, inv.truthful raw accepted⟩, header, parsed, within⟩, .live⟩
  | @archived key entries e found within member =>
    obtain ⟨user', name, rfl, each⟩ := inv.entries key entries (inv.archives key entries found)
    obtain rfl := archive_owner within
    obtain ⟨v, here, rfl⟩ := mem_ofValues member
    obtain ⟨n, archivable⟩ := each v here
    exact archivable_delivered inv archivable

theorem Sourced.readable (inv : Sourced account reliable s) : Readable s.objects where
  live key raw found := by
    obtain ⟨_, header, parsed, _⟩ := inv.live key raw found
    exact view_members .live parsed
  archived key entries found e member := by
    obtain ⟨user, name, rfl, each⟩ := inv.entries key entries (inv.archives key entries found)
    obtain ⟨v, here, rfl⟩ := mem_ofValues member
    obtain ⟨n, archivable⟩ := each v here
    exact (archivable_delivered inv archivable).members

theorem Sourced.coherent (inv : Sourced account reliable s) : Coherent s :=
  ⟨inv.stored, fun id stored found => (inv.cached id stored found).1⟩

theorem mem_liveEnvelopes {user : UserId} {e : Js} (member : e ∈ liveEnvelopes user s) :
    InStore user s e := by
  obtain ⟨keyed, listed, rfl⟩ := List.mem_map.mp member
  obtain ⟨key, here, found⟩ := List.mem_filterMap.mp listed
  cases there : s.objects.get key with
  | none => rw [there] at found; cases found
  | some d =>
    rw [there] at found
    cases d with
    | json raw => cases found; exact .live there (mem_liveKeys here)
    | _ => cases found

end Store

/-! ### One call of `syncAndPublish` -/

section Calls

variable {page : Page} {s t : State}

/-- What a call leaves behind. -/
structure Ran (page : Page) (s t : State) : Prop where
  objects : t.objects = s.objects
  accepted : t.accepted = s.accepted
  idle : t.memory.syncInFlight = none
  epoch : t.epoch = s.epoch
  syncCursors : t.db.syncCursors =
    (s.advance page.userId (liveKeys page.userId s).getLast?).db.syncCursors
  syncs : t.memory.syncs = s.memory.syncs ++ [some (.ok (syncResult page s))]
  sessions : sessionOf t = (bothPasses page s).2
  compactions : t.memory.background.filter Background.isCompact =
    (s.advance page.userId (liveKeys page.userId s).getLast?).memory.background.filter
      Background.isCompact

theorem syncAndPublish_ran {r : Except Thrown Published} (idle : s.memory.syncInFlight = none)
    (coherent : Coherent s) (readable : Readable s.objects)
    (executed : (syncAndPublish page).run.execute calm s = some (r, t)) : Ran page s t := by
  obtain ⟨u, r', t', ran, _, saves, follows⟩ := syncAndPublish_runs page idle coherent readable
  rw [executed] at ran
  cases ran
  obtain ⟨frame, _, sessions⟩ := follows
  unfold Saves at saves
  rw [saves]
  cases last : (liveKeys page.userId s).getLast? with
  | none =>
    rw [last] at frame
    exact ⟨frame.objects, frame.accepted, frame.syncInFlight, frame.epoch, by rw [last]; exact frame.syncCursors,
      frame.syncs, sessions, by rw [last]; exact frame.compactions⟩
  | some key =>
    rw [last] at frame
    exact ⟨frame.objects, frame.accepted, frame.syncInFlight, frame.epoch, by rw [last]; exact frame.syncCursors,
      frame.syncs, sessions, by rw [last]; exact frame.compactions⟩

/-- A call keeps the invariant, and takes nothing back. -/
theorem syncAndPublish_keeps {r : Except Thrown Published}
    (inv : Sourced page.toAccount (Reliable noFault) s) (same : t.epoch = s.epoch)
    (executed : (syncAndPublish page).run.execute calm s = some (r, t)) :
    Sourced page.toAccount (Reliable noFault) t ∧ Grows s t := by
  have run : Runs (Taking noFault (fun _ => s.epoch) ()) (syncAndPublish page).run s r t :=
    calm_taking (runs_of_execute executed) rfl same
  have safe : Ensures page.toAccount noFault (fun _ => s.epoch) () (fun _ _ => True)
      (syncAndPublish page).run s := syncAndPublish_ensures page
  obtain ⟨kept, _, grows⟩ := (safe.relates Grows.refl (fun _ _ _ => Grows.trans) (fun _ _ h => h)
    fun _ _ h => h).runs inv run
  exact ⟨kept, grows⟩

end Calls

/-! ### Many rounds -/

section Rounds

variable {page : Page} {s0 s m t : State}

/-- What holds between the rounds that start in `s0`. -/
structure Settling (page : Page) (s0 s : State) : Prop where
  sourced : Sourced page.toAccount (Reliable noFault) s
  idle : s.memory.syncInFlight = none
  grows : Grows s0 s
  accepted : s.accepted = s0.accepted
  live : ∀ key raw, s.objects.get key = some (.json raw) → s0.objects.get key = some (.json raw)
  /-- Either the live objects below the cursor were compacted, or no key was ever listed. -/
  below : (∃ last, s.db.syncCursors.get (prefixInboxLive page.userId.str) = some last ∧
      Swept page.userId last s) ∨
    s = s0 ∨ liveKeys page.userId s0 = [] ∧
      s.db.syncCursors.get (prefixInboxLive page.userId.str) =
        s0.db.syncCursors.get (prefixInboxLive page.userId.str)

theorem compacting_keeps {account : Account} {reliable : Prop} (inv : Sourced account reliable s)
    (step : Compacting s t) : Sourced account reliable t ∧ Grows s t := by
  rcases step with ⟨user, name, picks, done⟩ | ⟨keys, done⟩
  · have quiet : (Act.archive user name picks).quiet = true := rfl
    exact quiet_step inv quiet done
  · have quiet : (Act.remove keys).quiet = true := rfl
    exact quiet_step inv quiet done

theorem compacted {account : Account} {reliable : Prop} (inv : Sourced account reliable s)
    (steps : Relation.ReflTransGen Compacting s t) :
    Sourced account reliable t ∧ Grows s t ∧ t.db = s.db ∧ t.memory = s.memory ∧
      t.accepted = s.accepted ∧
      ∀ key raw, t.objects.get key = some (.json raw) → s.objects.get key = some (.json raw) := by
  induction steps with
  | refl => exact ⟨inv, .refl s, rfl, rfl, rfl, fun _ _ found => found⟩
  | tail _ last ih =>
    obtain ⟨kept, grows, db, memory, accepted, live⟩ := ih
    obtain ⟨kept', grows'⟩ := compacting_keeps kept last
    obtain ⟨db', memory', accepted', live'⟩ := compacting_step last
    exact ⟨kept', grows.trans grows', db'.trans db, memory'.trans memory, accepted'.trans accepted,
      fun key raw found => live key raw (live' key raw found)⟩

/-- After a round that listed a key, nothing live is left up to the cursor. -/
theorem Ran.swept {last : String} (ran : Ran page s m) (completed : Completed page.userId s m t)
    (listed : (liveKeys page.userId s).getLast? = some last) : Swept page.userId last t := by
  obtain ⟨_, started, split, swept⟩ := completed
  have compactions := ran.compactions
  rw [split, listed] at compactions
  simp only [State.advance, List.filter_append] at compactions
  have own := List.append_cancel_right compactions
  have member : Background.storeCompact (prefixInboxLive page.userId.str)
      (String.ofList (last.toList.drop (prefixInboxLive page.userId.str).toList.length)) ∈
        started.filter Background.isCompact := by
    rw [own]
    simp [compactionsUpTo, Background.isCompact]
  have done := swept _ (List.mem_filter.mp member).1
  rwa [append_drop (mem_liveKeys (List.mem_of_getLast? listed))] at done

theorem Settling.round (settling : Settling page s0 s) (round : Round page s t) :
    Settling page s0 t := by
  obtain ⟨r, m, executed, completed⟩ := round
  have ran := syncAndPublish_ran settling.idle settling.sourced.coherent settling.sourced.readable
    executed
  obtain ⟨kept, grows⟩ := syncAndPublish_keeps settling.sourced ran.epoch executed
  obtain ⟨kept', grows', db, memory, accepted, live⟩ := compacted kept completed.1
  have fewer : ∀ key raw, t.objects.get key = some (.json raw) → s.objects.get key = some (.json raw) := by
    intro key raw found
    rw [← ran.objects]
    exact live key raw found
  have cursors := ran.syncCursors
  rw [← db] at cursors
  refine ⟨kept', by rw [memory]; exact ran.idle, (settling.grows.trans grows).trans grows',
    accepted.trans (ran.accepted.trans settling.accepted),
    fun key raw found => settling.live key raw (fewer key raw found), ?_⟩
  cases listed : (liveKeys page.userId s).getLast? with
  | some last =>
    rw [listed] at cursors
    exact .inl ⟨last, by rw [cursors]; simp [State.advance], ran.swept completed listed⟩
  | none =>
    rw [listed] at cursors
    have same : t.db.syncCursors = s.db.syncCursors := cursors
    rcases settling.below with ⟨last, cursor, swept⟩ | below
    · exact .inl ⟨last, by rw [same]; exact cursor, fun key raw found =>
        swept key raw (fewer key raw found)⟩
    · refine .inr (.inr ?_)
      rcases below with rfl | ⟨none_, cursor⟩
      · exact ⟨List.getLast?_eq_none_iff.mp listed, by rw [same]⟩
      · exact ⟨none_, by rw [same]; exact cursor⟩

theorem settling_rounds (start : Settling page s0 s0)
    (rounds : Relation.ReflTransGen (Round page) s0 s) : Settling page s0 s := by
  induction rounds with
  | refl => exact start
  | tail _ last ih => exact ih.round last

end Rounds

/-! ### When nothing new is found -/

section Nothing

variable {page : Page} {s0 s t : State}

theorem archives_nothing {candidates : List String}
    (nothing : syncResult page s = ⟨[], candidates⟩) :
    (bothPasses page s).1.gathered.messages = [] := by
  have messages := congrArg SyncResult.messages nothing
  have size := congrArg List.length messages
  simp only [syncResult, List.length_insertionSort, List.length_append, List.length_nil] at size
  exact List.length_eq_zero_iff.mp (by omega)

/-- A message of an archive that the device does not skip any more is stored. -/
theorem archived_row (inv : Sourced page.toAccount (Reliable noFault) s)
    (enough : s.objects.keys.length < page.pages) (none_ : liveKeys page.userId s = [])
    {candidates : List String} (nothing : syncResult page s = ⟨[], candidates⟩) {key : String}
    {entries : List Value} (found : s.objects.get key = some (.cbor entries))
    (within : startsWith key (prefixInboxArchive page.userId.str) = true)
    (new : key ∉ s.db.ingestedArchives) {e id : Js} {k : Inbound} {text : String}
    {m : DecryptedMessage} (member : e ∈ Js.ofValues entries) (message : IsMessage e id)
    (known : sessionOf s k.sessionId = some k) (opens : Opens page.crypto k e text)
    (made : decryptedMessage page.toAccount e text = .ok m) : HasRow s id := by
  have quiet := archives_nothing nothing
  have fits : (s.objects.keysAfter (startsWith · (prefixInboxArchive page.userId.str)) none).length
      < page.pages := by
    refine lt_of_le_of_lt ?_ enough
    rw [ObjectMap.keysAfter, List.length_insertionSort]
    exact List.length_filter_le _ _
  have listed : key ∈ s.objects.keysAfter (startsWith · (prefixInboxArchive page.userId.str)) none :=
    (ObjectMap.mem_keysAfter _ _ _ _).mpr ⟨⟨_, found⟩, within, fun c given => by cases given⟩
  rw [bothPasses, archivePass, listAll_enough (archive_proper page.userId) fits, livePass_sessions none_,
    seenAfter_stored none_] at quiet
  have seen := readArchives_nothing quiet key listed new entries found e member id k text m
    message known opens made
  exact hasRow_of_stored inv (Js.mem_of_isIn seen)

/-- A call that finds nothing returns nothing, and takes nothing back. -/
theorem FindsNothing.keeps (nothing : FindsNothing page s t) (settling : Settling page s0 s) :
    Ran page s t ∧ Sourced page.toAccount (Reliable noFault) t ∧ Grows s t := by
  obtain ⟨r, executed⟩ := nothing.runs
  have ran := syncAndPublish_ran settling.idle settling.sourced.coherent settling.sourced.readable
    executed
  exact ⟨ran, syncAndPublish_keeps settling.sourced ran.epoch executed⟩

/-- A message that the device can open is stored when nothing new is found. -/
theorem FindsNothing.row (nothing : FindsNothing page s t) (settling : Settling page s0 s)
    (enough : s.objects.keys.length < page.pages) (listed : ¬ Stranded page.userId s0)
    (clear : Unhindered page.toAccount t) {e id : Js} {k : Inbound} {text : String}
    (inside : InStore page.userId t e) (message : IsMessage e id)
    (known : sessionOf t k.sessionId = some k) (opens : Opens page.crypto k e text) : HasRow t id := by
  obtain ⟨ran, kept, grows⟩ := nothing.keeps settling
  obtain ⟨_, none_, ⟨candidates, settled⟩, sessions⟩ := nothing
  have result : syncResult page s = ⟨[], candidates⟩ := by
    rw [ran.syncs, List.getLast?_concat] at settled
    simpa using settled
  have held := known
  rw [sessions] at held
  cases inside with
  -- no live object is left: it would be listed, swept, or stranded
  | @live key raw found within =>
    rw [ran.objects] at found
    obtain ⟨cursor, here, below⟩ := below_cursor none_ found within
    rcases settling.below with ⟨last, there, swept⟩ | untouched
    · cases there.symm.trans here
      exact absurd (swept key raw found within) below
    · have unlisted : liveKeys page.userId s0 = [] := by
        rcases untouched with rfl | ⟨unlisted, _⟩
        · exact none_
        · exact unlisted
      have first := settling.live key raw found
      obtain ⟨cursor₀, stored, low⟩ := below_cursor unlisted first within
      refine absurd ⟨cursor₀, stored, ⟨key, raw, first, within, low⟩, fun key' d found' within' => ?_⟩
        listed
      obtain ⟨cursor', stored', low'⟩ := below_cursor unlisted found' within'
      cases stored.symm.trans stored'
      exact low'
  | @archived key entries e found within member =>
    have inside : InStore page.userId t e := .archived found within member
    obtain ⟨sentAt, sent⟩ := member_ok message.2 "sent_at"
    obtain ⟨timestamp, dated⟩ := clear.dates e id sentAt inside message sent
    obtain ⟨m, made⟩ := decryptedMessage_dated opens sent dated
    rw [ran.objects] at found
    -- an archive that was ingested before has been accounted for, and one that was not is read now
    by_cases ingested : key ∈ s.db.ingestedArchives
    · have written := settling.sourced.archives key entries found
      obtain ⟨v, here, rfl⟩ := mem_ofValues member
      obtain ⟨_, accounted⟩ := settling.sourced.ingestedEntry noFault_reliable
        ⟨key, ingested, entries, written, v, here, rfl⟩
      rcases accounted id message with row | ⟨m, none', _⟩ | passed
      · exact row.grows grows
      · cases none'
      · rcases passed.grows grows k text opens with ⟨k', other, session, closed⟩ | ⟨thrown, failed⟩
        · obtain ⟨text', opened⟩ := clear.keys _ id k text inside message known opens k' other session
          exact absurd opened (closed text')
        · rw [made] at failed
          cases failed
    · exact (archived_row settling.sourced enough none_ result found within ingested member message
        held opens made).grows grows

/-- The rounds that follow a run of the browser. -/
theorem settling_of_run (page : Page) {ι : Type} [DecidableEq ι] {allow : Act → Outcome → Bool} {tasks : Tasks ι}
    {w : World ι Act Reply Unit State} (reliable : Reliable allow)
    (run : Reach (browser page.toAccount allow tasks) {} w)
    (idle : w.sys.memory.syncInFlight = none)
    (rounds : Relation.ReflTransGen (Round page) w.sys s) : Settling page w.sys s := by
  have same : Reliable allow = Reliable noFault := propext (iff_of_true reliable noFault_reliable)
  exact settling_rounds ⟨same ▸ browser_sourced run, idle, .refl _, rfl, fun _ _ found => found,
    .inr (.inl rfl)⟩ rounds

/-- Once nothing is sent any more and every compaction completes, a device with no stranded
live object that syncs until nothing new is found has stored each message that it can open. -/
theorem messages_read (page : Page) {ι : Type} [DecidableEq ι] {allow : Act → Outcome → Bool} {tasks : Tasks ι}
    {w : World ι Act Reply Unit State} (reliable : Reliable allow)
    (run : Reach (browser page.toAccount allow tasks) {} w)
    (idle : w.sys.memory.syncInFlight = none) (listed : ¬ Stranded page.userId w.sys)
    (rounds : Relation.ReflTransGen (Round page) w.sys s) (nothing : FindsNothing page s t)
    (enough : s.objects.keys.length < page.pages) (clear : Unhindered page.toAccount t) :
    AllRead page.toAccount t := by
  have settling := settling_of_run page reliable run idle rounds
  obtain ⟨_, kept, _⟩ := nothing.keeps settling
  intro e id k text inside message known opens
  have row := nothing.row settling enough listed clear inside message known opens
  exact present_of_row kept (kept.inStore inside) message (fun e' k' text' delivered message' opens' =>
    clear.ids e e' id k k' text text' inside message opens delivered message' opens') row

end Nothing

end Decoding

section Samples

open Demo

attribute [local instance] Demo.cbor

/-- The page of the sample account. -/
def samplePage : Page := ⟨account, "", false⟩

/-- A call of `syncAndPublish` without faults. -/
def syncOnce (s : State) : Option State :=
  ((syncAndPublish samplePage).run.execute calm s).map Prod.snd

/-- Two envelopes are archived, and their live objects deleted. -/
def compactTwo (s : State) : Option State :=
  (perform (.archive user "y" [2, 3]) .ok s).bind fun archived =>
    (perform (.remove [keyInboxLive user.str "b", keyInboxLive user.str "d"]) .ok archived.2).map
      Prod.snd

theorem of_syncOnce {s t : State} (synced : syncOnce s = some t) :
    ∃ r, (syncAndPublish samplePage).run.execute calm s = some (r, t) := by
  obtain ⟨⟨r, u⟩, ran, rfl⟩ := Option.map_eq_some_iff.mp synced
  exact ⟨r, ran⟩

theorem of_compactTwo {s t : State} (compacted : compactTwo s = some t) :
    Relation.ReflTransGen Compacting s t := by
  obtain ⟨⟨⟨⟩, u⟩, archived, removed⟩ := Option.bind_eq_some_iff.mp compacted
  obtain ⟨⟨⟨⟩, v⟩, done, rfl⟩ := Option.map_eq_some_iff.mp removed
  exact .tail (.single (.inl ⟨_, _, _, archived⟩)) (.inr ⟨_, done⟩)

/-- The sessions that a map of stored ones leads to. -/
def sessionsIn (store : ObjectMap String StoredInbound) : List (String × Inbound) :=
  store.entries.map fun e => (e.1, e.2.session)

theorem get_sessionsIn (store : ObjectMap String StoredInbound) (id : String) :
    (store.get id).map StoredInbound.session =
      ((sessionsIn store).find? fun e => decide (e.1 = id)).map Prod.snd := by
  rw [sessionsIn, List.find?_map, ObjectMap.get, Option.map_map, Option.map_map]
  rfl

/-- A test that the run found nothing new. -/
def foundNothing (s t : State) : Bool :=
  (liveKeys user s).isEmpty &&
    (match t.memory.syncs.getLast? with
      | some (some (.ok ⟨[], _⟩)) => true
      | _ => false) &&
    decide (sessionsIn t.memory.inboundCache = sessionsIn s.memory.inboundCache) &&
    decide (sessionsIn t.db.inbound = sessionsIn s.db.inbound)

theorem of_foundNothing {s t : State} (synced : syncOnce s = some t) (nothing : foundNothing s t = true) :
    FindsNothing samplePage s t := by
  simp only [foundNothing, Bool.and_eq_true, decide_eq_true_eq, List.isEmpty_iff] at nothing
  obtain ⟨⟨⟨keys, messages⟩, cache⟩, stored⟩ := nothing
  refine ⟨of_syncOnce synced, keys, ?_, ?_⟩
  · split at messages
    next candidates last => exact ⟨candidates, last⟩
    next => cases messages
  · funext id
    simp only [sessionOf, Option.map_or, get_sessionsIn, cache, stored]

/-- Every message says the same, and every session was known from its start. -/
def plain (s : State) : Bool :=
  s.accepted.all (bothViews onlyHi) && s.held.all fun k => decide (k.firstKnownIndex = 0)

theorem of_plain {s : State} (inv : Sourced account (Reliable noFault) s) (checked : plain s = true) :
    Unhindered account s := by
  simp only [plain, Bool.and_eq_true] at checked
  obtain ⟨hi, early⟩ := checked
  refine ⟨fun e id k text _ _ _ opens k' held session => ?_, fun _ _ _ _ _ _ => ⟨some 0, rfl⟩,
    fun e e' id k k' text text' inside message opens delivered' message' opens' => ?_⟩
  · have start := List.all_eq_true.mp early k' held
    exact ⟨text, opens_from_start opens session (by simpa using start)⟩
  · obtain ⟨sender, text_⟩ := of_onlyHi hi (inv.inStore inside) message opens
    obtain ⟨sender', text_'⟩ := of_onlyHi hi delivered' message' opens'
    exact ⟨text_'.trans text_.symm, sender'.trans sender.symm⟩

/-- A message is delivered below the cursor, and no other is sent any more. -/
def outOfOrder : List Task :=
  [delivery bob (keyShare bob user "a" "s"), delivery bob (message bob user "c" "s" "hi" .null),
    .sync "" false] ++
    compaction "x" [0, 1] [keyInboxLive user.str "a", keyInboxLive user.str "c"] ++
    [delivery bob (message bob user "b" "s" "hi" .null)]

/-- Another message is delivered above the cursor. -/
def overtakenInbox : List Task := outOfOrder ++ [delivery bob (message bob user "d" "s" "hi" .null)]

/-- A test that no live object is left, and that the compactions started since `s` are in `m`. -/
def compactsAll (s m t : State) : Bool :=
  t.objects.entries.all (fun e => !startsWith e.1 (prefixInboxLive user.str)) &&
    s.memory.background.isSuffixOf m.memory.background

theorem of_compactsAll {s m t : State} (synced : syncOnce s = some m)
    (steps : Relation.ReflTransGen Compacting m t) (checked : compactsAll s m t = true) :
    Round samplePage s t := by
  simp only [compactsAll, Bool.and_eq_true, List.isSuffixOf_iff_suffix] at checked
  obtain ⟨none_, started, split⟩ := checked
  obtain ⟨r, executed⟩ := of_syncOnce synced
  refine ⟨r, m, executed, steps, started, split.symm, fun upTo _ key raw found within => ?_⟩
  have outside := List.all_eq_true.mp none_ _ (ObjectMap.mem_of_get found)
  have inside : startsWith key (prefixInboxLive user.str) = true := within
  simp [inside] at outside

/-- The message below the cursor is compacted with one above it, and read from the archive. -/
theorem overtaken_read : ∃ w s t, Reach (browser account noFault (script overtakenInbox)) {} w ∧
    ¬ Stranded user w.sys ∧ Relation.ReflTransGen (Round samplePage) w.sys s ∧
      FindsNothing samplePage s t ∧ (t.db.messages.get [.str "b"]).isSome ∧ AllRead account t := by
  obtain ⟨w, run, holds⟩ := reach_of_follow account noFault (script overtakenInbox)
    (inTurn _ [3, 3, 24, 3, 3, 3, 3])
    (fun w => w.sys.memory.syncInFlight.isNone && !(liveKeys user w.sys).isEmpty &&
      (syncOnce w.sys).any fun m => (compactTwo m).any fun s => compactsAll w.sys m s &&
        (syncOnce s).any fun s' => compactsAll s s' s' && (syncOnce s').any fun t =>
          decide (s'.objects.keys.length < account.pages) && foundNothing s' t && plain t &&
          (t.db.messages.get [.str "b"]).isSome) (by decide +kernel)
  simp only [Bool.and_eq_true, Option.isNone_iff_eq_none, Bool.not_eq_true', Option.any_eq_true,
    decide_eq_true_eq] at holds
  obtain ⟨⟨idle, listed⟩, m, first, s, compacted, sweeps, s', second, still, t, last,
    ⟨⟨enough, nothing⟩, same⟩, stored⟩ := holds
  have rounds : Relation.ReflTransGen (Round samplePage) w.sys s' :=
    .tail (.single (of_compactsAll first (of_compactTwo compacted) sweeps))
      (of_compactsAll second .refl still)
  have low : ¬ Stranded user w.sys := not_stranded fun empty => by
    rw [empty] at listed
    cases listed
  have finds := of_foundNothing last nothing
  have settling := settling_of_run samplePage noFault_reliable run idle rounds
  have clear := of_plain (finds.keeps settling).2.1 same
  exact ⟨w, s', t, run, low, rounds, finds, stored, messages_read samplePage noFault_reliable run
    idle low rounds finds enough clear⟩

theorem outOfOrder_unread : ∃ w t, Reach (browser account noFault (script outOfOrder)) {} w ∧
    w.sys.memory.syncInFlight = none ∧ FindsNothing samplePage w.sys t ∧ Unhindered account t ∧
      ¬ AllRead account t := by
  obtain ⟨w, run, holds⟩ := reach_of_follow account noFault (script outOfOrder)
    (inTurn _ [3, 3, 24, 3, 3, 3])
    (fun w => w.sys.memory.syncInFlight.isNone && (syncOnce w.sys).any fun t =>
      foundNothing w.sys t && plain t && (t.db.messages.get [.str "b"]).isNone &&
      (t.objects.entries.any fun e => startsWith e.1 (prefixInboxLive user.str) && holdsHi e.2) &&
      decide (sessionOf t "s" = some ⟨"s", 0⟩)) (by decide +kernel)
  simp only [Bool.and_eq_true, Option.isNone_iff_eq_none, Option.any_eq_true, decide_eq_true_eq,
    List.any_eq_true] at holds
  obtain ⟨idle, t, synced, ⟨⟨⟨nothing, same⟩, missing⟩, ⟨key, d⟩, member, within, checked⟩, known⟩ :=
    holds
  have finds := of_foundNothing synced nothing
  have kept := (finds.keeps (settling_of_run samplePage noFault_reliable run idle .refl)).2.1
  refine ⟨w, t, run, idle, finds, of_plain kept same, fun read => ?_⟩
  cases d with
  | json raw =>
    obtain ⟨message, opens⟩ := of_opensHi checked
    obtain ⟨key', row, found, id_, _⟩ := read _ _ _ _
      (.live (ObjectMap.get_of_mem member) within) message known opens
    obtain ⟨name, named, rfl⟩ := kept.named key' row found
    cases named.symm.trans id_
    rw [found] at missing
    cases missing
  | _ => cases checked

end Samples

end Atmin.Web
