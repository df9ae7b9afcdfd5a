import Atmin.Sync.Envelope

/-!
# A sync that nothing disturbs

Alone and without faults, a sync is a function of what the store and the browser hold. Of
the sessions it only matters which one a session id leads to; the functions that add and
load sessions change nothing else.
-/

namespace Atmin.Web

open Interaction

/-- The session each id leads to. -/
abbrev Sessions := String → Option Inbound

/-- The session `getInbound` finds for an id, in the cache or in IndexedDB. -/
def sessionOf (s : State) : Sessions := fun id =>
  ((s.memory.inboundCache.get id).or (s.db.inbound.get id)).map StoredInbound.session

/-- Sessions lie under their own ids. -/
structure Coherent (s : State) : Prop where
  stored : ∀ id stored, s.db.inbound.get id = some stored → stored.session.sessionId = id
  cached : ∀ id stored, s.memory.inboundCache.get id = some stored → stored.session.sessionId = id

def Background.isCompact : Background → Bool
  | .storeCompact .. => true
  | _ => false

/-- Nothing but sessions and backup tasks has changed. -/
structure Frame (s t : State) : Prop where
  objects : t.objects = s.objects
  archived : t.archived = s.archived
  accepted : t.accepted = s.accepted
  messages : t.db.messages = s.db.messages
  conversations : t.db.conversations = s.db.conversations
  syncCursors : t.db.syncCursors = s.db.syncCursors
  ingestedArchives : t.db.ingestedArchives = s.db.ingestedArchives
  syncs : t.memory.syncs = s.memory.syncs
  syncInFlight : t.memory.syncInFlight = s.memory.syncInFlight
  epoch : t.epoch = s.epoch
  compactions : t.memory.background.filter Background.isCompact =
    s.memory.background.filter Background.isCompact

theorem Frame.refl (s : State) : Frame s s :=
  ⟨rfl, rfl, rfl, rfl, rfl, rfl, rfl, rfl, rfl, rfl, rfl⟩

theorem Frame.trans {s t u : State} (first : Frame s t) (last : Frame t u) : Frame s u where
  objects := last.objects.trans first.objects
  archived := last.archived.trans first.archived
  accepted := last.accepted.trans first.accepted
  messages := last.messages.trans first.messages
  conversations := last.conversations.trans first.conversations
  syncCursors := last.syncCursors.trans first.syncCursors
  ingestedArchives := last.ingestedArchives.trans first.ingestedArchives
  syncs := last.syncs.trans first.syncs
  syncInFlight := last.syncInFlight.trans first.syncInFlight
  epoch := last.epoch.trans first.epoch
  compactions := last.compactions.trans first.compactions

/-- Every step succeeds. -/
def calm (act : Act) (s : State) : Option (Reply act × State) := perform act .ok s

-- As for `step_bind`, the reply type is not indexed.
@[simp] theorem execute_step (act : Act) (s : State) :
    @Prog.execute Act Reply (no_index (Reply act)) State calm (Prog.request act) s = calm act s := by
  show ((calm act s).bind fun served => some (served.1, served.2)) = calm act s
  cases calm act s <;> rfl

section Does

variable {α β : Type}

/-- The state is as before, but for the sessions, which are `K`. -/
structure Follows (K : Sessions) (s t : State) : Prop where
  frame : Frame s t
  coherent : Coherent t
  sessions : sessionOf t = K

/-- Without faults the function ends with `r`, and with the sessions `K`. -/
def Does (h : Async α) (s : State) (r : Except Thrown α) (K : Sessions) : Prop :=
  ∃ t, h.run.execute calm s = some (r, t) ∧ Follows K s t

variable {s : State} {K K' : Sessions}

theorem Follows.start (coherent : Coherent s) : Follows (sessionOf s) s s :=
  ⟨.refl s, coherent, rfl⟩

namespace Does

theorem ret {a : α} (coherent : Coherent s) : Does (pure a : Async α) s (.ok a) (sessionOf s) :=
  ⟨s, rfl, .start coherent⟩

theorem ofExcept {r : Except Thrown α} (coherent : Coherent s) :
    Does (Atmin.Web.ofExcept r) s r (sessionOf s) := ⟨s, rfl, .start coherent⟩

/-- A function that leaves the state alone. -/
theorem of_run {h : Async α} {r : Except Thrown α} (coherent : Coherent s)
    (ran : h.run.execute calm s = some (r, s)) : Does h s r (sessionOf s) := ⟨s, ran, .start coherent⟩

theorem bind {h : Async α} {f : α → Async β} {a : α} {r : Except Thrown β} (first : Does h s (.ok a) K)
    (rest : ∀ t, Follows K s t → Does (f a) t r K') : Does (h >>= f) s r K' := by
  obtain ⟨t, ran, follows⟩ := first
  obtain ⟨u, last, further⟩ := rest t follows
  refine ⟨u, ?_, ⟨follows.frame.trans further.frame, further.coherent, further.sessions⟩⟩
  rw [Async.run_bind, execute_bind, ran]
  exact last

theorem throws {h : Async α} {f : α → Async β} {e : Thrown} (first : Does h s (.error e) K) :
    Does (h >>= f) s (.error e) K := by
  obtain ⟨t, ran, follows⟩ := first
  refine ⟨t, ?_, follows⟩
  rw [Async.run_bind, execute_bind, ran]
  rfl

theorem attempt {h : Async α} {r : Except Thrown α} (first : Does h s r K) :
    Does (Atmin.Web.attempt h) s (.ok r) K := by
  obtain ⟨t, ran, follows⟩ := first
  refine ⟨t, ?_, follows⟩
  rw [run_attempt, execute_bind, ran]
  rfl

/-- After a step that leaves the state alone. -/
theorem after {h : Async α} {f : α → Async β} {a : α} {r : Except Thrown β}
    (ran : h.run.execute calm s = some (.ok a, s)) (rest : Does (f a) s r K') :
    Does (h >>= f) s r K' := by
  obtain ⟨u, last, further⟩ := rest
  refine ⟨u, ?_, further⟩
  rw [Async.run_bind, execute_bind, ran]
  exact last

end Does

end Does

/-! ### Sessions -/

section Sessions

variable {s : State}

theorem cacheInbound_does (coherent : Coherent s) (stored : StoredInbound) :
    Does (sync (step (.cacheInbound stored))) s (.ok ())
      (Function.update (sessionOf s) stored.session.sessionId (some stored.session)) := by
  refine ⟨_, rfl, ⟨⟨rfl, rfl, rfl, rfl, rfl, rfl, rfl, rfl, rfl, rfl, rfl⟩, ⟨coherent.stored, ?_⟩, ?_⟩⟩
  · intro id other found
    simp only [ObjectMap.get_insert] at found
    split at found
    next h => cases found; exact h.symm
    next => exact coherent.cached id other found
  · funext id
    simp only [sessionOf, ObjectMap.get_insert, Function.update_apply]
    split <;> rfl

/-- What is cached counts, whatever IndexedDB holds. -/
theorem saveInbound_does (coherent : Coherent s) {stored cached : StoredInbound}
    (found : s.memory.inboundCache.get stored.session.sessionId = some cached) :
    Does (await (step (.saveInboundSession stored))) s (.ok ()) (sessionOf s) := by
  refine ⟨_, rfl, ⟨⟨rfl, rfl, rfl, rfl, rfl, rfl, rfl, rfl, rfl, rfl, rfl⟩, ⟨?_, coherent.cached⟩, ?_⟩⟩
  · intro id other inside
    simp only [Database.saveInbound, ObjectMap.get_insert] at inside
    split at inside
    next h => cases inside; exact h.symm
    next => exact coherent.stored id other inside
  · funext id
    simp only [sessionOf, Database.saveInbound, ObjectMap.get_insert]
    split
    next h => subst h; simp only [found, Option.some_or]
    next => rfl

/-- Caching the session an id leads to changes nothing. -/
theorem cacheKnown_does (coherent : Coherent s) {stored : StoredInbound}
    (known : sessionOf s stored.session.sessionId = some stored.session) :
    Does (sync (step (.cacheInbound stored))) s (.ok ()) (sessionOf s) := by
  have same := cacheInbound_does coherent stored
  rwa [← known, Function.update_eq_self] at same

theorem sessionOf_stored {sessionId : String} (uncached : s.memory.inboundCache.get sessionId = none) :
    sessionOf s sessionId = (s.db.inbound.get sessionId).map StoredInbound.session := by
  simp only [sessionOf, uncached, Option.none_or]

theorem loadInbound_does (coherent : Coherent s) {sessionId : String}
    (uncached : s.memory.inboundCache.get sessionId = none) :
    Does (loadInbound (.str sessionId)) s (.ok (sessionOf s sessionId)) (sessionOf s) := by
  unfold loadInbound
  refine Does.after (a := s.db.inbound.get sessionId) rfl ?_
  rw [sessionOf_stored uncached]
  cases found : s.db.inbound.get sessionId with
  | none => exact .ret coherent
  | some stored =>
    have known : sessionOf s stored.session.sessionId = some stored.session := by
      rw [coherent.stored sessionId stored found, sessionOf_stored uncached, found, Option.map_some]
    refine Does.bind (cacheKnown_does coherent known) fun t follows => ?_
    rw [← follows.sessions]
    exact .ret follows.coherent

/-- What `getInbound` answers. -/
def got (K : Sessions) (sessionId : Js) : Except Thrown (Option Inbound) :=
  match sessionId with
  | .str name => .ok (K name)
  | other => if other.key.isSome then .ok none else .error .data

theorem getInbound_does (coherent : Coherent s) (sessionId : Js) :
    Does (getInbound sessionId) s (got (sessionOf s) sessionId) (sessionOf s) := by
  unfold getInbound
  cases sessionId with
  | str name =>
    simp only [Js.asStr_str, got]
    refine Does.after (a := s.memory.inboundCache.get name) rfl ?_
    cases found : s.memory.inboundCache.get name with
    | none => exact loadInbound_does coherent found
    | some cached =>
      have known : sessionOf s name = some cached.session := by
        simp only [sessionOf, found, Option.some_or, Option.map_some]
      rw [known]
      exact .ret coherent
  | _ =>
    simp only [Js.asStr, got, loadInbound]
    split
    next valid =>
      refine Does.after (a := none) ?_ (Does.ret coherent)
      simp only [run_await, execute_step, calm, perform, reading, valid, if_true]
    next invalid =>
      refine Does.throws (Does.of_run coherent ?_)
      simp only [run_await, execute_step, calm, perform, reading, invalid, Bool.false_eq_true, if_false]

/-- A new session is cached and saved. -/
theorem keepInbound_does (coherent : Coherent s) (stored : StoredInbound) :
    Does (do
      sync (step (.cacheInbound stored))
      await (step (.saveInboundSession stored))
      pure (stored.session, true)) s (.ok (stored.session, true))
      (Function.update (sessionOf s) stored.session.sessionId (some stored.session)) := by
  refine ⟨_, rfl, ⟨⟨rfl, rfl, rfl, rfl, rfl, rfl, rfl, rfl, rfl, rfl, rfl⟩, ⟨?_, ?_⟩, ?_⟩⟩
  · intro id other found
    simp only [Database.saveInbound, ObjectMap.get_insert] at found
    split at found
    next h => cases found; exact h.symm
    next => exact coherent.stored id other found
  · intro id other found
    simp only [ObjectMap.get_insert] at found
    split at found
    next h => cases found; exact h.symm
    next => exact coherent.cached id other found
  · funext id
    simp only [sessionOf, Database.saveInbound, ObjectMap.get_insert, Function.update_apply]
    split <;> rfl

/-- A session is added unless its id leads to one already. -/
def learn (K : Sessions) (k : Inbound) : Sessions :=
  if (K k.sessionId).isSome then K else Function.update K k.sessionId (some k)

theorem learn_known {K : Sessions} {k : Inbound} (known : ∃ k', K k.sessionId = some k') :
    learn K k = K := by
  rw [learn, if_pos (Option.isSome_iff_exists.mpr known)]

theorem learn_new {K : Sessions} {k : Inbound} (new : K k.sessionId = none) :
    learn K k = Function.update K k.sessionId (some k) := by
  rw [learn, new]
  rfl

theorem addInbound_does (coherent : Coherent s) {crypto : Crypto} {sessionKey : String} {k : Inbound}
    (imported : crypto.importSession sessionKey = some k) (fromUser fromDevice : Js) :
    ∃ r, Does (addInbound crypto fromUser fromDevice sessionKey) s (.ok r) (learn (sessionOf s) k) := by
  unfold addInbound
  rw [imported]
  cases cached : s.memory.inboundCache.get k.sessionId with
  | some stored =>
    have known : sessionOf s k.sessionId = some stored.session := by
      simp only [sessionOf, cached, Option.some_or, Option.map_some]
    rw [learn_known ⟨_, known⟩]
    refine ⟨_, Does.after (a := k) rfl (Does.after (a := some stored) ?_ (Does.ret coherent))⟩
    simp only [run_sync, step_bind, execute_op, calm, perform, cached, Option.bind_some, execute_ret]
  | none =>
    cases found : s.db.inbound.get k.sessionId with
    | some stored =>
      have named := coherent.stored _ stored found
      have known : sessionOf s k.sessionId = some stored.session := by
        rw [sessionOf_stored cached, found, Option.map_some]
      rw [learn_known ⟨_, known⟩]
      refine ⟨(stored.session, false), Does.after (a := k) rfl (Does.after (a := none) ?_
        (Does.after (a := some stored) ?_ ?_))⟩
      · simp only [run_sync, step_bind, execute_op, calm, perform, cached, Option.bind_some, execute_ret]
      · simp only [run_await, execute_step, calm, perform, reading, found]
      · refine Does.bind (cacheKnown_does coherent (by rw [named, known])) fun t follows => ?_
        rw [← follows.sessions]
        exact Does.ret follows.coherent
    | none =>
      have new : sessionOf s k.sessionId = none := by
        rw [sessionOf_stored cached, found, Option.map_none]
      rw [learn_new new]
      refine ⟨(k, true), Does.after (a := k) rfl (Does.after (a := none) ?_
        (Does.after (a := none) ?_ ?_))⟩
      · simp only [run_sync, step_bind, execute_op, calm, perform, cached, Option.bind_some, execute_ret]
      · simp only [run_await, execute_step, calm, perform, reading, found]
      · exact keepInbound_does coherent ⟨fromUser, fromDevice, k⟩

/-! ### Envelopes -/

/-- An envelope whose members can be read. -/
def HasMembers (e : Js) : Prop := ∃ x, e.member "content_type" = .ok x

/-- A key share with an id that was not seen. -/
def isShare (seen : List Js) (e : Js) : Bool :=
  match e.member "content_type", e.member "msg_id" with
  | .ok contentType, .ok msgId => contentType.same (.str "megolm.key_share") && !msgId.isIn seen
  | _, _ => false

/-- The session a key share carries, if it opens. -/
def shareOf (page : Page) (e : Js) : Option Inbound :=
  match openKeyShare page e with
  | .ok sessionKey => page.crypto.importSession sessionKey
  | .error _ => none

/-- What the sessions are after a key share. -/
def learnFrom (page : Page) (seen : List Js) (K : Sessions) (e : Js) : Sessions :=
  if isShare seen e then
    match shareOf page e with
    | some k => learn K k
    | none => K
  else K

theorem spawn_does (coherent : Coherent s) {task : Background} (other : task.isCompact = false) :
    Does (sync (step (.spawn task))) s (.ok ()) (sessionOf s) := by
  refine ⟨_, rfl, ⟨⟨rfl, rfl, rfl, rfl, rfl, rfl, rfl, rfl, rfl, rfl, ?_⟩, ⟨coherent.stored, coherent.cached⟩,
    rfl⟩⟩
  simp only [List.filter_cons, other, Bool.false_eq_true, if_false]

theorem applyKeyShare_does (page : Page) (coherent : Coherent s) {e : Js} (members : HasMembers e) :
    ∃ r, Does (applyKeyShare page e) s r
      (match shareOf page e with
        | some k => learn (sessionOf s) k
        | none => sessionOf s) := by
  obtain ⟨_, readable⟩ := members
  obtain ⟨fromUser, sender⟩ := member_ok readable "from_user"
  obtain ⟨fromDevice, device⟩ := member_ok readable "from_device"
  unfold applyKeyShare shareOf
  cases opened : openKeyShare page e with
  | error thrown => exact ⟨_, Does.throws (Does.ofExcept coherent)⟩
  | ok sessionKey =>
    rw [sender, device]
    dsimp only
    cases imported : page.crypto.importSession sessionKey with
    | none =>
      refine ⟨.error .crypto, Does.after (a := sessionKey) rfl (Does.after (a := fromUser) rfl
        (Does.after (a := fromDevice) rfl (Does.throws (Does.of_run coherent ?_))))⟩
      simp only [addInbound, imported, Async.run_bind, run_orThrow_none, Prog.ret_bind, execute_ret]
    | some k =>
      obtain ⟨⟨inbound, isNew⟩, added⟩ := addInbound_does coherent imported fromUser fromDevice
      refine ⟨.ok (), Does.after (a := sessionKey) rfl (Does.after (a := fromUser) rfl
        (Does.after (a := fromDevice) rfl (Does.bind added fun t follows => ?_)))⟩
      dsimp only
      rw [← follows.sessions]
      split
      · exact spawn_does follows.coherent rfl
      · exact Does.ret follows.coherent

theorem applyKeyShares_does (page : Page) (seen : List Js) {es : List Keyed} (coherent : Coherent s)
    (members : ∀ e ∈ es, HasMembers e.envelope) :
    Does (applyKeyShares page seen es) s (.ok ())
      ((es.map Keyed.envelope).foldl (learnFrom page seen) (sessionOf s)) := by
  induction es generalizing s with
  | nil => exact Does.ret coherent
  | cons e rest ih =>
    have others := fun e' member => members e' (List.mem_cons_of_mem e member)
    obtain ⟨contentType, type_⟩ := members e List.mem_cons_self
    obtain ⟨msgId, named⟩ := member_ok type_ "msg_id"
    have share : isShare seen e.envelope =
        (contentType.same (.str "megolm.key_share") && !msgId.isIn seen) := by
      simp only [isShare, type_, named]
    simp only [applyKeyShares, type_, named, List.map_cons, List.foldl_cons, learnFrom, share]
    refine Does.after (a := contentType) rfl (Does.after (a := msgId) rfl ?_)
    split
    next =>
      obtain ⟨r, applied⟩ := applyKeyShare_does page coherent ⟨contentType, type_⟩
      refine Does.bind (Does.attempt applied) fun t follows => ?_
      rw [← follows.sessions]
      exact ih follows.coherent others
    next => exact ih coherent others

/-- What a message envelope adds to what was gathered, before its id is looked at. -/
def readMessage (account : Account) (K : Sessions) (acc : Gathered) (e : Js) : Gathered :=
  match e.member "payload" with
  | .ok payload => match payload.member "session_id" with
    | .ok sessionId => match got K sessionId with
      | .ok (some k) => match openMessage account e payload k acc with
        | .ok acc' => acc'
        | .error _ => acc
      | .ok none => acc.skip
      | .error _ => acc
    | .error _ => acc
  | .error _ => acc

/-- A message with an id that was not seen. -/
def isUnread (seen : List Js) (e : Js) : Bool :=
  match e.member "content_type", e.member "msg_id" with
  | .ok contentType, .ok msgId => contentType.same (.str "megolm.message") && !msgId.isIn seen
  | _, _ => false

/-- What reading one envelope makes of what was gathered. -/
def readOne (account : Account) (K : Sessions) (acc : Gathered) (e : Js) : Gathered :=
  if isUnread acc.seen e then readMessage account K acc e else acc

theorem readMessage_does (page : Page) (coherent : Coherent s) (e : Js) (acc : Gathered) :
    ∃ r, Does (do
        let payload ← ofExcept (e.member "payload")
        let sessionId ← ofExcept (payload.member "session_id")
        match ← getInbound sessionId with
        | some inbound => ofExcept (openMessage page.toAccount e payload inbound acc)
        | none => pure acc.skip) s r (sessionOf s) ∧
      (match r with
        | .ok acc' => acc'
        | .error _ => acc) = readMessage page.toAccount (sessionOf s) acc e := by
  unfold readMessage
  cases inside : e.member "payload" with
  -- no payload, or no session id in it: the envelope is passed over
  | error thrown => exact ⟨_, Does.throws (Does.ofExcept coherent), rfl⟩
  | ok payload =>
    dsimp only
    cases session : payload.member "session_id" with
    | error thrown =>
      exact ⟨_, Does.after (a := payload) rfl (by rw [session]; exact Does.throws (Does.ofExcept coherent)), rfl⟩
    | ok sessionId =>
      -- the session comes from the cache or from the store
      have found := getInbound_does coherent sessionId
      dsimp only
      cases answer : got (sessionOf s) sessionId with
      | error thrown =>
        rw [answer] at found
        refine ⟨.error thrown, Does.after (a := payload) rfl ?_, rfl⟩
        rw [session]
        exact Does.after (a := sessionId) rfl (Does.throws found)
      | ok inbound =>
        rw [answer] at found
        cases inbound with
        -- an unknown session is a recoverable skip
        | none =>
          refine ⟨.ok acc.skip, Does.after (a := payload) rfl ?_, rfl⟩
          rw [session]
          refine Does.after (a := sessionId) rfl (Does.bind found fun t follows => ?_)
          rw [← follows.sessions]
          exact Does.ret follows.coherent
        -- a known one opens the message, or it throws
        | some k =>
          refine ⟨openMessage page.toAccount e payload k acc, Does.after (a := payload) rfl ?_, rfl⟩
          rw [session]
          refine Does.after (a := sessionId) rfl (Does.bind found fun t follows => ?_)
          rw [← follows.sessions]
          exact Does.ofExcept follows.coherent

theorem readEnvelope_does (page : Page) (coherent : Coherent s) (e : Js) (acc : Gathered) :
    ∃ r, Does (readEnvelope page e acc) s r (sessionOf s) ∧
      (match r with
        | .ok acc' => acc'
        | .error _ => acc) = readOne page.toAccount (sessionOf s) acc e := by
  unfold readEnvelope readOne isUnread
  cases type_ : e.member "content_type" with
  | error thrown => exact ⟨_, Does.throws (Does.ofExcept coherent), rfl⟩
  | ok contentType =>
    cases named : e.member "msg_id" with
    | error thrown => exact ⟨_, Does.after (a := contentType) rfl (Does.throws (Does.ofExcept coherent)), rfl⟩
    | ok msgId =>
      dsimp only
      split
      next wanted =>
        obtain ⟨r, read, made⟩ := readMessage_does page coherent e acc
        refine ⟨r, Does.after (a := contentType) rfl (Does.after (a := msgId) rfl ?_), made⟩
        rw [if_pos wanted]
        exact read
      next unwanted =>
        refine ⟨.ok acc, Does.after (a := contentType) rfl (Does.after (a := msgId) rfl ?_), rfl⟩
        rw [if_neg unwanted]
        exact Does.ret coherent

theorem readEnvelopes_does (page : Page) (es : List Keyed) (acc : Gathered) (coherent : Coherent s) :
    Does (readEnvelopes page es acc) s
      (.ok ((es.map Keyed.envelope).foldl (readOne page.toAccount (sessionOf s)) acc)) (sessionOf s) := by
  induction es generalizing s acc with
  | nil => exact Does.ret coherent
  | cons e rest ih =>
    obtain ⟨r, read, made⟩ := readEnvelope_does page coherent e.envelope acc
    rw [readEnvelopes, List.map_cons, List.foldl_cons, ← made]
    refine Does.bind (Does.attempt read) fun t follows => ?_
    cases r with
    | ok acc' =>
      have rest := ih acc' follows.coherent
      rwa [follows.sessions] at rest
    | error thrown =>
      have rest := ih acc follows.coherent
      rwa [follows.sessions] at rest

/-- The sessions after the key shares among some envelopes. -/
def learnAll (page : Page) (seen : List Js) (es : List Js) (K : Sessions) : Sessions :=
  es.foldl (learnFrom page seen) K

/-- What is gathered from some envelopes. -/
def readAll (account : Account) (K : Sessions) (seen : List Js) (es : List Js) : Gathered :=
  es.foldl (readOne account K) { seen }

theorem processEnvelopes_does (page : Page) {es : List Keyed} (seen : List Js) (coherent : Coherent s)
    (members : ∀ e ∈ es, HasMembers e.envelope) :
    Does (processEnvelopes page es seen) s
      (.ok (readAll page.toAccount (learnAll page seen (es.map Keyed.envelope) (sessionOf s)) seen
        (es.map Keyed.envelope)))
      (learnAll page seen (es.map Keyed.envelope) (sessionOf s)) := by
  unfold processEnvelopes
  refine Does.bind (applyKeyShares_does page seen coherent members) fun t follows => ?_
  have read := readEnvelopes_does page es { seen } follows.coherent
  rw [follows.sessions] at read
  exact read

/-! ### Listing, and what follows the passes -/

/-- The envelopes at some keys, without those that cannot be read. -/
def fetched (objects : ObjectMap String Data) (keys : List String) : List Keyed :=
  keys.filterMap fun key => match objects.get key with
    | some (.json raw) => some ⟨key, Js.ofJson raw⟩
    | _ => none

theorem fetchEnvelope_runs (s : State) (key : String) : ∃ r,
    (fetchEnvelope key).run.execute calm s = some (r, s) ∧
      r.toOption.toList = fetched s.objects [key] := by
  have ran : (fetchEnvelope key).run.execute calm s =
      some (s.lookup key >>= fun blob => parseEnvelope blob >>= fun e => pure ⟨key, e⟩, s) := by
    simp only [fetchEnvelope, Async.run_bind, run_await, execute_bind, execute_step, calm, perform,
      reading, Option.bind_some]
    cases s.lookup key with
    | error e => rfl
    | ok blob => cases blob <;> rfl
  refine ⟨_, ran, ?_⟩
  simp only [fetched, State.lookup, List.filterMap_cons, List.filterMap_nil]
  cases s.objects.get key with
  | none => rfl
  | some d => cases d <;> rfl

theorem fetched_append (objects : ObjectMap String Data) (keys keys' : List String) :
    fetched objects (keys ++ keys') = fetched objects keys ++ fetched objects keys' :=
  List.filterMap_append

theorem fetchEnvelopes_runs (s : State) (keys : List String) :
    (fetchEnvelopes keys).run.execute calm s = some (.ok (fetched s.objects keys), s) := by
  induction keys with
  | nil => rfl
  | cons key rest ih =>
    obtain ⟨r, ran, one⟩ := fetchEnvelope_runs s key
    simp only [fetchEnvelopes, Async.run_bind, run_attempt, execute_bind, ran, Option.bind_some,
      execute_ret, ih, Async.run_pure, one]
    rw [← fetched_append]
    rfl

/-- The live keys above the cursor, as far as one page goes. -/
def liveKeys (user : UserId) (s : State) : List String :=
  (s.listing (prefixInboxLive user.str) (s.db.syncCursors.get (prefixInboxLive user.str))).keys

/-- The live envelopes that a sync reads. -/
def liveEnvelopes (user : UserId) (s : State) : List Js :=
  (fetched s.objects (liveKeys user s)).map Keyed.envelope

/-- Every key under a prefix, unless there are more pages than are read. -/
def listAll (s : State) (pre : String) : Nat → Option String → Option (List String)
  | 0, _ => none
  | pages + 1, cursor =>
    let listed := s.listing pre cursor
    if listed.nextCursor = "" then some listed.keys
    else (listAll s pre pages (some listed.nextCursor)).map fun more => listed.keys ++ more

theorem storeListAll_runs (s : State) (pre : String) (pages : Nat) (cursor : Option String) :
    (storeListAll pre pages cursor).run.execute calm s = some
      ((match listAll s pre pages cursor with
        | some keys => .ok keys
        | none => .error .failed), s) := by
  induction pages generalizing cursor with
  | zero => rfl
  | succ pages ih =>
    simp only [storeListAll, Async.run_bind, run_await, execute_bind, execute_step, calm, perform,
      reading, Option.bind_some, listAll]
    split
    next => rfl
    next =>
      rw [Async.run_bind, execute_bind, ih]
      cases listAll s pre pages (some (s.listing pre cursor).nextCursor) <;> rfl

theorem listAll_congr {s t : State} (same : t.objects = s.objects) (pre : String) (pages : Nat)
    (cursor : Option String) : listAll t pre pages cursor = listAll s pre pages cursor := by
  have listing (c : Option String) : t.listing pre c = s.listing pre c := by
    simp only [State.listing, same]
  induction pages generalizing cursor with
  | zero => rfl
  | succ pages ih => simp only [listAll, listing, ih]

theorem attempt_runs {α : Type} {h : Async α} {r : Except Thrown α} {t : State}
    (ran : h.run.execute calm s = some (r, t)) :
    (attempt h).run.execute calm s = some (.ok r, t) := by
  rw [run_attempt, execute_bind, ran]
  rfl

/-- Follow a function that ends as given. -/
theorem run_then {α β : Type} {h : Async α} {f : α → Async β} {a : α} {t : State}
    (ran : h.run.execute calm s = some (.ok a, t)) :
    (h >>= f).run.execute calm s = (f a).run.execute calm t := by
  rw [Async.run_bind, execute_bind, ran]
  rfl

/-- The compactions that a sync starts after a listed page. -/
def compactionsUpTo (user : UserId) (lastKey : String) : List Background :=
  [.storeCompact (prefixKeysLive user.str) "~",
    .storeCompact (prefixInboxLive user.str)
      (String.ofList (lastKey.toList.drop (prefixInboxLive user.str).toList.length))]

/-- The cursor moved over a listed page, and its compactions started. -/
def State.advance (s : State) (user : UserId) : Option String → State
  | none => s
  | some lastKey =>
    { s with
      db := { s.db with syncCursors := s.db.syncCursors.insert (prefixInboxLive user.str) lastKey }
      memory := { s.memory with
        background := compactionsUpTo user lastKey ++ s.memory.background } }

theorem Follows.advance {s t : State} {K : Sessions} (follows : Follows K s t) (user : UserId)
    (lastKey : Option String) : Follows K (s.advance user lastKey) (t.advance user lastKey) := by
  obtain ⟨frame, coherent, sessions⟩ := follows
  cases lastKey with
  | none => exact ⟨frame, coherent, sessions⟩
  | some lastKey =>
    refine ⟨⟨frame.objects, frame.archived, frame.accepted, frame.messages, frame.conversations, ?_,
      frame.ingestedArchives, frame.syncs, frame.syncInFlight, frame.epoch, ?_⟩,
      ⟨coherent.stored, coherent.cached⟩, sessions⟩
    · simp only [State.advance, frame.syncCursors]
    · simp only [State.advance, List.filter_append, frame.compactions]

theorem persistInbound_does (coherent : Coherent s) (sessionId : String) :
    Does (persistInbound sessionId) s (.ok ()) (sessionOf s) := by
  unfold persistInbound
  refine Does.after (a := s.memory.inboundCache.get sessionId) rfl ?_
  cases found : s.memory.inboundCache.get sessionId with
  | none => exact Does.ret coherent
  | some cached =>
    have named := coherent.cached sessionId cached found
    rw [← named] at found
    exact saveInbound_does coherent found

theorem persistInbounds_does (ids : List String) (coherent : Coherent s) :
    Does (persistInbounds ids) s (.ok ()) (sessionOf s) := by
  induction ids generalizing s with
  | nil => exact Does.ret coherent
  | cons id rest ih =>
    refine Does.bind (persistInbound_does coherent id) fun t follows => ?_
    rw [← follows.sessions]
    exact ih follows.coherent

theorem triggerFlush_does (page : Page) (coherent : Coherent s) :
    Does (triggerFlush page) s (.ok ()) (sessionOf s) := by
  unfold triggerFlush
  split
  · exact spawn_does coherent rfl
  · exact Does.ret coherent

theorem advanceCursor_runs (page : Page) (s : State) (gathered : Gathered) (lastKey : Option String) :
    (advanceCursor page { gathered, lastKey, pre := prefixInboxLive page.userId.str }).run.execute calm s
      = some (.ok (), s.advance page.userId lastKey) := by
  cases lastKey <;> rfl

/-- A sync in flight. -/
def State.joined (s : State) : State :=
  { s with memory := { s.memory with
    syncs := s.memory.syncs ++ [none], syncInFlight := some s.memory.syncs.length } }

theorem Coherent.joined (coherent : Coherent s) : Coherent s.joined :=
  ⟨coherent.stored, coherent.cached⟩

/-- A settled sync. -/
def State.settled (s : State) (result : SyncResult) : State :=
  { s with memory := { s.memory with
    syncs := s.memory.syncs ++ [some (.ok result)], syncInFlight := none } }

/-- What the live pass gathers, and the sessions after it. -/
def livePass (page : Page) (s : State) : Gathered × Sessions :=
  let K := learnAll page [] (liveEnvelopes page.userId s) (sessionOf s)
  (readAll page.toAccount K [] (liveEnvelopes page.userId s), K)

theorem livePass_joined (page : Page) : livePass page s.joined = livePass page s := rfl

/-! ### Publishing -/

/-- The steps of `publish`. -/
def Act.saves : Act → Bool
  | .getConversation _ | .putMessages .. | .getAllMessages _ | .putConversations _
  | .markArchiveIngested _ | .syncReadMarkers => true
  | _ => false

/-- Only stored messages, conversations and ingested archives have changed. -/
def Saves (s t : State) : Prop :=
  t = { s with db := { s.db with
    messages := t.db.messages
    conversations := t.db.conversations
    ingestedArchives := t.db.ingestedArchives } }

theorem Saves.refl (s : State) : Saves s s := rfl

theorem Saves.trans {s t u : State} (first : Saves s t) (last : Saves t u) : Saves s u := by
  unfold Saves at *
  rw [last, first]

theorem saveBatch_saves {db db' : Database} {rows : List StoredMessage}
    {conversations : List StoredConversation} (saved : db.saveBatch rows conversations = some db') :
    db' = { db with messages := db'.messages, conversations := db'.conversations } := by
  unfold Database.saveBatch at saved
  split at saved
  next => cases saved; rfl
  next => cases saved

theorem saving_step {act : Act} (saving : act.saves = true) (s : State) :
    ∃ r t, calm act s = some (r, t) ∧ Saves s t := by
  cases act with
  | getConversation _ | getAllMessages _ | syncReadMarkers => exact ⟨_, s, rfl, .refl s⟩
  | markArchiveIngested key => exact ⟨_, _, rfl, rfl⟩
  | putMessages rows conversations =>
    simp only [calm, perform, writing]
    cases saved : s.db.saveBatch rows conversations with
    | none => exact ⟨_, s, rfl, .refl s⟩
    | some db => exact ⟨_, _, rfl, by rw [Saves, saveBatch_saves saved]⟩
  | putConversations conversations =>
    simp only [calm, perform, writing]
    cases saved : s.db.saveBatch [] conversations with
    | none => exact ⟨_, s, rfl, .refl s⟩
    | some db => exact ⟨_, _, rfl, by rw [Saves, saveBatch_saves saved]⟩
  | _ => cases saving

theorem saving_runs {α : Type} {p : Prog Act Reply α}
    (only : p.Only (fun act => act.saves = true) fun _ => True) (s : State) :
    ∃ a t, p.execute calm s = some (a, t) ∧ Saves s t := by
  induction only generalizing s with
  | ret _ => exact ⟨_, s, rfl, .refl s⟩
  | @op act k saving _ ih =>
    obtain ⟨r, t, done, first⟩ := saving_step saving s
    obtain ⟨a, u, rest, last⟩ := ih r t
    exact ⟨a, u, by rw [execute_op, done]; exact rest, first.trans last⟩

theorem saveMessages_saves (parse : String → Option Json) (render : Js → String) (userId : String)
    (messages : List DecryptedMessage) :
    Within (fun act => act.saves = true) (saveMessages parse render userId messages) := by
  unfold saveMessages
  split
  · exact .pure _
  · refine .bind (getConversations_within (fun _ => rfl) _) fun _ =>
      .bind (.await (.op rfl fun _ => .ret trivial)) fun _ => ?_
    split
    · exact .pure _
    · exact recomputeAmendedSummaries_within (fun _ => rfl) (fun _ => rfl) (fun _ => rfl) _ _ _ _

theorem markArchivesIngested_saves (keys : List String) :
    Within (fun act => act.saves = true) (markArchivesIngested keys) := by
  induction keys with
  | nil => exact .pure _
  | cons key rest ih => exact .bind (.attempt (.await (.op rfl fun _ => .ret trivial))) fun _ => ih

theorem publish_saves (page : Page) (synced : SyncResult) :
    Within (fun act => act.saves = true) (publish page synced) := by
  unfold publish
  refine .bind (.attempt (saveMessages_saves _ _ _ _)) fun saved => ?_
  cases saved with
  | error e => exact .pure _
  | ok =>
    exact .bind (markArchivesIngested_saves _) fun _ =>
      .bind (.attempt (.await (.op rfl fun _ => .ret trivial))) fun _ => .pure _

/-! ### The two passes -/

variable [CborDecoder]

/-- Whatever is read from the store has members. -/
structure Readable (objects : ObjectMap String Data) : Prop where
  live : ∀ key raw, objects.get key = some (.json raw) → HasMembers (Js.ofJson raw)
  archived : ∀ key entries, objects.get key = some (.cbor entries) →
    ∀ e ∈ Js.ofValues entries, HasMembers e

theorem fetched_members {objects : ObjectMap String Data} (readable : Readable objects)
    {keys : List String} : ∀ e ∈ fetched objects keys, HasMembers e.envelope := by
  intro e member
  obtain ⟨key, _, found⟩ := List.mem_filterMap.mp member
  cases there : objects.get key with
  | none => rw [there] at found; cases found
  | some d =>
    rw [there] at found
    cases d with
    | json raw => cases found; exact readable.live key raw there
    | _ => cases found

theorem syncLive_does (page : Page) (coherent : Coherent s) (readable : Readable s.objects) :
    Does (syncLive page) s
      (.ok
        { gathered := readAll page.toAccount
            (learnAll page [] (liveEnvelopes page.userId s) (sessionOf s)) [] (liveEnvelopes page.userId s)
          lastKey := (liveKeys page.userId s).getLast?, pre := prefixInboxLive page.userId.str })
      (learnAll page [] (liveEnvelopes page.userId s) (sessionOf s)) := by
  unfold syncLive
  refine Does.after (a := s.db.syncCursors.get (prefixInboxLive page.userId.str)) rfl ?_
  refine Does.after (a := s.listing (prefixInboxLive page.userId.str)
    (s.db.syncCursors.get (prefixInboxLive page.userId.str))) rfl ?_
  refine Does.after (fetchEnvelopes_runs s (liveKeys page.userId s)) ?_
  refine Does.bind (processEnvelopes_does page [] coherent (fetched_members readable)) fun t follows => ?_
  have done := Does.ret (a := LiveResult.mk (readAll page.toAccount
    (learnAll page [] (liveEnvelopes page.userId s) (sessionOf s)) [] (liveEnvelopes page.userId s))
    (liveKeys page.userId s).getLast? (prefixInboxLive page.userId.str)) follows.coherent
  rw [follows.sessions] at done
  exact done

/-- One archive of the archive pass. -/
def readArchive (page : Page) (objects : ObjectMap String Data) (ingested : List String)
    (acc : ArchiveResult × Sessions) (key : String) : ArchiveResult × Sessions :=
  if key ∈ ingested then acc
  else match objects.get key with
    | some (.cbor entries) =>
      let K := learnAll page acc.1.gathered.seen (Js.ofValues entries) acc.2
      (acc.1.add key (readAll page.toAccount K acc.1.gathered.seen (Js.ofValues entries)), K)
    | _ => acc

theorem fetchArchive_runs (s : State) (key : String) :
    (fetchArchive key).run.execute calm s =
      some (s.lookup key >>= decodeArchive, s) := by
  simp only [fetchArchive, Async.run_bind, run_await, execute_bind, execute_step, calm, perform,
    reading, Option.bind_some]
  cases s.lookup key <;> rfl

theorem readArchives_does (page : Page) (objects : ObjectMap String Data) (ingested : List String)
    (readable : Readable objects) {keys : List String} {acc : ArchiveResult} (coherent : Coherent s)
    (same : s.objects = objects) :
    Does (readArchives page ingested keys acc) s
      (.ok (keys.foldl (readArchive page objects ingested) (acc, sessionOf s)).1)
      (keys.foldl (readArchive page objects ingested) (acc, sessionOf s)).2 := by
  induction keys generalizing s acc with
  | nil => exact Does.ret coherent
  | cons key rest ih =>
    unfold readArchives
    rw [List.foldl_cons]
    split
    -- an archive that was ingested is not fetched
    next known =>
      rw [readArchive, if_pos known]
      exact ih coherent same
    next new =>
      have ran := attempt_runs (fetchArchive_runs s key)
      rw [readArchive, if_neg new]
      rw [State.lookup, same] at ran
      cases there : objects.get key with
      -- one that is gone by now is passed over
      | none =>
        rw [there] at ran
        exact Does.after ran (ih coherent same)
      | some d =>
        rw [there] at ran
        cases d with
        -- the entries are processed in the order of the archive
        | cbor entries =>
          have whole : ((Js.ofValues entries).map (Keyed.mk key)).map Keyed.envelope =
              Js.ofValues entries := by rw [List.map_map]; exact List.map_id _
          have members : ∀ e ∈ (Js.ofValues entries).map (Keyed.mk key), HasMembers e.envelope := by
            intro e member
            obtain ⟨e', inside, rfl⟩ := List.mem_map.mp member
            exact readable.archived key entries there e' inside
          have processed := processEnvelopes_does page acc.gathered.seen coherent members
          rw [whole] at processed
          refine Does.after ran (Does.bind processed fun t follows => ?_)
          have rest := @ih _ (acc.add key (readAll page.toAccount
            (learnAll page acc.gathered.seen (Js.ofValues entries) (sessionOf s)) acc.gathered.seen
            (Js.ofValues entries))) follows.coherent (follows.frame.objects.trans same)
          rw [follows.sessions] at rest
          exact rest
        -- what is no archive does not decode
        | _ => exact Does.after ran (ih coherent same)

/-- The archive pass. -/
def archivePass (page : Page) (s : State) (seen : List Js) (K : Sessions) : ArchiveResult × Sessions :=
  match listAll s (prefixInboxArchive page.userId.str) page.pages none with
  | some keys => keys.foldl (readArchive page s.objects s.db.ingestedArchives) ({ gathered := { seen } }, K)
  | none => ({ gathered := { seen } }, K)

theorem syncArchive_does (page : Page) (seen : List Js) (coherent : Coherent s)
    (readable : Readable s.objects) :
    Does (syncArchive page seen) s (.ok (archivePass page s seen (sessionOf s)).1)
      (archivePass page s seen (sessionOf s)).2 := by
  unfold syncArchive archivePass
  refine Does.after (a := s.db.ingestedArchives) rfl
    (Does.after (attempt_runs (storeListAll_runs s _ page.pages none)) ?_)
  cases listAll s (prefixInboxArchive page.userId.str) page.pages none with
  | none => exact Does.ret coherent
  | some keys => exact readArchives_does page s.objects s.db.ingestedArchives readable coherent rfl

/-! ### A whole sync -/

/-- The ids an archive is read against: those stored, and those of the live pass. -/
def seenAfter (page : Page) (s : State) : List Js :=
  ((livePass page s).1.messages.map DecryptedMessage.id).foldl (fun set x => addOnce x set)
    ((s.db.messagesOf page.userId.str).map StoredMessage.id)

def bothPasses (page : Page) (s : State) : ArchiveResult × Sessions :=
  archivePass page s (seenAfter page s) (livePass page s).2

/-- What one sync returns. -/
def syncResult (page : Page) (s : State) : SyncResult where
  messages := ((livePass page s).1.messages ++ (bothPasses page s).1.gathered.messages).insertionSort
    fun a b => notAfter a b = true
  ingestedCandidates := (bothPasses page s).1.ingestedCandidates

theorem archivePass_congr {s t : State} (objects : t.objects = s.objects)
    (ingested : t.db.ingestedArchives = s.db.ingestedArchives) (page : Page) (seen : List Js)
    (K : Sessions) : archivePass page t seen K = archivePass page s seen K := by
  simp only [archivePass, listAll_congr objects, objects, ingested]

/-- A fetch returns `syncResult`, moves the cursor, and leaves the sessions of both passes. -/
theorem fetchMessages_runs (page : Page) (coherent : Coherent s) (readable : Readable s.objects) :
    ∃ u, (fetchMessages page).run.execute calm s = some (.ok (syncResult page s), u) ∧
      Follows (bothPasses page s).2 (s.advance page.userId (liveKeys page.userId s).getLast?) u := by
  obtain ⟨t, live, first⟩ := syncLive_does page coherent readable
  have ids : (await (step (.loadMessageIds page.userId.str))).run.execute calm t =
      some (.ok ((s.db.messagesOf page.userId.str).map StoredMessage.id), t) := by
    simp only [run_await, execute_step, calm, perform, reading, Database.messagesOf, first.frame.messages]
  have archives := syncArchive_does page (seenAfter page s) first.coherent
    (first.frame.objects ▸ readable)
  rw [first.sessions, archivePass_congr first.frame.objects first.frame.ingestedArchives] at archives
  obtain ⟨u, archived, second⟩ := archives
  obtain ⟨v, persisted, third⟩ := persistInbounds_does
    ((bothPasses page s).1.gathered.advancedInbounds.foldl (fun set x => insertOnce x set)
      (livePass page s).1.advancedInbounds) second.coherent
  have all : Follows (bothPasses page s).2 s v := by
    refine ⟨(first.frame.trans second.frame).trans third.frame, third.coherent, ?_⟩
    rw [third.sessions, second.sessions]
    rfl
  have moved := all.advance page.userId (liveKeys page.userId s).getLast?
  obtain ⟨w, flushed, last⟩ := triggerFlush_does page moved.coherent
  refine ⟨w, ?_, moved.frame.trans last.frame, last.coherent, last.sessions.trans moved.sessions⟩
  rw [fetchMessages, run_then live, run_then ids]
  refine (run_then archived).trans ((run_then persisted).trans ?_)
  exact (run_then (advanceCursor_runs page v _ _)).trans ((run_then flushed).trans rfl)

theorem bothPasses_joined (page : Page) : bothPasses page s.joined = bothPasses page s := by
  have seen : seenAfter page s.joined = seenAfter page s := rfl
  rw [bothPasses, bothPasses, seen, livePass_joined]
  exact @archivePass_congr _ s s.joined rfl rfl page _ _

/-- A sync that finds no other in flight. -/
theorem syncMessages_runs (page : Page) (idle : s.memory.syncInFlight = none) (coherent : Coherent s)
    (readable : Readable s.objects) :
    ∃ u, (syncMessages page).run.execute calm s = some (.ok (syncResult page s), u) ∧
      Follows (bothPasses page s).2
        ((s.settled (syncResult page s)).advance page.userId (liveKeys page.userId s).getLast?) u := by
  -- no sync is in flight, so this call starts one
  have joins : (sync (step .joinSync)).run.execute calm s =
      some (.ok (.first s.memory.syncs.length), s.joined) := by
    simp only [run_sync, step_bind, execute_op, calm, perform, idle, Option.bind_some, execute_ret]
    rfl
  obtain ⟨t, fetches, frame, kept, sessions⟩ := fetchMessages_runs page coherent.joined readable
  have same : syncResult page s.joined = syncResult page s := by
    simp only [syncResult, livePass_joined, bothPasses_joined]
  rw [same] at fetches
  rw [bothPasses_joined] at sessions
  have keys : liveKeys page.userId s.joined = liveKeys page.userId s := rfl
  rw [keys] at frame
  refine ⟨{ t with memory := { t.memory with
    syncs := t.memory.syncs.set s.memory.syncs.length (some (.ok (syncResult page s)))
    syncInFlight := none } }, ?_, ?_, ⟨kept.stored, kept.cached⟩, sessions⟩
  · rw [syncMessages, run_then joins]
    exact (run_then (attempt_runs fetches)).trans rfl
  · -- at its end it has settled and nothing is in flight
    have settled : (s.memory.syncs ++ [none]).set s.memory.syncs.length
        (some (.ok (syncResult page s))) = s.memory.syncs ++ [some (.ok (syncResult page s))] := by
      rw [List.set_append_right _ _ (Nat.le_refl _), Nat.sub_self]
      rfl
    cases last : (liveKeys page.userId s).getLast? with
    -- no live key: the cursor stays
    | none =>
      rw [last] at frame
      exact ⟨frame.objects, frame.archived, frame.accepted, frame.messages, frame.conversations,
        frame.syncCursors, frame.ingestedArchives, (congrArg (fun syncs => syncs.set
          s.memory.syncs.length (some (.ok (syncResult page s)))) frame.syncs).trans settled, rfl,
        frame.epoch, frame.compactions⟩
    -- else it goes to the last of them
    | some lastKey =>
      rw [last] at frame
      exact ⟨frame.objects, frame.archived, frame.accepted, frame.messages, frame.conversations,
        frame.syncCursors, frame.ingestedArchives, (congrArg (fun syncs => syncs.set
          s.memory.syncs.length (some (.ok (syncResult page s)))) frame.syncs).trans settled, rfl,
        frame.epoch, frame.compactions⟩

/-- A call of `syncAndPublish` alone: a sync, and then what it saves. -/
theorem syncAndPublish_runs (page : Page) (idle : s.memory.syncInFlight = none) (coherent : Coherent s)
    (readable : Readable s.objects) :
    ∃ u r t, (syncAndPublish page).run.execute calm s = some (r, t) ∧
      (publish page (syncResult page s)).run.execute calm u = some (r, t) ∧ Saves u t ∧
      Follows (bothPasses page s).2
        ((s.settled (syncResult page s)).advance page.userId (liveKeys page.userId s).getLast?) u := by
  obtain ⟨u, synced, follows⟩ := syncMessages_runs page idle coherent readable
  obtain ⟨r, t, published, saves⟩ := saving_runs (publish_saves page (syncResult page s)) u
  refine ⟨u, r, t, ?_, published, saves, follows⟩
  rw [syncAndPublish, run_then (attempt_runs synced)]
  exact published

end Sessions

end Atmin.Web
