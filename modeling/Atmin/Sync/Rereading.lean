import Atmin.Sync.Saving

/-!
# Envelopes that have been read

Reading an envelope a second time adds nothing, once its session is known and its message, if
it could be opened, is stored. That is so of every entry of an archive that a sync recorded as
ingested.
-/

namespace Atmin.Web

open Interaction

variable {page : Page} {K K' : Sessions} {seen seen' : List Js} {e : Js}

/-! ### What reading depends on -/

/-- Each session is known under its own id. -/
def Proper (K : Sessions) : Prop := ∀ id k, K id = some k → k.sessionId = id

theorem Coherent.proper {s : State} (coherent : Coherent s) : Proper (sessionOf s) := by
  intro id k known
  obtain ⟨stored, found, rfl⟩ := Option.map_eq_some_iff.mp known
  rcases Option.or_eq_some_iff.mp found with cached | ⟨_, inside⟩
  · exact coherent.cached id stored cached
  · exact coherent.stored id stored inside

theorem learn_proper (proper : Proper K) (k : Inbound) : Proper (learn K k) := by
  intro id k' known
  unfold learn at known
  split at known
  next => exact proper id k' known
  next =>
    rw [Function.update_apply] at known
    split at known
    next same => cases known; exact same.symm
    next => exact proper id k' known

theorem learnAll_proper (page : Page) (proper : Proper K) (seen : List Js) (es : List Js) :
    Proper (learnAll page seen es K) := by
  induction es generalizing K with
  | nil => exact proper
  | cons e rest ih =>
    refine ih ?_
    unfold learnFrom
    split
    next =>
      split
      next k _ => exact learn_proper proper k
      next => exact proper
    next => exact proper

/-- Only the session the envelope names matters. -/
theorem effectOf_congr {account : Account} (same : ∀ payload name, e.member "payload" = .ok payload →
    payload.member "session_id" = .ok (.str name) → K name = K' name) :
    effectOf account K e = effectOf account K' e := by
  unfold effectOf
  cases inside : e.member "payload" with
  | error _ => rfl
  | ok payload =>
    dsimp only
    cases session : payload.member "session_id" with
    | error _ => rfl
    | ok sessionId =>
      cases sessionId with
      | str name => simp only [got, same payload name inside session]
      | _ => rfl

/-- Unless the session is missing, more sessions change nothing. -/
theorem effectOf_extends {account : Account} (more : Extends K K')
    (known : effectOf account K e ≠ .skip) : effectOf account K' e = effectOf account K e := by
  refine (effectOf_congr fun payload name inside session => ?_).symm
  cases found : K name with
  | some k => exact (more name k found).symm
  | none =>
    refine absurd ?_ known
    simp only [effectOf, inside, session, got, found]

theorem got_some {sessionId : Js} {k : Inbound} (found : got K sessionId = .ok (some k)) :
    ∃ name, sessionId = .str name ∧ K name = some k := by
  unfold got at found
  split at found
  next name => exact ⟨name, rfl, Except.ok.inj found⟩
  next => split at found <;> cases found

/-- A message that is gathered is what its envelope becomes. -/
theorem effectOf_push {account : Account} (proper : Proper K) {id : Js} {sessionId : String}
    {m : DecryptedMessage} (message : IsMessage e id)
    (pushed : effectOf account K e = .push sessionId m) : Materializes account e m := by
  unfold effectOf at pushed
  split at pushed
  next payload inside =>
    split at pushed
    next sessionId session =>
      split at pushed
      next k found =>
        obtain ⟨name, rfl, known⟩ := got_some found
        unfold effectUnder at pushed
        split at pushed
        next text opened =>
          split at pushed
          next m' made =>
            cases pushed
            obtain ⟨ciphertext, sealed_, decrypted⟩ := decryptPayload_iff.mp opened
            refine ⟨⟨message.1, (decryptedMessage_ok made).1⟩, k, text,
              ⟨payload, ciphertext, inside, ?_, sealed_, decrypted⟩, made⟩
            -- the session found is the one that the payload names
            rw [proper name k known]
            exact session
          next => cases pushed
        next => cases pushed
      next => cases pushed
      next => cases pushed
    next => cases pushed
  next => cases pushed

/-! ### Envelopes that are done with -/

/-- Everything that was seen is seen. -/
def Sees (seen seen' : List Js) : Prop := ∀ x : Js, x.isIn seen = true → x.isIn seen' = true

theorem Sees.isUnread (sees : Sees seen seen') (unread : isUnread seen' e = true) :
    isUnread seen e = true := by
  obtain ⟨id, message, unseen⟩ := isUnread_iff.mp unread
  refine isUnread_iff.mpr ⟨id, message, ?_⟩
  cases old : id.isIn seen with
  | false => rfl
  | true => rw [sees id old] at unseen; cases unseen

theorem Sees.isShare (sees : Sees seen seen') (share : isShare seen' e = true) :
    isShare seen e = true := by
  obtain ⟨type_, id, named, unseen⟩ := isShare_iff.mp share
  refine isShare_iff.mpr ⟨type_, id, named, ?_⟩
  cases old : id.isIn seen with
  | false => rfl
  | true => rw [sees id old] at unseen; cases unseen

/-- Reading the envelope adds neither a session nor a message, and leaves nothing to retry. -/
structure Done (page : Page) (e : Js) (K : Sessions) (seen : List Js) : Prop where
  share : isShare seen e = true → ∀ k, shareOf page e = some k → ∃ k', K k.sessionId = some k'
  message : isUnread seen e = true → effectOf page.toAccount K e = .none ∨
    ∃ sessionId, effectOf page.toAccount K e = .advance sessionId

theorem Done.later (done : Done page e K seen) (more : Extends K K') (sees : Sees seen seen') :
    Done page e K' seen' where
  share := fun share k opened => by
    obtain ⟨k', known⟩ := done.share (sees.isShare share) k opened
    exact ⟨k', more _ _ known⟩
  message := fun unread => by
    have old := done.message (sees.isUnread unread)
    have known : effectOf page.toAccount K e ≠ .skip := by
      rcases old with nothing | ⟨_, advanced⟩
      · rw [nothing]; nofun
      · rw [advanced]; nofun
    rwa [effectOf_extends more known]

theorem learnAll_done {es : List Js} (done : ∀ e ∈ es, Done page e K seen) :
    learnAll page seen es K = K := by
  induction es with
  | nil => rfl
  | cons e rest ih =>
    have first : learnFrom page seen K e = K := by
      unfold learnFrom
      split
      next share =>
        split
        next k opened => exact learn_known ((done e List.mem_cons_self).share share k opened)
        next => rfl
      next => rfl
    rw [learnAll, List.foldl_cons, first]
    exact ih fun e member => done e (List.mem_cons_of_mem _ member)

/-- Nothing but advanced sessions differs. -/
structure Idles (acc acc' : Gathered) : Prop where
  messages : acc'.messages = acc.messages
  skips : acc'.recoverableSkips = acc.recoverableSkips
  seen : acc'.seen = acc.seen

theorem readAll_done {es : List Js} (acc : Gathered) (done : ∀ e ∈ es, Done page e K acc.seen) :
    Idles acc (es.foldl (readOne page.toAccount K) acc) := by
  induction es generalizing acc with
  | nil => exact ⟨rfl, rfl, rfl⟩
  | cons e rest ih =>
    have first : Idles acc (readOne page.toAccount K acc e) := by
      rw [readOne_eq]
      split
      next unread =>
        rcases (done e List.mem_cons_self).message unread with nothing | ⟨_, advanced⟩
        · rw [nothing]; exact ⟨rfl, rfl, rfl⟩
        · rw [advanced]; exact ⟨rfl, rfl, rfl⟩
      next => exact ⟨rfl, rfl, rfl⟩
    have rest := @ih (readOne page.toAccount K acc e) fun e member => by
      rw [first.seen]
      exact done e (List.mem_cons_of_mem _ member)
    exact ⟨rest.messages.trans first.messages, rest.skips.trans first.skips, rest.seen.trans first.seen⟩

/-! ### What has been read is done with -/

theorem isIn_addOnce_iff {x y : Js} {set : List Js} :
    x.isIn (addOnce y set) = true ↔ x.isIn set = true ∨ x.same y = true := by
  unfold addOnce
  split
  next known =>
    refine ⟨.inl, fun either => either.elim id fun same => ?_⟩
    rw [Js.eq_of_same same]
    exact known
  next => simp [Js.isIn]

theorem sees_addOnce (y : Js) (set : List Js) : Sees set (addOnce y set) :=
  fun _ known => isIn_addOnce_iff.mpr (.inl known)

theorem readOne_sees (account : Account) (K : Sessions) (acc : Gathered) (e : Js) :
    Sees acc.seen (readOne account K acc e).seen := by
  rw [readOne_eq]
  split
  · cases effectOf account K e with
    | push sessionId m => exact sees_addOnce m.id acc.seen
    | _ => exact fun _ known => known
  · exact fun _ known => known

theorem readAll_sees (account : Account) (K : Sessions) (es : List Js) (acc : Gathered) :
    Sees acc.seen (es.foldl (readOne account K) acc).seen := by
  induction es generalizing acc with
  | nil => exact fun _ known => known
  | cons e rest ih => exact fun x known => ih _ x (readOne_sees account K acc e x known)

theorem readAll_skips (account : Account) (K : Sessions) (es : List Js) (acc : Gathered) :
    acc.recoverableSkips ≤ (es.foldl (readOne account K) acc).recoverableSkips := by
  induction es generalizing acc with
  | nil => exact Nat.le_refl _
  | cons e rest ih =>
    refine le_trans ?_ (ih (readOne account K acc e))
    rw [readOne_eq]
    split
    · cases effectOf account K e with
      | skip => exact Nat.le_succ _
      | _ => exact Nat.le_refl _
    · exact Nat.le_refl _

/-- After the key shares among some envelopes, each session they carry is known. -/
theorem learnAll_knows {es : List Js} (member : e ∈ es) (share : isShare seen e = true) {k : Inbound}
    (opened : shareOf page e = some k) : ∃ k', learnAll page seen es K k.sessionId = some k' := by
  induction es generalizing K with
  | nil => cases member
  | cons first rest ih =>
    rcases List.mem_cons.mp member with rfl | later
    · have known : ∃ k', learnFrom page seen K e k.sessionId = some k' := by
        rw [learnFrom, if_pos share, opened]
        dsimp only
        unfold learn
        split
        next known => exact Option.isSome_iff_exists.mp known
        next => exact ⟨k, Function.update_self _ _ _⟩
      obtain ⟨k', known⟩ := known
      exact ⟨k', learnAll_extends page seen rest _ _ _ known⟩
    · exact ih later

/-- An id as the server accepts it: a string, or missing. -/
def Plain (id : Js) : Prop := id = .undefined ∨ ∃ name, id = .str name

theorem Plain.same {id : Js} (plain : Plain id) : id.same id = true := by
  rcases plain with rfl | ⟨name, rfl⟩
  · rfl
  · simp

theorem Plain.key {id : Js} (plain : Plain id) {key : Key} (named : id.key = some key) :
    ∃ name, id = .str name ∧ key = [.str name] := by
  rcases plain with rfl | ⟨name, rfl⟩
  · simp [Js.key] at named
  · exact ⟨name, rfl, by simpa using named.symm⟩

/-- Every message among the envelopes has such an id. -/
def PlainIds (es : List Js) : Prop := ∀ e ∈ es, ∀ id, IsMessage e id → Plain id

/-- What was read without a skip adds nothing any more. -/
theorem readAll_reads {es : List Js} {acc : Gathered} (proper : Proper K) (ids : PlainIds es)
    (skips : (es.foldl (readOne page.toAccount K) acc).recoverableSkips = acc.recoverableSkips) :
    ∀ e ∈ es, isUnread (es.foldl (readOne page.toAccount K) acc).seen e = true →
      effectOf page.toAccount K e = .none ∨
        ∃ sessionId, effectOf page.toAccount K e = .advance sessionId := by
  induction es generalizing acc with
  | nil => exact fun e member => nomatch member
  | cons first rest ih =>
    rw [List.foldl_cons] at skips ⊢
    have before := readAll_skips page.toAccount K [first] acc
    have after := readAll_skips page.toAccount K rest (readOne page.toAccount K acc first)
    simp only [List.foldl_cons, List.foldl_nil] at before
    intro e member unread
    rcases List.mem_cons.mp member with rfl | later
    · have sees := readAll_sees page.toAccount K rest (readOne page.toAccount K acc e)
      have here := sees.isUnread unread
      have early := Sees.isUnread (readOne_sees page.toAccount K acc e) here
      rw [readOne_eq, if_pos early] at here before skips
      obtain ⟨id, message, unseen⟩ := isUnread_iff.mp here
      cases effect : effectOf page.toAccount K e with
      | none => exact .inl rfl
      | advance sessionId => exact .inr ⟨sessionId, rfl⟩
      -- a skip would have been counted
      | skip =>
        rw [effect] at skips before
        have more := readAll_skips page.toAccount K rest (Effect.skip.apply acc)
        simp only [Effect.apply, Gathered.skip] at skips more
        omega
      -- and a message that was pushed would have been seen
      | push sessionId m =>
        rw [effect] at unseen
        have named := (effectOf_push proper message effect).1.2
        have made : m.id = id := Except.ok.inj (named.symm.trans message.2)
        have found : id.isIn (addOnce m.id acc.seen) = true :=
          isIn_addOnce_iff.mpr (.inr (by rw [made]; exact (ids e List.mem_cons_self id message).same))
        simp only [Effect.apply, Gathered.push, Gathered.advance, found] at unseen
        cases unseen
    · exact ih (fun e member => ids e (List.mem_cons_of_mem _ member)) (by omega) e later unread

/-! ### Archives that were read without a skip -/

section Archives

variable {objects : ObjectMap String Data} {ingested : List String}

variable [CborDecoder]

/-- The ids of all archived messages are plain. -/
def PlainArchives (objects : ObjectMap String Data) : Prop :=
  ∀ key entries, objects.get key = some (.cbor entries) → PlainIds (Js.ofValues entries)

/-- Every entry of the archive is done with. -/
def DoneWith (page : Page) (objects : ObjectMap String Data) (K : Sessions) (seen : List Js)
    (key : String) : Prop :=
  ∀ entries, objects.get key = some (.cbor entries) → ∀ e ∈ Js.ofValues entries, Done page e K seen

theorem DoneWith.later {key : String} (done : DoneWith page objects K seen key) (more : Extends K K')
    (sees : Sees seen seen') : DoneWith page objects K' seen' key :=
  fun entries found e member => (done entries found e member).later more sees

theorem readArchive_sees (acc : ArchiveResult × Sessions) (key : String) :
    Sees acc.1.gathered.seen (readArchive page objects ingested acc key).1.gathered.seen := by
  unfold readArchive
  split
  · exact fun _ known => known
  · split
    · exact readAll_sees page.toAccount (learnAll page acc.1.gathered.seen _ acc.2) _
        { seen := acc.1.gathered.seen }
    · exact fun _ known => known

theorem readArchive_proper {acc : ArchiveResult × Sessions} (proper : Proper acc.2) (key : String) :
    Proper (readArchive page objects ingested acc key).2 := by
  unfold readArchive
  split
  · exact proper
  · split
    · exact learnAll_proper page proper _ _
    · exact proper

/-- An archive that becomes a candidate is done with. -/
theorem readArchive_candidates {acc : ArchiveResult × Sessions} {key : String}
    (proper : Proper acc.2) (plain : PlainArchives objects) {candidate : String}
    (member : candidate ∈ (readArchive page objects ingested acc key).1.ingestedCandidates) :
    candidate ∈ acc.1.ingestedCandidates ∨ candidate = key ∧
      DoneWith page objects (readArchive page objects ingested acc key).2
        (readArchive page objects ingested acc key).1.gathered.seen key := by
  unfold readArchive at member ⊢
  split at member
  next => exact .inl member
  next new =>
    rw [if_neg new]
    split at member
    next entries found =>
      dsimp only [ArchiveResult.add] at member ⊢
      split at member
      -- the archive is a candidate only if reading it skipped nothing
      next whole =>
        rcases List.mem_append.mp member with old | last
        · exact .inl old
        · refine .inr ⟨List.mem_singleton.mp last, fun entries' found' e inside => ?_⟩
          rw [found] at found'
          cases found'
          have proper' := learnAll_proper page proper acc.1.gathered.seen (Js.ofValues entries)
          refine ⟨fun share k opened => ?_, fun unread => ?_⟩
          · exact learnAll_knows inside ((readAll_sees page.toAccount _ _ _).isShare share) opened
          · exact readAll_reads proper' (plain key entries found) whole e inside unread
      next => exact .inl member
    next => exact .inl member

theorem readArchives_candidates {keys : List String} {acc : ArchiveResult × Sessions}
    (proper : Proper acc.2) (plain : PlainArchives objects)
    (start : ∀ key ∈ acc.1.ingestedCandidates, DoneWith page objects acc.2 acc.1.gathered.seen key) :
    ∀ key ∈ (keys.foldl (readArchive page objects ingested) acc).1.ingestedCandidates,
      DoneWith page objects (keys.foldl (readArchive page objects ingested) acc).2
        (keys.foldl (readArchive page objects ingested) acc).1.gathered.seen key := by
  induction keys generalizing acc with
  | nil => exact start
  | cons key rest ih =>
    refine ih (readArchive_proper proper key) fun candidate member => ?_
    rcases readArchive_candidates proper plain member with old | ⟨rfl, done⟩
    · exact (start candidate old).later (readArchive_extends acc key) (readArchive_sees acc key)
    · exact done

end Archives

end Atmin.Web
