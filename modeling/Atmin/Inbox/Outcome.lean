import Atmin.Server.Alone
import Atmin.Server.Inbox

/-!
# A compaction alone

What a compaction lists, reads, writes and deletes when it runs alone on a healthy store:
its outcome as a function of the objects it finds.
-/

namespace Atmin

open Interaction

section Plan

variable {α : Type}

abbrev Store := ObjectMap String Data

/-- The live keys a compaction takes. -/
def liveUpTo (store : Store) (pre upTo : String) : List String :=
  (store.keysAfter (startsWith · pre) none).filter fun k => decide (k ≤ pre ++ upTo)

/-- The archives of a day that a compaction replaces. -/
def dayArchives (store : Store) (pre day : String) : List String :=
  store.keysAfter (startsWith · (archiveBase pre ++ day)) none

/-- What the object under a key holds. -/
def entriesAt (dec : Data → Option (List α)) (store : Store) (key : String) : List α :=
  ((store.get key).bind dec).getD []

def liveEntry (d : Data) : Option (List Value) := d.asValue.map fun v => [v]

/-- Every key has an object, and it decodes. -/
def Readable (dec : Data → Option (List α)) (store : Store) (keys : List String) : Prop :=
  ∀ k ∈ keys, ∃ es, (store.get k).bind dec = some es

/-- The entries of the archives, then those of the live objects. -/
def collected (store : Store) (live archives : List String) : List Value :=
  archives.flatMap (entriesAt Cbor.decodeArchive store) ++ live.flatMap (entriesAt liveEntry store)

/-- The key of the archive that a compaction writes. -/
def newArchive (env : Env) (pre : String) (m : Moment) : String :=
  archiveBase pre ++ env.formatDay m.now ++ "-" ++ m.id

/-- How a compaction ends, on the live keys and archives it finds. -/
inductive Compacted {ι : Type} (limit : Option Nat) (key : String) (live archives : List String)
    (store : Store) : Except ApiError CompactResponse → Sys ι → Prop
  | nothing {t : Sys ι} : live = [] → t.objects = store →
      Compacted limit key live archives store (.ok ⟨0, ""⟩) t
  | unreadable {e : ApiError} {t : Sys ι} : live ≠ [] →
      ¬ (Readable liveEntry store live ∧ Readable Cbor.decodeArchive store archives) →
      t.objects = store → Compacted limit key live archives store (.error e) t
  | refused {e : ApiError} {t : Sys ι} : live ≠ [] → Readable liveEntry store live →
      Readable Cbor.decodeArchive store archives →
      ¬ (∀ n ∈ limit, (live ++ archives).length ≤ n) →
      t.objects = store.insert key (.cbor (Cbor.deduplicateByMsgId (collected store live archives))) →
      Compacted limit key live archives store (.error e) t
  | done {t : Sys ι} : live ≠ [] → Readable liveEntry store live →
      Readable Cbor.decodeArchive store archives →
      (∀ n ∈ limit, (live ++ archives).length ≤ n) →
      t.objects = (store.insert key (.cbor (Cbor.deduplicateByMsgId
        (collected store live archives)))).eraseAll (live ++ archives) →
      Compacted limit key live archives store
        (.ok ⟨(live.flatMap (entriesAt liveEntry store)).length, key⟩) t

end Plan

section Listing

variable {ι : Type} {limit : Option Nat} {m : Moment} {i : ι} {s : Sys ι}

theorem page_short {pre : String} {cursor : Option String}
    (short : (s.objects.keysAfter (startsWith · pre) cursor).length ≤ 100) :
    s.listing pre 100 cursor = ⟨s.objects.keysAfter (startsWith · pre) cursor, none⟩ := by
  simp only [Sys.listing, ObjectMap.page, if_pos short]

/-- A full page, and what follows its last key. -/
theorem page_full {pre : String} {cursor : Option String}
    (long : ¬ (s.objects.keysAfter (startsWith · pre) cursor).length ≤ 100) :
    ∃ last, s.listing pre 100 cursor =
        ⟨(s.objects.keysAfter (startsWith · pre) cursor).take 100, some last⟩ ∧
      ((s.objects.keysAfter (startsWith · pre) cursor).take 100).getLast? = some last ∧
      s.objects.keysAfter (startsWith · pre) (some last) =
        (s.objects.keysAfter (startsWith · pre) cursor).drop 100 := by
  have some_ : (s.objects.keysAfter (startsWith · pre) cursor).take 100 ≠ [] := by
    intro none_
    have size := congrArg List.length none_
    rw [List.length_take, List.length_nil] at size
    omega
  have ends := List.getLast?_eq_some_getLast some_
  refine ⟨_, ?_, ends, ObjectMap.keysAfter_last ends⟩
  simp only [Sys.listing, ObjectMap.page, if_neg long]
  rw [← ends]

theorem collectAll_alone {pre : String} (pages : Nat) (cursor : Option String)
    (enough : (s.objects.keysAfter (startsWith · pre) cursor).length < 100 * pages) :
    Interaction.Ends (Alone limit m i) (collectAll pre pages cursor).run s fun r t =>
      t = s ∧ r = .ok (s.objects.keysAfter (startsWith · pre) cursor) := by
  induction pages generalizing cursor with
  | zero => exact absurd enough (Nat.not_lt_zero _)
  | succ pages ih =>
    simp only [collectAll, run_bind, run_tryStore, ask_bind, Prog.op_bind]
    refine .op fun r s served => ?_
    obtain ⟨rfl, rfl⟩ := alone_listObjects served
    by_cases short : (s.objects.keysAfter (startsWith · pre) cursor).length ≤ 100
    · rw [page_short short]
      exact .ret ⟨rfl, rfl⟩
    · obtain ⟨last, page, _, rest⟩ := page_full short
      have enough' : (s.objects.keysAfter (startsWith · pre) (some last)).length < 100 * pages := by
        rw [rest, List.length_drop]
        omega
      rw [page]
      refine Ends.andThen (ih (some last) enough') (fun _ _ wrong => nomatch wrong.2)
        fun more v ⟨same, listed⟩ => .ret ⟨same, ?_⟩
      cases listed
      rw [rest, List.take_append_drop]

/-- The scan may stop at a page that ends past the boundary: the listing is sorted. -/
theorem collectLive_alone {pre boundary : String} (pages : Nat) (cursor : Option String)
    (enough : (s.objects.keysAfter (startsWith · pre) cursor).length < 100 * pages) :
    Interaction.Ends (Alone limit m i) (collectLive pre boundary pages cursor).run s fun r t =>
      t = s ∧ r = .ok ((s.objects.keysAfter (startsWith · pre) cursor).filter
        fun k => decide (k ≤ boundary)) := by
  induction pages generalizing cursor with
  | zero => exact absurd enough (Nat.not_lt_zero _)
  | succ pages ih =>
    simp only [collectLive, run_bind, run_tryStore, ask_bind, Prog.op_bind]
    refine .op fun r s served => ?_
    obtain ⟨rfl, rfl⟩ := alone_listObjects served
    by_cases short : (s.objects.keysAfter (startsWith · pre) cursor).length ≤ 100
    · rw [page_short short]
      exact .ret ⟨rfl, rfl⟩
    · obtain ⟨last, page, ends, rest⟩ := page_full short
      have enough' : (s.objects.keysAfter (startsWith · pre) (some last)).length < 100 * pages := by
        rw [rest, List.length_drop]
        omega
      have whole := List.take_append_drop 100 (s.objects.keysAfter (startsWith · pre) cursor)
      rw [page]
      simp only [Prog.ret_bind, ends]
      split
      next past =>
        have beyond : boundary < last := of_decide_eq_true past
        have none_ : ((s.objects.keysAfter (startsWith · pre) cursor).drop 100).filter
            (fun k => decide (k ≤ boundary)) = [] := by
          rw [List.filter_eq_nil_iff, ← rest]
          intro k listed
          have after := ((ObjectMap.mem_keysAfter _ _ _ k).mp listed).2.2 last rfl
          simpa using beyond.trans after
        refine .ret ⟨rfl, ?_⟩
        conv_rhs => rw [← whole, List.filter_append, none_, List.append_nil]
      next =>
        refine Ends.andThen (ih (some last) enough') (fun _ _ wrong => nomatch wrong.2)
          fun more v ⟨same, listed⟩ => .ret ⟨same, ?_⟩
        cases listed
        rw [rest, ← List.filter_append, whole]

theorem readObjects_alone {α : Type} {e : ApiError} {dec : Data → Option (List α)} (keys : List String)
    (stored : ∀ k ∈ keys, ∃ d, s.objects.get k = some d) :
    Interaction.Ends (Alone limit m i) (readObjects e dec keys).run s fun r t => t = s ∧
      (Readable dec s.objects keys → r = .ok (keys.flatMap (entriesAt dec s.objects))) ∧
      (¬ Readable dec s.objects keys → r = .error e) := by
  induction keys with
  | nil => exact .ret ⟨rfl, fun _ => rfl, fun wrong => absurd (fun _ member => nomatch member) wrong⟩
  | cons key rest ih =>
    obtain ⟨d, here⟩ := stored key List.mem_cons_self
    simp only [readObjects]
    refine Ends.call fun found s served => ?_
    obtain ⟨rfl, rfl⟩ := alone_getObject served
    rw [lookup_eq_ok.mpr here]
    have decoded : (s.objects.get key).bind dec = dec d := by rw [here, Option.bind_some]
    refine Ends.orFail (fun failed => ⟨rfl, fun readable => ?_, fun _ => rfl⟩) fun es read => ?_
    · obtain ⟨es, some_⟩ := readable key List.mem_cons_self
      rw [decoded, failed] at some_
      cases some_
    · have first : entriesAt dec s.objects key = es := by rw [entriesAt, decoded, read]; rfl
      refine Ends.andThen (ih fun k member => stored k (List.mem_cons_of_mem _ member))
        (fun _ _ ⟨same, readable, unreadable⟩ => ⟨same, fun all => ?_, fun some_ => ?_⟩)
        fun more v ⟨same, readable, unreadable⟩ => .ret ⟨same, fun all => ?_, fun some_ => ?_⟩
      · exact nomatch readable fun k member => all k (List.mem_cons_of_mem _ member)
      · refine unreadable fun all => some_ fun k member => ?_
        rcases List.mem_cons.mp member with rfl | later
        · exact ⟨es, decoded.trans read⟩
        · exact all k later
      · cases readable fun k member => all k (List.mem_cons_of_mem _ member)
        rw [List.flatMap_cons, first]
      · refine nomatch unreadable fun all => some_ fun k member => ?_
        rcases List.mem_cons.mp member with rfl | later
        · exact ⟨es, decoded.trans read⟩
        · exact all k later

theorem listed_stored {p : String → Bool} {k : String} (listed : k ∈ s.objects.keysAfter p none) :
    ∃ d, s.objects.get k = some d := ((ObjectMap.mem_keysAfter _ _ _ k).mp listed).1

theorem archiveAndDelete_alone (base today : String) (merged : List Value) (toDelete : List String) :
    Interaction.Ends (Alone limit m i) (archiveAndDelete base today merged toDelete).run s fun r t =>
      ((∀ n ∈ limit, toDelete.length ≤ n) ∧ r = .ok (base ++ today ++ "-" ++ m.id) ∧
        t.objects = (s.objects.insert (base ++ today ++ "-" ++ m.id) (.cbor merged)).eraseAll toDelete) ∨
      (¬ (∀ n ∈ limit, toDelete.length ≤ n) ∧ (∃ e, r = .error e) ∧
        t.objects = s.objects.insert (base ++ today ++ "-" ++ m.id) (.cbor merged)) := by
  unfold archiveAndDelete
  refine Ends.call fun id u drawn => ?_
  obtain ⟨rfl, rfl⟩ := alone_newUlid drawn
  simp only [run_bind, run_tryStore, ask_bind, Prog.op_bind]
  refine .op fun r v put => ?_
  obtain ⟨rfl, rfl⟩ := alone_putObject put
  refine .op fun r w deleted => ?_
  rcases alone_deleteObjects deleted with ⟨accepted, rfl, rfl⟩ | ⟨refused, rfl, rfl⟩
  · exact .ret (.inl ⟨accepted, rfl, rfl⟩)
  · exact .ret (.inr ⟨refused, ⟨_, rfl⟩, rfl⟩)

theorem compactKeys_alone {env : Env} {pages : Nat} {pre : String} {live : List String}
    (enough : (dayArchives s.objects pre (env.formatDay m.now)).length < 100 * pages)
    (some_ : live ≠ []) (stored : ∀ k ∈ live, ∃ d, s.objects.get k = some d) :
    Interaction.Ends (Alone limit m i) (compactKeys env pages pre live).run s
      (Compacted limit (newArchive env pre m) live (dayArchives s.objects pre (env.formatDay m.now))
        s.objects) := by
  unfold compactKeys
  -- the live envelopes are read first; one that does not decode ends the run
  refine Ends.andThen (readObjects_alone live stored) (fun e t ⟨same, readable, _⟩ =>
    .unreadable some_ (fun all => nomatch readable all.1) (by rw [same]))
    fun new t ⟨same, read, unreadable⟩ => ?_
  subst same
  have readable : Readable liveEntry t.objects live := by
    by_contra wrong
    cases unreadable wrong
  have new_eq : new = live.flatMap (entriesAt liveEntry t.objects) := by
    cases read readable
    rfl
  refine Ends.call fun now u clock => ?_
  obtain ⟨rfl, rfl⟩ := alone_utcNow clock
  refine Ends.andThen (collectAll_alone pages none enough) (fun _ _ wrong => nomatch wrong.2)
    fun archives v ⟨same, listed⟩ => ?_
  subst same
  cases listed
  -- then the archives of the day
  refine Ends.andThen (readObjects_alone _ fun k => listed_stored) (fun e w ⟨same, readable', _⟩ =>
    .unreadable some_ (fun all => nomatch readable' all.2) (by rw [same]))
    fun existing w ⟨same, read', unreadable'⟩ => ?_
  subst same
  have readable' : Readable Cbor.decodeArchive t.objects
      (dayArchives t.objects pre (env.formatDay m.now)) := by
    by_contra wrong
    cases unreadable' wrong
  have existing_eq : existing = (dayArchives t.objects pre (env.formatDay m.now)).flatMap
      (entriesAt Cbor.decodeArchive t.objects) := by
    cases read' readable'
    rfl
  rw [new_eq, existing_eq]
  -- then one archive is written, and what went into it is deleted
  refine Ends.andThen (archiveAndDelete_alone _ _ _ _) (fun e x after => ?_) fun key x after => ?_
  · rcases after with ⟨_, wrong, _⟩ | ⟨refused, _, written⟩
    · cases wrong
    · exact .refused some_ readable readable' refused written
  · rcases after with ⟨accepted, same, gone⟩ | ⟨_, ⟨_, wrong⟩, _⟩
    · cases same
      exact .ret (.done some_ readable readable' accepted gone)
    · cases wrong

/-- A compaction of one's own live objects, alone: it ends as its store says. -/
theorem storeCompact_alone {env : Env} {pages : Nat} {token : Option String} {body : Option Json}
    {user : AuthedUser} {req : CompactRequest} (admits : Admits env token user s)
    (parsed : body.bind CompactRequest.fromJson = some req) (upTo : req.upTo ≠ "")
    (own : authorizeCompactPrefix user.userId.str req.pre = true)
    (enough : s.objects.entries.length < 100 * pages) :
    Interaction.Ends (Alone limit m i) (storeCompact env pages token body).run s
      (Compacted limit (newArchive env req.pre m) (liveUpTo s.objects req.pre req.upTo)
        (dayArchives s.objects req.pre (env.formatDay m.now)) s.objects) := by
  have few (p : String → Bool) : (s.objects.keysAfter p none).length < 100 * pages := by
    refine lt_of_le_of_lt ?_ enough
    rw [ObjectMap.keysAfter, List.length_insertionSort]
    refine (List.length_filter_le _ _).trans ?_
    rw [ObjectMap.keys, List.length_map]
  have pre : req.pre ≠ "" := by
    intro none_
    simp [none_, authorizeCompactPrefix, prefixInboxLive, prefixKeysLive] at own
  unfold storeCompact
  refine Ends.andThen (authenticate_alone admits) (fun _ _ wrong => by cases wrong.1)
    fun user' t entered => ?_
  obtain ⟨same, objects⟩ := entered
  cases same
  rw [← objects] at few ⊢
  refine Ends.orFail (fun failed => absurd (failed.symm.trans parsed) (by simp)) fun req' parsed' => ?_
  cases parsed.symm.trans parsed'
  refine Ends.checked (fun wrong => absurd wrong (by simp [pre, upTo])) fun _ => ?_
  refine Ends.checked (fun wrong => absurd (wrong.symm.trans own) (by simp)) fun _ => ?_
  refine Ends.andThen (collectLive_alone pages none (few _)) (fun _ _ wrong => by cases wrong.2)
    fun live u collected => ?_
  obtain ⟨same, listed⟩ := collected
  subst same
  cases listed
  split
  next none_ => exact .ret (.nothing none_ rfl)
  next some_ =>
    exact compactKeys_alone (few _) some_ fun k member => listed_stored (List.mem_of_mem_filter member)

end Listing

end Atmin
