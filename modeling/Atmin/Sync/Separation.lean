import Atmin.Sync.Envelope
import Atmin.Sync.Fetching

/-!
# Accounts kept apart

A sync in flight is handed to whoever asks next in the same tab, whichever account it was
started for. As long as nobody joins a sync of another account, every row saved for an
account was read from its own inbox, however sign-ins, logouts, lost tokens and syncs are
interleaved.
-/

namespace Atmin.Web

open Interaction

variable {ι : Type}

abbrev Trace (ι : Type) := List (Event ι Request Answer)

/-- The visit has had this answer. -/
def HeardBy (i : ι) (trace : Trace ι) (act : Act) (r : Reply act) : Prop :=
  (⟨i, .page act, r⟩ : Event ι Request Answer) ∈ trace

theorem HeardBy.later {i : ι} {before after : Trace ι} {act : Act} {r : Reply act}
    (heard : HeardBy i before act r) (grows : before <:+ after) : HeardBy i after act r :=
  grows.subset heard

/-- The visit started a sync, the `n`th of its tab. -/
abbrev Starts (trace : Trace ι) (i : ι) (n : Nat) : Prop := HeardBy i trace .joinSync (.first n)

/-! ### What a step leaves -/

/-- A step that records nothing about messages leaves the syncs and the rows alone. -/
theorem quiet_leaves {act : Act} {c : Outcome} {r : Reply act} {s t : State}
    (quiet : act.quiet = true) (joins : act ≠ .joinSync) (stays : act ≠ .reload)
    (done : perform act c s = some (r, t)) :
    t.memory.syncs = s.memory.syncs ∧ t.memory.syncInFlight = s.memory.syncInFlight ∧
      t.db.messages = s.db.messages := by
  cases act with
  -- these are not quiet
  | markArchiveIngested _ | putMessages _ _ | settleSync _ _ => cases quiet
  | joinSync => exact absurd rfl joins
  | reload => exact absurd rfl stays
  -- reads
  | storeList _ _ | storeGet _ | syncReadMarkers | loadSyncCursor _ | loadMessageIds _
  | loadIngestedArchiveKeys | loadInboundSession _ | getConversation _ | getAllMessages _ =>
    simp only [perform] at done
    obtain ⟨rfl, _⟩ := reading_cases done
    exact ⟨rfl, rfl, rfl⟩
  -- writes to other stores than the messages
  | saveSyncCursor _ _ | saveInboundSession _ =>
    simp only [perform] at done
    rcases writing_cases done with ⟨rfl, _⟩ | ⟨db, wrote, rfl, _⟩
    · exact ⟨rfl, rfl, rfl⟩
    · cases wrote; exact ⟨rfl, rfl, rfl⟩
  | putConversations rows =>
    simp only [perform] at done
    rcases writing_cases done with ⟨rfl, _⟩ | ⟨db, wrote, rfl, _⟩
    · exact ⟨rfl, rfl, rfl⟩
    · exact ⟨rfl, rfl, (saveBatch_nil wrote).1⟩
  -- memory that no sync reads
  | spawn _ | cachedInbound _ | cacheInbound _ | remove _ | changeBackups _ | changeSharingKey _ =>
    cases c <;> simp only [perform, Option.some.injEq, Prod.mk.injEq, reduceCtorEq] at done
    obtain ⟨_, rfl⟩ := done
    exact ⟨rfl, rfl, rfl⟩
  | awaitSync n =>
    cases c <;> simp only [perform, reduceCtorEq] at done
    split at done
    next => cases done; exact ⟨rfl, rfl, rfl⟩
    next => cases done
  -- what happens outside the device
  | deliver _ _ _ =>
    cases c <;> simp only [perform, Option.map_eq_some_iff, Prod.mk.injEq, reduceCtorEq] at done
    obtain ⟨_, _, _, rfl⟩ := done
    exact ⟨rfl, rfl, rfl⟩
  | archive _ _ _ =>
    cases c <;> simp only [perform, reduceCtorEq] at done
    split at done
    next => cases done
    next =>
      simp only [Option.map_eq_some_iff, Prod.mk.injEq] at done
      obtain ⟨_, _, _, rfl⟩ := done
      exact ⟨rfl, rfl, rfl⟩

theorem handle_page {seat : Seat} {act : Act} {c : Outcome} {b b' : Browser} {r : Reply act}
    (done : handle seat (.page act) c b = some (r, b')) :
    act ≠ .reload ∧ ∃ t, perform act c (b.seen seat) = some (r, t) ∧ b' = b.left seat t := by
  have stays : act ≠ .reload := by
    rintro rfl
    cases done
  refine ⟨stays, ?_⟩
  have same : handle seat (.page act) c b =
      (perform act c (b.seen seat)).map fun done => (done.1, b.left seat done.2) := by
    cases act <;> first | rfl | exact absurd rfl stays
  rw [same, Option.map_eq_some_iff] at done
  obtain ⟨⟨r', t⟩, performed, same⟩ := done
  cases same
  exact ⟨t, performed, rfl⟩

section Left

variable {b : Browser} {seat : Seat} {u : State}

@[simp] theorem left_db : (b.left seat u).device.db = u.db := rfl

@[simp] theorem seen_db : (b.seen seat).db = b.device.db := rfl

@[simp] theorem seen_syncs : (b.seen seat).memory.syncs = (b.modules seat.tab).syncs := rfl

@[simp] theorem seen_flight :
    (b.seen seat).memory.syncInFlight = (b.modules seat.tab).syncInFlight := rfl

@[simp] theorem left_here : (b.left seat u).modules seat.tab = u.memory :=
  Function.update_self _ _ _

theorem left_other {tab : Nat} (other : tab ≠ seat.tab) :
    (b.left seat u).modules tab = b.modules tab :=
  Function.update_of_ne other _ _

/-- What holds of the modules of this tab and of every other one holds of each. -/
theorem left_each {P : Nat → Memory → Prop} (here : P seat.tab u.memory)
    (others : ∀ tab, tab ≠ seat.tab → P tab (b.modules tab)) (tab : Nat) :
    P tab ((b.left seat u).modules tab) := by
  by_cases same : tab = seat.tab
  · subst same
    rw [left_here]
    exact here
  · rw [left_other same]
    exact others tab same

end Left

section Decoding

variable [CborDecoder]

/-! ### What is kept apart -/

section Statement

variable (visits : Visits ι)

/-- The message was read from `inbox/{userId}/`, by a call for that account. -/
def ReadFrom (trace : Trace ι) (userId : String) (m : DecryptedMessage) : Prop :=
  ∃ i account, (visits.visit i).account = some account ∧ account.userId.str = userId ∧
    ReadIn (HeardBy i trace) account m

/-- The row holds a message read from the inbox of the account it is saved under. -/
def RowRead (trace : Trace ι) (row : StoredMessage) : Prop :=
  ∃ m, ReadFrom visits trace row.userId m ∧ row = storedMessage row.userId m

/-- No message crosses accounts: neither in a batch that `saveMessages` puts, when it puts
it, nor in IndexedDB. -/
structure Separate (s : History ι) : Prop where
  saved : ∀ i rows conversations r earlier,
    (⟨i, .page (.putMessages rows conversations), r⟩ :: earlier : Trace ι) <:+ s.trace →
      ∀ row ∈ rows, RowRead visits earlier row
  stored : ∀ key row, s.state.device.db.messages.get key = some row → RowRead visits s.trace row

/-- Whoever asks for a sync while one is in flight asks for the account it was started for. -/
def JoinsOwn (i : ι) : Request → History ι → Prop
  | .page .joinSync, s => ∀ n j,
      (s.state.modules (visits.seat i).tab).syncInFlight = some n → Starts s.trace j n →
      (visits.seat j).tab = (visits.seat i).tab →
      (visits.visit j).account.map Account.userId = (visits.visit i).account.map Account.userId
  | _, _ => True

end Statement

/-! ### The invariant -/

/-- Each sync has one starter, and its result holds messages of the starter's account. -/
structure Apart (visits : Visits ι) (s : History ι) : Prop extends Separate visits s where
  numbered : ∀ j n, Starts s.trace j n → n < (s.state.modules (visits.seat j).tab).syncs.length
  once : ∀ i j n, Starts s.trace i n → Starts s.trace j n →
    (visits.seat i).tab = (visits.seat j).tab → i = j
  flying : ∀ tab n, (s.state.modules tab).syncInFlight = some n →
    ∃ j, Starts s.trace j n ∧ (visits.seat j).tab = tab
  results : ∀ tab n result, (s.state.modules tab).syncs[n]? = some (some (.ok result)) →
    ∀ j account, Starts s.trace j n → (visits.seat j).tab = tab →
      (visits.visit j).account = some account →
      ∀ m ∈ result.messages, ReadFrom visits s.trace account.userId.str m

section Growth

variable {visits : Visits ι} {i : ι} {before after : Trace ι}

theorem ReadFrom.later {userId : String} {m : DecryptedMessage}
    (read : ReadFrom visits before userId m) (grows : before <:+ after) :
    ReadFrom visits after userId m := by
  obtain ⟨j, account, calls, same, key, d, e, heard, rest⟩ := read
  exact ⟨j, account, calls, same, key, d, e, heard.later grows, rest⟩

theorem RowRead.later {row : StoredMessage} (read : RowRead visits before row)
    (grows : before <:+ after) : RowRead visits after row := by
  obtain ⟨m, from_, same⟩ := read
  exact ⟨m, from_.later grows, same⟩

end Growth

variable {visits : Visits ι} {s t : History ι}

theorem Apart.fresh : Apart visits (.init {}) where
  saved _ _ _ _ _ suffix := absurd (List.IsSuffix.length_le suffix) (by simp [Traced.init])
  stored _ _ found := nomatch found
  numbered _ _ started := absurd started List.not_mem_nil
  once _ _ _ started := absurd started List.not_mem_nil
  flying _ _ found := nomatch found
  results _ _ _ found := nomatch found

/-- A step that starts no sync: it may settle one with messages of the starter's account, and
may put rows read from the inbox of their account. -/
theorem Apart.step (h : Apart visits s) {event : Event ι Request Answer}
    (recorded : t.trace = event :: s.trace)
    (starts : ∀ j n, event ≠ ⟨j, .page .joinSync, Joined.first n⟩)
    (syncs : ∀ tab, (t.state.modules tab).syncs.length = (s.state.modules tab).syncs.length)
    (flight : ∀ tab n, (t.state.modules tab).syncInFlight = some n →
      (s.state.modules tab).syncInFlight = some n)
    (results : ∀ tab n result, (t.state.modules tab).syncs[n]? = some (some (.ok result)) →
      (s.state.modules tab).syncs[n]? = some (some (.ok result)) ∨
        ∀ j account, Starts s.trace j n → (visits.seat j).tab = tab →
          (visits.visit j).account = some account →
          ∀ m ∈ result.messages, ReadFrom visits s.trace account.userId.str m)
    (puts : ∀ i rows conversations r,
      event = ⟨i, .page (.putMessages rows conversations), r⟩ → ∀ row ∈ rows, RowRead visits s.trace row)
    (stored : ∀ key row, t.state.device.db.messages.get key = some row →
      s.state.device.db.messages.get key = some row ∨ RowRead visits s.trace row) :
    Apart visits t := by
  have grows : s.trace <:+ t.trace := recorded ▸ List.suffix_cons _ _
  -- the step starts no sync
  have started {j : ι} {n : Nat} (starts_ : Starts t.trace j n) : Starts s.trace j n := by
    unfold Starts HeardBy at starts_
    rw [recorded] at starts_
    exact (List.mem_cons.mp starts_).resolve_left fun same => starts j n same.symm
  refine { saved := fun i rows conversations r earlier suffix row member => ?_
           stored := fun key row found => ?_
           numbered := fun j n h' => syncs _ ▸ h.numbered j n (started h')
           once := fun i j n first second => h.once i j n (started first) (started second)
           flying := fun tab n found => ?_
           results := fun tab n result found j account starts_ here calls m member => ?_ }
  · -- a put that stands in the record is the new one or an earlier one
    rw [recorded] at suffix
    rcases List.suffix_cons_iff.mp suffix with same | older
    · obtain ⟨head, rfl⟩ := List.cons.inj same
      exact puts i rows conversations r head.symm row member
    · exact h.saved i rows conversations r earlier older row member
  · rcases stored key row found with old | new
    · exact (h.stored key row old).later grows
    · exact new.later grows
  · obtain ⟨j, starts_, here⟩ := h.flying tab n (flight tab n found)
    exact ⟨j, starts_.later grows, here⟩
  · -- a result is an old one, or it holds what its own sync has read
    rcases results tab n result found with old | new
    · exact (h.results tab n result old j account (started starts_) here calls m member).later grows
    · exact (new j account (started starts_) here calls m member).later grows

/-- A step that starts a sync. -/
theorem Apart.start (h : Apart visits s) {i : ι} {n : Nat}
    (recorded : t.trace = ⟨i, .page .joinSync, Joined.first n⟩ :: s.trace)
    (number : n = (s.state.modules (visits.seat i).tab).syncs.length)
    (own : (t.state.modules (visits.seat i).tab).syncs =
        (s.state.modules (visits.seat i).tab).syncs ++ [none] ∧
      (t.state.modules (visits.seat i).tab).syncInFlight = some n)
    (others : ∀ tab, tab ≠ (visits.seat i).tab → t.state.modules tab = s.state.modules tab)
    (stored : t.state.device.db.messages = s.state.device.db.messages) : Apart visits t := by
  have grows : s.trace <:+ t.trace := recorded ▸ List.suffix_cons _ _
  have started {j : ι} {k : Nat} (starts : Starts t.trace j k) :
      Starts s.trace j k ∨ (j = i ∧ k = n) := by
    unfold Starts HeardBy at starts
    rw [recorded] at starts
    rcases List.mem_cons.mp starts with same | old
    · simp only [Event.mk.injEq, heq_eq_eq, Joined.first.injEq, true_and] at same
      exact .inr same
    · exact .inl old
  have longer (tab : Nat) :
      (s.state.modules tab).syncs.length ≤ (t.state.modules tab).syncs.length := by
    by_cases here : tab = (visits.seat i).tab
    · subst here
      rw [own.1, List.length_append]
      exact Nat.le_add_right _ _
    · rw [others tab here]
  -- The number is new in the tab.
  have unused {j : ι} (starts : Starts s.trace j n) (here : (visits.seat j).tab = (visits.seat i).tab) :
      False := by
    have below := h.numbered j n starts
    rw [here] at below
    omega
  refine { saved := fun i' rows conversations r earlier suffix row member => ?_
           stored := fun key row found => (h.stored key row (stored ▸ found)).later grows
           numbered := fun j k starts => ?_
           once := fun j j' k first second here => ?_
           flying := fun tab k found => ?_
           results := fun tab k result found j account starts here calls m member => ?_ }
  · rw [recorded] at suffix
    rcases List.suffix_cons_iff.mp suffix with same | older
    · cases (List.cons.inj same).1
    · exact h.saved i' rows conversations r earlier older row member
  · rcases started starts with old | ⟨rfl, rfl⟩
    · exact Nat.lt_of_lt_of_le (h.numbered j k old) (longer _)
    · rw [own.1, List.length_append, ← number]
      exact Nat.lt_succ_self _
  · rcases started first with old | ⟨rfl, rfl⟩ <;> rcases started second with old' | ⟨rfl, same⟩
    · exact h.once j j' k old old' here
    · exact (unused (same ▸ old) here).elim
    · exact (unused old' here.symm).elim
    · rfl
  · by_cases here : tab = (visits.seat i).tab
    · subst here
      obtain rfl : n = k := Option.some.inj (own.2.symm.trans found)
      exact ⟨i, by rw [Starts, HeardBy, recorded]; exact List.mem_cons_self, rfl⟩
    · rw [others tab here] at found
      obtain ⟨j, starts, same⟩ := h.flying tab k found
      exact ⟨j, starts.later grows, same⟩
  · have old : (s.state.modules tab).syncs[k]? = some (some (.ok result)) := by
      by_cases here' : tab = (visits.seat i).tab
      · subst here'
        rw [own.1, List.getElem?_append] at found
        split at found
        next => exact found
        next =>
          have := List.mem_of_getElem? found
          simp at this
      · rw [← others tab here']
        exact found
    rcases started starts with before | ⟨rfl, rfl⟩
    · exact (h.results tab k result old j account before here calls m member).later grows
    · have below := (List.getElem?_eq_some_iff.mp old).1
      rw [← here] at below
      omega

/-- Steps that are recorded, where each caller joins only syncs of its own account. -/
abbrev Visiting (visits : Visits ι) :
    ι → (o : Request) → History ι → Answer o → History ι → Prop :=
  (accounts (JoinsOwn visits) visits).exec

/-- Every visit keeps the accounts apart, and takes nothing from the record. -/
def visitRules (visits : Visits ι) : Rules ι (History ι) where
  inv := Apart visits
  rely _ s t := s.trace <:+ t.trace
  guar _ s t := s.trace <:+ t.trace
  compat _ _ _ _ _ _ _ h := h

theorem others_record {i : ι} (moved : (visitRules visits).Others i s t) : s.trace <:+ t.trace := by
  induction moved with
  | refl => exact List.suffix_refl _
  | tail _ last ih => exact ih.trans last.2.2

/-- A step of a page, taken apart. -/
theorem visiting_page {i : ι} {act : Act} {r : Reply act}
    (served : Visiting visits i (.page act) s r t) :
    JoinsOwn visits i (.page act) s ∧ t.trace = ⟨i, .page act, r⟩ :: s.trace ∧ act ≠ .reload ∧
      ∃ c u, perform act c (s.state.seen (visits.seat i)) = some (r, u) ∧
        t.state = s.state.left (visits.seat i) u := by
  obtain ⟨allowed, ⟨c, done⟩, recorded⟩ := served
  obtain ⟨stays, u, performed, same⟩ := handle_page done
  exact ⟨allowed, recorded, stays, c, u, performed, same⟩

theorem visiting_records {i : ι} {o : Request} {r : Answer o}
    (served : Visiting visits i o s r t) : s.trace <:+ t.trace := by
  rw [served.2.2]
  exact List.suffix_cons _ _

/-- A step that starts no sync and leaves those of its tab alone. -/
theorem Apart.unsynced (h : Apart visits s) {i : ι} {act : Act} {r : Reply act} {u : State}
    (recorded : t.trace = ⟨i, .page act, r⟩ :: s.trace)
    (starts : ∀ j n, (⟨i, .page act, r⟩ : Event ι Request Answer) ≠
      ⟨j, .page .joinSync, Joined.first n⟩)
    (left : t.state = s.state.left (visits.seat i) u)
    (syncs : u.memory.syncs = (s.state.modules (visits.seat i).tab).syncs)
    (flight : u.memory.syncInFlight = (s.state.modules (visits.seat i).tab).syncInFlight)
    (puts : ∀ rows conversations, act = .putMessages rows conversations →
      ∀ row ∈ rows, RowRead visits s.trace row)
    (stored : ∀ key row, u.db.messages.get key = some row →
      s.state.device.db.messages.get key = some row ∨ RowRead visits s.trace row) :
    Apart visits t := by
  have same (tab : Nat) : (t.state.modules tab).syncs = (s.state.modules tab).syncs ∧
      (t.state.modules tab).syncInFlight = (s.state.modules tab).syncInFlight := by
    rw [left]
    exact left_each (P := fun tab memory => memory.syncs = (s.state.modules tab).syncs ∧
      memory.syncInFlight = (s.state.modules tab).syncInFlight) ⟨syncs, flight⟩
      (fun _ _ => ⟨rfl, rfl⟩) tab
  refine h.step recorded starts (fun tab => by rw [(same tab).1])
    (fun tab n found => (same tab).2 ▸ found) (fun tab n result found => .inl ((same tab).1 ▸ found))
    (fun j rows conversations r' event => ?_) (left ▸ stored)
  cases event
  exact puts rows conversations rfl

/-- A step that records nothing about messages keeps the accounts apart. -/
theorem Apart.quiet (h : Apart visits s) {i : ι} {act : Act} {r : Reply act}
    (quiet : act.quiet = true) (served : Visiting visits i (.page act) s r t) : Apart visits t := by
  obtain ⟨_, recorded, stays, c, u, performed, left⟩ := visiting_page served
  by_cases joins : act = .joinSync
  · subst joins
    cases c <;> simp only [perform, seen_flight, reduceCtorEq] at performed
    split at performed
    next n flying =>
      cases performed
      exact h.unsynced recorded (fun _ _ same => by cases same) left rfl rfl
        (fun _ _ same => by cases same) fun _ _ => .inl
    next =>
      cases performed
      refine h.start recorded rfl ?_ (fun tab other => ?_) ?_
      · rw [left, left_here]
        exact ⟨rfl, rfl⟩
      · rw [left]
        exact left_other other
      · rw [left]
        rfl
  · obtain ⟨syncs, flight, messages⟩ := quiet_leaves quiet joins stays performed
    refine h.unsynced recorded (fun j n same => ?_) left syncs flight (fun rows conversations same => ?_)
      fun key row found => ?_
    · cases same
      exact joins rfl
    · subst same
      cases quiet
    · rw [messages] at found
      exact .inl found

/-- The starter of a sync settles it, with messages of its account. -/
theorem Apart.settle (h : Apart visits s) {i : ι} {n : Nat} {result : Except Thrown SyncResult}
    {account : Account} (starts : Starts s.trace i n) (calls : (visits.visit i).account = some account)
    (read : ∀ synced, result = .ok synced → ∀ m ∈ synced.messages,
      ReadFrom visits s.trace account.userId.str m)
    (served : Visiting visits i (.page (.settleSync n result)) s () t) : Apart visits t := by
  obtain ⟨_, recorded, _, c, u, performed, left⟩ := visiting_page served
  cases c <;> simp only [perform, seen_syncs, Option.some.injEq, Prod.mk.injEq, true_and,
    reduceCtorEq] at performed
  subst performed
  refine h.step recorded (fun _ _ same => by cases same) (fun tab => ?_) (fun tab m found => ?_)
    (fun tab m synced found => ?_) (fun _ _ _ _ same => by cases same) (by rw [left]; exact fun _ _ => .inl)
  · rw [left]
    exact left_each (P := fun tab memory => memory.syncs.length = (s.state.modules tab).syncs.length)
      (List.length_set ..) (fun _ _ => rfl) tab
  · by_cases here : tab = (visits.seat i).tab
    · subst here
      rw [left, left_here] at found
      cases found
    · rwa [left, left_other here] at found
  · by_cases here : tab = (visits.seat i).tab
    · subst here
      rw [left, left_here, List.getElem?_set] at found
      split at found
      next same =>
        subst same
        split at found
        next =>
          -- The result is that of the only visit that started this sync.
          refine .inr fun j account' starts' tab' calls' => ?_
          obtain rfl := h.once i j n starts starts' tab'.symm
          obtain rfl := Option.some.inj (calls.symm.trans calls')
          exact read synced (Option.some.inj (Option.some.inj found))
        next => cases found
      next => exact .inl found
    · rw [left, left_other here] at found
      exact .inl found

/-! ### Calls of a page -/

section Calls

variable {α β : Type} {i : ι}

/-- The steps of a page in its slot. -/
abbrev OnPage (visits : Visits ι) :
    ι → (act : Act) → History ι → Reply act → History ι → Prop :=
  fun i act => Visiting visits i (.page act)

abbrev KeepsApart (visits : Visits ι) (i : ι) (Q : α → History ι → Prop) (p : Prog Act Reply α)
    (s : History ι) : Prop :=
  Safe (visitRules visits) (OnPage visits) i Q p s

/-- A page is as safe in the browser as on its own. -/
theorem Safe.inPage {Q : α → History ι → Prop} {p : Prog Act Reply α} {s : History ι}
    (safe : KeepsApart visits i Q p s) :
    Safe (visitRules visits) (Visiting visits) i Q (Atmin.Web.inPage p) s := by
  induction p generalizing s with
  | ret a => exact safe
  | op act k ih =>
    intro t moved inv r u served
    obtain ⟨kept, guar, rest⟩ := safe t moved inv r u served
    exact ⟨kept, guar, ih r rest⟩

/-- A function that records nothing about messages returns what its answers make it return. -/
theorem KeepsApart.yields {Q : α → History ι → Prop} {h : Async α}
    (yields : ∀ t : History ι,
      Yields (fun act r => HeardBy i t.trace act r ∧ Honest act r) (fun a => Q a t) h) :
    KeepsApart visits i (fun r t => ∀ a, r = .ok a → Q a t) h.run s := by
  have lasts (s t : History ι) (grows : s.trace <:+ t.trace) (act : Act) (r : Reply act)
      (heard : HeardBy i s.trace act r ∧ Honest act r) : HeardBy i t.trace act r ∧ Honest act r :=
    ⟨heard.1.later grows, heard.2⟩
  refine Safe.given lasts lasts (fun act s r t quiet inv served => ?_) fun t _ => yields t
  obtain ⟨_, recorded, _, c, u, performed, _⟩ := visiting_page served
  refine ⟨inv.quiet quiet served, visiting_records served, ?_, perform_honest performed⟩
  rw [HeardBy, recorded]
  exact List.mem_cons_self

theorem KeepsApart.quietly {h : Async α} (quiet : Quietly h) :
    KeepsApart visits i (fun _ _ => True) h.run s :=
  (KeepsApart.yields (Q := fun _ _ => True) fun _ => .quietly quiet).weaken fun _ _ _ => trivial

/-- Follow a function: what comes after knows that the record has grown. -/
theorem KeepsApart.andThen {P : α → History ι → Prop} {Q : β → History ι → Prop}
    {p : Prog Act Reply α} {f : α → Prog Act Reply β} (first : KeepsApart visits i P p s)
    (rest : ∀ a t, s.trace <:+ t.trace → P a t → KeepsApart visits i Q (f a) t) :
    KeepsApart visits i Q (p.bind f) s :=
  Safe.bind (first.relates (R := fun s t => s.trace <:+ t.trace) (fun _ => List.suffix_refl _)
    (fun _ _ _ => List.IsSuffix.trans) (fun _ _ h => h) fun _ _ h => h)
    fun a t after => rest a t after.2 after.1

variable {page : Page} (calls : visits.visit i = .sync page)
include calls

/-- Every message of a sync was read from the inbox of the account that started it. -/
theorem fetchMessages_apart : KeepsApart visits i (fun r t => ∀ synced, r = .ok synced →
    ∀ m ∈ synced.messages, ReadFrom visits t.trace page.userId.str m) (fetchMessages page).run s := by
  refine KeepsApart.yields fun t =>
    (fetchMessages_yields (fun _ _ heard => heard.2) page).weaken fun r read synced same m member => ?_
  obtain ⟨key, d, e, heard, rest⟩ := read synced same m member
  exact ⟨i, page.toAccount, by rw [calls]; rfl, rfl, key, d, e, heard.1, rest⟩

theorem syncMessages_apart : KeepsApart visits i (fun r t => ∀ synced, r = .ok synced →
    ∀ m ∈ synced.messages, ReadFrom visits t.trace page.userId.str m) (syncMessages page).run s := by
  have account : (visits.visit i).account = some page.toAccount := by rw [calls]; rfl
  unfold syncMessages
  simp only [Async.run_bind (sync _), run_sync, step_bind, Prog.op_bind, Prog.ret_bind]
  intro t moved inv joined u served
  refine ⟨inv.quiet rfl served, visiting_records served, ?_⟩
  obtain ⟨own, recorded, _, c, v, performed, left⟩ := visiting_page served
  have heard : HeardBy i u.trace .joinSync joined := by
    rw [HeardBy, recorded]
    exact List.mem_cons_self
  cases joined with
  | second n =>
    -- The sync in flight was started for this account.
    obtain ⟨j, starts, tab, account', calls', same⟩ : ∃ j, Starts u.trace j n ∧
        (visits.seat j).tab = (visits.seat i).tab ∧ ∃ account', (visits.visit j).account =
          some account' ∧ account'.userId = page.userId := by
      cases c <;> simp only [perform, seen_flight, reduceCtorEq] at performed
      split at performed
      next m flying =>
        cases performed
        obtain ⟨j, starts, tab⟩ := inv.flying _ _ flying
        have same := own n j flying starts tab
        rw [account, Option.map_some, Option.map_eq_some_iff] at same
        obtain ⟨account', calls', same⟩ := same
        exact ⟨j, starts.later (visiting_records served), tab, account', calls', same⟩
      next => cases performed
    intro t' moved' inv' r u' served'
    refine ⟨inv'.quiet rfl served', visiting_records served', ?_⟩
    obtain ⟨_, _, _, c, v, performed, _⟩ := visiting_page served'
    cases c <;> simp only [perform, seen_syncs, reduceCtorEq] at performed
    split at performed
    next result settled =>
      cases performed
      intro w later synced same' m member
      subst same'
      have read := inv'.results _ n synced settled j account' (starts.later (others_record moved'))
        tab calls' m member
      rw [same] at read
      exact read.later ((visiting_records served').trans (others_record later))
    next => cases performed
  | first n =>
    simp only [Async.run_bind, run_attempt, Prog.bind_assoc, Prog.ret_bind]
    refine KeepsApart.andThen (fetchMessages_apart calls).lasting fun result t' grows read => ?_
    simp only [run_sync, step_bind, Prog.op_bind, Prog.ret_bind, run_ofExcept]
    intro u' moved' inv' r v' served'
    have here := read u' moved'
    refine ⟨inv'.settle (heard.later (grows.trans (others_record moved'))) account here served',
      visiting_records served', fun w later synced same m member => ?_⟩
    exact (here synced same m member).later ((visiting_records served').trans (others_record later))

omit calls in
/-- What `saveMessages` puts are rows of the messages it was given. -/
theorem saveMessages_apart {parse : String → Option Json} {render : Js → String} {userId : String}
    {messages : List DecryptedMessage} (read : ∀ m ∈ messages, ReadFrom visits s.trace userId m) :
    KeepsApart visits i (fun _ _ => True) (saveMessages parse render userId messages).run s := by
  unfold saveMessages
  split
  · exact fun _ _ => trivial
  · rw [Async.run_bind]
    refine KeepsApart.andThen (KeepsApart.quietly (getConversations_within (fun _ => rfl) _))
      fun existing t grows _ => ?_
    cases existing with
    | error e => exact fun _ _ => trivial
    | ok existing =>
      simp only [Async.run_bind (await _), run_await, step_bind]
      intro t' moved inv r u served
      obtain ⟨_, recorded, _, c, v, performed, left⟩ := visiting_page served
      have known := grows.trans (others_record moved)
      -- the rows written are those of the messages given
      have rows (row : StoredMessage) (member : row ∈ messages.map (storedMessage userId)) :
          RowRead visits t'.trace row := by
        obtain ⟨m, here, rfl⟩ := List.mem_map.mp member
        exact ⟨m, (read m here).later known, rfl⟩
      simp only [perform] at performed
      refine ⟨?_, visiting_records served, ?_⟩
      · -- the put fails, or it stores them
        rcases writing_cases performed with ⟨rfl, _⟩ | ⟨db, saved, rfl, _⟩
        · exact inv.unsynced recorded (fun _ _ same => by cases same) left rfl rfl
            (fun _ _ same => by cases same; exact rows) fun _ _ => .inl
        · refine inv.unsynced recorded (fun _ _ same => by cases same) left rfl rfl
            (fun _ _ same => by cases same; exact rows) fun key row found => ?_
          rcases putRows_get (saveBatch_messages saved).1 key with ⟨kept, _⟩ | ⟨other, member, _, there⟩
          · exact .inl (kept ▸ found)
          · cases there.symm.trans found
            exact .inr (rows _ member)
      · -- the summaries afterwards touch no message
        cases r with
        | error e => exact fun _ _ => trivial
        | ok =>
          dsimp only
          split
          · exact fun _ _ => trivial
          · exact KeepsApart.quietly (recomputeAmendedSummaries_within (fun _ => rfl) (fun _ => rfl)
              (fun _ => rfl) _ _ _ _)

omit calls in
theorem markArchivesIngested_apart {keys : List String} :
    KeepsApart visits i (fun _ _ => True) (markArchivesIngested keys).run s := by
  induction keys generalizing s with
  | nil => exact fun _ _ => trivial
  | cons key rest ih =>
    unfold markArchivesIngested
    simp only [Async.run_bind, run_attempt, run_await, step_bind, Prog.op_bind, Prog.ret_bind]
    intro t moved inv r u served
    obtain ⟨_, recorded, _, c, v, performed, left⟩ := visiting_page served
    simp only [perform] at performed
    refine ⟨?_, visiting_records served, ih⟩
    rcases writing_cases performed with ⟨rfl, _⟩ | ⟨db, saved, rfl, _⟩
    · exact inv.unsynced recorded (fun _ _ same => by cases same) left rfl rfl
        (fun _ _ same => by cases same) fun _ _ => .inl
    · cases saved
      exact inv.unsynced recorded (fun _ _ same => by cases same) left rfl rfl
        (fun _ _ same => by cases same) fun _ _ => .inl

theorem syncAndPublish_apart :
    KeepsApart visits i (fun _ _ => True) (syncAndPublish page).run s := by
  unfold syncAndPublish
  simp only [Async.run_bind, run_attempt, Prog.bind_assoc, Prog.ret_bind]
  refine KeepsApart.andThen (syncMessages_apart calls) fun r t _ read => ?_
  cases r with
  | error e => exact fun _ _ => trivial
  | ok synced =>
    unfold publish
    simp only [Async.run_bind (attempt _), run_attempt, Prog.bind_assoc, Prog.ret_bind]
    refine KeepsApart.andThen (saveMessages_apart (read synced rfl)) fun saved t _ _ => ?_
    cases saved with
    | error e => exact fun _ _ => trivial
    | ok =>
      rw [Async.run_bind]
      refine KeepsApart.andThen markArchivesIngested_apart fun marked t _ _ => ?_
      cases marked with
      | error e => exact fun _ _ => trivial
      | ok =>
        have last : Quietly (do
            let _ ← attempt (await (step .syncReadMarkers))
            pure Published.done) :=
          .bind (.attempt (.await (.op rfl fun _ => .ret trivial))) fun _ => .pure _
        exact KeepsApart.quietly last

end Calls

/-! ### Calls around a session -/

/-- A step of the code around a session empties IndexedDB, or leaves the pages alone. -/
theorem Apart.session (h : Apart visits s) {i : ι} {o : Request} {r : Answer o}
    (session : ∀ act, o ≠ .page act) (served : Visiting visits i o s r t) : Apart visits t := by
  obtain ⟨_, ⟨c, done⟩, recorded⟩ := served
  obtain ⟨modules, messages⟩ : t.state.modules = s.state.modules ∧
      ∀ key row, t.state.device.db.messages.get key = some row →
        s.state.device.db.messages.get key = some row := by
    cases o with
    | page act => exact absurd rfl (session act)
    | getUserId | setUserId _ | removeUserId =>
      cases c <;> simp only [handle, Option.some.injEq, Prod.mk.injEq, reduceCtorEq] at done
      rw [← done.2]
      exact ⟨rfl, fun _ _ => id⟩
    | deleteDatabase =>
      cases c <;> simp only [handle, Option.some.injEq, Prod.mk.injEq] at done
      all_goals rw [← done.2]
      · exact ⟨rfl, fun _ _ found => nomatch found⟩
      · exact ⟨rfl, fun _ _ => id⟩
  refine h.step recorded (fun j n same => ?_) (fun tab => by rw [modules])
    (fun tab n found => modules ▸ found) (fun tab n result found => .inl (modules ▸ found))
    (fun j rows conversations r' same => ?_) fun key row found => .inl (messages key row found)
  · cases same
    exact session _ rfl
  · cases same
    exact (session _ rfl).elim

theorem session_safe {α : Type} {i : ι} {p : Prog Request Answer α}
    (only : Prog.Only (fun o => ∀ act, o ≠ .page act) (fun _ => True) p) :
    Safe (visitRules visits) (Visiting visits) i (fun _ _ => True) p s := by
  induction only generalizing s with
  | ret _ => exact fun _ _ => trivial
  | op session _ ih =>
    exact fun t _ inv r u served =>
      ⟨inv.session session served, visiting_records served, ih r⟩

omit [CborDecoder] in
theorem saveSession_session (userId : UserId) :
    Prog.Only (fun o => ∀ act, o ≠ Request.page act) (fun _ => True) (saveSession userId) := by
  refine Prog.Only.bind (P := fun _ => True) (.op (fun _ => nofun) fun owner => ?_) fun wiped _ => ?_
  · split
    · exact .ret trivial
    · exact .op (fun _ => nofun) fun _ => .ret trivial
  · cases wiped with
    | ok => exact .op (fun _ => nofun) fun _ => .ret trivial
    | error e => exact .ret trivial

omit [CborDecoder] in
theorem clearSession_session :
    Prog.Only (fun o => ∀ act, o ≠ Request.page act) (fun _ => True) clearSession :=
  .op (fun _ => nofun) fun _ => .op (fun _ => nofun) fun _ => .ret trivial

theorem accounts_contracts (visits : Visits ι) :
    Contracts (visitRules visits) (accounts (JoinsOwn visits) visits) (fun _ _ => True)
      fun _ _ _ => True where
  stable _ _ _ _ _ _ _ := trivial
  arrives i s _ _ := by
    have ends {α : Type} {p : Prog Request Answer α}
        (safe : Safe (visitRules visits) (Visiting visits) i (fun _ _ => True) p s) :
        Safe (visitRules visits) (Visiting visits) i (fun _ _ => True) (p.bind fun _ => .ret ()) s :=
      Safe.bind safe fun _ _ _ _ _ => trivial
    show Safe (visitRules visits) (Visiting visits) i _ (visits.visit i).prog s
    cases calls : visits.visit i with
    | sync page => exact ends (Safe.inPage (syncAndPublish_apart calls))
    | addInbound crypto fromUser fromDevice key =>
      exact ends (Safe.inPage (KeepsApart.quietly (addInbound_fetches crypto fromUser fromDevice key).quietly))
    | saveSession userId => exact ends (session_safe (saveSession_session userId))
    | clearToken => exact session_safe (.op (fun _ => nofun) fun _ => .ret trivial)
    | clearSession => exact ends (session_safe clearSession_session)
    | surroundings act surrounds =>
      refine Safe.inPage fun t _ inv r u served =>
        ⟨inv.quiet ?_ served, visiting_records served, fun _ _ => trivial⟩
      cases act <;> first | rfl | cases surrounds

/-- While every caller joins only syncs of its own account, no message crosses accounts. -/
theorem accounts_separate [DecidableEq ι] {visits : Visits ι}
    {w : World ι Request Answer Unit (History ι)}
    (run : Reach (accounts (JoinsOwn visits) visits) (.init {}) w) : Separate visits w.sys :=
  (Secured.run (accounts_contracts visits) (Secured.init Apart.fresh fun _ => trivial)
    run).1.toSeparate

/-! ### Switching accounts -/

section Following

variable (visits : Visits ι) (check : ι → Request → Browser → Bool)

/-- A computable reading of the recorded steps that pass a check. -/
def visitRun (i : ι) (o : Request) (c : Outcome) (s : History ι) :
    Option (Answer o × History ι) :=
  if check i o s.state then
    (handle (visits.seat i) o c s.state).map fun done => (done.1, ⟨done.2, ⟨i, o, done.1⟩ :: s.trace⟩)
  else none

theorem reach_of_visitRun [DecidableEq ι] {C : ι → Request → History ι → Prop}
    (sound : ∀ i o s, check i o s.state = true → C i o s) (schedule : List (ι × Outcome))
    (P : World ι Request Answer Unit (History ι) → Bool)
    (followed : (World.follow (visitRun visits check) (accounts C visits).prog schedule
      (.init (.init {}))).any P = true) :
    ∃ w, Reach (accounts C visits) (.init {}) w ∧ P w = true := by
  obtain ⟨w, reached, holds⟩ := (Option.any_eq_true _ _).mp followed
  refine ⟨w, steps_mono (fun i o s r t served => ?_) (steps_of_follow _ _ reached), holds⟩
  obtain ⟨c, done⟩ := served
  simp only [visitRun, Option.ite_none_right_eq_some, Option.map_eq_some_iff, Prod.mk.injEq] at done
  obtain ⟨passed, ⟨r', b⟩, handled, rfl, rfl⟩ := done
  exact ⟨sound i o s passed, ⟨c, handled⟩, rfl⟩

end Following

end Decoding

section Samples

open Demo

attribute [local instance] Demo.cbor

/-- One delivery to each account, a sign-in and a sync of the first, a lost token, and a
sign-in and a sync of the second, all in one tab. -/
def switching : Visits (Fin 9) where
  visit
    | 0 => .surroundings (.deliver mallory device (keyShare mallory user "a" "s")) rfl
    | 1 => .surroundings (.deliver mallory device (message mallory user "b" "s" "hi" .null)) rfl
    | 2 => .surroundings (.deliver mallory device (keyShare mallory bob "c" "r")) rfl
    | 3 => .surroundings (.deliver mallory device (message mallory bob "d" "r" "hello" .null)) rfl
    | 4 => .saveSession user
    | 5 => .sync ⟨account, "", false⟩
    | 6 => .clearToken
    | 7 => .saveSession bob
    | 8 => .sync ⟨{ account with userId := bob }, "", false⟩
  seat i := ⟨0, if i = 8 then 1 else 0⟩

/-- So many steps of each visit named. -/
def stepwise (plan : List (Fin 9 × Nat)) : List (Fin 9 × Outcome) :=
  plan.flatMap fun e => List.replicate e.2 (e.1, .ok)

/-- Syncs are only asked for while none is in flight. -/
def joinsAlone (i : Fin 9) (o : Request) (b : Browser) : Bool :=
  match o with
  | .page .joinSync => (b.modules (switching.seat i).tab).syncInFlight.isNone
  | _ => true

theorem joinsAlone_own (i : Fin 9) (o : Request) (s : History (Fin 9))
    (checked : joinsAlone i o s.state = true) : JoinsOwn switching i o s := by
  unfold joinsAlone at checked
  split at checked
  next =>
    intro n j flying
    rw [flying] at checked
    cases checked
  next others =>
    unfold JoinsOwn
    split
    next => exact (others rfl).elim
    next => trivial

/-- The first account's sync has ended when the second one asks for its own. -/
theorem switching_separate : ∃ w,
    Reach (accounts (JoinsOwn switching) switching) (.init {}) w ∧
      (w.sys.state.device.db.messages.get [.str "d"]).any (fun row => row.userId = bob.str) = true ∧
      Separate switching w.sys := by
  obtain ⟨w, run, stored⟩ := reach_of_visitRun switching joinsAlone joinsAlone_own
    (stepwise [(0, 3), (1, 3), (2, 3), (3, 3), (4, 5), (5, 24), (6, 3), (7, 5), (8, 24)])
    (fun w => (w.sys.state.device.db.messages.get [.str "d"]).any fun row => row.userId = bob.str)
    (by decide +kernel)
  exact ⟨w, run, stored, accounts_separate run⟩

/-- No object of the inbox was read. -/
def unread (userId : String) (trace : Trace (Fin 9)) : Bool :=
  trace.all fun event => match event.op with
    | .page (.storeGet key) => !startsWith key (prefixInbox userId)
    | _ => true

theorem not_read_of_unread {visits : Visits (Fin 9)} {userId : String} {trace : Trace (Fin 9)}
    {m : DecryptedMessage} (none_ : unread userId trace = true) : ¬ ReadFrom visits trace userId m := by
  rintro ⟨i, account, _, rfl, key, d, e, heard, within, _⟩
  have outside := List.all_eq_true.mp none_ _ heard
  dsimp only at outside
  rw [within] at outside
  cases outside

/-- The second account asks while the first account's sync is in flight, and is handed its
messages. -/
theorem switching_mixed : ∃ w,
    Reach (accounts (fun _ _ _ => True) switching) (.init {}) w ∧ ¬ Separate switching w.sys := by
  obtain ⟨w, run, holds⟩ := reach_of_visitRun switching (fun _ _ _ => true)
    (fun _ _ _ _ => trivial)
    (stepwise [(0, 3), (1, 3), (2, 3), (3, 3), (4, 5), (5, 2), (6, 3), (7, 5), (8, 2), (5, 22), (8, 3)])
    (fun w => unread bob.str w.sys.trace &&
      (w.sys.state.device.db.messages.get [.str "b"]).any fun row => row.userId = bob.str)
    (by decide +kernel)
  obtain ⟨none_, there⟩ := (Bool.and_eq_true _ _).mp holds
  obtain ⟨row, found, owner⟩ := (Option.any_eq_true _ _).mp there
  refine ⟨w, run, fun separate => ?_⟩
  obtain ⟨m, read, _⟩ := separate.stored _ row found
  rw [of_decide_eq_true owner] at read
  exact not_read_of_unread none_ read

end Samples

end Atmin.Web
