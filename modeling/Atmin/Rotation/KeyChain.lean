import Atmin.Web.Atob
import Atmin.Web.KeyChain

/-!
# Walking and extending the backup-key chain

The walk holds the true key of the version it has reached, whatever else the chain contains,
and gets to its target exactly if no hop on the way is missing. Appending a link is another
matter: a chain that could not be read counts as an empty one, and the links that were stored
are written over.
-/

namespace Atmin.Web

open Interaction

/-! ### The walk -/

section Walk

variable {CryptoKey : Type} {subtle : Subtle CryptoKey} {trueKey : String → Nat → CryptoKey}
  {userId : String} {links : List KeyChainLink} {memo : BackupKeys CryptoKey}

/-- A store of true keys. -/
def TrueMemo (trueKey : String → Nat → CryptoKey) (memo : BackupKeys CryptoKey) : Prop :=
  ∀ user version key, memo.get (user, version) = some key → key = trueKey user version

/-- What decrypts under the true key of a version, as a hop to it, wraps the true key before. -/
def Wraps (subtle : Subtle CryptoKey) (trueKey : String → Nat → CryptoKey) (userId : String)
    (links : List KeyChainLink) : Prop :=
  ∀ link ∈ links, ∀ older plain, link.hops (older + 1) = true →
    link.opened subtle (trueKey userId (older + 1)) = some plain →
      subtle.importKey plain = some (trueKey userId older)

/-- The key before a version is in the store, or some link to the version decrypts. -/
def Reachable (subtle : Subtle CryptoKey) (trueKey : String → Nat → CryptoKey) (userId : String)
    (links : List KeyChainLink) (memo : BackupKeys CryptoKey) (older : Nat) : Prop :=
  (memo.get (userId, older)).isSome = true ∨ ∃ link ∈ links, link.hops (older + 1) = true ∧
    (link.opened subtle (trueKey userId (older + 1))).isSome = true

/-- The target is in the store, or every hop down to it can be taken. -/
def Resolvable (subtle : Subtle CryptoKey) (trueKey : String → Nat → CryptoKey) (userId : String)
    (links : List KeyChainLink) (memo : BackupKeys CryptoKey) (current target : Nat) : Prop :=
  (memo.get (userId, target)).isSome = true ∨
    ∀ older, target ≤ older → older < current → Reachable subtle trueKey userId links memo older

theorem TrueMemo.insert (sound : TrueMemo trueKey memo) (user : String) (version : Nat) :
    TrueMemo trueKey (memo.insert (user, version) (trueKey user version)) := by
  intro user' version' key found
  rw [ObjectMap.get_insert] at found
  split at found
  next same =>
    cases same
    exact (Option.some.inj found).symm
  next => exact sound user' version' key found

/-- Among candidates that wrap the key, the first that opens gives it. -/
theorem firstOpening_eq {key prevKey : CryptoKey} {candidates : List KeyChainLink}
    (wraps : ∀ link ∈ candidates, ∀ plain, link.opened subtle key = some plain →
      subtle.importKey plain = some prevKey) :
    firstOpening subtle key candidates =
      if candidates.any fun link => (link.opened subtle key).isSome then some prevKey else none := by
  induction candidates with
  | nil => rfl
  | cons link rest ih =>
    have others := ih fun l member => wraps l (List.mem_cons_of_mem _ member)
    rw [firstOpening, List.any_cons]
    cases opened : link.opened subtle key with
    | none => simpa using others
    | some plain => simp [wraps link (by simp) plain opened]

theorem opens_iff {older : Nat} :
    ((links.filter (KeyChainLink.hops (older + 1))).any fun link =>
      (link.opened subtle (trueKey userId (older + 1))).isSome) = true ↔
    ∃ link ∈ links, link.hops (older + 1) = true ∧
      (link.opened subtle (trueKey userId (older + 1))).isSome = true := by
  simp only [List.any_eq_true, List.mem_filter, and_assoc]

/-- A key put into the store is no matter to the hops below it. -/
theorem reachable_insert {older version : Nat} (below : older < version) (key : CryptoKey) :
    Reachable subtle trueKey userId links (memo.insert (userId, version) key) older ↔
      Reachable subtle trueKey userId links memo older := by
  have apart : (userId, older) ≠ (userId, version) := by
    intro same
    have equal := congrArg Prod.snd same
    simp only at equal
    omega
  unfold Reachable
  rw [ObjectMap.get_insert, if_neg apart]

/-- What the walk does from the true key of a version. -/
structure WalkSpec (subtle : Subtle CryptoKey) (trueKey : String → Nat → CryptoKey) (userId : String)
    (links : List KeyChainLink) (memo : BackupKeys CryptoKey) (target version : Nat)
    (out : Except String CryptoKey × BackupKeys CryptoKey) : Prop where
  arrives : (∀ older, target ≤ older → older < version →
    Reachable subtle trueKey userId links memo older) → out.1 = .ok (trueKey userId target)
  stops : ¬ (∀ older, target ≤ older → older < version →
    Reachable subtle trueKey userId links memo older) → ∃ e, out.1 = .error e
  sound : TrueMemo trueKey out.2

/-- A hop taken, the rest of the walk decides. -/
theorem WalkSpec.hop {target older : Nat} {memo' : BackupKeys CryptoKey}
    {out : Except String CryptoKey × BackupKeys CryptoKey}
    (rest : WalkSpec subtle trueKey userId links memo' target older out)
    (reachable : Reachable subtle trueKey userId links memo older)
    (same : ∀ v, v < older → (Reachable subtle trueKey userId links memo' v ↔
      Reachable subtle trueKey userId links memo v)) :
    WalkSpec subtle trueKey userId links memo target (older + 1) out := by
  have iff_ : (∀ v, target ≤ v → v < older + 1 → Reachable subtle trueKey userId links memo v) ↔
      ∀ v, target ≤ v → v < older → Reachable subtle trueKey userId links memo' v := by
    constructor
    · intro all v above below
      exact (same v below).mpr (all v above (by omega))
    · intro all v above below
      rcases Nat.lt_succ_iff_lt_or_eq.mp below with lower | rfl
      · exact (same v lower).mp (all v above lower)
      · exact reachable
  exact ⟨fun all => rest.arrives (iff_.mp all), fun missing => rest.stops fun all => missing (iff_.mpr all),
    rest.sound⟩

/-- A missing hop ends the walk. -/
theorem WalkSpec.stop {target older : Nat} (lower : target ≤ older) (sound : TrueMemo trueKey memo)
    (missing : ¬ Reachable subtle trueKey userId links memo older) (e : String) :
    WalkSpec subtle trueKey userId links memo target (older + 1) (.error e, memo) where
  arrives all := absurd (all older lower (Nat.lt_succ_self older)) missing
  stops _ := ⟨e, rfl⟩
  sound := sound

/-- The working key is the true key of the working version. -/
theorem walk_spec (wraps : Wraps subtle trueKey userId links) {target version : Nat}
    (above : target ≤ version) {memo : BackupKeys CryptoKey} (sound : TrueMemo trueKey memo) :
    WalkSpec subtle trueKey userId links memo target version
      (walk subtle userId target links version (trueKey userId version) memo) := by
  induction version generalizing memo with
  | zero =>
    have here : target = 0 := by omega
    subst here
    exact ⟨fun _ => rfl, fun missing => absurd (fun v _ below => absurd below (by omega)) missing, sound⟩
  | succ older ih =>
    rw [walk]
    by_cases further : target < older + 1
    · rw [if_pos further]
      have lower : target ≤ older := by omega
      cases memoed : memo.get (userId, older) with
      -- a memoized hop is taken without the chain
      | some key =>
        have true_ := sound userId older key memoed
        subst true_
        exact (ih lower sound).hop (.inl (by rw [memoed]; rfl)) fun v _ => Iff.rfl
      -- otherwise the first link that opens is taken, and the walk stops where none does
      | none =>
        have opening : firstOpening subtle (trueKey userId (older + 1))
            (links.filter (KeyChainLink.hops (older + 1))) = _ :=
          firstOpening_eq fun link member plain opened =>
            wraps link (List.mem_filter.mp member).1 older plain (List.mem_filter.mp member).2 opened
        have missing (unopened : ¬ ∃ link ∈ links, link.hops (older + 1) = true ∧
            (link.opened subtle (trueKey userId (older + 1))).isSome = true) :
            ¬ Reachable subtle trueKey userId links memo older := by
          rintro (kept | opens)
          · rw [memoed] at kept
            cases kept
          · exact unopened opens
        rw [← opens_iff] at missing
        cases candidates : links.filter (KeyChainLink.hops (older + 1)) with
        | nil =>
          rw [candidates] at missing
          exact .stop lower sound (missing (by simp)) _
        | cons link rest =>
          rw [candidates] at opening missing
          simp only [opening]
          split
          next noKey =>
            split at noKey
            next => cases noKey
            next unopened => exact .stop lower sound (missing unopened) _
          next prevKey found =>
            split at found
            next opens =>
              cases found
              rw [← candidates] at opens
              refine (ih lower (sound.insert userId older)).hop (.inr (opens_iff.mp opens)) ?_
              exact fun v below => reachable_insert below _
            next => cases found
    · -- the walk has arrived
      have here : target = older + 1 := by omega
      subst here
      rw [if_neg further]
      exact ⟨fun _ => rfl, fun missing => absurd (fun v above below => absurd below (by omega)) missing, sound⟩

/-- From the true key of the current version, the walk returns the true key of the target where
it can be reached, else throws, and stores true keys only. -/
theorem resolveBackupKey_correct (wraps : Wraps subtle trueKey userId links) {current target : Nat}
    (older : target ≤ current) (sound : TrueMemo trueKey memo) :
    (Resolvable subtle trueKey userId links memo current target →
      (resolveBackupKey subtle userId (trueKey userId current) current target links memo).1 =
        .ok (trueKey userId target)) ∧
    (¬ Resolvable subtle trueKey userId links memo current target →
      ∃ e, (resolveBackupKey subtle userId (trueKey userId current) current target links memo).1 =
        .error e) ∧
    TrueMemo trueKey
      (resolveBackupKey subtle userId (trueKey userId current) current target links memo).2 := by
  rw [resolveBackupKey]
  by_cases same : target = current
  · subst same
    rw [if_pos rfl]
    refine ⟨fun _ => rfl, fun missing => absurd (.inr fun v above below => ?_) missing, sound⟩
    omega
  · rw [if_neg same, if_neg (by omega)]
    cases memoed : memo.get (userId, target) with
    | some key =>
      have true_ := sound userId target key memoed
      subst true_
      refine ⟨fun _ => rfl, fun missing => absurd (.inl ?_) missing, sound⟩
      rw [memoed]
      rfl
    | none =>
      have spec := walk_spec wraps older sound
      have hops : Resolvable subtle trueKey userId links memo current target ↔
          ∀ v, target ≤ v → v < current → Reachable subtle trueKey userId links memo v := by
        unfold Resolvable
        rw [memoed]
        simp
      rw [hops]
      exact ⟨spec.arrives, spec.stops, spec.sound⟩

end Walk

/-! ### A walk -/

section Sample

/-- Keys that are their own raw bytes, and ciphertexts that start with the key. -/
def plainSubtle : Subtle (List UInt8) where
  atob := atob
  decrypt key _ ct := if key.isPrefixOf ct then some (ct.drop key.length) else none
  importKey bytes := some bytes

/-- The key of a version is its number. -/
def plainKey (_ : String) (version : Nat) : List UInt8 := [.ofNat version]

/-- A link that is no base64, one under a lost key, and the hops from three down to one. -/
def forkedChain : List KeyChainLink :=
  [⟨.int 2, .int 3, "AA==", "!"⟩, ⟨.int 2, .int 3, "AA==", "BwI="⟩, ⟨.int 1, .int 2, "AA==", "AgE="⟩,
    ⟨.int 2, .int 3, "AA==", "AwI="⟩]

theorem forked_wraps : Wraps plainSubtle plainKey "a" forkedChain := by
  have each : ∀ link ∈ forkedChain, ∀ older ∈ [1, 2], link.hops (older + 1) = true →
      ∀ plain ∈ link.opened plainSubtle (plainKey "a" (older + 1)),
        plainSubtle.importKey plain = some (plainKey "a" older) := by decide
  intro link member older plain hop opened
  refine each link member older ?_ hop plain opened
  have last : ∀ l ∈ forkedChain, l.to_ = .int 2 ∨ l.to_ = .int 3 := by decide
  simp only [KeyChainLink.hops, Bool.and_eq_true, decide_eq_true_eq] at hop
  rcases last link member with two | three
  · rw [hop.1, Number.int.injEq] at two
    simp only [List.mem_cons, List.not_mem_nil]
    omega
  · rw [hop.1, Number.int.injEq] at three
    simp only [List.mem_cons, List.not_mem_nil]
    omega

/-- The walk finds its way through the fork. -/
theorem forked_resolved :
    (resolveBackupKey plainSubtle "a" (plainKey "a" 3) 3 1 forkedChain .empty).1 =
      .ok (plainKey "a" 1) := by
  refine (resolveBackupKey_correct forked_wraps (by decide) ?_).1 (.inr ?_)
  · intro user version key found
    cases found
  · intro older above below
    have here : older = 1 ∨ older = 2 := by omega
    rcases here with rfl | rfl
    · exact .inr (by decide)
    · exact .inr (by decide)

end Sample

/-! ### Appending -/

section Append

variable {link : KeyChainLink} {stored : Option ChainFile} {get : GetOutcome}

/-- The links of a stored chain. -/
def storedLinks : Option ChainFile → List Js
  | some (some (.obj fields)) => chainLinks fields
  | _ => []

/-- A link, and of another hop. -/
def otherHop (link : KeyChainLink) (l : Js) : Bool :=
  match sameHop link l with
  | .ok same => !same
  | .error _ => false

/-- Once an append returns, the new link is stored and the old links of other hops still are; an
append that does not get to its PUT leaves the chain as it was. -/
structure Preserves (link : KeyChainLink) (stored : Option ChainFile) (done : Appended) : Prop where
  added : done.result = .ok () → link.toJs ∈ storedLinks done.stored
  kept : done.result = .ok () → ∀ l ∈ storedLinks stored, otherHop link l = true →
    l ∈ storedLinks done.stored
  untouched : done.put = false → done.stored = stored

theorem mem_dropHop {links others : List Js} (dropped : dropHop link links = .ok others) {l : Js}
    (member : l ∈ links) (other : otherHop link l = true) : l ∈ others := by
  induction links generalizing others with
  | nil => cases member
  | cons first rest ih =>
    rw [dropHop] at dropped
    cases same : sameHop link first with
    | error e => simp [same, bind, Except.bind] at dropped
    | ok hop =>
      cases tail : dropHop link rest with
      | error e => simp [same, tail, bind, Except.bind] at dropped
      | ok others' =>
        simp only [same, tail, bind, Except.bind, pure, Except.pure, Except.ok.injEq] at dropped
        rcases List.mem_cons.mp member with rfl | later
        · have apart : hop = false := by simpa [otherHop, same] using other
          rw [← dropped, apart]
          simp
        · have inside := ih tail later
          rw [← dropped]
          split
          next => exact inside
          next => exact List.mem_cons_of_mem _ inside

@[simp] theorem lastOf_setMember (fields : List (String × Js)) (name : String) (x : Js) :
    Js.lastOf (setMember fields name x) name = x := by
  simp [Js.lastOf, setMember]

/-- A PUT that returns has written the body. -/
theorem putWithRetry_ok {body : ChainFile} {outcomes : List PutOutcome}
    (returned : (putWithRetry stored body outcomes).1 = .ok ()) :
    (putWithRetry stored body outcomes).2 = some body := by
  induction outcomes generalizing stored with
  | nil => cases returned
  | cons outcome rest ih =>
    cases outcome with
    | done => rfl
    | refused => cases returned
    | failed written => exact ih returned

/-- What an append can do: stop before its PUT, or write the other hops and the link. -/
theorem appendChainLink_cases (link : KeyChainLink) (stored : Option ChainFile) (get : GetOutcome)
    (presigned : Bool) (first second : PutOutcome) :
    (∃ e, appendChainLink link stored get presigned first second = ⟨.error e, false, stored⟩) ∨
    ∃ others body, dropHop link (chainLinks (fetchChain stored get)) = .ok others ∧
      storedLinks (some body) = others ++ [link.toJs] ∧
      appendChainLink link stored get presigned first second =
        ⟨(putWithRetry stored body [first, second]).1, true,
          (putWithRetry stored body [first, second]).2⟩ := by
  unfold appendChainLink
  dsimp only
  cases dropHop link (chainLinks (fetchChain stored get)) with
  | error e => exact .inl ⟨e, rfl⟩
  | ok others =>
    cases presigned with
    | false => exact .inl ⟨_, rfl⟩
    | true =>
      refine .inr ⟨others, _, rfl, ?_, rfl⟩
      simp [storedLinks, chainLinks]

/-- An answered GET reads the stored links. -/
theorem fetchChain_answered (stored : Option ChainFile) :
    chainLinks (fetchChain stored .answered) = storedLinks stored := by
  rcases stored with _ | _ | parsed
  · rfl
  · rfl
  · cases parsed with
    | obj fields =>
      unfold fetchChain storedLinks chainLinks
      simp only [storeGet]
      cases links : Js.lastOf fields "links" with
      | arr found => simp only [links]
      | _ => simp [emptyChain, Js.lastOf]
    | _ => rfl

/-- A failed GET reads no links. -/
theorem fetchChain_failed (stored : Option ChainFile) {get : GetOutcome} (failed : get ≠ .answered) :
    fetchChain stored get = emptyChain := by
  cases get with
  | answered => exact absurd rfl failed
  | undecodable => rfl
  | refused status => rfl
  | lost => rfl

/-- Where the GET failed and the PUT succeeds, the new link is all there is. -/
theorem append_failed (link : KeyChainLink) (stored : Option ChainFile) {get : GetOutcome}
    (failed : get ≠ .answered) : appendChainLink link stored get true .done .done =
      ⟨.ok (), true, some (some (.obj (setMember emptyChain "links" (.arr [link.toJs]))))⟩ := by
  rw [appendChainLink, fetchChain_failed stored failed]
  rfl

theorem sameHop_self (link : KeyChainLink) : sameHop link link.toJs = .ok true := by
  simp [sameHop, KeyChainLink.toJs, Js.lastOf, Js.same, bind, Except.bind, pure, Except.pure]

/-- However the grant and the PUTs turn out, an append preserves the other hops exactly where the
GET was answered, or where there is no other hop to lose. -/
theorem append_preserves_iff (link : KeyChainLink) (stored : Option ChainFile) (get : GetOutcome) :
    (∀ presigned first second,
      Preserves link stored (appendChainLink link stored get presigned first second)) ↔
    get = .answered ∨ ∀ l ∈ storedLinks stored, otherHop link l = false := by
  constructor
  · intro preserves
    by_cases answered : get = .answered
    · exact .inl answered
    · right
      intro l member
      by_contra other
      rw [Bool.not_eq_false] at other
      -- The grant comes and the PUT succeeds, so all that is stored is the new link.
      have kept := (preserves true .done .done).kept
      rw [append_failed link stored answered] at kept
      have inside := kept rfl l member other
      rw [storedLinks, chainLinks, lastOf_setMember] at inside
      rw [List.mem_singleton.mp inside, otherHop, sameHop_self] at other
      cases other
  · rintro condition presigned first second
    rcases appendChainLink_cases link stored get presigned first second with ⟨e, stopped⟩ |
      ⟨others, body, dropped, wrote, put⟩
    · rw [stopped]
      exact ⟨fun ok => (by cases ok), fun ok => (by cases ok), fun _ => rfl⟩
    · rw [put]
      refine ⟨fun ok => ?_, fun ok l member other => ?_, fun no => (by cases no)⟩
      · rw [putWithRetry_ok ok, wrote]
        simp
      · rw [putWithRetry_ok ok, wrote]
        rcases condition with answered | none_
        · rw [answered, fetchChain_answered] at dropped
          exact List.mem_append_left _ (mem_dropHop dropped member other)
        · rw [none_ l member] at other
          cases other

end Append

section Sample

def firstHop : KeyChainLink := ⟨.int 1, .int 2, "AA==", "AgE="⟩

def secondHop : KeyChainLink := ⟨.int 2, .int 3, "AA==", "AwI="⟩

def rotatedOnce : Option ChainFile := some (some (.obj [("links", .arr [firstHop.toJs])]))

/-- The store does not answer for a moment, and the first hop is gone. -/
theorem unread_chain_lost :
    (appendChainLink secondHop rotatedOnce (.refused 503) true .done .done).result = .ok () ∧
    ¬ Preserves secondHop rotatedOnce
      (appendChainLink secondHop rotatedOnce (.refused 503) true .done .done) := by
  have failed : GetOutcome.refused 503 ≠ .answered := by decide
  rw [append_failed secondHop rotatedOnce failed]
  refine ⟨rfl, fun preserves => ?_⟩
  have other : otherHop secondHop firstHop.toJs = true := by decide
  have kept := preserves.kept rfl firstHop.toJs (by simp [rotatedOnce, storedLinks, chainLinks, Js.lastOf])
    other
  rw [storedLinks, chainLinks, lastOf_setMember] at kept
  rw [List.mem_singleton.mp kept, otherHop, sameHop_self] at other
  cases other

end Sample

end Atmin.Web
