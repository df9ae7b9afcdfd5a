import Atmin.Sync.Calm

/-!
# Which share of a session is kept

A session is shared at the index its ratchet has reached. Of several shares, `addInbound`
keeps the one that came first, whatever their indices are.
-/

namespace Atmin.Web

open Interaction

section Ratchets

variable {crypto : Crypto} {s t : State}

/-- A key at an index opens the messages from that index on. -/
def Inbound.reads (k : Inbound) (index : Nat) : Prop := k.firstKnownIndex ≤ index

theorem Inbound.reads_iff {k : Inbound} {ciphertext text : String} {index : Nat}
    (opens : crypto.opens k.sessionId ciphertext = some (index, text)) :
    k.reads index ↔ k.decrypt crypto ciphertext = some text := by
  unfold Inbound.reads Inbound.decrypt
  rw [opens]
  simp

/-- What happens to the session manager: a key is offered, or the page is reloaded. -/
inductive SessionVisit where
  | offer (fromUser fromDevice : Js) (sessionKey : String)
  | reload

def SessionVisit.run (crypto : Crypto) : SessionVisit → State → Option State
  | .offer fromUser fromDevice sessionKey, s =>
    ((addInbound crypto fromUser fromDevice sessionKey).run.execute calm s).map Prod.snd
  | .reload, s => (calm .reload s).map Prod.snd

/-- One after the other. -/
def visits (crypto : Crypto) (vs : List SessionVisit) (s : State) : Option State :=
  vs.foldlM (fun s v => v.run crypto s) s

/-- The key a visit offers of the session `id`. -/
def SessionVisit.key (crypto : Crypto) (id : String) : SessionVisit → Option Inbound
  | .offer _ _ sessionKey => (crypto.importSession sessionKey).filter fun k => k.sessionId = id
  | .reload => none

def keys (crypto : Crypto) (id : String) (vs : List SessionVisit) : List Inbound :=
  vs.filterMap (SessionVisit.key crypto id)

/-- What is cached is stored as well, and everything lies under its own id. -/
structure Mirrored (s : State) : Prop extends Coherent s where
  saved : ∀ id cached, s.memory.inboundCache.get id = some cached →
    (s.db.inbound.get id).map StoredInbound.session = some cached.session

/-- The session opens the index, in IndexedDB and, if it is there, in the cache. -/
structure Holds (s : State) (id : String) (index : Nat) : Prop where
  stored : ∃ stored, s.db.inbound.get id = some stored ∧ stored.session.reads index
  cached : ∀ cached, s.memory.inboundCache.get id = some cached → cached.session.reads index

theorem Mirrored.sessionOf_eq (mirrored : Mirrored s) (id : String) :
    sessionOf s id = (s.db.inbound.get id).map StoredInbound.session := by
  cases cached : s.memory.inboundCache.get id with
  | none => exact sessionOf_stored cached
  | some k => rw [mirrored.saved id k cached, sessionOf, cached, Option.some_or, Option.map_some]

/-- Every message is opened by the one session that is held. -/
theorem Mirrored.holds_iff (mirrored : Mirrored s) {id : String} {index : Nat} :
    Holds s id index ↔ ∃ k, sessionOf s id = some k ∧ k.reads index := by
  rw [mirrored.sessionOf_eq id]
  constructor
  · rintro ⟨⟨stored, found, reads⟩, -⟩
    exact ⟨stored.session, by rw [found, Option.map_some], reads⟩
  · rintro ⟨k, found, reads⟩
    obtain ⟨stored, here, rfl⟩ := Option.map_eq_some_iff.mp found
    refine ⟨⟨stored, here, reads⟩, fun cached inside => ?_⟩
    have same := (mirrored.saved id cached inside).symm.trans found
    rwa [Option.some.inj same]

/-! ### One visit -/

theorem Mirrored.cache (mirrored : Mirrored s) {id : String} {stored : StoredInbound}
    (found : s.db.inbound.get id = some stored) (held : List Inbound) :
    Mirrored { s with
      memory := { s.memory with inboundCache := s.memory.inboundCache.insert stored.session.sessionId stored }
      held := held } where
  stored := mirrored.stored
  cached id' other inside := by
    simp only [ObjectMap.get_insert] at inside
    split at inside
    next h => cases inside; exact h.symm
    next => exact mirrored.cached id' other inside
  saved id' other inside := by
    have own := mirrored.stored id stored found
    simp only [ObjectMap.get_insert] at inside
    split at inside
    next h =>
      cases inside
      rw [h, own, found, Option.map_some]
    next => exact mirrored.saved id' other inside

theorem Mirrored.keep (mirrored : Mirrored s) (stored : StoredInbound) (held : List Inbound) :
    Mirrored { s with
      memory := { s.memory with inboundCache := s.memory.inboundCache.insert stored.session.sessionId stored }
      db := s.db.saveInbound stored
      held := held } where
  stored id other found := by
    simp only [Database.saveInbound, ObjectMap.get_insert] at found
    split at found
    next h => cases found; exact h.symm
    next => exact mirrored.stored id other found
  cached id other found := by
    simp only [ObjectMap.get_insert] at found
    split at found
    next h => cases found; exact h.symm
    next => exact mirrored.cached id other found
  saved id other found := by
    simp only [ObjectMap.get_insert] at found
    simp only [Database.saveInbound, ObjectMap.get_insert]
    split at found
    next h =>
      cases found
      rw [if_pos h, Option.map_some]
    next h =>
      rw [if_neg h]
      exact mirrored.saved id other found

theorem Mirrored.reloaded (mirrored : Mirrored s) : Mirrored s.reloaded where
  stored := mirrored.stored
  cached id other inside := by cases inside
  saved id other inside := by cases inside

theorem addInbound_mirrored (mirrored : Mirrored s) {fromUser fromDevice : Js} {sessionKey : String}
    {r : Except Thrown (Inbound × Bool)}
    (ran : (addInbound crypto fromUser fromDevice sessionKey).run.execute calm s = some (r, t)) :
    Mirrored t := by
  unfold addInbound at ran
  cases imported : crypto.importSession sessionKey with
  | none =>
    simp only [imported, Async.run_bind, run_orThrow_none, Prog.ret_bind, execute_ret, Option.some.injEq,
      Prod.mk.injEq] at ran
    exact ran.2 ▸ mirrored
  | some k =>
    cases cached : s.memory.inboundCache.get k.sessionId with
    | some stored =>
      simp [-ExceptT.run_bind, imported, calm, perform, cached] at ran
      cases ran
      exact mirrored
    | none =>
      cases found : s.db.inbound.get k.sessionId with
      | some stored =>
        simp [-ExceptT.run_bind, imported, calm, perform, reading, cached, found] at ran
        cases ran
        exact mirrored.cache found _
      | none =>
        simp [-ExceptT.run_bind, imported, calm, perform, reading, writing, cached, found] at ran
        cases ran
        exact mirrored.keep ⟨fromUser, fromDevice, k⟩ _

/-- A visit succeeds, and the offered key counts if the session has none yet. -/
theorem visit_runs (mirrored : Mirrored s) (v : SessionVisit) :
    ∃ t, v.run crypto s = some t ∧ Mirrored t ∧
      ∀ id, sessionOf t id = (sessionOf s id).or (v.key crypto id) := by
  cases v with
  | reload =>
    refine ⟨s.reloaded, rfl, mirrored.reloaded, fun id => ?_⟩
    rw [mirrored.reloaded.sessionOf_eq, mirrored.sessionOf_eq, SessionVisit.key, Option.or_none]
    rfl
  | offer fromUser fromDevice sessionKey =>
    cases imported : crypto.importSession sessionKey with
    | none =>
      refine ⟨s, ?_, mirrored, fun id => ?_⟩
      · simp only [SessionVisit.run, addInbound, imported, Async.run_bind, run_orThrow_none, Prog.ret_bind,
          execute_ret, Option.map_some]
      · rw [SessionVisit.key, imported, Option.filter_none, Option.or_none]
    | some k =>
      obtain ⟨r, t, ran, follows⟩ := addInbound_does mirrored.toCoherent imported fromUser fromDevice
      refine ⟨t, by rw [SessionVisit.run, ran, Option.map_some], addInbound_mirrored mirrored ran, fun id => ?_⟩
      rw [follows.sessions, SessionVisit.key, imported]
      by_cases known : (sessionOf s k.sessionId).isSome
      · obtain ⟨k', found⟩ := Option.isSome_iff_exists.mp known
        rw [learn_known ⟨k', found⟩]
        by_cases same : k.sessionId = id
        · rw [← same, found, Option.some_or]
        · simp [Option.filter, same]
      · rw [Option.not_isSome_iff_eq_none] at known
        rw [learn_new known, Function.update_apply]
        by_cases same : id = k.sessionId
        · subst same
          simp [Option.filter, known]
        · simp [Option.filter, same, Ne.symm same]

/-! ### Any sequence of visits -/

/-- The session held in the end is the one held at first, or else the first key offered. -/
theorem visits_run (mirrored : Mirrored s) (vs : List SessionVisit) :
    ∃ t, visits crypto vs s = some t ∧ Mirrored t ∧
      ∀ id, sessionOf t id = (sessionOf s id).or (keys crypto id vs).head? := by
  induction vs generalizing s with
  | nil => exact ⟨s, rfl, mirrored, fun id => (Option.or_none).symm⟩
  | cons v rest ih =>
    obtain ⟨u, first, between, held⟩ := @visit_runs crypto s mirrored v
    obtain ⟨t, last, mirrored', held'⟩ := ih between
    refine ⟨t, ?_, mirrored', fun id => ?_⟩
    · rw [visits, List.foldlM_cons, first]
      exact last
    · rw [held', held, Option.or_assoc, keys, keys]
      cases offered : v.key crypto id with
      | none => rw [List.filterMap_cons_none offered, Option.none_or]
      | some k => rw [List.filterMap_cons_some offered, Option.some_or, List.head?_cons]

/-- No key is offered at an earlier index than the session was first held or offered at. -/
def FirstEarliest (crypto : Crypto) (s : State) (vs : List SessionVisit) (id : String) : Prop :=
  ∀ first, (sessionOf s id).or (keys crypto id vs).head? = some first →
    ∀ k ∈ keys crypto id vs, first.firstKnownIndex ≤ k.firstKnownIndex

/-- The session opens in the end what any of the offered keys opens exactly when none of them
came after one with a later index. -/
theorem earliest_kept_iff (mirrored : Mirrored s) (vs : List SessionVisit) (id : String) :
    ∃ t, visits crypto vs s = some t ∧
      ((∀ index, (∃ k ∈ keys crypto id vs, k.firstKnownIndex ≤ index) → Holds t id index) ↔
        FirstEarliest crypto s vs id) := by
  obtain ⟨t, ran, mirrored', held⟩ := @visits_run crypto s mirrored vs
  refine ⟨t, ran, ?_⟩
  simp only [mirrored'.holds_iff, held]
  constructor
  · intro opens first found k offered
    obtain ⟨k', found', reads⟩ := opens k.firstKnownIndex ⟨k, offered, le_rfl⟩
    rw [found] at found'
    exact Option.some.inj found' ▸ reads
  · rintro earliest index ⟨k, offered, le⟩
    have some_ : ((sessionOf s id).or (keys crypto id vs).head?).isSome := by
      have filled : keys crypto id vs ≠ [] := List.ne_nil_of_mem offered
      simp [Option.isSome_or, filled]
    obtain ⟨first, found⟩ := Option.isSome_iff_exists.mp some_
    exact ⟨first, found, (earliest first found k offered).trans le⟩

end Ratchets

section Samples

open Demo

/-- Two shares of the session S. -/
def ratchets : Crypto :=
  { crypto with importSession := fun key => if key = "early" then some ⟨"S", 0⟩ else some ⟨"S", 5⟩ }

def share (sessionKey : String) : SessionVisit := .offer (.str bob.str) (.str device.str) sessionKey

theorem empty_mirrored : Mirrored {} where
  stored id k found := by cases found
  cached id k found := by cases found
  saved id k found := by cases found

/-- The later index came first, and stays across a reload: the first message is lost. -/
theorem late_share_kept :
    ∃ t, visits ratchets [share "late", share "early", .reload, share "early"] {} = some t ∧
      (∃ k ∈ keys ratchets "S" [share "late", share "early", .reload, share "early"],
        k.firstKnownIndex ≤ 0) ∧ ¬ Holds t "S" 0 := by
  obtain ⟨t, ran, mirrored, held⟩ := visits_run empty_mirrored
    [share "late", share "early", .reload, share "early"]
  refine ⟨t, ran, ⟨⟨"S", 0⟩, by decide, le_rfl⟩, ?_⟩
  have first : (sessionOf {} "S").or
      (keys ratchets "S" [share "late", share "early", .reload, share "early"]).head? = some ⟨"S", 5⟩ := by
    decide
  rw [mirrored.holds_iff, held, first]
  simp [Inbound.reads]

/-- The earlier index came first. -/
theorem early_share_kept : ∃ t, visits ratchets [share "early", .reload, share "late"] {} = some t ∧
    ∀ index, (∃ k ∈ keys ratchets "S" [share "early", .reload, share "late"], k.firstKnownIndex ≤ index) →
      Holds t "S" index := by
  obtain ⟨t, ran, exact_⟩ := earliest_kept_iff empty_mirrored [share "early", .reload, share "late"] "S"
  refine ⟨t, ran, exact_.mpr fun first found k _ => ?_⟩
  have same : first = ⟨"S", 0⟩ := Option.some.inj (found.symm.trans (by decide))
  rw [same]
  exact Nat.zero_le _

end Samples

end Atmin.Web
