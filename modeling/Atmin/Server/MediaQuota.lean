import Atmin.Interaction.Tally
import Atmin.Server.Sequential

/-!
# The media quota (`media_quota.rs`)

The per-user usage cache behind `reserve_upload`, `get_usage` and `invalidate`, and the
server with this quota store in place of an arbitrary one.
-/

namespace Atmin

open Interaction

/-- 1 GiB. -/
def USER_MEDIA_QUOTA_BYTES : Nat := 2 ^ 30

/-- One listing page. -/
def USER_MEDIA_BLOB_CAP : Nat := 1000

def QUOTA_CACHE_TTL_SECS : Int := 600

/-- `expiresAt` is absent until first populated, and after an invalidation. -/
structure QuotaEntry where
  usageBytes : Nat := 0
  blobCount : Nat := 0
  expiresAt : Option Int := none
  deriving DecidableEq, Repr

structure ObjectSizes where
  totalBytes : Nat
  count : Nat
  truncated : Bool
  deriving DecidableEq, Repr

/-- A server with its quota cache: one entry a user, made on first use. -/
structure Metered (ι : Type) where
  sys : Sys ι
  entries : String → QuotaEntry := fun _ => {}

variable {ι : Type}

/-- The sizes of the first `limit` objects under a prefix, in key order. -/
def listObjectSizes (size : Data → Nat) (s : Sys ι) (pre : String) (limit : Nat) : ObjectSizes :=
  let sizes := (s.objects.keysAfter (startsWith · pre) none).filterMap
    fun k => (s.objects.get k).map size
  { totalBytes := (sizes.take limit).sum, count := (sizes.take limit).length,
    truncated := decide (limit < sizes.length) }

namespace QuotaEntry

/-- `e.expires_at.is_none_or(|exp| now > exp)`. -/
def expired (now : Int) (e : QuotaEntry) : Bool := e.expiresAt.all fun exp => decide (exp < now)

/-- `refresh_if_expired`, on a probe that succeeds. -/
def refreshIfExpired (size : Data → Nat) (now : Int) (uid : String) (s : Sys ι) (e : QuotaEntry) :
    QuotaEntry :=
  if e.expired now then
    let sizes := listObjectSizes size s (prefixMedia uid) USER_MEDIA_BLOB_CAP
    { usageBytes := sizes.totalBytes, blobCount := sizes.count,
      expiresAt := some (now + QUOTA_CACHE_TTL_SECS * second) }
  else e

/-- `reserve_upload` on a fresh entry: only a grant increments. -/
def reserve (bytes : Nat) (e : QuotaEntry) : Reservation × QuotaEntry :=
  if USER_MEDIA_BLOB_CAP < e.blobCount + 1 then (.deniedCount, e)
  else if USER_MEDIA_QUOTA_BYTES < e.usageBytes + bytes then (.deniedBytes, e)
  else (.granted, { e with usageBytes := e.usageBytes + bytes, blobCount := e.blobCount + 1 })

def invalidate (e : QuotaEntry) : QuotaEntry := { e with expiresAt := none }

theorem refreshIfExpired_populated {size : Data → Nat} {now : Int} {uid : String} {s : Sys ι}
    {e : QuotaEntry} : (e.refreshIfExpired size now uid s).expiresAt ≠ none := by
  rw [refreshIfExpired]
  split
  next => exact Option.some_ne_none _
  next fresh =>
    intro absent
    simp [expired, absent] at fresh

theorem reserve_cases (bytes : Nat) (e : QuotaEntry) :
    ((e.reserve bytes).1 ≠ .granted ∧ (e.reserve bytes).2 = e) ∨
      (e.reserve bytes).1 = .granted ∧ e.blobCount < USER_MEDIA_BLOB_CAP ∧
        e.usageBytes + bytes ≤ USER_MEDIA_QUOTA_BYTES ∧
        (e.reserve bytes).2 =
          { e with usageBytes := e.usageBytes + bytes, blobCount := e.blobCount + 1 } := by
  rw [reserve]
  split
  next => exact .inl ⟨fun h => (nomatch h), rfl⟩
  next below =>
    split
    next => exact .inl ⟨fun h => (nomatch h), rfl⟩
    next room => exact .inr ⟨rfl, by omega, by omega, rfl⟩

end QuotaEntry

namespace Metered

def setEntry (s : Metered ι) (uid : String) (e : QuotaEntry) : Metered ι :=
  { s with entries := Function.update s.entries uid e }

/-- The entry of a user, refreshed. -/
def fresh (size : Data → Nat) (now : Int) (s : Metered ι) (uid : String) : QuotaEntry :=
  (s.entries uid).refreshIfExpired size now uid s.sys

end Metered

/-- One request to a server with this quota store, whose clock shows `now` to it. A probe may
fail, and then nothing has changed. -/
def meter (size : Data → Nat) (now : Int) (i : ι) (o : Op) (c : Choice) (s : Metered ι) :
    Option (Res o × Metered ι) :=
  match o with
  | .reserveUpload uid bytes => match c with
    | .ok =>
      let reserved := (s.fresh size now uid).reserve bytes
      some (.ok reserved.1, s.setEntry uid reserved.2)
    -- the probe only runs when the entry has expired
    | .fail err _ =>
      if (s.entries uid).expired now then some (.error (.backend err), s) else none
    | _ => none
  | .getUsage uid => match c with
    | .ok =>
      let e := s.fresh size now uid
      some (.ok (e.usageBytes, e.blobCount), s.setEntry uid e)
    | .fail err _ =>
      if (s.entries uid).expired now then some (.error (.backend err), s) else none
    | _ => none
  | .quotaInvalidate uid => some ((), s.setEntry uid (s.entries uid).invalidate)
  | o => (exec i o c s.sys).map fun served => (served.1, { s with sys := served.2 })

abbrev Meter (size : Data → Nat) (now : Int) (i : ι) :
    (o : Op) → Metered ι → Res o → Metered ι → Prop := execOf (meter size now) i

/-! ### What each request does -/

section Served

variable {size : Data → Nat} {now : Int} {i : ι} {s t : Metered ι}

theorem metered_reserveUpload {uid : String} {bytes : Nat} {r : Res (.reserveUpload uid bytes)}
    (served : Meter size now i (.reserveUpload uid bytes) s r t) :
    (r = .ok ((s.fresh size now uid).reserve bytes).1 ∧
      t = s.setEntry uid ((s.fresh size now uid).reserve bytes).2) ∨
    (∃ err, r = .error (.backend err)) ∧ t = s := by
  obtain ⟨c, h⟩ := served
  cases c <;> simp only [meter, Option.some.injEq, Prod.mk.injEq, reduceCtorEq] at h
  case ok => exact .inl ⟨h.1.symm, h.2.symm⟩
  case fail err applied =>
    obtain ⟨_, same⟩ := Option.ite_none_right_eq_some.mp h
    cases same
    exact .inr ⟨⟨err, rfl⟩, rfl⟩

theorem metered_getUsage {uid : String} {r : Res (.getUsage uid)}
    (served : Meter size now i (.getUsage uid) s r t) :
    t = s.setEntry uid (s.fresh size now uid) ∨ t = s := by
  obtain ⟨c, h⟩ := served
  cases c <;> simp only [meter, Option.some.injEq, Prod.mk.injEq, reduceCtorEq] at h
  case ok => exact .inl h.2.symm
  case fail err applied =>
    obtain ⟨_, same⟩ := Option.ite_none_right_eq_some.mp h
    cases same
    exact .inr rfl

theorem metered_quotaInvalidate {uid : String} {r : Res (.quotaInvalidate uid)}
    (served : Meter size now i (.quotaInvalidate uid) s r t) :
    t = s.setEntry uid (s.entries uid).invalidate := by
  obtain ⟨c, h⟩ := served
  simp only [meter, Option.some.injEq, Prod.mk.injEq] at h
  exact h.2.symm

/-- The requests that the quota store answers. -/
def Op.quota : Op → Bool
  | .reserveUpload .. | .getUsage _ | .quotaInvalidate _ => true
  | _ => false

/-- Every other request is served as ever, and no entry changes. -/
theorem metered_elsewhere {o : Op} {r : Res o} (served : Meter size now i o s r t)
    (elsewhere : o.quota = false) :
    ∃ u, Faulty i o s.sys r u ∧ t = { s with sys := u } := by
  obtain ⟨c, h⟩ := served
  have plain : meter size now i o c s =
      (exec i o c s.sys).map fun served => (served.1, { s with sys := served.2 }) := by
    cases o <;> first | rfl | cases elsewhere
  rw [plain] at h
  obtain ⟨⟨r', u⟩, ran, same⟩ := Option.map_eq_some_iff.mp h
  cases same
  exact ⟨u, served_iff.mpr ⟨c, rfl, ran⟩, rfl⟩

/-- Only the caches of the guard differ. -/
def Recached (s t : Metered ι) : Prop := ∃ deviceCache profileCache nonces,
  t = { s with sys := { s.sys with deviceCache, profileCache, nonces } }

/-- The guard fills caches; it reads everything else. -/
theorem metered_guarding {o : Op} {r : Res o} (served : Meter size now i o s r t)
    (guarding : o.guarding = true) : Recached s t := by
  have elsewhere : o.quota = false := by cases o <;> first | rfl | cases guarding
  obtain ⟨u, ran, rfl⟩ := metered_elsewhere served elsewhere
  have memory (volatile : o.volatile = true) : Recached s { s with sys := u } := by
    obtain ⟨deviceCache, profileCache, nonces, rfl⟩ := served_volatile ran volatile
    exact ⟨_, _, _, rfl⟩
  cases o with
  | getObject key =>
    obtain ⟨rfl, _⟩ := served_getObject ran
    exact ⟨_, _, _, rfl⟩
  | headObject key =>
    obtain ⟨rfl, _⟩ := served_headObject ran
    exact ⟨_, _, _, rfl⟩
  | deviceCacheValid key => exact memory rfl
  | deviceCacheSet key => exact memory rfl
  | profileCacheGet uid => exact memory rfl
  | profileCacheSet uid kv => exact memory rfl
  | _ => cases guarding

/-- Past the guard the request is the token's, and only caches have changed. -/
theorem Ends.authenticated {β : Type} {env : Env} {token : Option String} {user : AuthedUser}
    {f : AuthedUser → Handler β} {Q : Except ApiError β → Metered ι → Prop}
    (known : Token.identity env token = some user)
    (failed : ∀ e t, Recached s t → Q (.error e) t)
    (rest : ∀ t, Recached s t → Interaction.Ends (Meter size now i) (f user).run t Q) :
    Interaction.Ends (Meter size now i) (authenticate env token true >>= f).run s Q := by
  have guarded : Interaction.Ends (Meter size now i) (authenticate env token true).run s fun r t =>
      Identified env token r ∧ Recached s t := by
    refine .keeping (authenticate_guarding env token true) (fun o u r v guarding served => ?_)
      ⟨_, _, _, rfl⟩
    rintro ⟨_, _, _, rfl⟩
    obtain ⟨_, _, _, rfl⟩ := metered_guarding served guarding
    exact ⟨_, _, _, rfl⟩
  refine Ends.andThen guarded (fun e t after => failed e t after.2) fun found t after => ?_
  have same : found = user := Option.some.inj ((after.1 found rfl).symm.trans known)
  rw [same]
  exact rest t after.2

end Served

end Atmin
