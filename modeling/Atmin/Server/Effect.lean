import Atmin.Interaction.RelyGuarantee
import Atmin.Interaction.ObjectMap
import Atmin.Data.Value
import Atmin.Server.Paths
import Atmin.Server.Error

/-!
# What a handler may ask for

The requests of a handler to the object store (`store.rs`, `store_mem.rs`, `store_s3.rs`),
to the keyed locks (`keyed_mutex.rs`), to the in-process caches (`cache.rs`), to the clock
and to the id generator. One request is one step of an interleaving.
-/

namespace Atmin

open Interaction

/-- A key of one of the two keyed mutexes. -/
inductive Lock where
  /-- `HandleClaimMutex`, keyed by handle. -/
  | handleClaim (handle : String)
  /-- `RotationMutex`, keyed by uid. -/
  | rotation (uid : String)
  deriving DecidableEq, Repr

structure ListPage where
  keys : List String
  nextCursor : Option String
  deriving DecidableEq, Repr

/-- The acquire timed out. -/
inductive Contention where
  | mk
  deriving DecidableEq, Repr

inductive Reservation where
  | granted
  | deniedBytes
  | deniedCount
  deriving DecidableEq, Repr

inductive Op where
  | getObject (key : String)
  | putObject (key : String) (data : Data)
  | headObject (key : String)
  | deleteObject (key : String)
  | deleteObjects (keys : List String)
  | listObjects (pre : String) (limit : Nat) (cursor : Option String)
  | presignPut (key : String) (contentLength : Nat) (ttl : Int)
  | acquire (lock : Lock)
  | release (lock : Lock)
  | utcNow
  | newUlid
  | deviceCacheValid (key : String)
  | deviceCacheSet (key : String)
  | deviceCacheInvalidate (key : String)
  | profileCacheGet (uid : String)
  | profileCacheSet (uid : String) (kv : UInt32)
  | profileCacheInvalidate (uid : String)
  | consumeNonce (nonce : String)
  | reserveUpload (uid : String) (bytes : Nat)
  | getUsage (uid : String)
  | quotaInvalidate (uid : String)
  | notify (uid event : String)

@[reducible] def Res : Op → Type
  | .getObject _ => Except StoreError Data
  | .putObject .. | .headObject _ | .deleteObject _ | .deleteObjects _ => Except StoreError Unit
  | .listObjects .. => Except StoreError ListPage
  | .presignPut .. => Except StoreError Unit
  | .acquire _ => Except Contention Unit
  | .release _ => Unit
  | .utcNow => Int
  | .newUlid => String
  | .deviceCacheValid _ | .consumeNonce _ => Bool
  | .profileCacheGet _ => Option UInt32
  | .reserveUpload .. => Except StoreError Reservation
  | .getUsage _ => Except StoreError (Nat × Nat)
  | .deviceCacheSet _ | .deviceCacheInvalidate _ | .profileCacheSet .. | .profileCacheInvalidate _
  | .quotaInvalidate _ | .notify .. => Unit

/-- An upload URL: the bytes it admits to a key, and until when. -/
structure Grant where
  key : String
  contentLength : Nat
  expires : Int
  deriving DecidableEq, Repr

/-- Store and server memory. A lock maps to the slot that holds it. -/
structure Sys (ι : Type) where
  objects : ObjectMap String Data
  holder : Lock → Option ι := fun _ => none
  clock : Int := 0
  issued : List String := []
  grants : List Grant := []
  deviceCache : List String := []
  profileCache : List (String × UInt32) := []
  nonces : List String := []

/-- What the environment decides about one request. -/
inductive Choice where
  /-- The request succeeds. -/
  | ok
  /-- The backend reports an error; the effect may have taken place all the same. -/
  | fail (err : String) (applied : Bool)
  /-- A bulk delete reports an error after removing these keys. -/
  | failSome (err : String) (gone : List String)
  /-- A wait timed out, or a cache entry or nonce has expired. -/
  | expire
  /-- The clock shows this instant. -/
  | read (t : Int)
  /-- The generator yields this id. -/
  | mint (s : String)
  | reservation (r : Reservation)
  | usage (bytes count : Nat)
  deriving DecidableEq, Repr

/-- No storage fault: timeouts and expiry are still possible. -/
def Choice.healthy : Choice → Bool
  | .fail .. | .failSome .. => false
  | _ => true

variable {ι : Type}

namespace Sys

/-- `get_object` on a healthy store. -/
def lookup (s : Sys ι) (key : String) : Except StoreError Data :=
  match s.objects.get key with
  | some d => .ok d
  | none => .error .notFound

def put (s : Sys ι) (key : String) (d : Data) : Sys ι :=
  { s with objects := s.objects.insert key d }

def remove (s : Sys ι) (keys : List String) : Sys ι :=
  { s with objects := s.objects.eraseAll keys }

def listing (s : Sys ι) (pre : String) (limit : Nat) (cursor : Option String) : ListPage :=
  let page := s.objects.page (startsWith · pre) limit cursor
  ⟨page.1, page.2⟩

end Sys

/-- One request of slot `i` under a choice of the environment. -/
def exec (i : ι) (o : Op) (c : Choice) (s : Sys ι) : Option (Res o × Sys ι) :=
  match o, c with
  | .getObject key, .ok => some (s.lookup key, s)
  | .getObject _, .fail err _ => some (.error (.backend err), s)
  | .putObject key d, .ok => some (.ok (), s.put key d)
  -- a write that failed may have been applied all the same
  | .putObject key d, .fail err applied =>
    some (.error (.backend err), if applied then s.put key d else s)
  | .headObject key, .ok =>
    some (if (s.objects.get key).isSome then .ok () else .error .notFound, s)
  | .headObject _, .fail err _ => some (.error (.backend err), s)
  | .deleteObject key, .ok => some (.ok (), s.remove [key])
  | .deleteObject key, .fail err applied =>
    some (.error (.backend err), if applied then s.remove [key] else s)
  | .deleteObjects keys, .ok => some (.ok (), s.remove keys)
  -- a bulk delete may fail for some of its keys
  | .deleteObjects keys, .failSome err gone =>
    some (.error (.backend err), s.remove (keys.filter (· ∈ gone)))
  | .listObjects pre limit cursor, .ok => some (.ok (s.listing pre limit cursor), s)
  | .listObjects .., .fail err _ => some (.error (.backend err), s)
  -- presigning writes nothing yet: it grants one upload until it expires
  | .presignPut key contentLength ttl, .ok =>
    some (.ok (), { s with grants := ⟨key, contentLength, s.clock + ttl⟩ :: s.grants })
  | .presignPut .., .fail err _ => some (.error (.backend err), s)
  -- the lock comes when it is free, or the wait for it ends
  | .acquire lock, .ok => match s.holder lock with
    | none => some (.ok (), { s with holder := Function.update s.holder lock (some i) })
    | some _ => none
  | .acquire _, .expire => some (.error .mk, s)
  | .release lock, .ok => some ((), { s with holder := Function.update s.holder lock none })
  -- the clock does not run back
  | .utcNow, .read t => if s.clock ≤ t then some (t, { s with clock := t }) else none
  -- no ULID is minted twice
  | .newUlid, .mint x =>
    if validateUlid x = true ∧ x ∉ s.issued then some (x, { s with issued := x :: s.issued })
    else none
  -- a cached entry may have expired, and then it is a miss
  | .deviceCacheValid key, .ok => some (decide (key ∈ s.deviceCache), s)
  | .deviceCacheValid _, .expire => some (false, s)
  | .deviceCacheSet key, .ok => some ((), { s with deviceCache := key :: s.deviceCache })
  | .deviceCacheInvalidate key, .ok =>
    some ((), { s with deviceCache := s.deviceCache.filter (· ≠ key) })
  | .profileCacheGet uid, .ok =>
    some ((s.profileCache.find? fun e => decide (e.1 = uid)).map Prod.snd, s)
  | .profileCacheGet _, .expire => some (none, s)
  | .profileCacheSet uid kv, .ok => some ((), { s with profileCache := (uid, kv) :: s.profileCache })
  | .profileCacheInvalidate uid, .ok =>
    some ((), { s with profileCache := s.profileCache.filter fun e => decide (e.1 ≠ uid) })
  -- a nonce is gone after the attempt, whether it was still valid or not
  | .consumeNonce nonce, .ok =>
    some (decide (nonce ∈ s.nonces), { s with nonces := s.nonces.filter (· ≠ nonce) })
  | .consumeNonce nonce, .expire => some (false, { s with nonces := s.nonces.filter (· ≠ nonce) })
  | .reserveUpload .., .reservation r => some (.ok r, s)
  | .reserveUpload .., .fail err _ => some (.error (.backend err), s)
  | .getUsage _, .usage bytes count => some (.ok (bytes, count), s)
  | .getUsage _, .fail err _ => some (.error (.backend err), s)
  | .quotaInvalidate _, .ok => some ((), s)
  | .notify .., .ok => some ((), s)
  | _, _ => none

/-- On a healthy store a read is a lookup, and changes nothing. -/
example (i : ι) (key : String) (s : Sys ι) :
    exec i (.getObject key) .ok s = some (s.lookup key, s) := by simp only [exec]

/-- Requests under the choices that `allow` admits. -/
def serve (allow : Choice → Bool) (i : ι) (o : Op) (c : Choice) (s : Sys ι) :
    Option (Res o × Sys ι) :=
  if allow c then exec i o c s else none

/-- Any storage operation may fail. -/
abbrev Faulty : ι → (o : Op) → Sys ι → Res o → Sys ι → Prop := execOf (serve fun _ => true)

/-- No storage operation fails. -/
abbrev Healthy : ι → (o : Op) → Sys ι → Res o → Sys ι → Prop := execOf (serve Choice.healthy)

abbrev Eff (α : Type) := Prog Op Res α

/-- A handler returns `Result<T, ApiError>`. -/
abbrev Handler (α : Type) := ExceptT ApiError Eff α

section Requests

variable {α β : Type}

/-- A request whose reply the handler inspects itself. -/
def ask (o : Op) : Eff (Res o) := Prog.request o

/-- `?` on a storage request: `From<StoreError>`. -/
def tryStore (p : Eff (Except StoreError α)) : Handler α :=
  ExceptT.mk (p.bind fun
    | .ok a => .ret (.ok a)
    | .error e => .ret (.error (.ofStore e)))

/-- `.map_err(|_| e)?` on a storage request. -/
def tryStoreAs (e : ApiError) (p : Eff (Except StoreError α)) : Handler α :=
  ExceptT.mk (p.bind fun
    | .ok a => .ret (.ok a)
    | .error _ => .ret (.error e))

/-- A step that cannot end the handler; a best-effort write drops its reply. -/
def call (p : Eff α) : Handler α := ExceptT.mk (p.bind fun a => .ret (.ok a))

/-- `.ok_or(e)?` and `.map_err(|_| e)?` on a pure result. -/
def orFail (e : ApiError) : Option α → Handler α
  | some a => ExceptT.mk (.ret (.ok a))
  | none => ExceptT.mk (.ret (.error e))

/-- `if !c { return Err(e) }`. -/
def check (e : ApiError) (c : Bool) : Handler Unit :=
  ExceptT.mk (.ret (if c then .ok () else .error e))

/-- Run `body` under a keyed lock, released when it returns. -/
def withLock (lock : Lock) (onTimeout : Except ApiError α) (body : Handler α) : Handler α :=
  ExceptT.mk ((ask (.acquire lock)).bind fun
    | .error _ => .ret onTimeout
    | .ok () => Prog.bind body.run fun res => (ask (.release lock)).bind fun _ => .ret res)

end Requests

/-! ### Handlers as programs -/

section Run

variable {α β γ : Type}

-- The reply type is not indexed: at a given request it has already been reduced.
@[simp] theorem ask_bind (o : Op) (f : Res o → Eff β) :
    @Prog.bind Op Res (no_index (Res o)) β (ask o) f = .op o f := rfl

@[simp] theorem run_bind (h : Handler α) (f : α → Handler β) :
    (h >>= f).run = Prog.bind h.run fun
      | .ok a => (f a).run
      | .error e => .ret (.error e) := by
  show Prog.bind h.run (ExceptT.bindCont f) = _
  congr 1
  funext r
  cases r <;> rfl

@[simp] theorem run_pure (a : α) : (pure a : Handler α).run = .ret (.ok a) := rfl

@[simp] theorem run_throw (e : ApiError) : (throw e : Handler α).run = .ret (.error e) := rfl

@[simp] theorem run_tryStore (p : Eff (Except StoreError α)) :
    (tryStore p).run = p.bind fun
      | .ok a => .ret (.ok a)
      | .error e => .ret (.error (.ofStore e)) := rfl

@[simp] theorem run_tryStoreAs (e : ApiError) (p : Eff (Except StoreError α)) :
    (tryStoreAs e p).run = p.bind fun
      | .ok a => .ret (.ok a)
      | .error _ => .ret (.error e) := rfl

@[simp] theorem run_call (p : Eff α) : (call p).run = p.bind fun a => .ret (.ok a) := rfl

@[simp] theorem run_orFail_some (e : ApiError) (a : α) :
    (orFail e (some a)).run = .ret (.ok a) := rfl

@[simp] theorem run_orFail_none (e : ApiError) :
    (orFail e (none : Option α)).run = .ret (.error e) := rfl

@[simp] theorem run_check (e : ApiError) (c : Bool) :
    (check e c).run = .ret (if c then .ok () else .error e) := rfl

@[simp] theorem run_withLock (lock : Lock) (onTimeout : Except ApiError α) (body : Handler α) :
    (withLock lock onTimeout body).run = .op (.acquire lock) fun
      | .error _ => .ret onTimeout
      | .ok () => Prog.bind body.run fun res => .op (.release lock) fun _ => .ret res := rfl

end Run

/-! ### What each request can do -/

section Inversion

variable {allow : Choice → Bool} {i : ι} {s t : Sys ι}

/-- The reply is a backend error, which `allow` must admit. -/
def Faulted (allow : Choice → Bool) {α : Type} (r : Except StoreError α) : Prop :=
  ∃ err applied, allow (.fail err applied) = true ∧ r = .error (.backend err)

theorem not_faulted_healthy {α : Type} {r : Except StoreError α} :
    ¬ Faulted Choice.healthy r := by
  rintro ⟨err, applied, admitted, _⟩
  simp [Choice.healthy] at admitted

theorem served_iff {o : Op} {r : Res o} :
    execOf (serve allow) i o s r t ↔ ∃ c, allow c = true ∧ exec i o c s = some (r, t) := by
  simp only [execOf, serve, Option.ite_none_right_eq_some]

theorem served_getObject {key : String} {r : Res (.getObject key)}
    (served : execOf (serve allow) i (.getObject key) s r t) :
    t = s ∧ (r = s.lookup key ∨ Faulted allow r) := by
  obtain ⟨c, admitted, h⟩ := served_iff.mp served
  cases c <;> simp only [exec, Option.some.injEq, Prod.mk.injEq, reduceCtorEq] at h
  case ok => exact ⟨h.2.symm, .inl h.1.symm⟩
  case fail err applied => exact ⟨h.2.symm, .inr ⟨err, applied, admitted, h.1.symm⟩⟩

theorem served_headObject {key : String} {r : Res (.headObject key)}
    (served : execOf (serve allow) i (.headObject key) s r t) :
    t = s ∧ ((r = .ok () ∧ (s.objects.get key).isSome) ∨
      (r = .error .notFound ∧ s.objects.get key = none) ∨ Faulted allow r) := by
  obtain ⟨c, admitted, h⟩ := served_iff.mp served
  cases c <;> simp only [exec, Option.some.injEq, Prod.mk.injEq, reduceCtorEq] at h
  case ok =>
    refine ⟨h.2.symm, ?_⟩
    cases present : s.objects.get key with
    | none => exact .inr (.inl ⟨by simpa [present] using h.1.symm, rfl⟩)
    | some d => exact .inl ⟨by simpa [present] using h.1.symm, rfl⟩
  case fail err applied => exact ⟨h.2.symm, .inr (.inr ⟨err, applied, admitted, h.1.symm⟩)⟩

theorem served_putObject {key : String} {d : Data} {r : Res (.putObject key d)}
    (served : execOf (serve allow) i (.putObject key d) s r t) :
    (r = .ok () ∧ t = s.put key d) ∨ (Faulted allow r ∧ (t = s.put key d ∨ t = s)) := by
  obtain ⟨c, admitted, h⟩ := served_iff.mp served
  cases c <;> simp only [exec, Option.some.injEq, Prod.mk.injEq, reduceCtorEq] at h
  case ok => exact .inl ⟨h.1.symm, h.2.symm⟩
  case fail err applied =>
    refine .inr ⟨⟨err, applied, admitted, h.1.symm⟩, ?_⟩
    cases applied with
    | false => exact .inr (by simpa using h.2.symm)
    | true => exact .inl (by simpa using h.2.symm)

theorem served_deleteObject {key : String} {r : Res (.deleteObject key)}
    (served : execOf (serve allow) i (.deleteObject key) s r t) :
    (r = .ok () ∧ t = s.remove [key]) ∨ (Faulted allow r ∧ (t = s.remove [key] ∨ t = s)) := by
  obtain ⟨c, admitted, h⟩ := served_iff.mp served
  cases c <;> simp only [exec, Option.some.injEq, Prod.mk.injEq, reduceCtorEq] at h
  case ok => exact .inl ⟨h.1.symm, h.2.symm⟩
  case fail err applied =>
    refine .inr ⟨⟨err, applied, admitted, h.1.symm⟩, ?_⟩
    cases applied with
    | false => exact .inr (by simpa using h.2.symm)
    | true => exact .inl (by simpa using h.2.symm)

theorem served_deleteObjects {keys : List String} {r : Res (.deleteObjects keys)}
    (served : execOf (serve allow) i (.deleteObjects keys) s r t) :
    (r = .ok () ∧ t = s.remove keys) ∨
      ∃ err gone, allow (.failSome err gone) = true ∧ r = .error (.backend err) ∧
        t = s.remove (keys.filter (· ∈ gone)) := by
  obtain ⟨c, admitted, h⟩ := served_iff.mp served
  cases c <;> simp only [exec, Option.some.injEq, Prod.mk.injEq, reduceCtorEq] at h
  case ok => exact .inl ⟨h.1.symm, h.2.symm⟩
  case failSome err gone => exact .inr ⟨err, gone, admitted, h.1.symm, h.2.symm⟩

theorem served_listObjects {pre : String} {limit : Nat} {cursor : Option String}
    {r : Res (.listObjects pre limit cursor)}
    (served : execOf (serve allow) i (.listObjects pre limit cursor) s r t) :
    t = s ∧ (r = .ok (s.listing pre limit cursor) ∨ Faulted allow r) := by
  obtain ⟨c, admitted, h⟩ := served_iff.mp served
  cases c <;> simp only [exec, Option.some.injEq, Prod.mk.injEq, reduceCtorEq] at h
  case ok => exact ⟨h.2.symm, .inl h.1.symm⟩
  case fail err applied => exact ⟨h.2.symm, .inr ⟨err, applied, admitted, h.1.symm⟩⟩

theorem served_presignPut {key : String} {contentLength : Nat} {ttl : Int}
    {r : Res (.presignPut key contentLength ttl)}
    (served : execOf (serve allow) i (.presignPut key contentLength ttl) s r t) :
    (r = .ok () ∧
      t = { s with grants := ⟨key, contentLength, s.clock + ttl⟩ :: s.grants }) ∨
    (t = s ∧ Faulted allow r) := by
  obtain ⟨c, admitted, h⟩ := served_iff.mp served
  cases c <;> simp only [exec, Option.some.injEq, Prod.mk.injEq, reduceCtorEq] at h
  case ok => exact .inl ⟨h.1.symm, h.2.symm⟩
  case fail err applied => exact .inr ⟨h.2.symm, err, applied, admitted, h.1.symm⟩

theorem served_acquire {lock : Lock} {r : Res (.acquire lock)}
    (served : execOf (serve allow) i (.acquire lock) s r t) :
    (r = .ok () ∧ s.holder lock = none ∧
      t = { s with holder := Function.update s.holder lock (some i) }) ∨
    (r = .error .mk ∧ t = s) := by
  obtain ⟨c, _, h⟩ := served_iff.mp served
  cases c <;> simp only [exec, Option.some.injEq, Prod.mk.injEq, reduceCtorEq] at h
  case ok =>
    cases free : s.holder lock with
    | none => simp only [free, Option.some.injEq, Prod.mk.injEq] at h
              exact .inl ⟨h.1.symm, rfl, h.2.symm⟩
    | some j => simp [free] at h
  case expire => exact .inr ⟨h.1.symm, h.2.symm⟩

theorem served_release {lock : Lock} {r : Res (.release lock)}
    (served : execOf (serve allow) i (.release lock) s r t) :
    t = { s with holder := Function.update s.holder lock none } := by
  obtain ⟨c, _, h⟩ := served_iff.mp served
  cases c <;> simp only [exec, Option.some.injEq, Prod.mk.injEq, reduceCtorEq] at h
  exact h.2.symm

theorem served_utcNow {r : Res .utcNow} (served : execOf (serve allow) i .utcNow s r t) :
    s.clock ≤ r ∧ t = { s with clock := r } := by
  obtain ⟨c, _, h⟩ := served_iff.mp served
  cases c <;> simp only [exec, reduceCtorEq] at h
  case read now =>
    split at h
    next later => cases h; exact ⟨later, rfl⟩
    next => cases h

theorem served_newUlid {r : Res .newUlid} (served : execOf (serve allow) i .newUlid s r t) :
    validateUlid r = true ∧ r ∉ s.issued ∧ t = { s with issued := r :: s.issued } := by
  obtain ⟨c, _, h⟩ := served_iff.mp served
  cases c <;> simp only [exec, reduceCtorEq] at h
  case mint x =>
    split at h
    next fresh => cases h; exact ⟨fresh.1, fresh.2, rfl⟩
    next => cases h

theorem served_deviceCacheValid {key : String} {r : Res (.deviceCacheValid key)}
    (served : execOf (serve allow) i (.deviceCacheValid key) s r t) :
    t = s ∧ (r = true → key ∈ s.deviceCache) := by
  obtain ⟨c, _, h⟩ := served_iff.mp served
  cases c <;> simp only [exec, Option.some.injEq, Prod.mk.injEq, reduceCtorEq] at h
  case ok =>
    obtain ⟨rfl, rfl⟩ := h
    exact ⟨rfl, of_decide_eq_true⟩
  case expire =>
    obtain ⟨rfl, rfl⟩ := h
    exact ⟨rfl, fun wrong => nomatch wrong⟩

theorem served_deviceCacheSet {key : String} {r : Res (.deviceCacheSet key)}
    (served : execOf (serve allow) i (.deviceCacheSet key) s r t) :
    t = { s with deviceCache := key :: s.deviceCache } := by
  obtain ⟨c, _, h⟩ := served_iff.mp served
  cases c <;> simp only [exec, Option.some.injEq, Prod.mk.injEq, reduceCtorEq] at h
  exact h.2.symm

theorem served_deviceCacheInvalidate {key : String} {r : Res (.deviceCacheInvalidate key)}
    (served : execOf (serve allow) i (.deviceCacheInvalidate key) s r t) :
    t = { s with deviceCache := s.deviceCache.filter (· ≠ key) } := by
  obtain ⟨c, _, h⟩ := served_iff.mp served
  cases c <;> simp only [exec, Option.some.injEq, Prod.mk.injEq, reduceCtorEq] at h
  exact h.2.symm

theorem served_profileCacheGet {uid : String} {r : Res (.profileCacheGet uid)}
    (served : execOf (serve allow) i (.profileCacheGet uid) s r t) :
    t = s ∧ ∀ kv, r = some kv → (uid, kv) ∈ s.profileCache := by
  obtain ⟨c, _, h⟩ := served_iff.mp served
  cases c <;> simp only [exec, Option.some.injEq, Prod.mk.injEq, reduceCtorEq] at h
  case ok =>
    obtain ⟨rfl, rfl⟩ := h
    refine ⟨rfl, fun kv hit => ?_⟩
    obtain ⟨⟨other, v⟩, found, rfl⟩ := Option.map_eq_some_iff.mp hit
    have same : other = uid := by simpa using List.find?_some found
    rw [← same]
    exact List.mem_of_find?_eq_some found
  case expire =>
    obtain ⟨rfl, rfl⟩ := h
    exact ⟨rfl, fun kv hit => nomatch hit⟩

/-- Requests to server memory other than the locks. -/
def Op.volatile : Op → Bool
  | .deviceCacheValid _ | .deviceCacheSet _ | .deviceCacheInvalidate _ | .profileCacheGet _
  | .profileCacheSet .. | .profileCacheInvalidate _ | .consumeNonce _ | .reserveUpload ..
  | .getUsage _ | .quotaInvalidate _ | .notify .. => true
  | _ => false

/-- Server memory other than the locks changes nothing durable. -/
theorem served_volatile {o : Op} {r : Res o} (served : execOf (serve allow) i o s r t)
    (memory : o.volatile = true) : ∃ deviceCache profileCache nonces,
      t = { s with deviceCache, profileCache, nonces } := by
  obtain ⟨c, _, h⟩ := served_iff.mp served
  cases o <;> simp only [Op.volatile, Bool.false_eq_true] at memory <;>
    cases c <;> simp only [exec, Option.some.injEq, Prod.mk.injEq, reduceCtorEq] at h <;>
    exact ⟨_, _, _, h.2.symm⟩

/-- Reads of the store and the clock. -/
def Op.reads : Op → Bool
  | .getObject _ | .headObject _ | .listObjects .. | .utcNow => true
  | _ => false

/-- Reads of the store and the clock, and server memory: nothing durable is written. -/
def Op.passive : Op → Bool
  | .getObject _ | .headObject _ | .listObjects .. | .utcNow => true
  | o => o.volatile

theorem Op.passive_of_reads {o : Op} (reads : o.reads = true) : o.passive = true := by
  cases o <;> first | rfl | cases reads

theorem served_passive {o : Op} {r : Res o} (served : execOf (serve allow) i o s r t)
    (reads : o.passive = true) : ∃ clock deviceCache profileCache nonces,
      s.clock ≤ clock ∧ t = { s with clock, deviceCache, profileCache, nonces } := by
  have volatile_case (memory : o.volatile = true) : ∃ clock deviceCache profileCache nonces,
      s.clock ≤ clock ∧ t = { s with clock, deviceCache, profileCache, nonces } := by
    obtain ⟨dc, pc, n, rfl⟩ := served_volatile served memory
    exact ⟨s.clock, dc, pc, n, le_rfl, rfl⟩
  cases o with
  | getObject key =>
    obtain ⟨rfl, _⟩ := served_getObject served
    exact ⟨_, _, _, _, le_rfl, rfl⟩
  | headObject key =>
    obtain ⟨rfl, _⟩ := served_headObject served
    exact ⟨_, _, _, _, le_rfl, rfl⟩
  | listObjects pre limit cursor =>
    obtain ⟨rfl, _⟩ := served_listObjects served
    exact ⟨_, _, _, _, le_rfl, rfl⟩
  | utcNow =>
    obtain ⟨later, rfl⟩ := served_utcNow served
    exact ⟨_, _, _, _, later, rfl⟩
  | _ => exact volatile_case reads

end Inversion

end Atmin
