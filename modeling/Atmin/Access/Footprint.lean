import Atmin.Server.Log
import Atmin.Inbox.Contracts

/-!
# The footprint of the handlers

Which keys each endpoint may write or delete, whatever is stored and whatever fails.
-/

namespace Atmin

open Interaction

/-- Writes only keys in `W`, and deletes only keys in `D`. -/
def Op.Stays (W D : String → Prop) (o : Op) : Prop :=
  (∀ key, (o.puts key).isSome = true → W key) ∧ ∀ key, o.removes key = true → D key

section Stays

variable {W D : String → Prop}

theorem Op.stays_passive {o : Op} (passive : o.passive = true) : o.Stays W D := by
  refine ⟨fun key put => ?_, fun key removed => ?_⟩
  · rw [Op.puts_passive passive] at put
    cases put
  · rw [Op.removes_passive passive] at removed
    cases removed

theorem Op.stays_put {key : String} {d : Data} (allowed : W key) : (Op.putObject key d).Stays W D := by
  refine ⟨fun k put => ?_, fun k removed => nomatch removed⟩
  by_cases same : k = key
  · rw [same]
    exact allowed
  · rw [Op.puts, if_neg same] at put
    cases put

theorem Op.stays_delete {key : String} (allowed : D key) : (Op.deleteObject key).Stays W D := by
  refine ⟨fun k put => (nomatch put), fun k removed => ?_⟩
  rw [of_decide_eq_true removed]
  exact allowed

theorem Op.stays_deleteAll {keys : List String} (allowed : ∀ key ∈ keys, D key) :
    (Op.deleteObjects keys).Stays W D :=
  ⟨fun _ put => (nomatch put), fun key removed => allowed key (of_decide_eq_true removed)⟩

/-- Locks, ids and upload URLs are no objects. -/
theorem Op.stays_acquire (l : Lock) : (Op.acquire l).Stays W D :=
  ⟨fun _ put => (nomatch put), fun _ removed => (nomatch removed)⟩

theorem Op.stays_release (l : Lock) : (Op.release l).Stays W D :=
  ⟨fun _ put => (nomatch put), fun _ removed => (nomatch removed)⟩

theorem Op.stays_newUlid : Op.newUlid.Stays W D :=
  ⟨fun _ put => (nomatch put), fun _ removed => (nomatch removed)⟩

theorem Op.stays_presign (key : String) (bytes : Nat) (ttl : Int) :
    (Op.presignPut key bytes ttl).Stays W D :=
  ⟨fun _ put => (nomatch put), fun _ removed => (nomatch removed)⟩

end Stays

section Confined

variable {ι σ : Type} {α β : Type}

/-- Requests within the footprint keep the rules. Entering a device into the cache is left
to the guard. -/
structure Confined (rules : Rules ι σ) (exec : ι → (o : Op) → σ → Res o → σ → Prop) (i : ι)
    (W D : String → Prop) : Prop where
  quiet : ∀ o : Op, o.Stays W D → (∀ key, o ≠ .deviceCacheSet key) → Unnoticed rules exec i o
  guard : ∀ env token enforceKv s, Safe rules exec i (fun r _ => Identified env token r)
    (authenticate env token enforceKv).run s
  lists : ∀ pre limit cursor, Serves rules exec i (.listObjects pre limit cursor) (fun _ => True)
    fun r _ => ∀ page, r = .ok page → ∀ key ∈ page.keys, startsWith key pre = true

/-- The handler keeps the rules; nothing is said of its reply. -/
abbrev Keeps (rules : Rules ι σ) (exec : ι → (o : Op) → σ → Res o → σ → Prop) (i : ι)
    (h : Handler α) (s : σ) : Prop :=
  Meets rules exec (fun _ => (.pure True : rules.Assertion i)) h s

variable {rules : Rules ι σ} {exec : ι → (o : Op) → σ → Res o → σ → Prop} {i : ι}
  {W D : String → Prop} {s : σ} {env : Env} {token : Option String}

namespace Keeps

theorem ret (a : Except ApiError α) :
    Safe rules exec i (fun _ _ => True) (.ret a : Eff (Except ApiError α)) s :=
  fun _ _ => trivial

theorem bind {h : Handler α} {f : α → Handler β} (first : Keeps rules exec i h s)
    (rest : ∀ a t, Keeps rules exec i (f a) t) : Keeps rules exec i (h >>= f) s :=
  Meets.bind first (fun _ _ _ => trivial) fun a t _ => rest a t

theorem orFail {e : ApiError} {o : Option α} {f : α → Handler β}
    (rest : ∀ a, o = some a → Keeps rules exec i (f a) s) :
    Keeps rules exec i (Atmin.orFail e o >>= f) s :=
  Meets.orFail (fun _ => trivial) rest

theorem checked {e : ApiError} {c : Bool} {f : Unit → Handler β}
    (rest : c = true → Keeps rules exec i (f ()) s) :
    Keeps rules exec i (check e c >>= f) s :=
  Meets.checked (fun _ => trivial) rest

theorem tryStore {p : Eff (Except StoreError α)} (safe : Safe rules exec i (fun _ _ => True) p s) :
    Keeps rules exec i (Atmin.tryStore p) s := by
  refine Safe.bind safe fun r t _ => ?_
  cases r <;> exact ret _

theorem tryStoreAs {e : ApiError} {p : Eff (Except StoreError α)}
    (safe : Safe rules exec i (fun _ _ => True) p s) :
    Keeps rules exec i (Atmin.tryStoreAs e p) s := by
  refine Safe.bind safe fun r t _ => ?_
  cases r <;> exact ret _

theorem call {p : Eff α} (safe : Safe rules exec i (fun _ _ => True) p s) :
    Keeps rules exec i (Atmin.call p) s :=
  Safe.bind safe fun _ _ _ => ret _

theorem withLock {lock : Lock} {onTimeout : Except ApiError α} {body : Handler α}
    (acquires : Unnoticed rules exec i (.acquire lock))
    (releases : Unnoticed rules exec i (.release lock))
    (inside : ∀ t, Keeps rules exec i body t) :
    Keeps rules exec i (Atmin.withLock lock onTimeout body) s :=
  Meets.locked (.pure True) trivial (acquires _) (fun _ _ => trivial) (fun _ => .pure True)
    (fun t _ => inside t) fun _ => releases _

end Keeps

namespace Confined

variable (confined : Confined rules exec i W D)

include confined

/-- A request within the footprint. -/
theorem asks {o : Op} (stays : o.Stays W D) (plain : ∀ key, o ≠ .deviceCacheSet key) :
    Safe rules exec i (fun _ _ => True) (ask o) s :=
  Safe.request (.pure True) trivial (confined.quiet o stays plain _) fun _ _ _ _ _ => trivial

theorem authenticated {enforceKv : Bool} {f : AuthedUser → Handler β}
    (rest : ∀ user t, Token.identity env token = some user → Keeps rules exec i (f user) t) :
    Keeps rules exec i (authenticate env token enforceKv >>= f) s :=
  Meets.bind (confined.guard env token enforceKv s) (fun _ _ _ => trivial)
    fun user t known => rest user t (known user rfl)

theorem reads (o : Op) (reads : o.reads = true) : Unnoticed rules exec i o := by
  refine confined.quiet o (Op.stays_passive (Op.passive_of_reads reads)) fun key same => ?_
  rw [same] at reads
  cases reads

/-- A read of the store or the clock. -/
theorem looks {o : Op} (reads : o.reads = true) : Safe rules exec i (fun _ _ => True) (ask o) s :=
  Safe.request (.pure True) trivial (confined.reads o reads _) fun _ _ _ _ _ => trivial

theorem putBestEffort {key : String} {d : Data} (allowed : W key) :
    Keeps rules exec i (Atmin.putBestEffort key d) s :=
  Keeps.bind (Keeps.call (confined.asks (Op.stays_put allowed) fun _ h => (nomatch h)))
    fun _ _ => Keeps.ret _

theorem reproject {p : Profile} (allowed : ∀ handle, W (keyHandle handle)) :
    Keeps rules exec i (Atmin.reproject p) s := by
  unfold Atmin.reproject
  split
  · exact Keeps.ret _
  · exact confined.putBestEffort (allowed _)

/-! ### Store endpoints -/

theorem storeList (pre cursor : Option String) :
    Keeps rules exec i (Atmin.storeList env token pre cursor) s := by
  refine confined.authenticated fun user t _ => ?_
  refine Keeps.orFail fun pre' _ => ?_
  refine Keeps.checked fun _ => ?_
  exact Keeps.bind (Keeps.tryStore (confined.looks rfl)) fun _ _ => Keeps.ret _

theorem storeObject (key : Option String) :
    Keeps rules exec i (Atmin.storeObject env token key) s := by
  refine confined.authenticated fun user t _ => ?_
  refine Keeps.orFail fun key' _ => ?_
  refine Keeps.checked fun _ => ?_
  exact Keeps.tryStore (confined.looks rfl)

theorem storeUsage : Keeps rules exec i (Atmin.storeUsage env token) s := by
  refine confined.authenticated fun user t _ => ?_
  exact Keeps.tryStore (confined.asks (Op.stays_passive rfl) fun _ h => (nomatch h))

theorem deleteObject {key : Option String} (deletes : ∀ user k, Token.identity env token = some user →
    nonEmpty key = some k → authorizeKeyWrite user.userId.str k = true → D k) :
    Keeps rules exec i (Atmin.deleteObject env token key) s := by
  refine confined.authenticated fun user t known => ?_
  refine Keeps.orFail fun k named => ?_
  refine Keeps.checked fun owned => ?_
  have stays : (Op.deleteObject k).Stays W D := Op.stays_delete (deletes user k known named owned)
  refine Keeps.bind (Keeps.tryStore (confined.asks stays fun _ h => (nomatch h))) fun _ t => ?_
  split
  · exact Keeps.call (confined.asks (Op.stays_passive rfl) fun _ h => (nomatch h))
  · exact Keeps.ret _

theorem storePresign (body : Option Json) :
    Keeps rules exec i (Atmin.storePresign env token body) s := by
  refine confined.authenticated fun user t _ => ?_
  refine Keeps.orFail fun req _ => ?_
  refine Keeps.checked fun _ => ?_
  refine Keeps.checked fun _ => ?_
  refine Keeps.checked fun _ => ?_
  refine Keeps.bind ?_ fun _ t =>
    Keeps.tryStore (confined.asks (Op.stays_presign ..) fun _ h => (nomatch h))
  unfold reserveMedia
  split
  · refine Keeps.checked fun _ => ?_
    refine Keeps.bind (Keeps.tryStore (confined.asks (Op.stays_passive rfl) fun _ h => (nomatch h)))
      fun _ t => Keeps.ret _
  · exact Keeps.ret _

theorem notifyAll (recipients : List String) :
    Keeps rules exec i (Atmin.notifyAll recipients) s := by
  induction recipients generalizing s with
  | nil => exact Keeps.ret _
  | cons uid rest ih =>
    exact Keeps.bind (Keeps.call (confined.asks (Op.stays_passive rfl) fun _ h => (nomatch h)))
      fun _ _ => ih

theorem deliver {user : AuthedUser} (writes : ∀ uid msgId, W (keyInboxLive uid msgId))
    (envelopes : List Json) : Keeps rules exec i (Atmin.deliver user envelopes) s := by
  induction envelopes generalizing s with
  | nil => exact Keeps.ret _
  | cons raw rest ih =>
    refine Keeps.orFail fun header _ => ?_
    refine Keeps.checked fun _ => ?_
    refine Keeps.bind (Keeps.tryStore (confined.asks (Op.stays_put (writes _ _))
      fun _ h => (nomatch h))) fun _ t => ?_
    exact Keeps.bind ih fun _ _ => Keeps.ret _

theorem send (writes : ∀ uid msgId, W (keyInboxLive uid msgId)) (body : Option Json) :
    Keeps rules exec i (Atmin.send env token body) s := by
  refine confined.authenticated fun user t _ => ?_
  refine Keeps.orFail fun envelopes _ => ?_
  exact Keeps.bind (confined.deliver writes envelopes) fun _ _ => confined.notifyAll _

/-! ### Compaction -/

theorem lists_within (pre : String) : Lists rules exec i pre
    fun key => .pure (startsWith key pre = true) :=
  fun limit cursor => confined.lists pre limit cursor

theorem readObjects {γ : Type} (e : ApiError) (dec : Data → Option (List γ)) (keys : List String) :
    Keeps rules exec i (Atmin.readObjects e dec keys) s := by
  induction keys generalizing s with
  | nil => exact Keeps.ret _
  | cons key rest ih =>
    refine Keeps.bind (Keeps.call (confined.looks rfl)) fun found t => ?_
    rcases found with (_ | err) | d
    · exact ih
    · exact Keeps.ret _
    · exact Keeps.orFail fun entries _ => Keeps.bind ih fun _ _ => Keeps.ret _

theorem compactKeys {pages : Nat} {root : String} {keys : List String}
    (listed : ∀ key ∈ keys, startsWith key root = true)
    (writes : ∀ key, startsWith key root = true → W key)
    (deletes : ∀ key, startsWith key root = true → D key) :
    Keeps rules exec i (Atmin.compactKeys env pages (root ++ "live/") keys) s := by
  have archive (day : String) : startsWith (root ++ "archive/" ++ day) root = true := by
    rw [String.append_assoc]
    exact startsWith_append _ _
  unfold Atmin.compactKeys
  rw [archiveBase_append]
  refine Keeps.bind (confined.readObjects _ _ _) fun new t => ?_
  refine Keeps.bind (Keeps.call (confined.looks rfl)) fun now t => ?_
  refine Meets.bind (collectAll_safe (confined.lists_within _) confined.reads pages none
    (.pure True) trivial) (fun _ _ _ => trivial) fun archives t found => ?_
  refine Keeps.bind (confined.readObjects _ _ _) fun existing t => ?_
  refine Keeps.bind ?_ fun _ _ => Keeps.ret _
  refine Keeps.bind (Keeps.call (confined.asks Op.stays_newUlid fun _ h => (nomatch h)))
    fun id t => ?_
  refine Keeps.bind (Keeps.tryStore (confined.asks (Op.stays_put (writes _ ?_))
    fun _ h => (nomatch h))) fun _ t => ?_
  · rw [String.append_assoc]
    exact startsWith_trans (startsWith_append _ _) (archive _)
  · refine Keeps.bind (Keeps.tryStore (confined.asks (Op.stays_deleteAll fun key member => ?_)
      fun _ h => (nomatch h))) fun _ t => Keeps.ret _
    refine deletes key ?_
    rcases List.mem_append.mp member with live | old
    · exact listed key live
    · exact startsWith_trans (found.2 archives rfl key old) (archive _)

/-- A compaction, from its prefix on. -/
theorem compactUnder {pages : Nat} {root boundary : String}
    (writes : ∀ key, startsWith key root = true → W key)
    (deletes : ∀ key, startsWith key root = true → D key) :
    Keeps rules exec i (do
      let toCompact ← collectLive (root ++ "live/") boundary pages none
      if toCompact = [] then pure { archived := 0, archiveKey := "" }
      else Atmin.compactKeys env pages (root ++ "live/") toCompact) s := by
  refine Meets.bind (collectLive_safe (confined.lists_within _) confined.reads pages none
    (.pure True) trivial) (fun _ _ _ => trivial) fun keys t found => ?_
  split
  · exact Keeps.ret _
  · refine confined.compactKeys (fun key listed => ?_) writes deletes
    exact startsWith_trans (found.2 keys rfl key listed) (startsWith_append _ _)

theorem storeCompact {pages : Nat} {body : Option Json}
    (writes : ∀ key root, root ∈ DATA_PREFIXES → startsWith key root = true → W key)
    (deletes : ∀ key root, root ∈ DATA_PREFIXES → startsWith key root = true → D key) :
    Keeps rules exec i (Atmin.storeCompact env pages token body) s := by
  refine confined.authenticated fun user t _ => ?_
  refine Keeps.orFail fun req _ => ?_
  refine Keeps.checked fun _ => ?_
  refine Keeps.checked fun owned => ?_
  obtain ⟨data, member, rest, pre⟩ : ∃ data ∈ DATA_PREFIXES, ∃ rest,
      req.pre = data ++ rest ++ "live/" := by
    simp only [authorizeCompactPrefix, Bool.or_eq_true, decide_eq_true_eq] at owned
    rcases owned with inbox | keys
    · exact ⟨"inbox/", by simp [DATA_PREFIXES], _, inbox.trans (prefixInboxLive_eq _)⟩
    · exact ⟨"keys/", by simp [DATA_PREFIXES], _, keys.trans (prefixKeysLive_eq _)⟩
  have inside (key : String) (within : startsWith key (data ++ rest) = true) :
      startsWith key data = true := startsWith_trans within (startsWith_append _ _)
  rw [pre]
  exact confined.compactUnder (fun key within => writes key data member (inside key within))
    fun key within => deletes key data member (inside key within)

/-! ### Devices -/

theorem removeDevice {key : String} (deletes : D key) :
    Keeps rules exec i (Atmin.removeDevice key) s := by
  refine Keeps.bind (Keeps.tryStoreAs (confined.asks (Op.stays_delete deletes)
    fun _ h => (nomatch h))) fun _ t => ?_
  exact Keeps.call (confined.asks (Op.stays_passive rfl) fun _ h => (nomatch h))

theorem deleteDevice (deletes : ∀ user, Token.identity env token = some user →
    D (keyDevice user.userId.str user.deviceId.str)) :
    Keeps rules exec i (Atmin.deleteDevice env token) s :=
  confined.authenticated fun user _ known => confined.removeDevice (deletes user known)

theorem verifyAccountProof {profile : Profile} {proof : AuthProof} :
    Keeps rules exec i (Atmin.verifyAccountProof env profile proof) s := by
  refine Keeps.orFail fun pubkey _ => ?_
  refine Keeps.bind (Keeps.call (confined.looks rfl)) fun now t => ?_
  refine Keeps.orFail fun payload _ => ?_
  exact Keeps.checked fun _ => Keeps.ret _

theorem revokeDevice {body : Option Json}
    (deletes : ∀ user did, Token.identity env token = some user →
      D (keyDevice user.userId.str did)) :
    Keeps rules exec i (Atmin.revokeDevice env token body) s := by
  refine confined.authenticated fun user t known => ?_
  refine Keeps.orFail fun req _ => ?_
  refine Keeps.bind (Keeps.tryStore (confined.looks rfl)) fun bytes t => ?_
  refine Keeps.orFail fun profile _ => ?_
  exact Keeps.bind confined.verifyAccountProof fun _ _ => confined.removeDevice (deletes _ _ known)

theorem addDevice {body : Option Json}
    (writes : ∀ (uid : UserId) (did : DeviceId), W (keyDevice uid.str did.str)) :
    Keeps rules exec i (Atmin.addDevice env body) s := by
  refine Keeps.orFail fun req _ => ?_
  refine Keeps.orFail fun uid _ => ?_
  refine Keeps.bind (Keeps.tryStore (confined.looks rfl)) fun bytes t => ?_
  refine Keeps.orFail fun profile _ => ?_
  refine Keeps.bind confined.verifyAccountProof fun payload t => ?_
  refine Keeps.orFail fun did _ => ?_
  refine Keeps.bind (Keeps.call (confined.looks rfl)) fun now t => ?_
  refine Keeps.bind (Keeps.tryStore (confined.asks (Op.stays_put (writes uid did))
    fun _ h => (nomatch h))) fun _ t => ?_
  exact Keeps.ret _

/-! ### Profiles -/

theorem updateProfile {body : Option Json} (writes : ∀ user, Token.identity env token = some user →
      W (keyProfile user.userId.str)) (projects : ∀ handle, W (keyHandle handle)) :
    Keeps rules exec i (Atmin.updateProfile env token body) s := by
  refine confined.authenticated fun user t known => ?_
  refine Keeps.orFail fun req _ => ?_
  refine Keeps.checked fun _ => ?_
  refine Keeps.bind (Keeps.tryStore (confined.looks rfl)) fun bytes t => ?_
  refine Keeps.orFail fun profile _ => ?_
  refine Keeps.bind (Keeps.tryStore (confined.asks (Op.stays_put (writes user known))
    fun _ h => (nomatch h))) fun _ t => ?_
  exact confined.reproject projects

theorem updateLastActive {uid : String} (writes : W (keyProfile uid)) :
    Keeps rules exec i (Atmin.updateLastActive env uid) s := by
  have stamps (p : Profile) (t : σ) : Keeps rules exec i (stampActive env (keyProfile uid) p) t :=
    Keeps.bind (Keeps.call (confined.looks rfl)) fun now t => confined.putBestEffort writes
  unfold Atmin.updateLastActive
  refine Keeps.bind (Keeps.call (confined.looks rfl)) fun found t => ?_
  split
  · exact Keeps.ret _
  · split
    · exact Keeps.ret _
    · split
      · refine Keeps.bind (Keeps.call (confined.looks rfl)) fun now t => ?_
        split
        · exact Keeps.ret _
        · exact stamps _ _
      · exact stamps _ _

theorem events (writes : ∀ user, Token.identity env token = some user →
      W (keyProfile user.userId.str)) : Keeps rules exec i (Atmin.events env token) s :=
  confined.authenticated fun user _ known => confined.updateLastActive (writes user known)

theorem rotateKeys {body : Option Json} (writes : ∀ user, Token.identity env token = some user →
      W (keyProfile user.userId.str)) (projects : ∀ handle, W (keyHandle handle))
    (records : ∀ user rid, Token.identity env token = some user →
      W (keyRotationRecord user.userId.str rid)) :
    Keeps rules exec i (Atmin.rotateKeys env token body) s := by
  have recorded {key : String} {o : RotateOutcome} {t : σ} (allowed : W key) :
      Keeps rules exec i (recordOutcome key o) t :=
    Keeps.bind (confined.putBestEffort allowed) fun _ _ => Keeps.ret _
  refine confined.authenticated fun user t known => ?_
  refine Keeps.orFail fun req _ => ?_
  refine Keeps.checked fun _ => ?_
  have locks (l : Lock) := confined.quiet (.acquire l) (Op.stays_acquire l) fun _ h => (nomatch h)
  have unlocks (l : Lock) := confined.quiet (.release l) (Op.stays_release l) fun _ h => (nomatch h)
  refine Keeps.withLock (locks _) (unlocks _) fun t => ?_
  -- a request that is not on record writes the profile, the handle and the record
  have fresh (t : σ) : Keeps rules exec i
      (rotateFresh env user req (keyRotationRecord user.userId.str req.requestId)) t := by
    refine Keeps.bind (Keeps.tryStoreAs (confined.looks rfl)) fun bytes t => ?_
    refine Keeps.orFail fun profile _ => ?_
    split
    · exact recorded (records user _ known)
    · refine Keeps.orFail fun oldPub _ => ?_
      split
      · refine Keeps.bind (Keeps.tryStoreAs (confined.asks (Op.stays_put (writes user known))
          fun _ h => (nomatch h))) fun _ t => ?_
        refine Keeps.bind (confined.reproject projects) fun _ t => ?_
        refine Keeps.bind (recorded (records user _ known)) fun _ t => ?_
        refine Keeps.bind (Keeps.call (confined.asks (Op.stays_passive rfl)
          fun _ h => (nomatch h))) fun _ t => Keeps.ret _
      · exact recorded (records user _ known)
  refine Keeps.bind (Keeps.call ?_) fun loaded t => ?_
  · refine Safe.bind (confined.looks rfl) fun found t _ => ?_
    rcases found with (_ | err) | d
    · exact fun _ _ => trivial
    · exact fun _ _ => trivial
    · dsimp only
      split <;> exact fun _ _ => trivial
  · -- one on record is answered from it
    split
    · exact Keeps.ret _
    · exact fresh t

/-! ### Deletion -/

theorem evictDevices {pre : String} (keys : List String) :
    Keeps rules exec i (Atmin.evictDevices pre keys) s := by
  induction keys generalizing s with
  | nil => exact Keeps.ret _
  | cons key rest ih =>
    unfold Atmin.evictDevices
    split
    · exact Keeps.bind (Keeps.call (confined.asks (Op.stays_passive rfl) fun _ h => (nomatch h)))
        fun _ _ => ih
    · exact ih

theorem wipePrefixes {devices : String} (prefixes : List String) (deletes : ∀ key, ∀ pre ∈ prefixes,
      startsWith key pre = true → D key) :
    Keeps rules exec i (Atmin.wipePrefixes devices prefixes) s := by
  induction prefixes generalizing s with
  | nil => exact Keeps.ret _
  | cons pre rest ih =>
    have later (t : σ) : Keeps rules exec i (Atmin.wipePrefixes devices rest) t :=
      ih fun key pre' member => deletes key pre' (List.mem_cons_of_mem _ member)
    have lists : Safe rules exec i (fun r _ => ∀ page, r = .ok page → ∀ key ∈ page.keys,
        startsWith key pre = true) (Atmin.tryStoreAs (.internal "Failed to list objects")
          (ask (.listObjects pre 1000 none))).run s := by
      refine Safe.request (.pure True) trivial (confined.lists pre 1000 none) fun r t found => ?_
      rcases r with err | page
      · exact fun _ _ _ same => nomatch same
      · exact fun _ _ page' same => by cases same; exact found page rfl
    unfold Atmin.wipePrefixes
    refine Meets.bind lists (fun _ _ _ => trivial) fun page t found => ?_
    have gone : ∀ key ∈ page.keys, D key := fun key member =>
      deletes key pre List.mem_cons_self (found page rfl key member)
    refine Keeps.bind (confined.evictDevices page.keys) fun _ t => ?_
    split
    · exact later t
    · exact Keeps.bind (Keeps.tryStoreAs (confined.asks (Op.stays_deleteAll gone)
        fun _ h => (nomatch h))) fun _ t => later t

theorem deleteProfile (projects : ∀ handle, W (keyHandle handle))
    (deletes : ∀ user key pre, Token.identity env token = some user →
      pre ∈ ownedPrefixes user.userId.str → startsWith key pre = true → D key) :
    Keeps rules exec i (Atmin.deleteProfile env token) s := by
  refine confined.authenticated fun user t known => ?_
  refine Keeps.bind (Keeps.tryStore (confined.looks rfl)) fun bytes t => ?_
  refine Keeps.orFail fun profile _ => ?_
  refine Keeps.bind (confined.wipePrefixes _ fun key pre member within =>
    deletes user key pre known member within) fun _ t => ?_
  unfold releaseHandle
  split
  · exact Keeps.ret _
  · refine Keeps.withLock (confined.quiet _ (Op.stays_acquire _) fun _ h => (nomatch h))
      (confined.quiet _ (Op.stays_release _) fun _ h => (nomatch h)) fun t => ?_
    refine Keeps.bind (Keeps.call (confined.looks rfl)) fun now t => ?_
    exact Keeps.tryStoreAs (confined.asks (Op.stays_put (projects _)) fun _ h => (nomatch h))

end Confined

end Confined

end Atmin
