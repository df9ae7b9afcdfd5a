import Atmin.Server.Sequential

/-!
# A request that runs alone at one moment

A handler that runs from its first request to its last with nobody else around, on a store
that does not fail. The clock stands still meanwhile, and the generator yields one id.
-/

namespace Atmin

open Interaction

/-- What the clock shows during a run, and the id it draws. -/
structure Moment where
  now : Int
  id : String

variable {ι : Type}

/-- One request of a run alone. A bulk delete of more than `limit` keys is refused whole, as S3
refuses a `DeleteObjects` call of more than a thousand. -/
def alone (limit : Option Nat) (m : Moment) (i : ι) (o : Op) (c : Choice) (s : Sys ι) :
    Option (Res o × Sys ι) :=
  match o with
  | .utcNow => some (m.now, { s with clock := m.now })
  | .newUlid => some (m.id, { s with issued := m.id :: s.issued })
  | .deleteObjects keys =>
    if ∀ n ∈ limit, keys.length ≤ n then some (.ok (), s.remove keys)
    else some (.error (.backend "MalformedXML"), s)
  | o => serve Choice.healthy i o c s

abbrev Alone (limit : Option Nat) (m : Moment) (i : ι) : (o : Op) → Sys ι → Res o → Sys ι → Prop :=
  execOf (alone limit m) i

section Served

variable {limit : Option Nat} {m : Moment} {i : ι} {s t : Sys ι}

/-- Every request is answered. -/
theorem alone_total (limit : Option Nat) (m : Moment) (i : ι) (o : Op) (s : Sys ι) :
    ∃ r t, Alone limit m i o s r t := by
  cases o with
  | deleteObjects keys =>
    by_cases accepted : ∀ n ∈ limit, keys.length ≤ n
    · exact ⟨_, _, .ok, if_pos accepted⟩
    · exact ⟨_, _, .ok, if_neg accepted⟩
  | acquire lock => exact ⟨_, _, .expire, rfl⟩
  | reserveUpload uid bytes => exact ⟨_, _, .reservation .granted, rfl⟩
  | getUsage uid => exact ⟨_, _, .usage 0 0, rfl⟩
  | _ => exact ⟨_, _, .ok, rfl⟩

theorem alone_healthy {o : Op} {r : Res o} (served : Alone limit m i o s r t) (clock : o ≠ .utcNow)
    (draw : o ≠ .newUlid) (bulk : ∀ keys, o ≠ .deleteObjects keys) : Healthy i o s r t := by
  obtain ⟨c, h⟩ := served
  cases o with
  | utcNow => exact absurd rfl clock
  | newUlid => exact absurd rfl draw
  | deleteObjects keys => exact absurd rfl (bulk keys)
  | _ => exact ⟨c, h⟩

theorem alone_utcNow {r : Res .utcNow} (served : Alone limit m i .utcNow s r t) :
    r = m.now ∧ t = { s with clock := m.now } := by
  obtain ⟨_, h⟩ := served
  cases h
  exact ⟨rfl, rfl⟩

theorem alone_newUlid {r : Res .newUlid} (served : Alone limit m i .newUlid s r t) :
    r = m.id ∧ t = { s with issued := m.id :: s.issued } := by
  obtain ⟨_, h⟩ := served
  cases h
  exact ⟨rfl, rfl⟩

theorem alone_deleteObjects {keys : List String} {r : Res (.deleteObjects keys)}
    (served : Alone limit m i (.deleteObjects keys) s r t) :
    ((∀ n ∈ limit, keys.length ≤ n) ∧ r = .ok () ∧ t = s.remove keys) ∨
      (¬ (∀ n ∈ limit, keys.length ≤ n) ∧ r = .error (.backend "MalformedXML") ∧ t = s) := by
  obtain ⟨_, h⟩ := served
  by_cases accepted : ∀ n ∈ limit, keys.length ≤ n
  · rw [alone, if_pos accepted] at h
    cases h
    exact .inl ⟨accepted, rfl, rfl⟩
  · rw [alone, if_neg accepted] at h
    cases h
    exact .inr ⟨accepted, rfl, rfl⟩

theorem alone_getObject {key : String} {r : Res (.getObject key)}
    (served : Alone limit m i (.getObject key) s r t) : t = s ∧ r = s.lookup key :=
  healthy_read (alone_healthy served nofun nofun nofun)

theorem alone_listObjects {pre : String} {n : Nat} {cursor : Option String}
    {r : Res (.listObjects pre n cursor)} (served : Alone limit m i (.listObjects pre n cursor) s r t) :
    t = s ∧ r = .ok (s.listing pre n cursor) := by
  obtain ⟨same, found | fault⟩ := served_listObjects (alone_healthy served nofun nofun nofun)
  · exact ⟨same, found⟩
  · exact absurd fault not_faulted_healthy

theorem alone_putObject {key : String} {d : Data} {r : Res (.putObject key d)}
    (served : Alone limit m i (.putObject key d) s r t) : r = .ok () ∧ t = s.put key d := by
  rcases served_putObject (alone_healthy served nofun nofun nofun) with done | ⟨fault, _⟩
  · exact done
  · exact absurd fault not_faulted_healthy

theorem alone_headObject {key : String} {r : Res (.headObject key)}
    (served : Alone limit m i (.headObject key) s r t) (stored : (s.objects.get key).isSome) :
    t = s ∧ r = .ok () := by
  obtain ⟨same, found | ⟨_, absent⟩ | fault⟩ := served_headObject (alone_healthy served nofun nofun nofun)
  · exact ⟨same, found.1⟩
  · rw [absent] at stored
    cases stored
  · exact absurd fault not_faulted_healthy

/-- Server memory changes no object. -/
theorem alone_volatile {o : Op} {r : Res o} (served : Alone limit m i o s r t)
    (memory : o.volatile = true) : t.objects = s.objects := by
  have healthy : Healthy i o s r t :=
    alone_healthy served (by rintro rfl; cases memory) (by rintro rfl; cases memory)
      (by rintro keys rfl; cases memory)
  obtain ⟨_, _, _, rfl⟩ := served_volatile healthy memory
  rfl

end Served

/-! ### The guard -/

/-- The token is good: its device is registered, and its version is the account's. -/
structure Admits (env : Env) (token : Option String) (user : AuthedUser) (s : Sys ι) : Prop where
  identity : Token.identity env token = some user
  device : (s.objects.get (keyDevice user.userId.str user.deviceId.str)).isSome
  profile : ∃ p, profileOf user.userId s = some p ∧ p.currentKv = user.keyVersion.get
  cached : ∀ kv, (user.userId.str, kv) ∈ s.profileCache → kv = user.keyVersion.get

/-- The guard reads nothing but the objects of the token's user. -/
theorem Admits.kept {env : Env} {token : Option String} {user : AuthedUser} {s t : Sys ι}
    (admits : Admits env token user s)
    (own : ∀ {k}, startsWith k (prefixUser user.userId.str) = true → t.objects.get k = s.objects.get k)
    (cached : ∀ kv, (user.userId.str, kv) ∈ t.profileCache → kv = user.keyVersion.get) :
    Admits env token user t where
  identity := admits.identity
  device := by
    have device : startsWith (keyDevice user.userId.str user.deviceId.str)
        (prefixUser user.userId.str) = true := by
      rw [keyDevice_eq]
      exact startsWith_append _ _
    rw [own device]
    exact admits.device
  profile := by
    have profile : startsWith (keyProfile user.userId.str) (prefixUser user.userId.str) = true := by
      rw [keyProfile_eq]
      exact startsWith_append _ _
    obtain ⟨p, stored, current⟩ := admits.profile
    refine ⟨p, ?_, current⟩
    rw [profileOf, own profile]
    exact stored
  cached := cached

section Guard

variable {limit : Option Nat} {m : Moment} {i : ι} {s : Sys ι}

theorem checkDevice_alone {key : String} (stored : (s.objects.get key).isSome) :
    Interaction.Ends (Alone limit m i) (checkDevice key).run s fun r t =>
      r = .ok () ∧ t.objects = s.objects ∧ t.profileCache = s.profileCache := by
  unfold checkDevice
  refine Ends.call fun seen t served => ?_
  obtain ⟨rfl, _⟩ := served_deviceCacheValid (alone_healthy served nofun nofun nofun)
  cases seen with
  | true => exact .ret ⟨rfl, rfl, rfl⟩
  | false =>
    refine Ends.call fun found t served => ?_
    obtain ⟨rfl, rfl⟩ := alone_headObject served stored
    refine .op fun _ t served => .ret ⟨rfl, ?_⟩
    rw [served_deviceCacheSet (alone_healthy served nofun nofun nofun)]
    exact ⟨rfl, rfl⟩

theorem currentKeyVersion_alone {u : UserId} {p : Profile} {kv : UInt32}
    (stored : profileOf u s = some p) (current : p.currentKv = kv)
    (cached : ∀ kv', (u.str, kv') ∈ s.profileCache → kv' = kv) :
    Interaction.Ends (Alone limit m i) (currentKeyVersion u.str).run s fun r t =>
      r = .ok kv ∧ t.objects = s.objects := by
  unfold currentKeyVersion
  refine Ends.call fun hit t served => ?_
  obtain ⟨rfl, known⟩ := served_profileCacheGet (alone_healthy served nofun nofun nofun)
  cases hit with
  | some kv' => exact .ret ⟨by rw [cached kv' (known kv' rfl)], rfl⟩
  | none =>
    refine Ends.call fun found t served => ?_
    obtain ⟨rfl, rfl⟩ := alone_getObject served
    obtain ⟨d, here, parsed⟩ := Option.bind_eq_some_iff.mp stored
    rw [lookup_eq_ok.mpr here]
    refine Ends.orFail (fun failed => absurd (failed.symm.trans parsed) nofun) fun p' parsed' => ?_
    cases parsed.symm.trans parsed'
    refine Ends.call fun _ t served => .ret ⟨by rw [current], ?_⟩
    exact alone_volatile served rfl

/-- A good token passes the guard, and no object changes. -/
theorem authenticate_alone {env : Env} {token : Option String} {user : AuthedUser}
    (admits : Admits env token user s) :
    Interaction.Ends (Alone limit m i) (authenticate env token true).run s fun r t =>
      r = .ok user ∧ t.objects = s.objects := by
  rw [authenticate_known admits.identity, admitUser]
  refine Ends.andThen (checkDevice_alone admits.device) (fun _ _ wrong => by cases wrong.1)
    fun _ t checked => ?_
  obtain ⟨_, objects, cache⟩ := checked
  obtain ⟨p, stored, current⟩ := admits.profile
  rw [if_pos rfl]
  refine Ends.andThen (currentKeyVersion_alone (p := p) (u := user.userId) ?_ current ?_)
    (fun _ _ wrong => by cases wrong.1) fun kv v current => ?_
  · rw [profileOf, objects]
    exact stored
  · rw [cache]
    exact admits.cached
  · obtain ⟨same, kept⟩ := current
    cases same
    exact Ends.checked (fun wrong => absurd wrong (by simp)) fun _ => .ret ⟨rfl, kept.trans objects⟩

end Guard

end Atmin
