import Atmin.Server.MediaQuota
import Atmin.Server.Sample
import Atmin.Interaction.Session
import Mathlib.Logic.Relation

/-!
# What the media quota bounds

A user stores through URLs, and each URL was reserved before it was granted. What is stored
and what the usable URLs may still add is together at most twice the quota, as long as no
probe finds more than one quota's worth of URLs outstanding.
-/

namespace Atmin

open Interaction

variable {ι : Type}

def isMedia (uid key : String) : Bool := startsWith key (prefixMedia uid)

def mediaBytes (size : Data → Nat) (uid : String) (s : Sys ι) : Nat :=
  s.objects.total (isMedia uid) size

def mediaCount (uid : String) (s : Sys ι) : Nat := (s.objects.keys.filter (isMedia uid)).length

/-- The URLs into the user's media that still admit an upload. -/
def usable (uid : String) (s : Sys ι) : List Grant :=
  s.grants.filter fun g => isMedia uid g.key && decide (s.clock ≤ g.expires)

/-- The usable URLs are no more than one quota's worth. -/
def OneBatch (uid : String) (s : Sys ι) : Prop :=
  ((usable uid s).map Grant.contentLength).sum ≤ USER_MEDIA_QUOTA_BYTES ∧
    (usable uid s).length ≤ USER_MEDIA_BLOB_CAP

/-! ### Bytes and blobs, measured alike -/

/-- One of the two things the quota counts. -/
structure Gauge where
  /-- What an object of this size counts for. -/
  weigh : Nat → Nat
  value : QuotaEntry → Nat
  cap : Nat
  probed : ∀ (sizes : List Nat) (exp : Option Int),
    value ⟨sizes.sum, sizes.length, exp⟩ = (sizes.map weigh).sum
  reserved : ∀ (e : QuotaEntry) (bytes : Nat),
    value { e with usageBytes := e.usageBytes + bytes, blobCount := e.blobCount + 1 } =
      value e + weigh bytes
  admitted : ∀ (e : QuotaEntry) (bytes : Nat), e.blobCount < USER_MEDIA_BLOB_CAP →
    e.usageBytes + bytes ≤ USER_MEDIA_QUOTA_BYTES → value e + weigh bytes ≤ cap

namespace Gauge

def bytes : Gauge where
  weigh n := n
  value e := e.usageBytes
  cap := USER_MEDIA_QUOTA_BYTES
  probed sizes _ := by simp
  reserved _ _ := rfl
  admitted _ _ _ room := room

def blobs : Gauge where
  weigh _ := 1
  value e := e.blobCount
  cap := USER_MEDIA_BLOB_CAP
  probed sizes _ := by simp
  reserved _ _ := rfl
  admitted _ _ below _ := below

variable (g : Gauge) (size : Data → Nat) (uid : String)

def stored (s : Sys ι) : Nat := s.objects.total (isMedia uid) fun d => g.weigh (size d)

def pending (s : Sys ι) : Nat := ((usable uid s).map fun u => g.weigh u.contentLength).sum

/-- What is there, and what may still arrive. -/
def load (s : Sys ι) : Nat := g.stored size uid s + g.pending uid s

/-- What an entry is taken to measure: nothing when it is about to be renewed, and nothing when
its listing may have been cut short, for then it grants nothing. -/
def believed (e : QuotaEntry) : Option Nat :=
  if e.expiresAt.isSome ∧ e.blobCount < USER_MEDIA_BLOB_CAP then some (g.value e) else none

/-- `ahead` is reserved but not yet granted. -/
def Holds (ahead : Nat) (s : Metered ι) : Prop :=
  Covered g.cap (g.load size uid s.sys + ahead) (g.believed (s.entries uid))

theorem stored_blobs (s : Sys ι) : blobs.stored size uid s = mediaCount uid s :=
  ObjectMap.total_one

variable {g size uid} {s t : Metered ι}

theorem Holds.recached (holds : g.Holds size uid 0 s) (here : Recached s t) :
    g.Holds size uid 0 t := by
  obtain ⟨_, _, _, rfl⟩ := here
  exact holds

theorem Holds.entry {e : QuotaEntry} {ahead : Nat}
    (covered : Covered g.cap (g.load size uid s.sys + ahead) (g.believed e)) :
    g.Holds size uid ahead (s.setEntry uid e) := by
  simpa only [Holds, Metered.setEntry, Function.update_self] using covered

/-! ### One operation at a time -/

/-- A probe that is not cut short weighs all that is stored. -/
theorem probe_weighs {sys : Sys ι} {exp : Option Int}
    (whole : (listObjectSizes size sys (prefixMedia uid) USER_MEDIA_BLOB_CAP).count <
      USER_MEDIA_BLOB_CAP) :
    g.value ⟨(listObjectSizes size sys (prefixMedia uid) USER_MEDIA_BLOB_CAP).totalBytes,
      (listObjectSizes size sys (prefixMedia uid) USER_MEDIA_BLOB_CAP).count, exp⟩ =
      g.stored size uid sys := by
  simp only [listObjectSizes, List.length_take] at whole ⊢
  rw [List.take_of_length_le (by omega), ← List.length_take, List.take_of_length_le (by omega),
    g.probed, List.map_filterMap]
  have composed (k : String) : ((sys.objects.get k).map size).map g.weigh =
      (sys.objects.get k).map fun d => g.weigh (size d) := by rw [Option.map_map]; rfl
  simp only [composed]
  exact ObjectMap.sum_listed

/-- A refreshed entry is covered, when a probe finds at most one batch outstanding. -/
theorem Holds.fresh {now : Int} (holds : g.Holds size uid 0 s)
    (calm : (s.entries uid).expired now = true → g.pending uid s.sys ≤ g.cap) :
    Covered g.cap (g.load size uid s.sys) (g.believed (s.fresh size now uid)) := by
  rw [Metered.fresh, QuotaEntry.refreshIfExpired]
  split
  next renew =>
    rw [believed]
    split
    next seen =>
      rw [probe_weighs seen.2]
      exact holds.measured rfl (calm renew)
    next => exact holds.forget
  next => exact holds

/-- Only a grant counts for more, and then for what it reserves. -/
theorem reserve_covered {load : Nat} {e : QuotaEntry} (populated : e.expiresAt ≠ none)
    (covered : Covered g.cap load (g.believed e)) (bytes : Nat) :
    Covered g.cap (load + if (e.reserve bytes).1 = .granted then g.weigh bytes else 0)
      (g.believed (e.reserve bytes).2) := by
  rcases QuotaEntry.reserve_cases bytes e with ⟨refused, same⟩ | ⟨granted, below, room, taken⟩
  · rw [if_neg refused, same]
    exact covered
  · have seen : g.believed e = some (g.value e) :=
      if_pos ⟨Option.isSome_iff_ne_none.mpr populated, below⟩
    rw [seen] at covered
    have more := covered.reserve (g.admitted e bytes below room)
    rw [if_pos granted, taken, believed]
    split
    next => rw [g.reserved]; exact more
    next => exact more.forget

/-- A URL that is granted may add what it was signed for. -/
theorem load_grant {sys : Sys ι} {key : String} {bytes : Nat} {expires : Int} :
    g.load size uid { sys with grants := ⟨key, bytes, expires⟩ :: sys.grants } ≤
      g.load size uid sys + if isMedia uid key then g.weigh bytes else 0 := by
  simp only [load, pending, usable, stored, List.filter_cons]
  split
  next counted =>
    have within : isMedia uid key = true := ((Bool.and_eq_true _ _).mp counted).1
    simp only [if_pos within, List.map_cons, List.sum_cons]
    omega
  next => omega

theorem pending_upload {sys : Sys ι} {u : Grant} {d : Data} (granted : u ∈ sys.grants)
    (live : sys.clock ≤ u.expires) :
    g.pending uid { sys.put u.key d with grants := sys.grants.erase u } +
      (if isMedia uid u.key then g.weigh u.contentLength else 0) = g.pending uid sys := by
  have used : usable uid { sys.put u.key d with grants := sys.grants.erase u } =
      (usable uid sys).erase u := List.erase_filter.symm
  simp only [pending, used]
  split
  next within =>
    have member : u ∈ usable uid sys := List.mem_filter.mpr ⟨granted, by simp [within, live]⟩
    rw [Nat.add_comm]
    exact List.sum_map_erase (fun u : Grant => g.weigh u.contentLength) member
  next outside =>
    rw [List.erase_of_not_mem fun member => outside ?_, Nat.add_zero]
    have kept := (List.mem_filter.mp member).2
    simp only [Bool.and_eq_true] at kept
    exact kept.1

/-- An upload moves its bytes from what may arrive to what is there. -/
theorem load_upload {sys : Sys ι} {u : Grant} {d : Data} (granted : u ∈ sys.grants)
    (live : sys.clock ≤ u.expires) (signed : size d = u.contentLength) :
    g.load size uid { sys.put u.key d with grants := sys.grants.erase u } ≤ g.load size uid sys := by
  have written := ObjectMap.total_insert_le (m := sys.objects) (p := isMedia uid)
    (w := fun d => g.weigh (size d)) u.key d
  rw [signed] at written
  calc g.load size uid { sys.put u.key d with grants := sys.grants.erase u }
      ≤ g.stored size uid sys + (if isMedia uid u.key then g.weigh u.contentLength else 0) +
          g.pending uid { sys.put u.key d with grants := sys.grants.erase u } :=
        Nat.add_le_add_right written _
    _ = g.load size uid sys := by
        rw [Nat.add_assoc, Nat.add_comm (ite _ _ _), pending_upload granted live, load]

theorem load_remove {sys : Sys ι} {keys : List String} :
    g.load size uid (sys.remove keys) ≤ g.load size uid sys :=
  Nat.add_le_add_right (ObjectMap.total_eraseAll keys) _

/-- URLs only run out. -/
theorem load_wait {sys : Sys ι} {later : Int} (passed : sys.clock ≤ later) :
    g.load size uid { sys with clock := later } ≤ g.load size uid sys := by
  refine Nat.add_le_add_left ?_ _
  have fewer : (usable uid { sys with clock := later }).Sublist (usable uid sys) := by
    refine List.monotone_filter_right _ fun u still => ?_
    simp only [Bool.and_eq_true, decide_eq_true_eq] at still ⊢
    exact ⟨still.1, passed.trans still.2⟩
  exact (fewer.map _).sum_le_sum fun _ _ => Nat.zero_le _

end Gauge

/-! ### What may happen next -/

/-- A request of the user, an upload through a URL, or the passing of time. A request that
consults the quota carries what the quota's clock shows it. -/
inductive MediaAction where
  | presign (now : Int) (body : Option Json)
  | delete (key : Option String)
  | usage (now : Int)
  | upload (u : Grant) (d : Data)
  | wait (later : Int)

/-- A URL admits one upload, of the signed length, while it lasts. -/
inductive MediaStep (env : Env) (size : Data → Nat) (token : Option String) (i : ι) :
    MediaAction → Metered ι → Metered ι → Prop where
  | presign {now : Int} {body : Option Json} {s t : Metered ι} {r : Except ApiError Unit} :
      Runs (Meter size now i) (storePresign env token body).run s r t →
      MediaStep env size token i (.presign now body) s t
  | delete {now : Int} {key : Option String} {s t : Metered ι} {r : Except ApiError Unit} :
      Runs (Meter size now i) (deleteObject env token key).run s r t →
      MediaStep env size token i (.delete key) s t
  | usage {now : Int} {s t : Metered ι} {r : Except ApiError (Nat × Nat)} :
      Runs (Meter size now i) (storeUsage env token).run s r t →
      MediaStep env size token i (.usage now) s t
  | upload {u : Grant} {d : Data} {s : Metered ι} : u ∈ s.sys.grants → s.sys.clock ≤ u.expires →
      size d = u.contentLength →
      MediaStep env size token i (.upload u d) s
        { s with sys := { s.sys.put u.key d with grants := s.sys.grants.erase u } }
  | wait {later : Int} {s : Metered ι} : s.sys.clock ≤ later →
      MediaStep env size token i (.wait later) s { s with sys := { s.sys with clock := later } }

/-- Where the request will probe the store anew, no more than one batch is outstanding. -/
def MediaAction.Calm (uid : String) (s : Metered ι) : MediaAction → Prop
  | .presign now _ | .usage now => (s.entries uid).expired now = true → OneBatch uid s.sys
  | _ => True

abbrev MediaRun (env : Env) (size : Data → Nat) (token : Option String) (i : ι)
    (allow : Metered ι → MediaAction → Prop) : Metered ι → Metered ι → Prop :=
  Relation.ReflTransGen fun s t => ∃ a, allow s a ∧ MediaStep env size token i a s t

/-! ### What every step keeps -/

theorem head_of_startsWith {key pre : String} {c : Char} (under : startsWith key pre = true)
    (first : pre.toList.head? = some c) : key.toList.head? = some c := by
  simp only [startsWith, List.isPrefixOf_iff_prefix] at under
  obtain ⟨rest, whole⟩ := under
  rw [← whole, List.head?_append, first]
  rfl

theorem startsWith_media {uid key : String} (within : isMedia uid key = true) :
    startsWith key "media/" = true := by
  refine startsWith_trans within ?_
  rw [prefixMedia, String.append_assoc]
  exact startsWith_append _ _

/-- A media key the user may write lies among the user's media. -/
theorem isMedia_of_write {uid key : String} (own : authorizeKeyWrite uid key = true)
    (media : startsWith key "media/" = true) : isMedia uid key = true := by
  have first : key.toList.head? = some 'm' := head_of_startsWith media rfl
  have elsewhere {pre : String} {c : Char} (under : startsWith key (pre ++ uid ++ "/") = true)
      (other : pre.toList.head? = some c) : c = 'm' := by
    have here : key.toList.head? = some c :=
      head_of_startsWith under (by simp [String.toList_append, List.head?_append, other])
    exact Option.some.inj (here.symm.trans first)
  simp only [authorizeKeyWrite, DATA_PREFIXES, USERS_ROOT, List.any_cons, List.any_nil,
    Bool.or_false, Bool.or_eq_true] at own
  rcases own with (inbox | keys | within) | users
  · exact absurd (elsewhere inbox rfl) (by decide)
  · exact absurd (elsewhere keys rfl) (by decide)
  · exact within
  · exact absurd (elsewhere users rfl) (by decide)

section Handlers

variable {g : Gauge} {env : Env} {size : Data → Nat} {token : Option String} {user : AuthedUser}
  {i : ι} {now : Int} {s : Metered ι}

/-- What a probe asks of a gauge. -/
def Gauge.Calm (g : Gauge) (uid : String) (now : Int) (s : Metered ι) : Prop :=
  (s.entries uid).expired now = true → g.pending uid s.sys ≤ g.cap

theorem Gauge.Calm.recached {uid : String} {t : Metered ι} (calm : g.Calm uid now s)
    (here : Recached s t) : g.Calm uid now t := by
  obtain ⟨_, _, _, rfl⟩ := here
  exact calm

theorem storeUsage_holds (known : Token.identity env token = some user)
    (calm : g.Calm user.userId.str now s) (holds : g.Holds size user.userId.str 0 s) :
    Interaction.Ends (Meter size now i) (storeUsage env token).run s
      fun _ t => g.Holds size user.userId.str 0 t := by
  refine Ends.authenticated known (fun e t here => holds.recached here) fun u here => ?_
  simp only [run_tryStore, ask_bind]
  refine .op fun r t served => ?_
  have kept : g.Holds size user.userId.str 0 t := by
    rcases metered_getUsage served with rfl | rfl
    · exact .entry ((holds.recached here).fresh (calm.recached here))
    · exact holds.recached here
  cases r with
  | ok usage => exact .ret kept
  | error e => exact .ret kept

theorem deleteObject_holds {key : Option String} (known : Token.identity env token = some user)
    (holds : g.Holds size user.userId.str 0 s) :
    Interaction.Ends (Meter size now i) (deleteObject env token key).run s
      fun _ t => g.Holds size user.userId.str 0 t := by
  refine Ends.authenticated known (fun e t here => holds.recached here) fun u here => ?_
  refine Ends.orFail (fun _ => holds.recached here) fun k given => ?_
  refine Ends.checked (fun _ => holds.recached here) fun own => ?_
  simp only [run_bind, run_tryStore, ask_bind, Prog.op_bind]
  refine .op fun r t served => ?_
  obtain ⟨after, ran, rfl⟩ := metered_elsewhere served rfl
  -- the object is gone or still there, whatever the store replied
  have removed : g.Holds size user.userId.str 0 { u with sys := after } := by
    have lighter : g.load size user.userId.str after ≤ g.load size user.userId.str u.sys := by
      rcases served_deleteObject ran with ⟨_, rfl⟩ | ⟨_, rfl | rfl⟩
      · exact Gauge.load_remove
      · exact Gauge.load_remove
      · exact le_rfl
    exact (holds.recached here).lessen (Nat.add_le_add_right lighter 0)
  cases r with
  | error e => exact .ret removed
  | ok =>
    simp only [Prog.ret_bind]
    split
    next =>
      simp only [run_call, ask_bind]
      refine .op fun _ v forgotten => .ret ?_
      rw [metered_quotaInvalidate forgotten]
      refine .entry ?_
      rw [QuotaEntry.invalidate, Gauge.believed, if_neg fun h => nomatch h.1]
      exact removed.forget
    next => exact .ret removed

/-- Past the reservation: what it counts for is ahead of the URL. -/
theorem reserveMedia_holds {key : String} {bytes : Nat} {uid : String}
    (own : authorizeKeyWrite uid key = true) (calm : g.Calm uid now s)
    (holds : g.Holds size uid 0 s) :
    Interaction.Ends (Meter size now i) (reserveMedia uid key bytes).run s fun r t =>
      (∀ e, r = .error e → g.Holds size uid 0 t) ∧
        (r = .ok () → g.Holds size uid (if isMedia uid key then g.weigh bytes else 0) t) := by
  rw [reserveMedia]
  split
  next media =>
    have within := isMedia_of_write own media
    refine Ends.checked (fun _ => ⟨fun _ _ => holds, fun h => nomatch h⟩) fun _ => ?_
    simp only [run_bind, run_tryStore, ask_bind, Prog.op_bind]
    refine .op fun r t served => ?_
    rcases metered_reserveUpload served with ⟨rfl, rfl⟩ | ⟨⟨err, rfl⟩, rfl⟩
    · have populated : (s.fresh size now uid).expiresAt ≠ none :=
        QuotaEntry.refreshIfExpired_populated
      have covered := Gauge.reserve_covered populated (holds.fresh calm) bytes
      simp only [Prog.ret_bind, run_check, if_pos within]
      refine .ret ⟨fun e refused => ?_, fun granted => ?_⟩
      · have denied : ((s.fresh size now uid).reserve bytes).1 ≠ .granted := by
          intro granted
          simp [granted] at refused
        rw [if_neg denied] at covered
        exact .entry covered
      · have allowed : ((s.fresh size now uid).reserve bytes).1 = .granted := by
          by_contra denied
          simp [denied] at granted
        rw [if_pos allowed] at covered
        exact .entry covered
    · exact .ret ⟨fun _ _ => holds, fun h => nomatch h⟩
  next other =>
    have outside : ¬ isMedia uid key = true := fun within => other (startsWith_media within)
    rw [if_neg outside]
    exact .ret ⟨fun _ _ => holds, fun _ => holds⟩

theorem storePresign_holds {body : Option Json} (known : Token.identity env token = some user)
    (calm : g.Calm user.userId.str now s) (holds : g.Holds size user.userId.str 0 s) :
    Interaction.Ends (Meter size now i) (storePresign env token body).run s
      fun _ t => g.Holds size user.userId.str 0 t := by
  refine Ends.authenticated known (fun e t here => holds.recached here) fun u here => ?_
  refine Ends.orFail (fun _ => holds.recached here) fun req parsed => ?_
  refine Ends.checked (fun _ => holds.recached here) fun _ => ?_
  refine Ends.checked (fun _ => holds.recached here) fun own => ?_
  refine Ends.checked (fun _ => holds.recached here) fun _ => ?_
  refine Ends.andThen (reserveMedia_holds own (calm.recached here) (holds.recached here))
    (fun e t after => after.1 e rfl) fun _ v after => ?_
  have ahead := after.2 rfl
  simp only [run_tryStore, ask_bind]
  refine .op fun r t served => ?_
  obtain ⟨w, ran, rfl⟩ := metered_elsewhere served rfl
  -- the URL adds no more than was reserved for it, and nothing when signing fails
  have granted : g.Holds size user.userId.str 0 { v with sys := w } := by
    refine ahead.lessen ?_
    rcases served_presignPut ran with ⟨_, rfl⟩ | ⟨rfl, _⟩
    · exact Gauge.load_grant
    · exact Nat.add_le_add_left (Nat.zero_le _) _
  cases r with
  | ok => exact .ret granted
  | error e => exact .ret granted

/-- One step: a request, an upload or a wait leaves the gauge within its bound. -/
theorem MediaStep.holds {a : MediaAction} {t : Metered ι}
    (step : MediaStep env size token i a s t) (known : Token.identity env token = some user)
    (batch : OneBatch user.userId.str s.sys → g.pending user.userId.str s.sys ≤ g.cap)
    (calm : a.Calm user.userId.str s) (holds : g.Holds size user.userId.str 0 s) :
    g.Holds size user.userId.str 0 t := by
  cases step with
  | presign run => exact storePresign_holds known (fun renew => batch (calm renew)) holds _ _ run
  | delete run => exact deleteObject_holds known holds _ _ run
  | usage run => exact storeUsage_holds known (fun renew => batch (calm renew)) holds _ _ run
  | upload granted live signed =>
    exact holds.lessen (Nat.add_le_add_right (Gauge.load_upload granted live signed) 0)
  | wait passed => exact holds.lessen (Nat.add_le_add_right (Gauge.load_wait passed) 0)

/-- A whole run: every step starts where the last one left the gauge. -/
theorem MediaRun.holds {t : Metered ι}
    (run : MediaRun env size token i (MediaAction.Calm user.userId.str) s t)
    (known : Token.identity env token = some user)
    (batch : ∀ u : Sys ι, OneBatch user.userId.str u → g.pending user.userId.str u ≤ g.cap)
    (holds : g.Holds size user.userId.str 0 s) : g.Holds size user.userId.str 0 t := by
  induction run with
  | refl => exact holds
  | tail _ last ih =>
    obtain ⟨a, calm, step⟩ := last
    exact step.holds known (batch _) calm ih

end Handlers

/-- A server whose cache is empty, with no more stored and grantable than twice the quota. -/
structure Opening (size : Data → Nat) (uid : String) (s : Metered ι) : Prop where
  unprobed : (s.entries uid).expiresAt = none
  bytes : mediaBytes size uid s.sys + ((usable uid s.sys).map Grant.contentLength).sum ≤
    2 * USER_MEDIA_QUOTA_BYTES
  blobs : mediaCount uid s.sys + (usable uid s.sys).length ≤ 2 * USER_MEDIA_BLOB_CAP

/-- The twofold bound. -/
def WithinTwice (size : Data → Nat) (uid : String) (s : Metered ι) : Prop :=
  mediaBytes size uid s.sys ≤ 2 * USER_MEDIA_QUOTA_BYTES ∧
    mediaCount uid s.sys ≤ 2 * USER_MEDIA_BLOB_CAP

/-! ### A user who hoards -/

namespace Hoard

open Sample

/-- Only uploads reach the user's media, and those are raw bytes. -/
def size : Data → Nat
  | .raw bytes => bytes.length
  | _ => 0

/-- The account of a user who has stored nothing, with the guard's caches warm. -/
def base (grants : List Grant) (objects : ObjectMap String Data) (e : QuotaEntry) : Metered Unit where
  sys := { objects, grants, deviceCache := [keyDevice uid did], profileCache := [(uid, 1)] }
  entries := Function.update (fun _ => {}) uid e

def blob (n : Nat) : String := prefixMedia uid ++ String.ofList (List.replicate (n + 1) 'a')

def request (n : Nat) : Json := .obj [("key", .str (blob n)), ("bytes", .num (.int MAX_MEDIA_BYTES))]

def grant (n : Nat) : Grant := ⟨blob n, MAX_MEDIA_BYTES, 15 * 60 * second⟩

/-- The URLs of the first `n` presigns, latest first. -/
def grants : Nat → List Grant
  | 0 => []
  | n + 1 => grant n :: grants n

theorem blob_own (n : Nat) : authorizeKeyWrite uid (blob n) = true := by
  have within : startsWith (blob n) (prefixMedia uid) = true := startsWith_append _ _
  rw [prefixMedia] at within
  simp only [authorizeKeyWrite, DATA_PREFIXES, List.any_cons, within, Bool.or_true, Bool.true_or]

theorem hasDoubleSlash_replicate (n : Nat) : hasDoubleSlash (List.replicate n 'a') = false := by
  induction n with
  | zero => rfl
  | succ n ih =>
    cases n with
    | zero => rfl
    | succ n =>
      rw [List.replicate_succ, List.replicate_succ, hasDoubleSlash, ← List.replicate_succ, ih]
      rfl

theorem hasDoubleSlash_split (xs ys : List Char) (c : Char) :
    hasDoubleSlash (xs ++ c :: ys) = (hasDoubleSlash (xs ++ [c]) || hasDoubleSlash (c :: ys)) := by
  induction xs with
  | nil => simp [hasDoubleSlash]
  | cons a rest ih =>
    cases rest with
    | nil => simp [hasDoubleSlash]
    | cons b rest =>
      simp only [List.cons_append, hasDoubleSlash] at ih ⊢
      rw [ih, Bool.or_assoc]

example : hasDoubleSlash "a/b".toList = false ∧ hasDoubleSlash "a//b".toList = true := by decide +kernel

theorem blob_chars (n : Nat) : (blob n).toList =
    "media/01ARZ3NDEKTSV4RRFFQ69G5FAV".toList ++ '/' :: List.replicate (n + 1) 'a' := by
  simp [blob, prefixMedia, uid]

theorem blob_nonempty (n : Nat) : blob n ≠ "" := by
  intro empty
  have first := blob_chars n
  rw [empty] at first
  cases first

theorem blob_safe (n : Nat) : isObjectNameSafe (blob n) = true := by
  have first : (blob n).toList.head? = some 'm' := by rw [blob_chars]; rfl
  have last : (blob n).toList.getLast? = some 'a' := by
    rw [blob_chars]
    simp [List.getLast?_cons, List.getLast?_replicate]
  have single : hasDoubleSlash (blob n).toList = false := by
    rw [blob_chars, hasDoubleSlash_split]
    simp only [List.replicate_succ, hasDoubleSlash]
    rw [← List.replicate_succ, hasDoubleSlash_replicate]
    decide
  have starts : startsWith (blob n) "/" = false := by
    by_contra wrong
    have slash := head_of_startsWith (c := '/') (Bool.not_eq_false _ ▸ wrong) rfl
    rw [first] at slash
    cases slash
  have ends : endsWith (blob n) "/" = false := by
    by_contra wrong
    simp only [endsWith, Bool.not_eq_false, List.isSuffixOf_iff_suffix] at wrong
    obtain ⟨front, whole⟩ := wrong
    rw [← whole, List.getLast?_append] at last
    cases last
  simp only [isObjectNameSafe, single, starts, ends, decide_eq_true (blob_nonempty n),
    Bool.not_false, Bool.and_self]

theorem media_empty : listObjectSizes size (base [] store {}).sys (prefixMedia uid)
    USER_MEDIA_BLOB_CAP = ⟨0, 0, false⟩ := by
  decide

/-- The entry once a probe that saw nothing is followed by one reservation. -/
def reserved : QuotaEntry := ⟨MAX_MEDIA_BYTES, 1, some (0 + QUOTA_CACHE_TTL_SECS * second)⟩

section

variable {gs : List Grant} {o : ObjectMap String Data} {e : QuotaEntry}

@[simp] theorem base_entry : (base gs o e).entries uid = e := by
  simp only [base, Function.update_self]

@[simp] theorem base_setEntry (e' : QuotaEntry) : (base gs o e).setEntry uid e' = base gs o e' := by
  simp only [Metered.setEntry, base, Function.update_idem]

/-- The guard lets the user in and changes nothing. -/
theorem admitted {β : Type} {f : AuthedUser → Handler β} {r : Except ApiError β} {t : Metered Unit}
    (run : Runs (Meter size 0 ()) (f authed).run (base gs o e) r t) :
    Runs (Meter size 0 ()) (authenticate env token true >>= f).run (base gs o e) r t := by
  have seen : Meter size 0 () (.deviceCacheValid (keyDevice uid did)) (base gs o e) true
      (base gs o e) := ⟨.ok, by simp [meter, exec, base]⟩
  have cached : Meter size 0 () (.profileCacheGet uid) (base gs o e) (some 1) (base gs o e) :=
    ⟨.ok, by simp [meter, exec, base]⟩
  rw [authenticate_known identity_token, run_bind]
  refine runs_bind.mpr ⟨.ok authed, base gs o e, ?_, run⟩
  rw [admitUser, run_bind]
  refine runs_bind.mpr ⟨.ok (), base gs o e, .op seen (.ret _ _), ?_⟩
  simp only [if_true, run_bind]
  exact runs_bind.mpr ⟨.ok 1, base gs o e, .op cached (.ret _ _), .ret _ _⟩

/-- Whatever was granted before, a cache that has expired grants the next URL. -/
theorem presigned (n : Nat) (absent : e.expiresAt = none) :
    MediaStep env size token () (.presign 0 (some (request n))) (base gs store e)
      (base (grant n :: gs) store reserved) := by
  refine .presign (r := .ok ()) (admitted ?_)
  have parsed : (some (request n)).bind PresignRequest.fromJson = some ⟨blob n, MAX_MEDIA_BYTES⟩ :=
    rfl
  have safe : decide (blob n ≠ "" ∧ (0 : Int) < MAX_MEDIA_BYTES) = true :=
    decide_eq_true ⟨blob_nonempty n, by decide⟩
  have own : authorizeKeyWrite authed.userId.str (blob n) = true := blob_own n
  have media : startsWith (blob n) "media/" = true := startsWith_media (startsWith_append _ _)
  have taken : Meter size 0 () (.reserveUpload uid MAX_MEDIA_BYTES) (base gs store e) (.ok .granted)
      (base gs store reserved) := by
    refine ⟨.ok, ?_⟩
    have probed : (base gs store e).fresh size 0 uid =
        ⟨0, 0, some (0 + QUOTA_CACHE_TTL_SECS * second)⟩ := by
      have listed : listObjectSizes size (base gs store e).sys (prefixMedia uid)
          USER_MEDIA_BLOB_CAP = ⟨0, 0, false⟩ := media_empty
      have renewed : e.expired 0 = true := by rw [QuotaEntry.expired, absent]; rfl
      rw [Metered.fresh, base_entry, QuotaEntry.refreshIfExpired, if_pos renewed, listed]
    have granted : QuotaEntry.reserve MAX_MEDIA_BYTES
        ⟨0, 0, some (0 + QUOTA_CACHE_TTL_SECS * second)⟩ = (.granted, reserved) := by decide
    simp only [meter, probed, granted, base_setEntry]
  have signed : Meter size 0 () (.presignPut (blob n) MAX_MEDIA_BYTES (15 * 60 * second))
      (base gs store reserved) (.ok ()) (base (grant n :: gs) store reserved) :=
    ⟨.ok, by simp [meter, exec, base, grant]⟩
  rw [parseBody, parsed]
  simp only [run_bind, run_orFail_some, Prog.ret_bind, run_check, safe, own, blob_safe, if_true]
  refine runs_bind.mpr ⟨.ok (), base gs store reserved, ?_, .op signed (.ret _ _)⟩
  rw [reserveMedia, if_pos media, run_bind]
  exact .op taken (.ret _ _)

/-- A delete of a key that was never stored expires the cache. -/
theorem deleted (absent : o.get (prefixMedia uid ++ "gone") = none) :
    MediaStep env size token () (.delete (some (prefixMedia uid ++ "gone"))) (base gs o e)
      (base gs o e.invalidate) := by
  refine .delete (r := .ok ()) (admitted ?_)
  have named : nonEmpty (some (prefixMedia uid ++ "gone")) = some (prefixMedia uid ++ "gone") := by
    decide
  have own : authorizeKeyWrite authed.userId.str (prefixMedia uid ++ "gone") = true := by
    decide
  have media : startsWith (prefixMedia uid ++ "gone") "media/" = true := by decide
  have removed : Meter size 0 () (.deleteObject (prefixMedia uid ++ "gone")) (base gs o e) (.ok ())
      (base gs o e) := by
    have kept : o.eraseAll [prefixMedia uid ++ "gone"] = o :=
      ObjectMap.eraseWhere_absent fun j same => by
        rw [List.mem_singleton.mp (of_decide_eq_true same), absent]
    exact ⟨.ok, by simp only [meter, exec, base, Sys.remove, kept, Option.map_some]⟩
  have forgotten : Meter size 0 () (.quotaInvalidate authed.userId.str) (base gs o e) ()
      (base gs o e.invalidate) := by
    have here : authed.userId.str = uid := rfl
    exact ⟨.ok, by simp only [meter, here, base_entry, base_setEntry]⟩
  rw [named]
  simp only [run_bind, run_orFail_some, Prog.ret_bind, run_check, own, if_true, run_tryStore,
    ask_bind, Prog.op_bind]
  refine .op removed ?_
  simp only [Prog.ret_bind, if_pos media]
  exact .op forgotten (.ret _ _)

/-- A blob of the largest size admitted. -/
def content : Data := .raw (List.replicate MAX_MEDIA_BYTES 0)

theorem size_content : size content = MAX_MEDIA_BYTES := List.length_replicate

theorem uploaded (n : Nat) :
    MediaStep env size token () (.upload (grant n) content) (base (grants (n + 1)) o e)
      (base (grants n) (o.insert (blob n) content) e) := by
  have live : (base (grants (n + 1)) o e).sys.clock ≤ (grant n).expires :=
    show (0 : Int) ≤ 15 * 60 * second by decide
  have step : MediaStep env size token () (.upload (grant n) content) (base (grants (n + 1)) o e) _ :=
    .upload List.mem_cons_self live size_content
  have used : (base (grants (n + 1)) o e).sys.grants.erase (grant n) = grants n :=
    List.erase_cons_head ..
  rw [used] at step
  exact step

theorem blob_inj {n m : Nat} (same : blob n = blob m) : n = m := by
  have size : (blob n).toList.length = (blob m).toList.length := by rw [same]
  rw [blob_chars, blob_chars] at size
  simpa using size

/-- All of the first `n` URLs are live, and all are for the user's media. -/
theorem usable_grants (n : Nat) : usable uid (base (grants n) o e).sys = grants n := by
  refine List.filter_eq_self.mpr ?_
  show ∀ u ∈ grants n, (isMedia uid u.key && decide ((0 : Int) ≤ u.expires)) = true
  induction n with
  | zero => exact List.forall_mem_nil _
  | succ n ih =>
    have within : isMedia uid (blob n) = true := startsWith_append _ _
    have live : decide ((0 : Int) ≤ (grant n).expires) = true :=
      decide_eq_true (show (0 : Int) ≤ 15 * 60 * second by decide)
    exact List.forall_mem_cons.mpr ⟨(Bool.and_eq_true _ _).mpr ⟨within, live⟩, ih⟩

/-- Forty URLs are one batch. -/
theorem oneBatch_grants {n : Nat} (few : n ≤ 40) : OneBatch uid (base (grants n) o e).sys := by
  have sizes : ((grants n).map Grant.contentLength).sum = n * MAX_MEDIA_BYTES := by
    clear few
    induction n with
    | zero => rfl
    | succ n ih => rw [grants, List.map_cons, List.sum_cons, ih, grant]; ring
  have number : (grants n).length = n := by
    clear few sizes
    induction n with
    | zero => rfl
    | succ n ih => rw [grants, List.length_cons, ih]
  rw [OneBatch, usable_grants, sizes, number, MAX_MEDIA_BYTES, USER_MEDIA_QUOTA_BYTES,
    USER_MEDIA_BLOB_CAP]
  omega

variable (allow : Metered Unit → MediaAction → Prop)

/-- Presigns with a delete after each: the cache forgets every URL it has granted. -/
theorem hoarded (n : Nat)
    (presigns : ∀ k < n, ∀ e, allow (base (grants k) store e) (.presign 0 (some (request k))))
    (deletes : ∀ s key, allow s (.delete key)) : ∃ e : QuotaEntry, e.expiresAt = none ∧
      MediaRun env size token () allow (base [] store {}) (base (grants n) store e) := by
  induction n with
  | zero => exact ⟨{}, rfl, .refl⟩
  | succ n ih =>
    obtain ⟨e, absent, run⟩ := ih fun k below => presigns k (by omega)
    exact ⟨reserved.invalidate, rfl, (run.tail ⟨_, presigns n (by omega) e, presigned n absent⟩).tail
      ⟨_, deletes _ _, deleted (by decide)⟩⟩

/-- All URLs are used, each for its own key. -/
theorem filled (n : Nat) (free : ∀ k < n, o.get (blob k) = none)
    (uploads : ∀ s u d, allow s (.upload u d)) :
    ∃ o', o'.total (isMedia uid) size = n * MAX_MEDIA_BYTES + o.total (isMedia uid) size ∧
      MediaRun env size token () allow (base (grants n) o e) (base [] o' e) := by
  induction n generalizing o with
  | zero => exact ⟨o, by simp, .refl⟩
  | succ n ih =>
    have next (k : Nat) (below : k < n) : (o.insert (blob n) content).get (blob k) = none := by
      rw [ObjectMap.get_insert, if_neg fun same => below.ne (blob_inj same)]
      exact free k (by omega)
    obtain ⟨o', full, run⟩ := ih next
    have within : isMedia uid (blob n) = true := startsWith_append _ _
    have added := ObjectMap.total_insert_new (w := size) (v := content) (free n (by omega)) within
    rw [size_content] at added
    exact ⟨o', by rw [full, added]; ring, .head ⟨_, uploads _ _ _, uploaded n⟩ run⟩

theorem blob_free (n : Nat) : store.get (blob n) = none := by
  have first : (blob n).toList.head? = some 'm' := by rw [blob_chars]; rfl
  have away {key : String} (other : key.toList.head? ≠ some 'm') : blob n ≠ key :=
    ne_of_head (first ▸ other.symm)
  rw [store, ObjectMap.get_insert, if_neg (away (by simp [keyHandle])), ObjectMap.get_insert,
    if_neg (away (by simp [keyDevice])), ObjectMap.get_insert, if_neg (away (by simp [keyProfile])),
    ObjectMap.get_empty]

/-- Nothing is stored among the media, and no URL is out. -/
theorem opening : Opening size uid (base [] store {}) where
  unprobed := by rw [base_entry]
  bytes := by decide
  blobs := by decide

end

end Hoard

/-! ### The bound -/

/-- While no probe finds more than one batch outstanding, what is stored never exceeds twice the
quota. -/
theorem media_twofold {env : Env} {size : Data → Nat} {token : Option String} {user : AuthedUser}
    {i : ι} {s t : Metered ι} (known : Token.identity env token = some user)
    (opening : Opening size user.userId.str s)
    (run : MediaRun env size token i (MediaAction.Calm user.userId.str) s t) :
    WithinTwice size user.userId.str t := by
  have started {g : Gauge} (below : g.load size user.userId.str s.sys ≤ 2 * g.cap) :
      g.Holds size user.userId.str 0 s := by
    refine ⟨below, fun seen here => ?_⟩
    simp [Gauge.believed, opening.unprobed] at here
  have each (u : Sys ι) : Gauge.blobs.pending user.userId.str u = (usable user.userId.str u).length := by
    simp [Gauge.pending, Gauge.blobs]
  have bytes : Gauge.bytes.Holds size user.userId.str 0 t :=
    run.holds known (fun _ batch => batch.1) (started opening.bytes)
  have blobs : Gauge.blobs.Holds size user.userId.str 0 t := by
    refine run.holds known (fun u batch => (each u).le.trans batch.2) (started ?_)
    rw [Gauge.load, Gauge.stored_blobs, each]
    exact opening.blobs
  constructor
  · exact (Nat.le_add_right _ _).trans bytes.bounded
  · rw [← Gauge.stored_blobs size]
    exact (Nat.le_add_right _ _).trans blobs.bounded

/-- Of 41 presigns with a delete after each, every probe finds at most forty URLs outstanding, and
once all are used the user is past the quota, by less than a second one. -/
theorem hoard_within_twice : ∃ t, MediaRun Sample.env Hoard.size Sample.token ()
      (MediaAction.Calm Sample.uid) (Hoard.base [] Sample.store {}) t ∧
    USER_MEDIA_QUOTA_BYTES < mediaBytes Hoard.size Sample.uid t.sys ∧
    WithinTwice Hoard.size Sample.uid t := by
  obtain ⟨e, _, granted⟩ := Hoard.hoarded (MediaAction.Calm Sample.uid) 41
    (fun k below e _ => Hoard.oneBatch_grants (Nat.le_of_lt_succ below)) (fun _ _ => trivial)
  obtain ⟨o, full, used⟩ := Hoard.filled (e := e) (MediaAction.Calm Sample.uid) 41
    (fun k _ => Hoard.blob_free k) (fun _ _ _ => trivial)
  have run := granted.trans used
  have within : WithinTwice Hoard.size Sample.authed.userId.str _ :=
    media_twofold Sample.identity_token Hoard.opening run
  have past : USER_MEDIA_QUOTA_BYTES < o.total (isMedia Sample.uid) Hoard.size := by
    rw [full, MAX_MEDIA_BYTES, USER_MEDIA_QUOTA_BYTES]
    omega
  exact ⟨_, run, past, within⟩

/-- Presign and delete by turns, then upload: the user stores 2050 MiB. -/
theorem quota_overrun : ∃ t, MediaRun Sample.env Hoard.size Sample.token ()
      (fun _ _ => True) (Hoard.base [] Sample.store {}) t ∧
    ¬ WithinTwice Hoard.size Sample.uid t := by
  obtain ⟨e, _, granted⟩ := Hoard.hoarded (fun _ _ => True) 82 (fun _ _ _ => trivial)
    (fun _ _ => trivial)
  obtain ⟨o, full, used⟩ := Hoard.filled (e := e) (fun _ _ => True) 82 (fun k _ => Hoard.blob_free k)
    (fun _ _ _ => trivial)
  refine ⟨_, granted.trans used, fun within => ?_⟩
  have stored : o.total (isMedia Sample.uid) Hoard.size ≤ 2 * USER_MEDIA_QUOTA_BYTES := within.1
  rw [full, MAX_MEDIA_BYTES, USER_MEDIA_QUOTA_BYTES] at stored
  omega

end Atmin
