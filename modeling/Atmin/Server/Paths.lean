import Atmin.Server.Model

/-!
# Keys and authorization (`paths.rs`)
-/

namespace Atmin

def startsWith (s pre : String) : Bool := pre.toList.isPrefixOf s.toList

def endsWith (s suf : String) : Bool := suf.toList.isSuffixOf s.toList

/-- `str::strip_suffix`. -/
def stripSuffix (s suf : String) : Option String :=
  if endsWith s suf then some (String.ofList (s.toList.take (s.toList.length - suf.toList.length)))
  else none

/-- `str::strip_prefix`. -/
def stripPrefix (s pre : String) : Option String :=
  if startsWith s pre then some (String.ofList (s.toList.drop pre.toList.length)) else none

def keyProfile (userId : String) : String := "users/" ++ userId ++ "/profile.json"

def keyDevice (userId deviceId : String) : String :=
  "users/" ++ userId ++ "/devices/" ++ deviceId ++ ".json"

def keyHandle (handle : String) : String := "handles/" ++ handle ++ ".json"

def prefixMedia (userId : String) : String := "media/" ++ userId ++ "/"

def prefixUser (userId : String) : String := "users/" ++ userId ++ "/"

def prefixInbox (userId : String) : String := "inbox/" ++ userId ++ "/"

def prefixInboxLive (userId : String) : String := "inbox/" ++ userId ++ "/live/"

def prefixInboxArchive (userId : String) : String := "inbox/" ++ userId ++ "/archive/"

def prefixKeys (userId : String) : String := "keys/" ++ userId ++ "/"

def prefixKeysLive (userId : String) : String := "keys/" ++ userId ++ "/live/"

def prefixUserDevices (userId : String) : String := "users/" ++ userId ++ "/devices/"

def keyInboxLive (userId msgId : String) : String := "inbox/" ++ userId ++ "/live/" ++ msgId

def keyRotationRecord (userId requestId : String) : String :=
  "users/" ++ userId ++ "/rotation-records/" ++ requestId ++ ".json"

def USERS_ROOT : String := "users/"

def DATA_PREFIXES : List String := ["inbox/", "keys/", "media/"]

/-- Exactly `users/{uid}/profile.json`: the one cross-user read. -/
def isPublicUserObject (key : String) : Bool :=
  ((stripPrefix key USERS_ROOT).bind fun rest => stripSuffix rest "/profile.json").any fun uid =>
    decide (uid ≠ "") && decide ('/' ∉ uid.toList)

def authorizePrefix (userId pre : String) : Bool :=
  DATA_PREFIXES.any (fun p => startsWith pre (p ++ userId ++ "/")) ||
    startsWith pre (USERS_ROOT ++ userId ++ "/") || isPublicUserObject pre

/-- Compaction is owner-only, and only for the live inbox and the live key backups. -/
def authorizeCompactPrefix (userId pre : String) : Bool :=
  decide (pre = prefixInboxLive userId) || decide (pre = prefixKeysLive userId)

def authorizeKey (userId key : String) : Bool :=
  authorizePrefix userId key || startsWith key "media/"

def authorizeKeyWrite (userId key : String) : Bool :=
  DATA_PREFIXES.any (fun p => startsWith key (p ++ userId ++ "/")) ||
    startsWith key (USERS_ROOT ++ userId ++ "/")

/-- Whether `//` occurs. -/
def hasDoubleSlash : List Char → Bool
  | a :: b :: rest => (a == '/' && b == '/') || hasDoubleSlash (b :: rest)
  | _ => false

def isObjectNameSafe (key : String) : Bool :=
  decide (key ≠ "") && !startsWith key "/" && !endsWith key "/" && !hasDoubleSlash key.toList

/-! ### Which keys can coincide -/

theorem startsWith_append (pre s : String) : startsWith (pre ++ s) pre = true := by
  simp [startsWith]

theorem endsWith_append (s suf : String) : endsWith (s ++ suf) suf = true := by
  simp [endsWith, List.isSuffixOf_iff_suffix]

theorem stripSuffix_append (s suf : String) : stripSuffix (s ++ suf) suf = some s := by
  rw [stripSuffix, if_pos (endsWith_append _ _)]
  simp

theorem startsWith_trans {a b c : String} (first : startsWith a b = true)
    (second : startsWith b c = true) : startsWith a c = true := by
  simp only [startsWith, List.isPrefixOf_iff_prefix] at *
  exact second.trans first

theorem string_append_inj {a b c d : String} (same : a ++ b = c ++ d)
    (size : a.toList.length = c.toList.length) : a = c ∧ b = d := by
  have chars : a.toList ++ b.toList = c.toList ++ d.toList := by
    rw [← String.toList_append, ← String.toList_append, same]
  obtain ⟨first, last⟩ := List.append_inj chars size
  exact ⟨String.toList_inj.mp first, String.toList_inj.mp last⟩

theorem append_left_inj {a b c : String} (same : a ++ b = a ++ c) : b = c :=
  (string_append_inj same rfl).2

theorem append_right_inj {a b c : String} (same : a ++ c = b ++ c) : a = b := by
  have size : a.toList.length = b.toList.length := by
    have := congrArg (fun s => s.toList.length) same
    simpa using this
  exact (string_append_inj same size).1

theorem ne_of_head {a b : String} (differ : a.toList.head? ≠ b.toList.head?) : a ≠ b :=
  fun same => differ (by rw [same])

theorem keyProfile_eq (uid : String) : keyProfile uid = prefixUser uid ++ "profile.json" := by
  simp only [keyProfile, prefixUser, String.append_assoc]
  rfl

theorem keyRotationRecord_eq (uid rid : String) :
    keyRotationRecord uid rid = prefixUser uid ++ ("rotation-records/" ++ (rid ++ ".json")) := by
  simp only [keyRotationRecord, prefixUser, String.append_assoc]
  rfl

theorem keyDevice_eq (uid did : String) :
    keyDevice uid did = prefixUser uid ++ ("devices/" ++ (did ++ ".json")) := by
  simp only [keyDevice, prefixUser, String.append_assoc]
  rfl

theorem device_within (uid did : String) :
    startsWith (keyDevice uid did) (prefixUserDevices uid) = true := by
  have split : keyDevice uid did = prefixUserDevices uid ++ (did ++ ".json") := by
    simp only [keyDevice, prefixUserDevices, String.append_assoc]
  rw [split]
  exact startsWith_append _ _

theorem keyRotationRecord_inj {uid a b : String}
    (same : keyRotationRecord uid a = keyRotationRecord uid b) : a = b := by
  rw [keyRotationRecord_eq, keyRotationRecord_eq] at same
  exact append_right_inj (append_left_inj (append_left_inj same))

theorem keyHandle_inj {a b : String} (same : keyHandle a = keyHandle b) : a = b := by
  unfold keyHandle at same
  exact append_left_inj (append_right_inj same)

theorem keyHandle_ne_user (h uid rest : String) : keyHandle h ≠ prefixUser uid ++ rest := by
  apply ne_of_head
  simp [keyHandle, prefixUser]

theorem keyHandle_ne_profile (h uid : String) : keyHandle h ≠ keyProfile uid := by
  rw [keyProfile_eq]
  exact keyHandle_ne_user _ _ _

theorem keyHandle_ne_record (h uid rid : String) : keyHandle h ≠ keyRotationRecord uid rid := by
  rw [keyRotationRecord_eq]
  exact keyHandle_ne_user _ _ _

theorem keyRecord_ne_profile (uid rid : String) : keyRotationRecord uid rid ≠ keyProfile uid := by
  rw [keyRotationRecord_eq, keyProfile_eq]
  intro same
  have rest := append_left_inj same
  exact ne_of_head (by simp) rest

theorem keyHandle_ne_device (h uid did : String) : keyHandle h ≠ keyDevice uid did := by
  rw [keyDevice_eq]
  exact keyHandle_ne_user _ _ _

theorem keyDevice_ne_profile (uid did : String) : keyDevice uid did ≠ keyProfile uid := by
  rw [keyDevice_eq, keyProfile_eq]
  intro same
  exact ne_of_head (by simp) (append_left_inj same)

theorem keyDevice_ne_record (uid did rid : String) :
    keyDevice uid did ≠ keyRotationRecord uid rid := by
  rw [keyDevice_eq, keyRotationRecord_eq]
  intro same
  exact ne_of_head (by simp) (append_left_inj same)

theorem prefixUser_length {u v : UserId} :
    (prefixUser u.str).toList.length = (prefixUser v.str).toList.length := by
  simp only [prefixUser, String.toList_append, List.length_append, validateUlid_length u.ulid,
    validateUlid_length v.ulid]

/-- A device file of any account is no profile. -/
theorem device_ne_profile (u v : UserId) (did : String) : keyDevice v.str did ≠ keyProfile u.str := by
  rw [keyDevice_eq, keyProfile_eq]
  intro same
  exact ne_of_head (by simp) (string_append_inj same prefixUser_length).2

theorem device_ne_record (u v : UserId) (did rid : String) :
    keyDevice u.str did ≠ keyRotationRecord v.str rid := by
  rw [keyDevice_eq, keyRotationRecord_eq]
  intro same
  exact ne_of_head (by simp) (string_append_inj same prefixUser_length).2

theorem keyDevice_inj {u v : UserId} {d e : String}
    (same : keyDevice u.str d = keyDevice v.str e) : u = v ∧ d = e := by
  rw [keyDevice_eq, keyDevice_eq] at same
  obtain ⟨users, rest⟩ := string_append_inj same prefixUser_length
  refine ⟨?_, append_right_inj (append_left_inj rest)⟩
  have ids : u.str = v.str := by
    simp only [prefixUser, String.append_assoc] at users
    exact append_right_inj (append_left_inj users)
  cases u
  cases v
  cases ids
  rfl

/-- Nothing under the data prefixes is under `users/`. -/
theorem data_ne_user {key root : String} (data : root ∈ DATA_PREFIXES)
    (within : startsWith key root = true) (uid rest : String) : key ≠ prefixUser uid ++ rest := by
  simp only [startsWith, List.isPrefixOf_iff_prefix] at within
  obtain ⟨tail, same⟩ := within
  apply ne_of_head
  rw [← same]
  simp only [DATA_PREFIXES, List.mem_cons, List.not_mem_nil, or_false] at data
  rcases data with rfl | rfl | rfl <;> simp [prefixUser]

/-- What is under somebody's inbox is under the inboxes. -/
theorem inbox_data {uid key : String} (within : startsWith key (prefixInbox uid) = true) :
    startsWith key "inbox/" = true := by
  refine startsWith_trans within ?_
  rw [prefixInbox, String.append_assoc]
  exact startsWith_append _ _

theorem inboxLive_data (uid msgId : String) : startsWith (keyInboxLive uid msgId) "inbox/" = true := by
  simp only [keyInboxLive, String.append_assoc]
  exact startsWith_append _ _

end Atmin
