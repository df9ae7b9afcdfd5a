import Atmin.Server.Log

/-!
# A sample account

The secret, ids and tokens of the server's own tests, with the values the libraries
return for them.
-/

namespace Atmin.Sample

def uid : String := "01ARZ3NDEKTSV4RRFFQ69G5FAV"

def did : String := "01BX5ZZKBKACTAV9WEVGEMMVRZ"

def user : UserId := ⟨uid, by decide +kernel⟩

def device : DeviceId := ⟨did, by decide +kernel⟩

def authPublicKey : String := "iojj3XQJ8ZX9UtstPLpdcspnCb8dlBIb83SIAbQPb1w"

def sharingPublicKey : String :=
  "BAABAgMEBQYHCAkKCwwNDg8QERITFBUWFxgZGhscHR4fICEiIyQlJicoKSorLC0uLzAxMjM0NTY3ODk6Ozw9Pj8"

def salt : String := "AAECAwQFBgcICQoLDA0ODw"

def kdf : KdfParams := ⟨"argon2id", 65536, 3, 1⟩

/-- HMAC-SHA256 of the two messages that are authenticated below. -/
def mac (message : List UInt8) : List UInt8 :=
  if message = Token.utf8 (uid ++ "." ++ did ++ ".1") then
    [219, 109, 12, 24, 166, 178, 175, 12, 150, 105, 157, 39, 193, 40, 234, 149, 19, 230, 192, 72,
      182, 194, 131, 58, 132, 94, 245, 204, 195, 49, 78, 184]
  else []

/-- The signed fields of `rotation`, canonicalized, and their signature under `authPublicKey`. -/
def canonical : String :=
  "\x7b\"auth_public_key\":\"gTl3Dqh9F19Wo1Rmw0x-zMuNipG07jeiXfYPW4_Js5Q\",\"kdf\":\x7b\"m\":65536," ++
  "\"p\":1,\"t\":3,\"type\":\"argon2id\"\x7d,\"key_version\":2,\"request_id\":" ++
  "\"00000000-0000-4000-8000-000000000001\",\"salt\":\"AAECAwQFBgcICQoLDA0ODw\"," ++
  "\"sharing_public_key\":\"BAABAgMEBQYHCAkKCwwNDg8QERITFBUWFxgZGhscHR4fICEiIyQlJicoKSorLC0uLzAxMj" ++
  "M0NTY3ODk6Ozw9Pj8\"\x7d"

def signature : String :=
  "DACoPNjDLB1TDMZHRg3pWs0o0E_XgpN0l9d4u4MkjSwkmO0v2gZybBG_VpYE9G_rRXCZRpukE_sMhekEsy-UAA"

/-- A proof by `did`, canonicalized, and its signature under `authPublicKey`. -/
def proofCanonical : String :=
  "\x7b\"device_id\":\"01BX5ZZKBKACTAV9WEVGEMMVRZ\",\"key_version\":1,\"timestamp\":" ++
  "\"1970-01-01T00:00:00Z\",\"user_id\":\"01ARZ3NDEKTSV4RRFFQ69G5FAV\"\x7d"

def proofSignature : String :=
  "2JC18BEbPWZsRpdNIh5ZXP_J9sroqvDsQ_OxJP2YD1-wkGsgVfTjYqwqk5X_ISch_2vK1tIX8D7YlKWBQsaoCQ"

def epoch : String := "1970-01-01T00:00:00Z"

def env : Env where
  serverSecret := Token.utf8 "test-server-secret"
  hmac _ message := mac message
  canonicalize
    | .obj (("device_id", _) :: _) => some (Token.utf8 proofCanonical)
    | _ => some (Token.utf8 canonical)
  verifyStrict key message sig := decide (Base64.decode authPublicKey = some key ∧
    (message = Token.utf8 canonical ∧ Base64.decode signature = some sig ∨
      message = Token.utf8 proofCanonical ∧ Base64.decode proofSignature = some sig))
  powBits _ _ := 0
  bits := 0
  formatSecs _ := epoch
  formatDay _ := "1970-01-01"
  parseRfc3339 stamp := if stamp = epoch then some 0 else none

/-- The token `register` returns for these ids. -/
def token : Option String :=
  some ("MDFBUlozTkRFS1RTVjRSUkZGUTY5RzVGQVYuMDFCWDVaWktCS0FDVEFWOVdFVkdFTU1WUlouMS4yMjBNR0th" ++
    "eXJ3eVdhWjBud1NqcWxSUG13RWkyd29NNmhGNzF6TU14VHJn")

def authed : AuthedUser := ⟨user, device, .ONE⟩

theorem identity_token : Token.identity env token = some authed := by
  decide +kernel

def profile : Profile where
  userId := uid
  handle := "alice"
  authPublicKey := authPublicKey
  sharingPublicKey := sharingPublicKey
  salt := salt
  kdf := some kdf
  keyVersion := 1
  createdAt := epoch

/-- An account with one device, just registered. -/
def store : Interaction.ObjectMap String Data :=
  ((Interaction.ObjectMap.empty.insert (keyProfile uid) profile.data).insert (keyDevice uid did)
    (deviceFile did "phone" epoch)).insert (keyHandle "alice") (handleProjection profile).data

theorem store_profile : store.get (keyProfile uid) = some profile.data := by
  rw [store, Interaction.ObjectMap.get_insert, if_neg (keyHandle_ne_profile _ _).symm,
    Interaction.ObjectMap.get_insert, if_neg (keyDevice_ne_profile _ _).symm,
    Interaction.ObjectMap.get_insert, if_pos rfl]

theorem store_record (rid : String) : store.get (keyRotationRecord uid rid) = none := by
  rw [store, Interaction.ObjectMap.get_insert, if_neg (keyHandle_ne_record _ _ _).symm,
    Interaction.ObjectMap.get_insert, if_neg (keyDevice_ne_record _ _ _).symm,
    Interaction.ObjectMap.get_insert, if_neg (keyRecord_ne_profile _ _),
    Interaction.ObjectMap.get_empty]

theorem ne_of_inbox {key : String} (within : startsWith key "inbox/" = true) (other : String)
    (first : other.toList.head? ≠ some 'i') : key ≠ other := by
  rintro rfl
  simp only [startsWith, List.isPrefixOf_iff_prefix] at within
  obtain ⟨rest, same⟩ := within
  rw [← same] at first
  exact first rfl

theorem store_data {key : String} (within : startsWith key "inbox/" = true) : store.get key = none := by
  rw [store, Interaction.ObjectMap.get_insert, if_neg (ne_of_inbox within _ (by simp [keyHandle])),
    Interaction.ObjectMap.get_insert, if_neg (ne_of_inbox within _ (by simp [keyDevice])),
    Interaction.ObjectMap.get_insert, if_neg (ne_of_inbox within _ (by simp [keyProfile])),
    Interaction.ObjectMap.get_empty]

theorem store_inbox {key : String} (within : startsWith key (prefixInbox user.str) = true) :
    store.get key = none := store_data (inbox_data within)

def sys (ι : Type) : Sys ι := { objects := store, deviceCache := [keyDevice uid did] }

theorem sys_objects (ι : Type) : (sys ι).objects = store := rfl

theorem stored_profile {ι : Type} : profileOf user (sys ι) = some profile := by
  rw [profileOf, show (sys ι).objects.get (keyProfile user.str) = some profile.data
    from store_profile]
  exact Profile.parse_data profile

theorem token_user {other : AuthedUser} (known : Token.identity env token = some other) :
    other.userId = user := by
  rw [identity_token] at known
  exact congrArg AuthedUser.userId (Option.some.inj known).symm

/-- A rotation to version 2. -/
def rotation : Json :=
  .obj [("request_id", .str "00000000-0000-4000-8000-000000000001"), ("key_version", .ofU32 2),
    ("auth_public_key", .str "gTl3Dqh9F19Wo1Rmw0x-zMuNipG07jeiXfYPW4_Js5Q"),
    ("sharing_public_key", .str sharingPublicKey), ("salt", .str salt), ("kdf", kdf.toJson),
    ("continuity_signature", .str signature)]

/-- The proof `did` registers again with. -/
def readmission : Json :=
  .obj [("user_id", .str uid), ("auth_proof", .obj [("payload", .obj [("device_id", .str did),
    ("key_version", .ofU32 1), ("timestamp", .str epoch), ("user_id", .str uid)]),
    ("signature", .str proofSignature)]), ("device_label", .str "phone")]

def msgId : String := "01BX5ZZKBKACTAV9WEVGEMMVS0"

/-- A message of the user to herself. -/
def envelope : Json :=
  .obj [("to_user", .str uid), ("from_user", .str uid), ("from_device", .str did),
    ("msg_id", .str msgId), ("ciphertext", .str "AAAA")]

def mail : Json := .obj [("envelopes", .arr [envelope])]

/-- A change of the display name. -/
def rename : Json := .obj [("display_name", .str "Alice")]

end Atmin.Sample
