import Atmin.Data.Value
import Atmin.Data.Base64

/-!
# Profiles and handle projections (`profile.rs`)

The stored shapes, with their JSON encodings and the tolerant derived readers.
-/

namespace Atmin

def KDF_FLOOR_MEMORY_KIB : UInt32 := 65536
def KDF_MAX_MEMORY_KIB : UInt32 := 1048576
def KDF_FLOOR_ITERATIONS : UInt32 := 3
def KDF_MAX_ITERATIONS : UInt32 := 16
def KDF_MAX_PARALLELISM : UInt32 := 8

structure KdfParams where
  kind : String
  m : UInt32
  t : UInt32
  p : UInt32
  deriving DecidableEq, Repr

/-- `argon2id`, within the floor and ceiling, and a 16-byte salt. -/
def validKdfParams (salt : String) (kdf : KdfParams) : Bool :=
  decide (kdf.kind = "argon2id") &&
  decide (KDF_FLOOR_MEMORY_KIB ≤ kdf.m ∧ kdf.m ≤ KDF_MAX_MEMORY_KIB) &&
  decide (KDF_FLOOR_ITERATIONS ≤ kdf.t ∧ kdf.t ≤ KDF_MAX_ITERATIONS) &&
  decide (1 ≤ kdf.p ∧ kdf.p ≤ KDF_MAX_PARALLELISM) &&
  (Base64.decode salt).any fun b => decide (b.length = 16)

/-- Two shapes share this type: a live projection, and a tombstone that holds only
`releasedAt`. -/
structure PublicHandleData where
  userId : String := ""
  sharingPublicKey : String := ""
  salt : String := ""
  kdf : Option KdfParams := none
  keyVersion : UInt32 := 0
  displayName : String := ""
  avatarUrl : String := ""
  releasedAt : String := ""
  deriving DecidableEq, Repr

structure Profile where
  userId : String := ""
  handle : String := ""
  authPublicKey : String := ""
  sharingPublicKey : String := ""
  salt : String := ""
  kdf : Option KdfParams := none
  keyVersion : UInt32 := 0
  displayName : String := ""
  avatarUrl : String := ""
  lastActive : String := ""
  createdAt : String := ""
  deriving DecidableEq, Repr

/-- The account credential: what only a rotation installs. -/
structure Credential where
  authPublicKey : String
  sharingPublicKey : String
  salt : String
  kdf : Option KdfParams
  keyVersion : UInt32
  deriving DecidableEq, Repr

/-- A stored version of 0 counts as 1. -/
def Credential.currentKv (c : Credential) : UInt32 := if c.keyVersion = 0 then 1 else c.keyVersion

def Profile.credential (p : Profile) : Credential :=
  ⟨p.authPublicKey, p.sharingPublicKey, p.salt, p.kdf, p.keyVersion⟩

namespace KdfParams

def names : List String := ["type", "m", "t", "p"]

def toJson (k : KdfParams) : Json :=
  .obj [("type", .str k.kind), ("m", .ofU32 k.m), ("t", .ofU32 k.t), ("p", .ofU32 k.p)]

def fromJson (j : Json) : Option KdfParams := do
  let f ← j.members names
  let kind ← Json.field Json.asStr (f "type")
  let m ← Json.field Json.asU32 (f "m")
  let t ← Json.field Json.asU32 (f "t")
  let p ← Json.field Json.asU32 (f "p")
  return ⟨kind, m, t, p⟩

@[simp] theorem fromJson_toJson (k : KdfParams) : fromJson k.toJson = some k := by
  have readable := @Json.members_obj names [("type", .str k.kind), ("m", .ofU32 k.m),
    ("t", .ofU32 k.t), ("p", .ofU32 k.p)] (by simp)
  simp [fromJson, toJson, readable]

/-- An `Option<KdfParams>` member. -/
def optToJson : Option KdfParams → Json
  | none => .null
  | some k => k.toJson

@[simp] theorem asOption_optToJson (k : Option KdfParams) :
    (optToJson k).asOption fromJson = some k := by
  cases k with
  | none => rfl
  | some k =>
    have read := fromJson_toJson k
    simp only [optToJson, toJson] at read ⊢
    simp [Json.asOption, read]

end KdfParams

namespace PublicHandleData

def names : List String :=
  ["user_id", "sharing_public_key", "salt", "kdf", "key_version", "display_name", "avatar_url",
    "released_at"]

def fields (h : PublicHandleData) : List (String × Json) :=
  Json.unlessEmpty "user_id" h.userId ++
    (Json.unlessEmpty "sharing_public_key" h.sharingPublicKey ++
    ([("salt", .str h.salt), ("kdf", KdfParams.optToJson h.kdf),
      ("key_version", .ofU32 h.keyVersion)] ++
    (Json.unlessEmpty "display_name" h.displayName ++
    (Json.unlessEmpty "avatar_url" h.avatarUrl ++ Json.unlessEmpty "released_at" h.releasedAt))))

def toJson (h : PublicHandleData) : Json := .obj h.fields

def fromJson (j : Json) : Option PublicHandleData := do
  let f ← j.members names
  let userId ← Json.fieldOr "" Json.asStr (f "user_id")
  let sharingPublicKey ← Json.fieldOr "" Json.asStr (f "sharing_public_key")
  let salt ← Json.fieldOr "" Json.asStr (f "salt")
  let kdf ← Json.fieldOr none (Json.asOption KdfParams.fromJson) (f "kdf")
  let keyVersion ← Json.fieldOr 0 Json.asU32 (f "key_version")
  let displayName ← Json.fieldOr "" Json.asStr (f "display_name")
  let avatarUrl ← Json.fieldOr "" Json.asStr (f "avatar_url")
  let releasedAt ← Json.fieldOr "" Json.asStr (f "released_at")
  return { userId, sharingPublicKey, salt, kdf, keyVersion, displayName, avatarUrl, releasedAt }

/-- The written members are the struct's fields in order, less the omitted ones. -/
private theorem fields_nodup (h : PublicHandleData) : (h.fields.map Prod.fst).Nodup := by
  have within : (h.fields.map Prod.fst).Sublist names := by
    simp only [fields, List.map_append]
    exact ((Json.names_unlessEmpty _ _).append ((Json.names_unlessEmpty _ _).append
      ((List.Sublist.refl ["salt", "kdf", "key_version"]).append
        ((Json.names_unlessEmpty _ _).append ((Json.names_unlessEmpty _ _).append
          (Json.names_unlessEmpty _ _))))))
  exact within.nodup (by simp [names])

@[simp] theorem fromJson_toJson (h : PublicHandleData) : fromJson h.toJson = some h := by
  have readable := @Json.members_obj names h.fields h.fields_nodup
  rw [fromJson, toJson, readable, fields]
  simp

/-- `serde_json::from_slice::<PublicHandleData>`. -/
def parse (d : Data) : Option PublicHandleData := d.asJson.bind fromJson

def data (h : PublicHandleData) : Data := .json h.toJson

@[simp] theorem parse_data (h : PublicHandleData) : parse h.data = some h := by
  simp [parse, data, Data.asJson]

end PublicHandleData

namespace Profile

def names : List String :=
  ["user_id", "handle", "auth_public_key", "sharing_public_key", "salt", "kdf", "key_version",
    "display_name", "avatar_url", "last_active", "created_at"]

def fields (p : Profile) : List (String × Json) :=
  [("user_id", .str p.userId), ("handle", .str p.handle),
    ("auth_public_key", .str p.authPublicKey), ("sharing_public_key", .str p.sharingPublicKey),
    ("salt", .str p.salt), ("kdf", KdfParams.optToJson p.kdf),
    ("key_version", .ofU32 p.keyVersion)] ++
  (Json.unlessEmpty "display_name" p.displayName ++ (Json.unlessEmpty "avatar_url" p.avatarUrl ++
  (Json.unlessEmpty "last_active" p.lastActive ++ [("created_at", .str p.createdAt)])))

def toJson (p : Profile) : Json := .obj p.fields

def fromJson (j : Json) : Option Profile := do
  let f ← j.members names
  let userId ← Json.fieldOr "" Json.asStr (f "user_id")
  let handle ← Json.fieldOr "" Json.asStr (f "handle")
  let authPublicKey ← Json.fieldOr "" Json.asStr (f "auth_public_key")
  let sharingPublicKey ← Json.fieldOr "" Json.asStr (f "sharing_public_key")
  let salt ← Json.fieldOr "" Json.asStr (f "salt")
  let kdf ← Json.fieldOr none (Json.asOption KdfParams.fromJson) (f "kdf")
  let keyVersion ← Json.fieldOr 0 Json.asU32 (f "key_version")
  let displayName ← Json.fieldOr "" Json.asStr (f "display_name")
  let avatarUrl ← Json.fieldOr "" Json.asStr (f "avatar_url")
  let lastActive ← Json.fieldOr "" Json.asStr (f "last_active")
  let createdAt ← Json.fieldOr "" Json.asStr (f "created_at")
  return { userId, handle, authPublicKey, sharingPublicKey, salt, kdf, keyVersion, displayName,
           avatarUrl, lastActive, createdAt }

private theorem fields_nodup (p : Profile) : (p.fields.map Prod.fst).Nodup := by
  have within : (p.fields.map Prod.fst).Sublist names := by
    simp only [fields, List.map_append]
    exact (List.Sublist.refl ["user_id", "handle", "auth_public_key", "sharing_public_key", "salt",
      "kdf", "key_version"]).append ((Json.names_unlessEmpty _ _).append
        ((Json.names_unlessEmpty _ _).append ((Json.names_unlessEmpty _ _).append (.refl _))))
  exact within.nodup (by simp [names])

@[simp] theorem fromJson_toJson (p : Profile) : fromJson p.toJson = some p := by
  have readable := @Json.members_obj names p.fields p.fields_nodup
  rw [fromJson, toJson, readable, fields]
  simp

/-- `serde_json::from_slice::<Profile>`. -/
def parse (d : Data) : Option Profile := d.asJson.bind fromJson

def data (p : Profile) : Data := .json p.toJson

@[simp] theorem parse_data (p : Profile) : parse p.data = some p := by
  simp [parse, data, Data.asJson]

def currentKv (p : Profile) : UInt32 := p.credential.currentKv

end Profile

end Atmin
