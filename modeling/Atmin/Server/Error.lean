import Atmin.Server.Model

/-!
# API errors (`error.rs`, `store.rs`)
-/

namespace Atmin

inductive StoreError where
  | notFound
  | backend (err : String)
  deriving DecidableEq, Repr

inductive ApiError where
  | badRequest
  | unauthorized
  | keyVersionStale (current : KeyVersion)
  | deviceRevoked
  | badContinuity
  | forbidden
  | notFound
  | handleInvalid
  | handleReserved
  | handleTaken
  | handleInCooldown (releasedAt availableAt : String)
  | handleReleased (releasedAt availableAt : String)
  | registrationUnavailable
  | powInvalid
  | quotaExceeded
  | tooLarge
  | internal (msg : String)
  deriving DecidableEq, Repr

namespace ApiError

def status : ApiError → Nat
  | badRequest | handleInvalid | handleReserved => 400
  | unauthorized | keyVersionStale _ => 401
  | deviceRevoked | badContinuity | forbidden | powInvalid => 403
  | notFound => 404
  | handleTaken | handleInCooldown .. => 409
  | handleReleased .. => 410
  | registrationUnavailable => 503
  | quotaExceeded | tooLarge => 413
  | internal _ => 500

def code : ApiError → String
  | badRequest => "bad_request"
  | unauthorized => "unauthorized"
  | keyVersionStale _ => "key_version_stale"
  | deviceRevoked => "device_revoked"
  | badContinuity => "bad_continuity"
  | forbidden => "forbidden"
  | notFound => "not_found"
  | handleInvalid => "handle_invalid"
  | handleReserved => "handle_reserved"
  | handleTaken => "handle_taken"
  | handleInCooldown .. => "handle_in_cooldown"
  | handleReleased .. => "released"
  | registrationUnavailable => "registration_unavailable"
  | powInvalid => "pow_invalid"
  | quotaExceeded => "quota_exceeded"
  | tooLarge => "too_large"
  | internal _ => "internal"

def message : ApiError → String
  | badRequest => "Malformed input"
  | unauthorized => "Missing or invalid token"
  | keyVersionStale _ => "Token or auth proof bound to a superseded key_version"
  | deviceRevoked => "Device has been revoked"
  | badContinuity => "Continuity signature did not verify"
  | forbidden => "Access denied"
  | notFound => "Not found"
  | handleInvalid => "Handle does not match the required format"
  | handleReserved => "Handle is reserved"
  | handleTaken => "Handle is already registered"
  | handleInCooldown .. => "Handle is in 30-day cooldown after deletion"
  | handleReleased .. => "Handle was deleted; in cooldown"
  | registrationUnavailable => "Registration is temporarily unavailable for this handle"
  | powInvalid => "Registration proof-of-work missing or invalid"
  | quotaExceeded => "Storage quota exceeded"
  | tooLarge => "Payload exceeds size limit"
  | internal msg => msg

/-- `From<StoreError>`: a missing object is a 404, any other failure a 500. -/
def ofStore : StoreError → ApiError
  | .notFound => .notFound
  | .backend err => .internal err

/-- Client errors and server errors are told apart by the status alone. -/
theorem status_range (e : ApiError) : (400 ≤ e.status ∧ e.status < 500) ∨
    (e.status = 500 ∧ ∃ msg, e = internal msg) ∨ (e.status = 503 ∧ e = registrationUnavailable) := by
  cases e <;> simp [status]

end ApiError

end Atmin
