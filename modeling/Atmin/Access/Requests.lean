import Atmin.Access.Footprint

/-!
# The requests of one account

Everything an account holder can ask of the server with a token or an auth proof, and the
uploads through the URLs it was given.
-/

namespace Atmin

open Interaction

inductive UserRequest where
  | storeList (token pre cursor : Option String)
  | storeObject (token key : Option String)
  | storeUsage (token : Option String)
  | deleteObject (token key : Option String)
  | storePresign (token : Option String) (body : Option Json)
  /-- A PUT of these bytes through an upload URL. -/
  | upload (key : String) (d : Data)
  | addDevice (body : Option Json)
  | storeCompact (pages : Nat) (token : Option String) (body : Option Json)
  | updateProfile (token : Option String) (body : Option Json)
  | deleteProfile (token : Option String)
  | deleteDevice (token : Option String)
  | revokeDevice (token : Option String) (body : Option Json)
  | send (token : Option String) (body : Option Json)
  | rotateKeys (token : Option String) (body : Option Json)
  | events (token : Option String)

namespace UserRequest

/-- A handler whose reply body is not looked at. -/
def reply {α : Type} (h : Handler α) : Handler Unit := do
  let _ ← h
  pure ()

def run (env : Env) : UserRequest → Handler Unit
  | storeList token pre cursor => reply (Atmin.storeList env token pre cursor)
  | storeObject token key => reply (Atmin.storeObject env token key)
  | storeUsage token => reply (Atmin.storeUsage env token)
  | deleteObject token key => Atmin.deleteObject env token key
  | storePresign token body => Atmin.storePresign env token body
  | upload key d => writeJson key d
  | addDevice body => reply (Atmin.addDevice env body)
  | storeCompact pages token body => reply (Atmin.storeCompact env pages token body)
  | updateProfile token body => Atmin.updateProfile env token body
  | deleteProfile token => Atmin.deleteProfile env token
  | deleteDevice token => Atmin.deleteDevice env token
  | revokeDevice token body => Atmin.revokeDevice env token body
  | send token body => Atmin.send env token body
  | rotateKeys token body => reply (Atmin.rotateKeys env token body)
  | events token => Atmin.events env token

/-- The token a request bears. -/
def token? : UserRequest → Option String
  | storeList token .. | storeObject token _ | storeUsage token | deleteObject token _
  | storePresign token _ | storeCompact _ token _ | updateProfile token _ | deleteProfile token
  | deleteDevice token | revokeDevice token _ | send token _ | rotateKeys token _ | events token =>
    token
  | upload .. | addDevice _ => none

/-- The token, if it authenticates, is one of this account. -/
def OnAccount (env : Env) (u : UserId) (r : UserRequest) : Prop :=
  ∀ user, Token.identity env r.token? = some user → user.userId = u

/-- An upload goes through a URL that admits this key and as many bytes, while it lasts. -/
def admitted {ι : Type} (size : Data → Nat) (r : UserRequest) (o : Op) (s : Sys ι) : Bool :=
  match r, o with
  | upload .., .putObject key d => s.grants.any fun g =>
      decide (g.key = key ∧ g.contentLength = size d ∧ s.clock ≤ g.expires)
  | _, _ => true

end UserRequest

section Exec

variable {ι : Type} (size : Data → Nat)

/-- A storage request made for a user's request; any of them may fail. -/
def userRun (req : ι → UserRequest) (i : ι) (o : Op) (c : Choice) (s : Sys ι) :
    Option (Res o × Sys ι) :=
  if (req i).admitted size o s then serve (fun _ => true) i o c s else none

abbrev UserExec (req : ι → UserRequest) : ι → (o : Op) → Sys ι → Res o → Sys ι → Prop :=
  execOf (userRun size req)

/-- The requests of an account, interleaved. -/
def userRequests (env : Env) (req : ι → UserRequest) :
    System ι Op Res (Except ApiError Unit) (Sys ι) where
  prog i := ((req i).run env).run
  exec := UserExec size req

variable {size} {req : ι → UserRequest} {i : ι} {o : Op} {s t : Sys ι} {r : Res o}

theorem faulty_of_user (served : UserExec size req i o s r t) : Faulty i o s r t := by
  obtain ⟨c, h⟩ := served
  unfold userRun at h
  split at h
  · exact ⟨c, h⟩
  · cases h

/-- What a request does not write or delete stays. -/
theorem stays_get {W D : String → Prop} {allow : Choice → Bool}
    (served : execOf (serve allow) i o s r t) (stays : o.Stays W D)
    {key : String} (safe : ¬ W key) (kept : ¬ D key) : t.objects.get key = s.objects.get key := by
  rcases served_get served key with same | ⟨d, put, _⟩ | ⟨removed, _⟩
  · exact same
  · exact absurd (stays.1 key (by rw [put]; rfl)) safe
  · exact absurd (stays.2 key removed) kept

theorem user_lists {rules : Rules ι (Sys ι)}
    (quiet : ∀ o : Op, o.reads = true → Unnoticed rules (UserExec size req) i o)
    (pre : String) (limit : Nat) (cursor : Option String) :
    Serves rules (UserExec size req) i (.listObjects pre limit cursor) (fun _ => True)
      fun r _ => ∀ page, r = .ok page → ∀ key ∈ page.keys, startsWith key pre = true := by
  refine (quiet _ rfl).serves (.pure True) fun s r t _ _ served page listed key member => ?_
  obtain ⟨_, found | ⟨_, _, _, fault⟩⟩ := served_listObjects (faulty_of_user served)
  · rw [found] at listed
    cases listed
    exact (ObjectMap.mem_page _ _ _ _ _ member).2
  · rw [fault] at listed
    cases listed

end Exec

end Atmin
