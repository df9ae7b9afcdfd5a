import Atmin.Rotation.KeyChain
import Atmin.Rotation.Ledger
import Atmin.Web.RotateKeys

/-!
# Submissions that race for the key chain

Any number of devices of one account submit a new password. Each reads the profile, takes the
chain through a read and a write of its own, and posts the rotation to the server; between any two
steps of one the others may take theirs. The credentials that were ever stored are kept beside the
server, for the hops that the chain has to take.
-/

namespace Atmin.Web

open Interaction

/-! ### The submissions of an account -/

/-- Server and store, with the credentials stored so far and the writers of the chain, both
latest first. -/
structure Rotating (ι : Type) where
  server : Sys ι
  chain : Option ChainFile
  writers : List ι := []
  versions : List Credential

inductive SubmitChoice where
  | answered
  | refused (e : Raised)
  | posted (how : Posted)
  | server (c : Choice)

section System

variable {ι : Type}

namespace Rotating

/-- The profile that a client is sent, parsed. -/
def profileFile (u : UserId) (s : Rotating ι) : Except Raised Js :=
  match s.server.objects.get (keyProfile u.str) with
  | none => .error (.api (ApiError.code .notFound))
  | some d => match d.asJson with
    | some j => .ok (.ofJson j)
    | none => .error (.thrown .crypto)

/-- The server has moved on, and a credential that is new is on record. -/
def served (u : UserId) (s : Rotating ι) (t : Sys ι) : Rotating ι :=
  { s with
    server := t
    versions := match profileOf u t with
      | some p =>
        if s.versions.head? = some p.credential then s.versions else p.credential :: s.versions
      | none => s.versions }

end Rotating

/-- The guard of the storage routes is left open: a request may be refused at any time. What is
asked of the chain itself succeeds. -/
def performSubmit (u : UserId) (i : ι) :
    (act : SubmitAct) → SubmitChoice → Rotating ι → Option (SubmitReply act × Rotating ι)
  | .getProfile, .answered, s => some (s.profileFile u, s)
  | .getProfile, .refused e, s => some (.error e, s)
  | .getChain, .answered, s => some (s.chain, s)
  | .presignChain, .answered, s => some (.ok (), s)
  | .presignChain, .refused e, s => some (.error e, s)
  | .putChain _ body, .answered, s =>
    some ((), { s with chain := some body, writers := i :: s.writers })
  | .post, .posted how, s => some (how, s)
  | .serve o, .server c, s =>
    (serve (fun _ => true) i o c s.server).map fun done => (done.1, s.served u done.2)
  | _, _, _ => none

/-- The version in the stored profile is still the one the link starts from; the chain is still as
the submission that commits has written it. -/
def timely [DecidableEq ι] (u : UserId) (i : ι) (s : Rotating ι) : SubmitAct → Bool
  | .putChain link _ => (profileOf u s.server).any fun p => decide (link.from_ = .int p.currentKv.toNat)
  | .serve o => (o.puts (keyProfile u.str)).isNone || decide (s.writers.head? = some i)
  | _ => true

def performTimely [DecidableEq ι] (u : UserId) (i : ι) (act : SubmitAct) (c : SubmitChoice)
    (s : Rotating ι) : Option (SubmitReply act × Rotating ι) :=
  if timely u i s act then performSubmit u i act c s else none

variable {Secret CryptoKey : Type} (crypto : WebCrypto Secret CryptoKey)

/-- Any number of submissions, from any devices of the account. -/
def submissions (env : Env) (u : UserId) (each : ι → Submission) :
    System ι SubmitAct SubmitReply SubmitResult (Rotating ι) where
  prog i := submit crypto env (each i)
  exec := execOf (performSubmit u)

def timelySubmissions [DecidableEq ι] (env : Env) (u : UserId) (each : ι → Submission) :
    System ι SubmitAct SubmitReply SubmitResult (Rotating ι) where
  prog i := submit crypto env (each i)
  exec := execOf (performTimely u)

/-- Run alone, the steps of an append come to what `appendChainLink` does. -/
theorem appendLink_alone {u : UserId} {i : ι} {link : KeyChainLink} {s t : Rotating ι}
    {r : Except Raised Unit} (ran : Runs (execOf (performSubmit u) i) (appendLink link) s r t) :
    ∃ presigned, t.chain = (appendChainLink link s.chain .answered presigned .done .done).stored ∧
      (r = .ok () ↔
        (appendChainLink link s.chain .answered presigned .done .done).result = .ok ()) := by
  obtain ⟨stored, v, ⟨c, done⟩, ran⟩ := runs_op.mp ran
  cases c with
  | answered =>
    cases done
    unfold appendChainLink
    dsimp only at ran ⊢
    cases dropped : dropHop link (chainLinks (fetchChain s.chain .answered)) with
    | error e =>
      rw [dropped] at ran
      obtain ⟨rfl, rfl⟩ := runs_ret.mp ran
      exact ⟨true, rfl, by simp⟩
    | ok others =>
      rw [dropped] at ran
      obtain ⟨granted, v, ⟨c, done⟩, ran⟩ := runs_op.mp ran
      cases c with
      | answered =>
        cases done
        obtain ⟨_, v, ⟨c, done⟩, ran⟩ := runs_op.mp ran
        cases c with
        | answered =>
          cases done
          obtain ⟨rfl, rfl⟩ := runs_ret.mp ran
          exact ⟨true, rfl, by simp [putWithRetry]⟩
        | _ => cases done
      | refused e =>
        cases done
        obtain ⟨rfl, rfl⟩ := runs_ret.mp ran
        exact ⟨false, rfl, by simp⟩
      | _ => cases done
  | _ => cases done

/-! ### A link for each hop -/

/-- Keys of the password that the credential was derived from. -/
def KeysOf (c : Credential) (keys : DerivedKeys CryptoKey) : Prop :=
  (∃ secret, crypto.deriveKeys secret = some keys) ∧
    base64UrlEncode keys.authPublicKey = c.authPublicKey

/-- A link of this hop that opens under the newer backup key, and holds the older. -/
def Linked (links : List Js) (older newer : Credential) : Prop :=
  ∃ link : KeyChainLink, link.toJs ∈ links ∧ link.from_ = .int older.currentKv.toNat ∧
    link.to_ = .int newer.currentKv.toNat ∧
    ∃ old new, KeysOf crypto older old ∧ KeysOf crypto newer new ∧
      link.opened crypto.toSubtle new.backupKey = some (crypto.exportKey old.backupKey)

/-- Each rotation went one version further, and has its link. -/
def Rotating.Kept (s : Rotating ι) : Prop :=
  ∀ older newer, [newer, older] <:+: s.versions →
    newer.currentKv.toNat = older.currentKv.toNat + 1 ∧ Linked crypto (storedLinks s.chain) older newer

/-- The newest version is the stored one, and no hop lacks its link. -/
structure InOrder (u : UserId) (s : Rotating ι) : Prop where
  stored : ∃ p, profileOf u s.server = some p ∧ s.versions.head? = some p.credential
  falling : s.versions.Pairwise fun newer older => older.currentKv.toNat < newer.currentKv.toNat
  kept : s.Kept crypto

end System

/-! ### Links and versions -/

section Links

variable {Secret CryptoKey : Type} {crypto : WebCrypto Secret CryptoKey} {older newer c : Credential}
  {versions : List Credential}

theorem opened_buildChainLink (a b : Int) (prevKey toKey : CryptoKey) (iv : List UInt8) :
    (buildChainLink crypto a b prevKey toKey iv).opened crypto.toSubtle toKey =
      some (crypto.exportKey prevKey) := by
  simp [KeyChainLink.opened, buildChainLink, crypto.atob_btoa, crypto.decrypt_encrypt]

theorem sameHop_toJs (link l : KeyChainLink) :
    sameHop link l.toJs = .ok (decide (l.from_ = link.from_) && decide (l.to_ = link.to_)) := by
  by_cases same : l.from_ = link.from_
  · simp [sameHop, KeyChainLink.toJs, Js.lastOf, Js.same, bind, Except.bind, pure, Except.pure, same]
  · simp [sameHop, KeyChainLink.toJs, Js.lastOf, Js.same, bind, Except.bind, pure, Except.pure, same]

theorem currentKv_pos (c : Credential) : 0 < c.currentKv.toNat := by
  unfold Credential.currentKv
  split
  next => decide
  next set =>
    rcases Nat.eq_zero_or_pos c.keyVersion.toNat with zero | pos
    · exact absurd (UInt32.toNat_inj.mp zero) set
    · exact pos

theorem hop_cons : [newer, older] <:+: c :: versions ↔
    newer = c ∧ versions.head? = some older ∨ [newer, older] <:+: versions := by
  rw [List.infix_cons_iff, List.cons_prefix_cons]
  cases versions with
  | nil => simp
  | cons d rest => simp [List.cons_prefix_cons, eq_comm]

theorem hop_mem (hop : [newer, older] <:+: versions) : newer ∈ versions ∧ older ∈ versions :=
  ⟨hop.subset (by simp), hop.subset (by simp)⟩

/-- The latest version is the highest, and the only one as high. -/
theorem falling_head
    (falling : versions.Pairwise fun newer older => older.currentKv.toNat < newer.currentKv.toNat)
    (head : versions.head? = some newer) (member : c ∈ versions) :
    c = newer ∨ c.currentKv.toNat < newer.currentKv.toNat := by
  obtain ⟨rest, rfl⟩ := List.head?_eq_some_iff.mp head
  rcases List.mem_cons.mp member with same | later
  · exact .inl same
  · exact .inr ((List.pairwise_cons.mp falling).1 c later)

end Links

/-! ### What a submission reads -/

section Reading

variable {Secret CryptoKey : Type} {crypto : WebCrypto Secret CryptoKey}

/-- A missing version counts as one, and so does a version of 0 on the server. -/
def effective (k : Int) : Int := if k = 0 then 1 else k

theorem asU32_num {n : Int} {v : UInt32} (read : Json.asU32 (.num (.int n)) = some v) :
    (v.toNat : Int) = n := by
  cases n with
  | ofNat n =>
    simp only [Json.asU32, Option.ite_none_right_eq_some, Option.some.injEq] at read
    obtain ⟨small, rfl⟩ := read
    simp only [UInt32.toNat_ofNat', Int.ofNat_eq_natCast]
    omega
  | negSucc n => cases read

theorem currentKv_effective {c : Credential} {k : Int} (same : (c.keyVersion.toNat : Int) = k) :
    (c.currentKv.toNat : Int) = effective k := by
  subst same
  unfold Credential.currentKv effective
  by_cases zero : c.keyVersion = 0
  · simp [zero]
  · have apart : c.keyVersion.toNat ≠ 0 := fun same => zero (UInt32.toNat_inj.mp same)
    rw [if_neg zero, if_neg (by omega)]

/-- Where the server finds the credential. -/
theorem profile_members {j : Json} {p : Profile} (parsed : Profile.fromJson j = some p) :
    ∃ f, j.members Profile.names = some f ∧
      Json.fieldOr "" Json.asStr (f "auth_public_key") = some p.authPublicKey ∧
      Json.fieldOr 0 Json.asU32 (f "key_version") = some p.keyVersion := by
  unfold Profile.fromJson at parsed
  obtain ⟨f, readable, parsed⟩ := Option.bind_eq_some_iff.mp parsed
  obtain ⟨_, _, parsed⟩ := Option.bind_eq_some_iff.mp parsed
  obtain ⟨_, _, parsed⟩ := Option.bind_eq_some_iff.mp parsed
  obtain ⟨auth, authRead, parsed⟩ := Option.bind_eq_some_iff.mp parsed
  obtain ⟨_, _, parsed⟩ := Option.bind_eq_some_iff.mp parsed
  obtain ⟨_, _, parsed⟩ := Option.bind_eq_some_iff.mp parsed
  obtain ⟨_, _, parsed⟩ := Option.bind_eq_some_iff.mp parsed
  obtain ⟨version, versionRead, parsed⟩ := Option.bind_eq_some_iff.mp parsed
  obtain ⟨_, _, parsed⟩ := Option.bind_eq_some_iff.mp parsed
  obtain ⟨_, _, parsed⟩ := Option.bind_eq_some_iff.mp parsed
  obtain ⟨_, _, parsed⟩ := Option.bind_eq_some_iff.mp parsed
  obtain ⟨_, _, parsed⟩ := Option.bind_eq_some_iff.mp parsed
  cases parsed
  exact ⟨f, readable, authRead, versionRead⟩

/-- What the client reads of a profile that the server can read. -/
theorem readOwnProfile_parsed {j : Json} {p : Profile} {profile : RotateProfile} {a : String} {k : Int}
    (parsed : Profile.fromJson j = some p) (read : readOwnProfile (.ofJson j) = .ok profile)
    (auth : profile.authPublicKey = .str a) (given : a ≠ "")
    (version : profile.keyVersion = .num (.int k)) :
    p.authPublicKey = a ∧ (p.currentKv.toNat : Int) = effective k := by
  obtain ⟨f, readable, authRead, versionRead⟩ := profile_members parsed
  cases j with
  | obj fields =>
    simp only [readOwnProfile, Js.ofJson, Js.member_obj, bind, Except.bind, pure, Except.pure,
      Except.ok.injEq] at read
    have authMember := lastOf_members readable (show "auth_public_key" ∈ Profile.names by decide)
    have versionMember := lastOf_members readable (show "key_version" ∈ Profile.names by decide)
    subst read
    -- the browser and the server read the same members
    constructor
    · -- an absent key would have been read as the empty text
      cases found : f "auth_public_key" with
      | none =>
        rw [authMember, found] at auth
        exact absurd (Js.str.inj auth).symm given
      | some x =>
        rw [found, Json.fieldOr_some] at authRead
        rw [authMember, found] at auth
        cases x with
        | str b =>
          cases authRead
          exact Js.str.inj auth
        | _ => cases authRead
    · -- an absent version is zero, which is effectively one
      cases found : f "key_version" with
      | none =>
        rw [found] at versionRead
        rw [versionMember, found] at version
        cases version
        have missing : (p.credential.keyVersion.toNat : Int) = 0 := by
          rw [show p.credential.keyVersion = 0 from (Option.some.inj versionRead).symm]
          rfl
        exact (currentKv_effective missing).trans rfl
      | some x =>
        rw [found, Json.fieldOr_some] at versionRead
        rw [versionMember, found] at version
        cases x with
        | num n =>
          cases version
          exact currentKv_effective (asU32_num versionRead)
        | _ => cases versionRead
  -- an array has no such members
  | arr xs =>
    simp only [readOwnProfile, Js.ofJson, Js.member, bind, Except.bind, pure, Except.pure,
      Except.ok.injEq] at read
    subst read
    exact absurd (Js.str.inj auth).symm given
  | _ => cases readable

/-- Nobody's public key encodes to nothing. -/
theorem encoded_ne {secret : Secret} {keys : DerivedKeys CryptoKey}
    (derived : crypto.deriveKeys secret = some keys) :
    base64UrlEncode keys.authPublicKey ≠ "" := by
  intro empty
  have length := crypto.authPublicKey_length secret keys derived
  have back := Base64.decode_encode keys.authPublicKey
  rw [show Base64.encode keys.authPublicKey = "" from empty] at back
  have none_ : keys.authPublicKey = [] := (Option.some.inj back).symm
  rw [none_] at length
  cases length

/-- A submission that goes on has derived the keys of the version it has read. -/
theorem prepare_parsed {submission : Submission} {prepared : Prepared CryptoKey} {j : Json} {p : Profile}
    (parsed : Profile.fromJson j = some p)
    (ready : prepare crypto submission (.ofJson j) = .ok (some prepared)) :
    KeysOf crypto p.credential prepared.oldKeys ∧
      (p.credential.currentKv.toNat : Int) = effective prepared.currentKV ∧
      ∃ secret, crypto.deriveKeys secret = some prepared.newKeys := by
  simp only [prepare, except_bind_ok, orRaise_ok] at ready
  obtain ⟨profile, read, oldSecret, _, oldKeys, derived, ready⟩ := ready
  have profileRead : readOwnProfile (.ofJson j) = .ok profile := by
    cases found : readOwnProfile (.ofJson j) with
    | ok profile' =>
      rw [found] at read
      cases read
      rfl
    | error e =>
      rw [found] at read
      cases read
  split at ready
  next same =>
    simp only [except_bind_ok, orRaise_ok] at ready
    obtain ⟨newSecret, _, newKeys, derivedNew, ready⟩ := ready
    split at ready
    next k version =>
      cases ready
      -- Equal strings, and neither is empty: the server holds the key that was derived here.
      obtain ⟨auth, current⟩ := readOwnProfile_parsed parsed profileRead
        ((Js.same_of_str _ _).mp same) (encoded_ne derived) version
      exact ⟨⟨⟨oldSecret, derived⟩, auth.symm⟩, current, newSecret, derivedNew⟩
    next => cases ready
  next => cases ready

end Reading

end Atmin.Web
