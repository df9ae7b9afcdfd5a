import Atmin.Interaction.ObjectMap
import Atmin.Web.Js

/-!
# The backup-key chain (`key-chain.ts`)

`key_chain.json` holds a link for each rotation, which wraps the older backup key under the
newer. A device walks it from the key it holds down to the version of a blob, and keeps what
it finds on the way.
-/

namespace Atmin.Web

open Interaction

/-- A link as the client builds it. -/
structure KeyChainLink where
  from_ : Number
  to_ : Number
  iv : String
  ciphertext : String
  deriving DecidableEq, Repr

/-! ### Walking the chain -/

/-- What is used of `crypto.subtle`, and `atob`. A throw is none. -/
structure Subtle (CryptoKey : Type) where
  atob : String → Option (List UInt8)
  decrypt : CryptoKey → List UInt8 → List UInt8 → Option (List UInt8)
  importKey : List UInt8 → Option CryptoKey

section Walk

variable {CryptoKey : Type} (subtle : Subtle CryptoKey)

/-- The store `backup_keys_by_version`, by account and version. -/
abbrev BackupKeys (CryptoKey : Type) := ObjectMap (String × Nat) CryptoKey

/-- The plaintext of a link, if its tag authenticates under the key. -/
def KeyChainLink.opened (link : KeyChainLink) (key : CryptoKey) : Option (List UInt8) := do
  let iv ← subtle.atob link.iv
  let ct ← subtle.atob link.ciphertext
  subtle.decrypt key iv ct

/-- The first candidate that decrypts to a key; whatever throws is passed over. -/
def firstOpening (key : CryptoKey) : List KeyChainLink → Option CryptoKey
  | [] => none
  | link :: rest => match (link.opened subtle key).bind subtle.importKey with
    | some prevKey => some prevKey
    | none => firstOpening key rest

/-- `l.to === version && l.from === version - 1`. -/
def KeyChainLink.hops (version : Nat) (l : KeyChainLink) : Bool :=
  decide (l.to_ = .int version) && decide (l.from_ = .int (version - 1))

def missingLink (version : Nat) : String :=
  "key chain: missing link from v" ++ toString (version - 1) ++ " to v" ++ toString version

def noLinkDecrypts (version : Nat) : String :=
  "key chain: no link from v" ++ toString (version - 1) ++ " to v" ++ toString version ++ " decrypts"

/-- The loop: the key of each next-older version is in the store or in a link. -/
def walk (userId : String) (targetVersion : Nat) (links : List KeyChainLink) :
    Nat → CryptoKey → BackupKeys CryptoKey → Except String CryptoKey × BackupKeys CryptoKey
  | 0, key, memo => (.ok key, memo)
  | older + 1, key, memo =>
    if targetVersion < older + 1 then
      -- a version that was resolved before is not resolved again
      match memo.get (userId, older) with
      | some memoed => walk userId targetVersion links older memoed memo
      | none => match links.filter (KeyChainLink.hops (older + 1)) with
        | [] => (.error (missingLink (older + 1)), memo)
        | link :: rest => match firstOpening subtle key (link :: rest) with
          | none => (.error (noLinkDecrypts (older + 1)), memo)
          | some prevKey =>
            walk userId targetVersion links older prevKey (memo.insert (userId, older) prevKey)
    else (.ok key, memo)

def newerTarget (targetVersion currentVersion : Nat) : String :=
  "key chain: target v" ++ toString targetVersion ++ " is newer than current v" ++
    toString currentVersion

def resolveBackupKey (userId : String) (currentKey : CryptoKey) (currentVersion targetVersion : Nat)
    (links : List KeyChainLink) (memo : BackupKeys CryptoKey) :
    Except String CryptoKey × BackupKeys CryptoKey :=
  if targetVersion = currentVersion then (.ok currentKey, memo)
  else if targetVersion > currentVersion then
    (.error (newerTarget targetVersion currentVersion), memo)
  else match memo.get (userId, targetVersion) with
    | some direct => (.ok direct, memo)
    | none => walk subtle userId targetVersion links currentVersion currentKey memo

end Walk

/-! ### Appending a link -/

/-- The body of `key_chain.json`: what `JSON.parse` makes of it, if it makes anything. -/
abbrev ChainFile := Option Js

/-- What comes of the GET. -/
inductive GetOutcome where
  /-- The stored object, or 404 where there is none. -/
  | answered
  /-- A success whose body does not parse. -/
  | undecodable
  /-- Any status that is no success. -/
  | refused (status : Nat)
  | lost
  deriving DecidableEq, Repr

/-- What comes of one PUT to the granted URL. -/
inductive PutOutcome where
  | done
  /-- A status below 500 that is no success. -/
  | refused
  /-- 5xx or a lost connection; the object may have been written. -/
  | failed (written : Bool)
  deriving DecidableEq, Repr

def storeGet (stored : Option ChainFile) : GetOutcome → Except Thrown ChainFile
  | .answered => match stored with
    | some file => .ok file
    | none => .error .failed
  | .undecodable => .ok none
  | .refused _ | .lost => .error .failed

/-- `{ links: [] }`. -/
def emptyChain : List (String × Js) := [("links", .arr [])]

/-- `chain.links`. -/
def chainLinks (fields : List (String × Js)) : List Js :=
  match Js.lastOf fields "links" with
  | .arr links => links
  | _ => []

/-- The members of the chain; whatever fails, and whatever has no links, is an empty chain. -/
def fetchChain (stored : Option ChainFile) (get : GetOutcome) : List (String × Js) :=
  match storeGet stored get with
  | .ok (some (.obj fields)) => match Js.lastOf fields "links" with
    | .arr _ => fields
    | _ => emptyChain
  | _ => emptyChain

/-- `l.from === link.from && l.to === link.to`; `null` has no members. -/
def sameHop (link : KeyChainLink) (l : Js) : Except Thrown Bool := do
  let from_ ← l.member "from"
  if from_.same (.num link.from_) then
    let to_ ← l.member "to"
    pure (to_.same (.num link.to_))
  else pure false

/-- The links of other hops. -/
def dropHop (link : KeyChainLink) : List Js → Except Thrown (List Js)
  | [] => .ok []
  | l :: rest => do
    let same ← sameHop link l
    let others ← dropHop link rest
    pure (if same then others else l :: others)

def KeyChainLink.toJs (link : KeyChainLink) : Js :=
  .obj [("from", .num link.from_), ("to", .num link.to_), ("iv", .str link.iv),
    ("ciphertext", .str link.ciphertext)]

/-- Assign the member of an object. -/
def setMember (fields : List (String × Js)) (name : String) (x : Js) : List (String × Js) :=
  fields.filter (fun e => !decide (e.1 = name)) ++ [(name, x)]

/-- `putWithRetry`: what it returns, and what is stored then. -/
def putWithRetry (stored : Option ChainFile) (body : ChainFile) :
    List PutOutcome → Except Thrown Unit × Option ChainFile
  | [] => (.error .failed, stored)
  | .done :: _ => (.ok (), some body)
  | .refused :: _ => (.error .failed, stored)
  | .failed written :: rest => putWithRetry (if written then some body else stored) body rest

/-- What a call returned, whether it came to its PUT, and what is stored then. -/
structure Appended where
  result : Except Thrown Unit
  put : Bool
  stored : Option ChainFile

/-- `appendChainLink`; `presigned` is whether the grant came, and there are two attempts to PUT. -/
def appendChainLink (link : KeyChainLink) (stored : Option ChainFile) (get : GetOutcome)
    (presigned : Bool) (first second : PutOutcome) : Appended :=
  let current := fetchChain stored get
  match dropHop link (chainLinks current) with
  | .error e => ⟨.error e, false, stored⟩
  | .ok others =>
    let body := some (.obj (setMember current "links" (.arr (others ++ [link.toJs]))))
    if presigned then
      let (result, stored) := putWithRetry stored body [first, second]
      ⟨result, true, stored⟩
    else ⟨.error .failed, false, stored⟩

end Atmin.Web
