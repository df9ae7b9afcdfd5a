import Atmin.Data.JsonRoundTrip
import Atmin.Server.Account
import Atmin.Web.Atob
import Atmin.Web.Chat

/-!
# The registration proof of work (`argon2.rs`, `pow.rs`)

The client counts up until a hash has enough leading zero bits, the server computes the one
hash again. Argon2id is one function on both sides.
-/

namespace Atmin

/-- The `argon2` crate, version 0x13. The arguments are m, t, p and the output length, and
then the password and the salt. -/
structure Argon2id where
  /-- Whether `Params::new` accepts the parameters. -/
  params : UInt32 → UInt32 → UInt32 → Nat → Bool
  /-- `hash_password_into`. -/
  hashInto : UInt32 → UInt32 → UInt32 → Nat → List UInt8 → List UInt8 → Option (List UInt8)

/-- `u64::to_le_bytes`. -/
def toLeBytes (n : UInt64) : List UInt8 := (List.range 8).map fun i => .ofNat (n.toNat / 256 ^ i)

/-- The client's text and the server's are the same. -/
def leadingZeroBits : List UInt8 → Nat
  | [] => 0
  | b :: rest => if b = 0 then 8 + leadingZeroBits rest else b.toBitVec.clz.toNat

/-! ### The server -/

structure PowConfig where
  m : UInt32
  t : UInt32
  p : UInt32
  bits : UInt32
  deriving DecidableEq, Repr

structure PowChallenge where
  nonce : String
  m : UInt32
  t : UInt32
  p : UInt32
  bits : UInt32
  deriving DecidableEq, Repr

def POW_OUTPUT_LEN : Nat := 32

/-- `new_challenge`, for the sixteen bytes of a fresh ULID. -/
def newChallenge (cfg : PowConfig) (nonce : List UInt8) : PowChallenge :=
  { nonce := Base64.encode nonce, m := cfg.m, t := cfg.t, p := cfg.p, bits := cfg.bits }

namespace Pow

variable (argon : Argon2id)

def hash (counter : UInt64) (nonce : List UInt8) (cfg : PowConfig) : Option (List UInt8) :=
  if argon.params cfg.m cfg.t cfg.p POW_OUTPUT_LEN then
    argon.hashInto cfg.m cfg.t cfg.p POW_OUTPUT_LEN (toLeBytes counter) nonce
  else none

def verify (proof : PowProof) (cfg : PowConfig) : Bool :=
  if cfg.bits = 0 then true
  else match Base64.decode proof.nonce with
    | none => false
    | some nonce =>
      if nonce.length ≠ 16 then false
      else match hash argon (.ofNat proof.counter) nonce cfg with
        | none => false
        | some out => decide (cfg.bits.toNat ≤ leadingZeroBits out)

end Pow

/-! ### The client -/

namespace Web

/-- `counter as f64`: the nearest double, ties to even. -/
def asF64 (counter : UInt64) : Nat :=
  let n := counter.toNat
  if n < 2 ^ 53 then n
  else
    let unit := 2 ^ (n.log2 - 52)
    let rest := n % unit
    (if 2 * rest < unit ∨ (2 * rest = unit ∧ n / unit % 2 = 0) then n / unit else n / unit + 1) * unit

/-- How a search stands after a number of attempts. -/
inductive Search where
  | running
  | failed
  | found (counter : Nat)
  deriving DecidableEq, Repr

section

variable (argon : Argon2id)

/-- The loop of `solve_pow`. The counter wraps around. -/
def solveFrom (nonce : List UInt8) (m t p bits : UInt32) : Nat → UInt64 → Search
  | 0, _ => .running
  | fuel + 1, counter =>
    match argon.hashInto m t p 32 (toLeBytes counter) nonce with
    | none => .failed
    | some out =>
      if bits.toNat ≤ leadingZeroBits out then .found (asF64 counter)
      else solveFrom nonce m t p bits fuel (counter + 1)

def solve_pow (nonce : List UInt8) (m t p bits : UInt32) (fuel : Nat) : Search :=
  if bits = 0 then .found 0
  else if argon.params m t p 32 then solveFrom argon nonce m t p bits fuel 0
  else .failed

/-- `solvePow` of the worker's client. -/
def solvePow (challenge : PowChallenge) (fuel : Nat) : Search :=
  match base64UrlDecode atob (.str challenge.nonce) with
  | none => .failed
  | some nonce => solve_pow argon nonce challenge.m challenge.t challenge.p challenge.bits fuel

end

/-- The `pow` member of the registration request. -/
def proofJson (challenge : PowChallenge) (counter : Nat) : Json :=
  .obj [("nonce", .str challenge.nonce), ("counter", .num (.int counter))]

end Web

/-! ### Leading zero bits -/

/-- The bits of a byte, the highest first. -/
def byteBits (b : UInt8) : List Bool := (List.range 8).map b.toBitVec.getMsbD

def bitsOf (bytes : List UInt8) : List Bool := bytes.flatMap byteBits

example : bitsOf [0x30] = [false, false, true, true, false, false, false, false] := by decide +kernel

theorem zeros_prefix_append (z k : Nat) (bs : List Bool) :
    List.replicate k false <+: List.replicate z false ++ bs ↔ List.replicate (k - z) false <+: bs := by
  induction z generalizing k with
  | zero => rw [List.replicate_zero, List.nil_append, Nat.sub_zero]
  | succ z ih =>
    cases k with
    | zero => simp
    | succ k =>
      rw [List.replicate_succ, List.replicate_succ, List.cons_append, List.cons_prefix_cons,
        Nat.add_sub_add_right, ← ih]
      simp

theorem bits_nonzero : ∀ b : BitVec 8, b ≠ 0 → ∃ rest, (List.range 8).map b.getMsbD =
    List.replicate b.clz.toNat false ++ true :: rest := by
  have cut : ∀ b : BitVec 8, b ≠ 0 → (List.range 8).map b.getMsbD =
      List.replicate b.clz.toNat false ++
        true :: ((List.range 8).map b.getMsbD).drop (b.clz.toNat + 1) := by decide
  exact fun b nonzero => ⟨_, cut b nonzero⟩

/-- The count is that of the zeros the bit string starts with. -/
theorem le_leadingZeroBits (bytes : List UInt8) (k : Nat) :
    k ≤ leadingZeroBits bytes ↔ List.replicate k false <+: bitsOf bytes := by
  induction bytes generalizing k with
  | nil => simp [leadingZeroBits, bitsOf]
  | cons b rest ih =>
    rw [leadingZeroBits, bitsOf, List.flatMap_cons, ← bitsOf]
    split
    next zero =>
      have bits : byteBits b = List.replicate 8 false := by
        rw [zero]
        rfl
      rw [bits, zeros_prefix_append, ← ih]
      omega
    next nonzero =>
      have some : b.toBitVec ≠ 0 := fun same => nonzero (UInt8.toBitVec_inj.mp same)
      obtain ⟨tail, bits⟩ := bits_nonzero b.toBitVec some
      rw [byteBits, bits, List.append_assoc, zeros_prefix_append, List.cons_append]
      cases extra : k - b.toBitVec.clz.toNat with
      | zero =>
        simp only [List.replicate_zero, List.nil_prefix, iff_true]
        omega
      | succ n =>
        simp only [List.replicate_succ, List.cons_prefix_cons, Bool.false_eq_true, false_and, iff_false]
        omega

/-! ### The search -/

namespace Web

theorem base64UrlDecode_encode (bytes : List UInt8) :
    base64UrlDecode atob (.str (Base64.encode bytes)) = some bytes := by
  have symbols : ∀ d < 64, (if Base64.symbol d = '-' then '+'
      else if Base64.symbol d = '_' then '/' else Base64.symbol d) = Atob.symbol d := by decide
  have same : (Base64.encode bytes).toList.map
      (fun c => if c = '-' then '+' else if c = '_' then '/' else c) =
        (Base64.encodeDigits (bytes.map UInt8.toNat)).map Atob.symbol := by
    rw [Base64.encode, String.toList_ofList, List.map_map]
    exact List.map_congr_left fun d member => symbols d (Base64.encodeDigits_small bytes d member)
  rw [base64UrlDecode, same]
  exact atob_btoa bytes

theorem asF64_exact {counter : UInt64} (small : asF64 counter < 2 ^ 53) :
    asF64 counter = counter.toNat := by
  unfold asF64 at small ⊢
  simp only at small ⊢
  split at small
  next below => rw [if_pos below]
  next large =>
    have nonzero : counter.toNat ≠ 0 := by omega
    have high : 53 ≤ counter.toNat.log2 := (Nat.le_log2 nonzero).mpr (Nat.not_lt.mp large)
    have lead : 2 ^ 52 ≤ counter.toNat / 2 ^ (counter.toNat.log2 - 52) := by
      rw [Nat.le_div_iff_mul_le (Nat.two_pow_pos _), ← Nat.pow_add,
        Nat.add_sub_cancel' (by omega)]
      exact Nat.log2_self_le nonzero
    have unit : 2 ^ 1 ≤ 2 ^ (counter.toNat.log2 - 52) := Nat.pow_le_pow_right (by omega) (by omega)
    have product := Nat.mul_le_mul lead unit
    split at small
    · omega
    · rw [Nat.add_mul] at small
      omega

section

variable (argon : Argon2id) (nonce : List UInt8) (m t p bits : UInt32)

/-- The hash of the counter has enough leading zeros. -/
def Solves (counter : UInt64) : Prop :=
  ∃ out, argon.hashInto m t p 32 (toLeBytes counter) nonce = some out ∧
    bits.toNat ≤ leadingZeroBits out

/-- The hash of the counter has too few leading zeros. -/
def Misses (counter : UInt64) : Prop :=
  ∃ out, argon.hashInto m t p 32 (toLeBytes counter) nonce = some out ∧
    ¬ bits.toNat ≤ leadingZeroBits out

variable {argon nonce m t p bits}

theorem not_both {counter : UInt64} (meets : Solves argon nonce m t p bits counter)
    (misses : Misses argon nonce m t p bits counter) : False := by
  obtain ⟨out, hashed, enough⟩ := meets
  obtain ⟨out', hashed', few⟩ := misses
  rw [hashed] at hashed'
  rw [← Option.some.inj hashed'] at few
  exact few enough

theorem add_ofNat_zero (n : UInt64) : n + .ofNat 0 = n := UInt64.add_zero n

/-- A search that ends has passed over every counter before. -/
theorem solveFrom_found {fuel : Nat} {start : UInt64} {c : Nat}
    (found : solveFrom argon nonce m t p bits fuel start = .found c) :
    ∃ k, c = asF64 (start + .ofNat k) ∧ Solves argon nonce m t p bits (start + .ofNat k) ∧
      ∀ j < k, Misses argon nonce m t p bits (start + .ofNat j) := by
  induction fuel generalizing start with
  | zero => cases found
  | succ fuel ih =>
    rw [solveFrom] at found
    split at found
    next => cases found
    next out hashed =>
      split at found
      next enough =>
        refine ⟨0, ?_, ?_, fun j less => absurd less (Nat.not_lt_zero j)⟩
        · rw [add_ofNat_zero]
          exact (Search.found.inj found).symm
        · rw [add_ofNat_zero]
          exact ⟨out, hashed, enough⟩
      next few =>
        obtain ⟨k, value, meets, misses⟩ := ih found
        have shift (j : Nat) : start + 1 + .ofNat j = start + .ofNat (j + 1) := by
          rw [UInt64.ofNat_add, UInt64.add_assoc, UInt64.add_comm 1]
          rfl
        rw [shift] at value meets
        refine ⟨k + 1, value, meets, fun j less => ?_⟩
        cases j with
        | zero =>
          rw [add_ofNat_zero]
          exact ⟨out, hashed, few⟩
        | succ j =>
          rw [← shift]
          exact misses j (by omega)

/-- From zero on the counter does not wrap around: it would have met the target before. -/
theorem solveFrom_zero {fuel c : Nat} (found : solveFrom argon nonce m t p bits fuel 0 = .found c)
    (exact_ : c < 2 ^ 53) : Solves argon nonce m t p bits (.ofNat c) ∧
      ∀ j < c, Misses argon nonce m t p bits (.ofNat j) := by
  obtain ⟨k, value, meets, misses⟩ := solveFrom_found found
  simp only [UInt64.zero_add] at value meets misses
  have bound : k < 2 ^ 64 := by
    by_contra wrapped
    have before := misses (k - 2 ^ 64) (by omega)
    have same : UInt64.ofNat (k - 2 ^ 64) = .ofNat k := by
      rw [← UInt64.toNat_inj, UInt64.toNat_ofNat', UInt64.toNat_ofNat']
      omega
    rw [same] at before
    exact not_both meets before
  have counter : c = k := by
    rw [value] at exact_ ⊢
    rw [asF64_exact exact_, UInt64.toNat_ofNat', Nat.mod_eq_of_lt bound]
  rw [counter]
  exact ⟨meets, misses⟩

/-- A search over counters that all hash ends at the first that meets the target. -/
theorem solveFrom_ends {start : UInt64} (k : Nat) {fuel : Nat} (enough : k < fuel)
    (meets : Solves argon nonce m t p bits (start + .ofNat k))
    (misses : ∀ j < k, Misses argon nonce m t p bits (start + .ofNat j)) :
    solveFrom argon nonce m t p bits fuel start = .found (asF64 (start + .ofNat k)) := by
  induction k generalizing start fuel with
  | zero =>
    obtain ⟨fuel, rfl⟩ := Nat.exists_eq_add_of_lt enough
    rw [add_ofNat_zero] at meets ⊢
    obtain ⟨out, hashed, enough⟩ := meets
    rw [solveFrom, hashed]
    simp only [if_pos enough]
  | succ k ih =>
    obtain ⟨less, rfl⟩ : ∃ less, fuel = less + 1 := ⟨fuel - 1, by omega⟩
    have first := misses 0 (Nat.succ_pos k)
    rw [add_ofNat_zero] at first
    obtain ⟨out, hashed, few⟩ := first
    have shift (j : Nat) : start + .ofNat (j + 1) = start + 1 + .ofNat j := by
      rw [UInt64.ofNat_add, UInt64.add_assoc, UInt64.add_comm 1]
      rfl
    rw [shift] at meets ⊢
    rw [solveFrom, hashed]
    simp only [if_neg few]
    refine ih (by omega) meets fun j less => ?_
    rw [← shift]
    exact misses (j + 1) (by omega)

end

end Web

/-! ### What the server accepts -/

section

variable (argon : Argon2id) {cfg : PowConfig} {nonce : List UInt8}

/-- A counter is accepted when its hash starts with the zeros that are asked for. -/
theorem verify_iff (active : cfg.bits ≠ 0) (sixteen : nonce.length = 16) (counter : Nat) :
    Pow.verify argon { nonce := Base64.encode nonce, counter } cfg = true ↔
      ∃ out, Pow.hash argon (.ofNat counter) nonce cfg = some out ∧
        List.replicate cfg.bits.toNat false <+: bitsOf out := by
  rw [Pow.verify, if_neg active]
  simp only [Base64.decode_encode, sixteen, ne_eq, not_true_eq_false, if_false]
  cases Pow.hash argon (.ofNat counter) nonce cfg with
  | none => simp
  | some out => simp [le_leadingZeroBits]

/-- The client searches with the bytes and the parameters the server issued. -/
theorem solvePow_newChallenge (cfg : PowConfig) (nonce : List UInt8) (fuel : Nat) :
    Web.solvePow argon (newChallenge cfg nonce) fuel =
      Web.solve_pow argon nonce cfg.m cfg.t cfg.p cfg.bits fuel := by
  simp only [Web.solvePow, newChallenge, Web.base64UrlDecode_encode]

/-- The counter goes into the request and comes out of it. -/
theorem proof_round_trip (challenge : PowChallenge) {counter : Nat} (small : counter < 2 ^ 53) :
    (JsonText.parse (JsonText.stringify (Web.proofJson challenge counter))).bind PowProof.fromJson =
      some { nonce := challenge.nonce, counter } := by
  have one : (Number.int counter).canon = .int counter := by
    rw [Number.canon, if_pos (by rw [Int.natAbs_natCast]; omega)]
  have printable : JsonText.Printable (Web.proofJson challenge counter) := ⟨trivial, one, trivial⟩
  have fits : counter < 18446744073709551616 := by omega
  rw [JsonText.parse_stringify printable, Option.bind_some, Web.proofJson, PowProof.fromJson,
    Json.members_obj (by simp)]
  simp [Json.asU64, fits]

/-- Every solved proof of work is accepted, and no lower counter is. -/
theorem solved_is_accepted (sixteen : nonce.length = 16) {fuel counter : Nat}
    (solved : Web.solvePow argon (newChallenge cfg nonce) fuel = .found counter)
    (small : counter < 2 ^ 53) :
    (∃ proof, (JsonText.parse (JsonText.stringify
          (Web.proofJson (newChallenge cfg nonce) counter))).bind PowProof.fromJson = some proof ∧
        Pow.verify argon proof cfg = true) ∧
      (∀ lower < counter,
        Pow.verify argon { nonce := (newChallenge cfg nonce).nonce, counter := lower } cfg = false) ∧
      (cfg.bits ≠ 0 → ∀ any : Nat,
        Pow.verify argon { nonce := (newChallenge cfg nonce).nonce, counter := any } cfg = true ↔
          ∃ out, Pow.hash argon (.ofNat any) nonce cfg = some out ∧
            List.replicate cfg.bits.toNat false <+: bitsOf out) := by
  rw [solvePow_newChallenge, Web.solve_pow] at solved
  have accepted (verified : Pow.verify argon { nonce := Base64.encode nonce, counter } cfg = true) :
      ∃ proof, (JsonText.parse (JsonText.stringify
          (Web.proofJson (newChallenge cfg nonce) counter))).bind PowProof.fromJson = some proof ∧
        Pow.verify argon proof cfg = true :=
    ⟨_, proof_round_trip (newChallenge cfg nonce) small, verified⟩
  split at solved
  -- without bits the browser answers 0 at once, and the server checks nothing
  next disabled =>
    obtain rfl : counter = 0 := (Web.Search.found.inj solved).symm
    refine ⟨accepted (by rw [Pow.verify, if_pos disabled]), ?_, ?_⟩
    · exact fun lower less => absurd less (Nat.not_lt_zero lower)
    · exact fun active => absurd disabled active
  -- else the search stops at the first counter whose hash has the bits
  next active =>
    split at solved
    next valid =>
      obtain ⟨meets, misses⟩ := Web.solveFrom_zero solved small
      have hashed (c : Nat) : Pow.hash argon (.ofNat c) nonce cfg =
          argon.hashInto cfg.m cfg.t cfg.p 32 (toLeBytes (.ofNat c)) nonce := if_pos valid
      refine ⟨accepted ?_, fun lower less => ?_, fun _ any => verify_iff argon active sixteen any⟩
      · obtain ⟨out, hash, enough⟩ := meets
        exact (verify_iff argon active sixteen counter).mpr
          ⟨out, by rw [hashed, hash], (le_leadingZeroBits out _).mp enough⟩
      · rw [← Bool.not_eq_true, newChallenge, verify_iff argon active sixteen]
        rintro ⟨out, hash, zeros⟩
        rw [hashed] at hash
        exact Web.not_both ⟨out, hash, (le_leadingZeroBits out _).mpr zeros⟩ (misses lower less)
    next => cases solved

end

/-! ### A search of four hashes -/

/-- Argon2id under 8 KiB, one pass and one lane, for the nonce 0 to 15 and the counters 0 to 3. -/
def argonTable : List (List UInt8 × List UInt8) :=
  [([0, 0, 0, 0, 0, 0, 0, 0], [55, 48, 230, 224, 239, 192, 67, 136, 218, 177, 250, 168, 232, 45, 85,
      118, 101, 159, 168, 20, 80, 155, 228, 60, 87, 247, 1, 139, 251, 230, 247, 32]),
    ([1, 0, 0, 0, 0, 0, 0, 0], [233, 134, 68, 200, 94, 194, 82, 15, 73, 76, 251, 218, 12, 235, 19, 246,
      70, 145, 56, 169, 17, 250, 157, 62, 210, 81, 59, 244, 126, 144, 110, 223]),
    ([2, 0, 0, 0, 0, 0, 0, 0], [233, 170, 76, 41, 154, 158, 105, 29, 245, 2, 55, 112, 57, 168, 2, 27,
      71, 46, 205, 218, 159, 33, 31, 63, 132, 93, 89, 117, 217, 53, 154, 252]),
    ([3, 0, 0, 0, 0, 0, 0, 0], [6, 33, 198, 182, 194, 231, 39, 222, 116, 35, 67, 161, 33, 144, 79, 119,
      82, 46, 2, 33, 152, 34, 189, 147, 172, 54, 55, 59, 84, 94, 12, 34])]

def sampleNonce : List UInt8 := (List.range 16).map .ofNat

def sampleArgon : Argon2id where
  params m t p len := decide (m = 8 ∧ t = 1 ∧ p = 1 ∧ len = 32)
  hashInto _ _ _ _ password salt := if salt = sampleNonce then argonTable.lookup password else none

def threeBits : PowConfig := { m := 8, t := 1, p := 1, bits := 3 }

theorem fourth_is_accepted :
    (∃ proof, (JsonText.parse (JsonText.stringify
          (Web.proofJson (newChallenge threeBits sampleNonce) 3))).bind PowProof.fromJson = some proof ∧
        Pow.verify sampleArgon proof threeBits = true) ∧
      (∀ lower < 3, Pow.verify sampleArgon
        { nonce := (newChallenge threeBits sampleNonce).nonce, counter := lower } threeBits = false) ∧
      (threeBits.bits ≠ 0 → ∀ any : Nat, Pow.verify sampleArgon
          { nonce := (newChallenge threeBits sampleNonce).nonce, counter := any } threeBits = true ↔
        ∃ out, Pow.hash sampleArgon (.ofNat any) sampleNonce threeBits = some out ∧
          List.replicate threeBits.bits.toNat false <+: bitsOf out) := by
  have solved : Web.solvePow sampleArgon (newChallenge threeBits sampleNonce) 4 = .found 3 := by
    rw [solvePow_newChallenge]
    decide
  exact solved_is_accepted sampleArgon rfl solved (by decide)

end Atmin
