import Atmin.Rotation.Submissions
import Atmin.Server.Sample

/-!
# Every hop keeps its link

The link is in the chain before the server decides on the rotation, and nothing but the order of
the steps ties the two together. A hop keeps its link where every submission writes the chain
while the version it has read is still the stored one, and commits while the chain is still as
it has written it; two submissions that overlap otherwise lose the link of the one that commits.
-/

namespace Atmin.Web

open Interaction

/-! ### One step -/

section Steps

variable {ι Secret CryptoKey : Type} {crypto : WebCrypto Secret CryptoKey} {u : UserId} {i : ι}
  {prepared : Prepared CryptoKey} {links : List Js} {link : KeyChainLink} {s t : Rotating ι}

/-- What a submission may do. -/
structure Proceeds (u : UserId) (i : ι) (s t : Rotating ι) : Prop where
  versions : t.versions = s.versions ∨
    s.server.holder (.rotation u.str) = some i ∧ ∃ c, t.versions = c :: s.versions ∧
      ∀ c' ∈ s.versions, c'.currentKv.toNat < c.currentKv.toNat
  chain : (t.chain = s.chain ∧ t.writers = s.writers) ∨ t.writers = i :: s.writers
  holder : HolderMoves (.rotation u.str) i s.server t.server

variable (crypto u) in
def chainRules : Rules ι (Rotating ι) where
  inv := InOrder crypto u
  guar := Proceeds u
  rely j s t := ∃ i, i ≠ j ∧ Proceeds u i s t
  compat i _ differ _ _ _ _ moved := ⟨i, differ, moved⟩

/-- The old keys are those of the version the submission starts from. -/
def Saw (crypto : WebCrypto Secret CryptoKey) (prepared : Prepared CryptoKey) (s : Rotating ι) :
    Prop :=
  ∃ c ∈ s.versions, (c.currentKv.toNat : Int) = effective prepared.currentKV ∧
    KeysOf crypto c prepared.oldKeys

/-- These links take every hop up to that version. -/
def Reaches (crypto : WebCrypto Secret CryptoKey) (prepared : Prepared CryptoKey) (links : List Js)
    (s : Rotating ι) : Prop :=
  ∀ older newer, [newer, older] <:+: s.versions →
    (newer.currentKv.toNat : Int) ≤ effective prepared.currentKV → Linked crypto links older newer

/-- The link is in the chain unless somebody else has written it since. -/
def Carried (i : ι) (link : KeyChainLink) (s : Rotating ι) : Prop :=
  s.writers.head? = some i → link.toJs ∈ storedLinks s.chain

theorem Proceeds.grows (moved : Proceeds u i s t) : ∀ c ∈ s.versions, c ∈ t.versions := by
  intro c member
  rcases moved.versions with same | ⟨_, c', grown, _⟩
  · rw [same]
    exact member
  · rw [grown]
    exact List.mem_cons_of_mem _ member

theorem Saw.grows (saw : Saw crypto prepared s) (moved : Proceeds u i s t) : Saw crypto prepared t := by
  obtain ⟨c, member, version, keys⟩ := saw
  exact ⟨c, moved.grows c member, version, keys⟩

theorem Reaches.grows (reaches : Reaches crypto prepared links s) (saw : Saw crypto prepared s)
    (moved : Proceeds u i s t) : Reaches crypto prepared links t := by
  intro older newer hop within
  rcases moved.versions with same | ⟨_, c, grown, above⟩
  · rw [same] at hop
    exact reaches older newer hop within
  · rw [grown, hop_cons] at hop
    rcases hop with ⟨rfl, _⟩ | old
    · -- A version that is new is beyond the one the submission started from.
      obtain ⟨c', member, version, _⟩ := saw
      have := above c' member
      omega
    · exact reaches older newer old within

theorem Carried.others {j : ι} (holds : Carried i link s) (moved : Proceeds u j s t) (differ : j ≠ i) :
    Carried i link t := by
  intro mine
  rcases moved.chain with ⟨chain, writers⟩ | written
  · rw [writers] at mine
    rw [chain]
    exact holds mine
  · rw [written] at mine
    exact absurd (Option.some.inj mine) differ

/-- The lock's holder knows the newest version. -/
def Newest (u : UserId) (i : ι) (p : Profile) (s : Rotating ι) : Prop :=
  s.server.holder (.rotation u.str) = some i ∧ s.versions.head? = some p.credential

def saw (i : ι) (prepared : Prepared CryptoKey) : (chainRules crypto u).Assertion i :=
  ⟨Saw crypto prepared, fun _ _ _ _ ⟨_, _, moved⟩ saw => saw.grows moved⟩

def reaches (i : ι) (prepared : Prepared CryptoKey) (links : List Js) :
    (chainRules crypto u).Assertion i :=
  ⟨fun s => Saw crypto prepared s ∧ Reaches crypto prepared links s,
    fun _ _ _ _ ⟨_, _, moved⟩ h => ⟨h.1.grows moved, h.2.grows h.1 moved⟩⟩

/-- What holds from the PUT on. -/
def ready (i : ι) (prepared : Prepared CryptoKey) (link : KeyChainLink) :
    (chainRules crypto u).Assertion i :=
  ⟨fun s => Saw crypto prepared s ∧ Carried i link s,
    fun _ _ _ _ ⟨_, differ, moved⟩ h => ⟨h.1.grows moved, h.2.others moved differ⟩⟩

def locked (i : ι) : (chainRules crypto u).Assertion i :=
  ⟨fun s => s.server.holder (.rotation u.str) = some i,
    fun _ _ _ _ ⟨_, differ, moved⟩ held => moved.holder.other differ held⟩

def newest (i : ι) (p : Profile) : (chainRules crypto u).Assertion i :=
  ⟨Newest u i p, fun s t _ _ ⟨j, differ, moved⟩ ⟨held, head⟩ => by
    refine ⟨moved.holder.other differ held, ?_⟩
    rcases moved.versions with same | ⟨mine, _⟩
    · rw [same]
      exact head
    · rw [held] at mine
      exact absurd (Option.some.inj mine).symm differ⟩

/-- A step that concerns none of this. -/
structure Unmoved (u : UserId) (s t : Rotating ι) : Prop where
  versions : t.versions = s.versions
  chain : t.chain = s.chain
  writers : t.writers = s.writers
  holder : t.server.holder (.rotation u.str) = s.server.holder (.rotation u.str)

theorem Unmoved.proceeds (same : Unmoved u s t) (i : ι) : Proceeds u i s t where
  versions := .inl same.versions
  chain := .inl ⟨same.chain, same.writers⟩
  holder := .inl same.holder

theorem Unmoved.ready (same : Unmoved u s t) (ready : Saw crypto prepared s ∧ Carried i link s) :
    Saw crypto prepared t ∧ Carried i link t := by
  unfold Saw Carried at *
  rw [same.versions, same.chain, same.writers]
  exact ready

theorem Proceeds.refl (i : ι) (s : Rotating ι) : Proceeds u i s s :=
  ⟨.inl rfl, .inl ⟨rfl, rfl⟩, .inl rfl⟩

/-- Nothing is put on record while the profile stays as it is. -/
theorem InOrder.served {v : Sys ι} (order : InOrder crypto u s)
    (profile : profileOf u v = profileOf u s.server) :
    InOrder crypto u (s.served u v) ∧ (s.served u v).versions = s.versions := by
  obtain ⟨p, stored, head⟩ := order.stored
  have versions : (s.served u v).versions = s.versions := by
    simp only [Rotating.served, profile, stored, head, if_true]
  have kept : (s.served u v).Kept crypto := by
    intro older newer hop
    rw [versions] at hop
    exact order.kept older newer hop
  exact ⟨⟨⟨p, profile.trans stored, versions ▸ head⟩, versions ▸ order.falling, kept⟩, versions⟩

/-- A request of the server. -/
def Handling [DecidableEq ι] (u : UserId) (i : ι) (o : Op) (s : Rotating ι) (r : Res o)
    (t : Rotating ι) : Prop :=
  execOf (performTimely u) i (.serve o) s r t

variable [DecidableEq ι] {o : Op} {r : Res o}

theorem handling_served (handled : Handling u i o s r t) :
    ∃ v, Faulty i o s.server r v ∧ t = s.served u v ∧
      ∀ d, o.puts (keyProfile u.str) = some d → s.writers.head? = some i := by
  obtain ⟨c, done⟩ := handled
  obtain ⟨timely, done⟩ := Option.ite_none_right_eq_some.mp done
  cases c with
  | server c =>
    obtain ⟨⟨r', v⟩, served, same⟩ := Option.map_eq_some_iff.mp done
    cases same
    refine ⟨v, ⟨c, served⟩, rfl, fun d puts => ?_⟩
    have timely :
        ((o.puts (keyProfile u.str)).isNone || decide (s.writers.head? = some i)) = true := timely
    rw [puts] at timely
    simpa using timely
  | _ => cases done

/-- Which requests leave profile and lock alone. -/
structure Aside (u : UserId) (o : Op) : Prop where
  puts : o.puts (keyProfile u.str) = none
  removes : o.removes (keyProfile u.str) = false
  lock : o.lock? ≠ some (.rotation u.str)

theorem aside_passive (passive : o.passive = true) : Aside u o :=
  ⟨Op.puts_passive passive _, Op.removes_passive passive _, by rw [Op.lock?_passive passive]; nofun⟩

theorem aside_put {key : String} (other : keyProfile u.str ≠ key) (d : Data) :
    Aside u (.putObject key d) :=
  ⟨by simp [Op.puts, other], rfl, nofun⟩

theorem aside_step (order : InOrder crypto u s) (aside : Aside u o) (handled : Handling u i o s r t) :
    InOrder crypto u t ∧ Unmoved u s t := by
  obtain ⟨v, served, rfl, _⟩ := handling_served handled
  have object : v.objects.get (keyProfile u.str) = s.server.objects.get (keyProfile u.str) := by
    rcases served_get served (keyProfile u.str) with same | ⟨d, puts, _⟩ | ⟨removes, _⟩
    · exact same
    · rw [aside.puts] at puts
      cases puts
    · rw [aside.removes] at removes
      cases removes
  obtain ⟨kept, versions⟩ := order.served (v := v) (by rw [profileOf, object, profileOf])
  exact ⟨kept, versions, rfl, rfl, served_holder served aside.lock⟩

end Steps

/-! ### The rotation -/

section Rotate

variable {ι Secret CryptoKey : Type} {crypto : WebCrypto Secret CryptoKey} {u : UserId} {i : ι}
  {prepared : Prepared CryptoKey} {submission : Submission} {env : Env} {s t : Rotating ι}

/-- What the server reads of the posted body. -/
theorem body_parsed {req : RotateKeysRequest}
    (parsed : RotateKeysRequest.fromJson (prepared.body submission) = some req) :
    (req.keyVersion.toNat : Int) = prepared.newKV ∧
      req.authPublicKey = base64UrlEncode prepared.newKeys.authPublicKey := by
  unfold RotateKeysRequest.fromJson at parsed
  simp only [Option.bind_eq_bind, Option.bind_eq_some_iff] at parsed
  obtain ⟨f, readable, _, _, version, versionRead, auth, authRead, _, _, _, _, _, _, _, _,
    parsed⟩ := parsed
  cases parsed
  rw [Prepared.body, Json.members_obj (by simp)] at readable
  cases readable
  simp at versionRead authRead
  exact ⟨asU32_num versionRead, authRead.symm⟩

theorem credential_currentKv (req : RotateKeysRequest) (positive : 0 < req.keyVersion.toNat) :
    req.credential.currentKv = req.keyVersion := by
  unfold Credential.currentKv RotateKeysRequest.credential
  dsimp only
  rw [if_neg]
  intro zero
  rw [zero] at positive
  exact absurd positive (by decide)

/-- The rotation that is accepted goes from the version the submission has read, so the link is
the one of its hop. -/
theorem accepted_linked {p : Profile} (order : InOrder crypto u s)
    (ready : Saw crypto prepared s ∧ Carried i (prepared.link crypto submission) s)
    (newest : Newest u i p s) {token : Option String}
    (x : Rotation env token (some (prepared.body submission))) (accepted : x.Accepted p.credential)
    (derived : ∃ secret, crypto.deriveKeys secret = some prepared.newKeys)
    (mine : s.writers.head? = some i) :
    x.req.credential.currentKv.toNat = p.credential.currentKv.toNat + 1 ∧
      Linked crypto (storedLinks s.chain) p.credential x.req.credential := by
  obtain ⟨version, auth⟩ := body_parsed x.parsed
  obtain ⟨⟨c, member, from_, keys⟩, holds⟩ := ready
  have positive := currentKv_pos p.credential
  have bound := p.credential.currentKv.toNat_lt
  have seen := currentKv_pos c
  have next : x.req.keyVersion.toNat = (p.credential.currentKv.toNat + 1) % 2 ^ 32 := by
    rw [accepted.1, UInt32.toNat_add]
    rfl
  unfold Prepared.newKV at version
  unfold effective at from_
  -- Neither has the version wrapped, nor was it missing.
  have start : prepared.currentKV = p.credential.currentKv.toNat := by
    split at from_ <;> omega
  have advances : x.req.keyVersion.toNat = p.credential.currentKv.toNat + 1 := by omega
  have current := credential_currentKv x.req (by omega)
  have same : c = p.credential := by
    rcases falling_head order.falling newest.2 member with same | below
    · exact same
    · rw [if_neg (by omega)] at from_
      omega
  subst same
  refine ⟨by rw [current]; exact advances, prepared.link crypto submission, holds mine, ?_, ?_,
    prepared.oldKeys, prepared.newKeys, keys, ⟨derived, auth.symm⟩, opened_buildChainLink ..⟩
  · simp only [Prepared.link, buildChainLink, start]
  · simp only [Prepared.link, buildChainLink, Prepared.newKV, current, advances, start]
    push_cast
    rfl

end Rotate

section Handler

variable {ι Secret CryptoKey : Type} [DecidableEq ι] {crypto : WebCrypto Secret CryptoKey}
  {u : UserId} {i : ι} {prepared : Prepared CryptoKey} {submission : Submission} {env : Env}
  {link : KeyChainLink} {s t : Rotating ι}

/-- A request of a submission, under the rules. -/
abbrev ChainServes (crypto : WebCrypto Secret CryptoKey) (u : UserId) (i : ι) (o : Op)
    (P : Rotating ι → Prop) (R : Res o → Rotating ι → Prop) : Prop :=
  Serves (chainRules crypto u) (Handling u) i o P R

theorem aside_serves {o : Op} (aside : Aside u o) {P : Rotating ι → Prop}
    (keeps : ∀ s t, Unmoved u s t → P s → P t) : ChainServes crypto u i o P fun _ => P := by
  intro s r t order holds handled
  obtain ⟨kept, same⟩ := aside_step order aside handled
  exact ⟨kept, same.proceeds i, keeps s t same holds⟩

theorem acquire_serves : ChainServes crypto u i (.acquire (.rotation u.str))
    (fun s => Saw crypto prepared s ∧ Carried i link s) fun r t =>
      r = .ok () → t.server.holder (.rotation u.str) = some i ∧
        Saw crypto prepared t ∧ Carried i link t := by
  intro s r t order ready handled
  obtain ⟨v, served, rfl, _⟩ := handling_served handled
  rcases served_acquire served with ⟨_, free, rfl⟩ | ⟨late, rfl⟩
  · obtain ⟨kept, versions⟩ := order.served
      (v := { s.server with holder := Function.update s.server.holder (.rotation u.str) (some i) }) rfl
    have held := Function.update_self (Lock.rotation u.str) (some i) s.server.holder
    refine ⟨kept, ⟨.inl versions, .inl ⟨rfl, rfl⟩, .inr (.inl ⟨free, held⟩)⟩, fun _ => ⟨held, ?_⟩⟩
    unfold Saw Carried at *
    rw [versions]
    exact ready
  · obtain ⟨kept, versions⟩ := order.served (v := s.server) rfl
    refine ⟨kept, ⟨.inl versions, .inl ⟨rfl, rfl⟩, .inl rfl⟩, fun taken => ?_⟩
    rw [late] at taken
    cases taken

theorem release_serves : ChainServes crypto u i (.release (.rotation u.str))
    (fun s => s.server.holder (.rotation u.str) = some i) fun _ _ => True := by
  intro s r t order held handled
  obtain ⟨v, served, rfl, _⟩ := handling_served handled
  have after := served_release served
  subst after
  obtain ⟨kept, versions⟩ := order.served
    (v := { s.server with holder := Function.update s.server.holder (.rotation u.str) none }) rfl
  have freed := Function.update_self (Lock.rotation u.str) none s.server.holder
  exact ⟨kept, ⟨.inl versions, .inl ⟨rfl, rfl⟩, .inr (.inr ⟨held, freed⟩)⟩, trivial⟩

/-- A read of the profile tells the newest version. -/
theorem read_stored {r : Res (.getObject (keyProfile u.str))} (order : InOrder crypto u s)
    (handled : Handling u i (.getObject (keyProfile u.str)) s r t) {d : Data} {p : Profile}
    (ok : r = .ok d) (parsed : Profile.parse d = some p) : s.versions.head? = some p.credential := by
  obtain ⟨v, served, _⟩ := handling_served handled
  obtain ⟨_, found | ⟨e, _, _, failed⟩⟩ := served_getObject served
  · obtain ⟨q, stored, head⟩ := order.stored
    rw [found] at ok
    rw [profileOf, lookup_eq_ok.mp ok, Option.bind_some, parsed] at stored
    cases stored
    exact head
  · rw [ok] at failed
    cases failed

/-- The write that commits. -/
theorem commit_serves {p : Profile} {token : Option String}
    (x : Rotation env token (some (prepared.body submission))) (accepted : x.Accepted p.credential)
    (derived : ∃ secret, crypto.deriveKeys secret = some prepared.newKeys) :
    ChainServes crypto u i (.putObject (keyProfile u.str) (x.req.install p).data)
      (fun s => Newest u i p s ∧ Saw crypto prepared s ∧ Carried i (prepared.link crypto submission) s)
      fun _ t => t.server.holder (.rotation u.str) = some i := by
  intro s r t order ⟨newest, ready⟩ handled
  obtain ⟨v, served, rfl, writer⟩ := handling_served handled
  have holder : v.holder (.rotation u.str) = s.server.holder (.rotation u.str) :=
    served_holder served nofun
  have held : v.holder (.rotation u.str) = some i := holder.trans newest.1
  obtain ⟨advances, linked⟩ := accepted_linked order ready newest x accepted derived
    (writer (x.req.install p).data (by simp [Op.puts]))
  have written : v = s.server.put (keyProfile u.str) (x.req.install p).data ∨ v = s.server := by
    rcases served_putObject served with ⟨_, new⟩ | ⟨_, either⟩
    · exact .inl new
    · exact either
  rcases written with rfl | rfl
  · -- the commit: the credential is new, and its link is in the chain
    have profile : profileOf u (s.server.put (keyProfile u.str) (x.req.install p).data) =
        some (x.req.install p) := by
      rw [profileOf, Sys.put, ObjectMap.get_insert, if_pos rfl]
      exact Profile.parse_data _
    have versions : (s.served u (s.server.put (keyProfile u.str) (x.req.install p).data)).versions =
        x.req.credential :: s.versions := by
      have fresh : s.versions.head? ≠ some (x.req.install p).credential := by
        intro same
        rw [newest.2, x.req.credential_install] at same
        rw [← Option.some.inj same] at advances
        omega
      simp only [Rotating.served, profile, if_neg fresh]
      rfl
    have above : ∀ c ∈ s.versions, c.currentKv.toNat < x.req.credential.currentKv.toNat := by
      intro c member
      rcases falling_head order.falling newest.2 member with rfl | below
      · omega
      · omega
    refine ⟨⟨⟨_, profile, by rw [versions]; rfl⟩, ?_, ?_⟩,
      ⟨.inr ⟨newest.1, _, versions, above⟩, .inl ⟨rfl, rfl⟩, .inl holder⟩, held⟩
    · rw [versions]
      exact List.pairwise_cons.mpr ⟨above, order.falling⟩
    · intro older newer hop
      rw [versions, hop_cons] at hop
      rcases hop with ⟨rfl, head⟩ | old
      · rw [newest.2] at head
        cases head
        exact ⟨advances, linked⟩
      · exact order.kept older newer old
  · -- the write was lost
    obtain ⟨kept, versions⟩ := order.served (v := s.server) rfl
    exact ⟨kept, ⟨.inl versions, .inl ⟨rfl, rfl⟩, .inl rfl⟩, newest.1⟩

theorem rotateKeys_linked {token : Option String}
    (account : ∀ user, Token.identity env token = some user → user.userId = u)
    (derived : ∃ secret, crypto.deriveKeys secret = some prepared.newKeys)
    (start : Saw crypto prepared s ∧ Carried i (prepared.link crypto submission) s) :
    Meets (chainRules crypto u) (Handling u) (fun _ => .pure (i := i) True)
      (rotateKeys env token (some (prepared.body submission))) s := by
  have uid (x : Rotation env token (some (prepared.body submission))) : x.uid = u.str := by
    rw [Rotation.uid, account x.user x.known]
  let begun : (chainRules crypto u).Assertion i := ready i prepared (prepared.link crypto submission)
  have record (x : Rotation env token (some (prepared.body submission))) (d : Data) :
      Aside u (.putObject x.recordKey d) := by
    refine aside_put ?_ d
    rw [Rotation.recordKey, uid x]
    exact (keyRecord_ne_profile _ _).symm
  refine Meets.rotateKeys (fun _ => begun) begun (fun _ => (locked i).and begun)
    (fun _ => (locked i).and begun) (fun _ p => (newest i p).and begun) (fun _ _ => locked i)
    (fun _ _ => locked i) (fun _ _ => locked i)
    ?_ (fun _ _ _ => trivial) (fun _ _ _ _ => trivial) (fun _ _ h => h) ?_ ?_ ?_ ?_ ?_ ?_ ?_ ?_ ?_ ?_
  -- The token is read
  · exact Safe.only begun
      (fun o passive => aside_serves (aside_passive passive) fun _ _ same => same.ready)
      (authenticate_passive env token false) start
  -- The lock is taken
  · intro x
    rw [uid x]
    intro v r t order here handled
    obtain ⟨kept, moved, taken⟩ := acquire_serves v r t order here handled
    exact ⟨kept, moved, taken, fun _ => trivial⟩
  -- The record of an earlier attempt is read
  · intro x v r t order here handled
    obtain ⟨kept, same⟩ := aside_step order (aside_passive rfl) handled
    have held : t.server.holder (.rotation u.str) = some i := same.holder.trans here.1
    exact ⟨kept, same.proceeds i, fun _ _ _ _ => held, fun _ => ⟨held, same.ready here.2⟩⟩
  -- The profile is read under the lock, so it is the newest until the lock is released
  · intro x
    rw [uid x]
    intro v r t order here handled
    obtain ⟨kept, same⟩ := aside_step order (aside_passive rfl) handled
    have held : t.server.holder (.rotation u.str) = some i := same.holder.trans here.1
    refine ⟨kept, same.proceeds i, fun _ => held, fun d p ok parsed => ⟨⟨held, ?_⟩, same.ready here.2⟩⟩
    rw [same.versions]
    exact read_stored order handled ok parsed
  · exact fun x p t here msg => here.1.1
  -- A refusal is recorded
  · intro x p outcome _ v r t order here handled
    obtain ⟨kept, same⟩ := aside_step order (record x _) handled
    exact ⟨kept, same.proceeds i, same.holder.trans here.1.1⟩
  -- The rotation is committed
  · intro x p accepted
    rw [uid x]
    intro v r t order here handled
    obtain ⟨kept, moved, held⟩ := commit_serves x accepted derived v r t order here handled
    exact ⟨kept, moved, fun _ => held, fun _ _ _ => held⟩
  -- What follows the commit leaves the profile alone
  · exact fun x p _ => aside_serves (aside_put (keyHandle_ne_profile _ _).symm _) fun _ _ same held =>
      same.holder.trans held
  · exact fun x p => aside_serves (record x _) fun _ _ same held => same.holder.trans held
  · exact fun x p => aside_serves (aside_passive rfl) fun _ _ same held => same.holder.trans held
  · intro x r
    rw [uid x]
    exact release_serves

end Handler

/-! ### A submission -/

section Submission

variable {ι Secret CryptoKey : Type} [DecidableEq ι] {crypto : WebCrypto Secret CryptoKey}
  {u : UserId} {i : ι} {prepared : Prepared CryptoKey} {submission : Submission} {env : Env}
  {link : KeyChainLink} {s t : Rotating ι}

/-- The server's requests are served one by one. -/
theorem Safe.handled {α : Type} {Q : α → Rotating ι → Prop} {p : Eff α}
    (safe : Safe (chainRules crypto u) (Handling u) i Q p s) :
    Safe (chainRules crypto u) (execOf (performTimely u)) i Q
      (p.expand fun o => Prog.request (SubmitAct.serve o)) s := by
  induction p generalizing s with
  | ret a => exact safe
  | op o k ih =>
    intro t moved inv r v served
    obtain ⟨kept, own, rest⟩ := safe t moved inv r v served
    exact ⟨kept, own, ih r rest⟩

theorem performTimely_iff {act : SubmitAct} {r : SubmitReply act} :
    execOf (performTimely u) i act s r t ↔
      timely u i s act = true ∧ ∃ c, performSubmit u i act c s = some (r, t) := by
  constructor
  · rintro ⟨c, done⟩
    obtain ⟨timely, done⟩ := Option.ite_none_right_eq_some.mp done
    exact ⟨timely, c, done⟩
  · rintro ⟨timely, c, done⟩
    exact ⟨c, by rw [performTimely, if_pos timely, done]⟩

/-- What the profile read tells. -/
theorem getProfile_serves : Serves (chainRules crypto u) (execOf (performTimely u)) i .getProfile
    (fun _ => True) fun r t => ∀ raw prepared, r = .ok raw →
      prepare crypto submission raw = .ok (some prepared) →
      Saw crypto prepared t ∧ ∃ secret, crypto.deriveKeys secret = some prepared.newKeys := by
  intro s r t order _ served
  obtain ⟨_, c, done⟩ := performTimely_iff.mp served
  cases c with
  | answered =>
    cases done
    refine ⟨order, .refl i s, fun raw prepared found ready => ?_⟩
    obtain ⟨p, stored, head⟩ := order.stored
    obtain ⟨d, object, parsed⟩ := Option.bind_eq_some_iff.mp stored
    obtain ⟨j, json, parsed⟩ := Option.bind_eq_some_iff.mp parsed
    simp only [Rotating.profileFile, object, json, Except.ok.injEq] at found
    subst found
    obtain ⟨keys, version, derived⟩ := prepare_parsed parsed ready
    exact ⟨⟨p.credential, List.mem_of_mem_head? head, version, keys⟩, derived⟩
  | refused e =>
    cases done
    exact ⟨order, .refl i s, fun raw prepared found => by cases found⟩
  | _ => cases done

/-- The chain that is read takes every hop there is so far. -/
theorem getChain_serves : Serves (chainRules crypto u) (execOf (performTimely u)) i .getChain
    (Saw crypto prepared) fun stored t =>
      Saw crypto prepared t ∧ Reaches crypto prepared (storedLinks stored) t := by
  intro s r t order saw served
  obtain ⟨_, c, done⟩ := performTimely_iff.mp served
  cases c with
  | answered =>
    cases done
    exact ⟨order, .refl i s, saw, fun older newer hop _ => (order.kept older newer hop).2⟩
  | _ => cases done

theorem presign_serves {P : Rotating ι → Prop} :
    Serves (chainRules crypto u) (execOf (performTimely u)) i .presignChain P fun _ => P := by
  intro s r t order holds served
  obtain ⟨_, c, done⟩ := performTimely_iff.mp served
  cases c with
  | answered => cases done; exact ⟨order, .refl i s, holds⟩
  | refused e => cases done; exact ⟨order, .refl i s, holds⟩
  | _ => cases done

theorem post_serves {P : Rotating ι → Prop} :
    Serves (chainRules crypto u) (execOf (performTimely u)) i .post P fun _ => P := by
  intro s r t order holds served
  obtain ⟨_, c, done⟩ := performTimely_iff.mp served
  cases c with
  | posted how => cases done; exact ⟨order, .refl i s, holds⟩
  | _ => cases done

/-- The links of other hops are left in the chain. -/
theorem Linked.dropped {links others : List Js} {older newer : Credential}
    (linked : Linked crypto links older newer) (dropped : dropHop link links = .ok others)
    (apart : ¬ (.int older.currentKv.toNat = link.from_ ∧ .int newer.currentKv.toNat = link.to_)) :
    Linked crypto (others ++ [link.toJs]) older newer := by
  obtain ⟨l, member, from_, to_, keys⟩ := linked
  refine ⟨l, List.mem_append_left _ (mem_dropHop dropped member ?_), from_, to_, keys⟩
  rw [otherHop, sameHop_toJs, from_, to_]
  simpa [imp_iff_not_or] using apart

/-- A PUT is in time while the newest version is the one the submission has read. -/
theorem timely_newest {body : ChainFile} (order : InOrder crypto u s)
    (timely : timely u i s (.putChain (prepared.link crypto submission) body) = true) :
    ∃ head, s.versions.head? = some head ∧
      (head.currentKv.toNat : Int) = effective prepared.currentKV := by
  obtain ⟨p, stored, head⟩ := order.stored
  have from_ : (.int prepared.currentKV : Number) = .int p.currentKv.toNat := by
    simpa [Web.timely, stored, Prepared.link, buildChainLink] using timely
  have positive := currentKv_pos p.credential
  refine ⟨p.credential, head, ?_⟩
  rw [Number.int.inj from_, effective, if_neg (by have := positive; unfold Profile.currentKv; omega)]
  rfl

/-- A PUT in time keeps every link there is, and adds its own. -/
theorem putChain_serves {current : List (String × Js)} {others : List Js}
    (dropped : dropHop (prepared.link crypto submission) (chainLinks current) = .ok others) :
    Serves (chainRules crypto u) (execOf (performTimely u)) i
      (.putChain (prepared.link crypto submission)
        (some (.obj (setMember current "links"
          (.arr (others ++ [(prepared.link crypto submission).toJs]))))))
      (fun s => Saw crypto prepared s ∧ Reaches crypto prepared (chainLinks current) s)
      fun _ t => Saw crypto prepared t ∧ Carried i (prepared.link crypto submission) t := by
  intro s r t order ⟨saw, reaches⟩ served
  obtain ⟨timely, c, done⟩ := performTimely_iff.mp served
  cases c with
  | answered =>
    cases done
    have links : storedLinks (some (some (.obj (setMember current "links"
        (.arr (others ++ [(prepared.link crypto submission).toJs])))))) =
        others ++ [(prepared.link crypto submission).toJs] := by
      simp [storedLinks, chainLinks]
    obtain ⟨head, newest, current_⟩ := timely_newest order timely
    refine ⟨⟨order.stored, order.falling, fun older newer hop => ?_⟩,
      ⟨.inl rfl, .inr rfl, .inl rfl⟩, saw, fun _ => ?_⟩
    · obtain ⟨next, _⟩ := order.kept older newer hop
      have above : newer.currentKv.toNat ≤ head.currentKv.toNat := by
        rcases falling_head order.falling newest (hop_mem hop).1 with rfl | below
        · exact le_rfl
        · exact below.le
      have first := currentKv_pos older
      have within : (newer.currentKv.toNat : Int) ≤ effective prepared.currentKV := by omega
      refine ⟨next, ?_⟩
      rw [links]
      refine (reaches older newer hop within).dropped dropped fun same => ?_
      simp only [Prepared.link, buildChainLink, Prepared.newKV, Number.int.injEq] at same
      unfold effective at within
      split at within <;> omega
    · rw [links]
      simp
  | _ => cases done

/-- What an append leaves to the rotation after it. -/
def Prefaced (crypto : WebCrypto Secret CryptoKey) (i : ι) (prepared : Prepared CryptoKey)
    (submission : Submission) (r : Except Raised Unit) (s : Rotating ι) : Prop :=
  r = .ok () → Saw crypto prepared s ∧ Carried i (prepared.link crypto submission) s

theorem appendLink_linked (here : Saw crypto prepared s) :
    Safe (chainRules crypto u) (execOf (performTimely u)) i
      (Prefaced crypto i prepared submission) (appendLink (prepared.link crypto submission)) s := by
  have fails (e : Raised) (t : Rotating ι) : Safe (chainRules crypto u) (execOf (performTimely u)) i
      (Prefaced crypto i prepared submission) (.ret (.error e)) t := fun _ _ wrong => nomatch wrong
  refine Safe.request (saw i prepared) here getChain_serves fun stored t read => ?_
  dsimp only
  split
  next e _ => exact fails _ t
  next others dropped =>
    rw [← fetchChain_answered] at read
    refine Safe.request (reaches i prepared _) read presign_serves fun r v read => ?_
    cases r with
    | error e => exact fails e v
    | ok _ =>
      refine Safe.request (reaches i prepared _) read (putChain_serves dropped) fun _ w done => ?_
      intro x moved _
      exact (ready i prepared (prepared.link crypto submission)).stable.others moved done

theorem submit_linked
    (account : ∀ user, Token.identity env (some submission.token) = some user → user.userId = u)
    (s : Rotating ι) :
    Safe (chainRules crypto u) (execOf (performTimely u)) i (fun _ _ => True)
      (submit crypto env submission) s := by
  have ends (a : SubmitResult) (t : Rotating ι) :
      Safe (chainRules crypto u) (execOf (performTimely u)) i (fun _ _ => True) (.ret a) t :=
    fun _ _ => trivial
  refine Safe.request (.pure True) trivial (@getProfile_serves _ _ _ _ crypto u i submission)
    fun r t read => ?_
  cases r with
  | error e => exact ends _ t
  | ok raw =>
    dsimp only
    split
    next => exact ends _ t
    next => exact ends _ t
    next prepared ready_ =>
      obtain ⟨here, derived⟩ := read raw prepared rfl ready_
      refine (appendLink_linked here).bind fun r t' ready_ => ?_
      cases r with
      | error e => exact ends _ t'
      | ok _ =>
        refine Safe.request (ready i prepared (prepared.link crypto submission)) (ready_ rfl)
          post_serves fun how v start => ?_
        have served := Safe.handled (rotateKeys_linked account derived start)
        cases how with
        | lost => exact ends _ v
        | answered => exact served.bind fun _ w _ => ends _ w
        | abandoned => exact served.bind fun _ w _ => ends _ w

end Submission

section Runs

variable {ι Secret CryptoKey : Type} [DecidableEq ι] {crypto : WebCrypto Secret CryptoKey}
  {u : UserId} {env : Env} {each : ι → Submission}

theorem submissions_contracts
    (account : ∀ i user, Token.identity env (some (each i).token) = some user → user.userId = u) :
    Contracts (chainRules crypto u) (timelySubmissions crypto env u each) (fun _ _ => True)
      fun _ _ _ => True :=
  ⟨fun _ _ _ _ _ _ _ => trivial, fun i s _ _ => submit_linked (account i) s⟩

/-- Where every PUT and every commit is in time, no hop ever lacks its link. -/
theorem links_kept
    (account : ∀ i user, Token.identity env (some (each i).token) = some user → user.userId = u)
    {s : Rotating ι} (order : InOrder crypto u s)
    {w : World ι SubmitAct SubmitReply SubmitResult (Rotating ι)}
    (reached : Reach (timelySubmissions crypto env u each) s w) : w.sys.Kept crypto := by
  have start : Secured (chainRules crypto u) (timelySubmissions crypto env u each) (fun _ _ => True)
      (fun _ _ _ => True) (.init s) := .init order fun _ => trivial
  exact (start.run (submissions_contracts account) reached).1.kept

end Runs

section Samples

open Sample

/-- The bytes of `authPublicKey`. -/
def oldPublic : List UInt8 :=
  [138, 136, 227, 221, 116, 9, 241, 149, 253, 82, 219, 45, 60, 186, 93, 114, 202, 103, 9, 191, 29,
    148, 18, 27, 243, 116, 136, 1, 180, 15, 111, 92]

/-- Those of the key that `rotation` installs. -/
def newPublic : List UInt8 :=
  [129, 57, 119, 14, 168, 125, 23, 95, 86, 163, 84, 102, 195, 76, 126, 204, 203, 141, 138, 145,
    180, 238, 55, 162, 93, 246, 15, 91, 143, 201, 179, 148]

def sharingPublic : List UInt8 := 4 :: (List.range 64).map UInt8.ofNat

def signatureBytes : List UInt8 := (Base64.decode signature).getD []

def keysOf : Nat → DerivedKeys (List UInt8)
  | 1 => ⟨oldPublic, fun _ => signatureBytes, sharingPublic, [1]⟩
  | 2 => ⟨newPublic, fun _ => [], sharingPublic, [2]⟩
  | _ => ⟨List.replicate 32 3, fun _ => [], sharingPublic, [3]⟩

theorem keysOf_length : ∀ n, (keysOf n).authPublicKey.length = 32
  | 0 | 1 | 2 | _ + 3 => rfl

theorem plain_atob : plainSubtle.atob = atob := rfl

/-- Three passwords, and ciphertexts that start with the key. -/
def threePasswords : WebCrypto Nat (List UInt8) where
  toSubtle := plainSubtle
  argonStretch password _ _ := some (if password = "old" then 1 else if password = "new" then 2 else 3)
  deriveKeys n := some (keysOf n)
  exportKey key := key
  encrypt key _ plain := key ++ plain
  authPublicKey_length n keys derived := by
    cases derived
    exact keysOf_length n
  decrypt_encrypt key iv plain := by simp [plainSubtle]
  atob_btoa bytes := by
    rw [plain_atob]
    exact atob_btoa bytes

def saltBytes : List UInt8 := (List.range 16).map UInt8.ofNat

/-- Two devices, and a new password on each. -/
def racing : Bool → Submission
  | true => ⟨token.getD "", "old", "new", saltBytes, [0], "00000000-0000-4000-8000-000000000001"⟩
  | false => ⟨token.getD "", "old", "newer", saltBytes, [0], "00000000-0000-4000-8000-000000000002"⟩

def registered : Rotating Bool :=
  { server := Sample.sys Bool, chain := none, versions := [profile.credential] }

theorem registered_inOrder : InOrder threePasswords user registered where
  stored := ⟨profile, stored_profile, rfl⟩
  falling := List.pairwise_singleton ..
  kept older newer hop := by
    have long := hop.length_le
    simp [registered] at long

theorem racing_token (i : Bool) : some (racing i).token = token := by
  cases i <;> rfl

theorem racing_account (i : Bool) :
    ∀ other, Token.identity env (some (racing i).token) = some other → other.userId = user := by
  rw [racing_token]
  exact fun other known => token_user known

def firstWrites : List (Bool × SubmitChoice) := List.replicate 5 (true, .answered)

def commitsThen : List (Bool × SubmitChoice) :=
  (true, .posted .answered) :: List.replicate 10 (true, .server .ok)

def rotated : Credential :=
  ⟨"gTl3Dqh9F19Wo1Rmw0x-zMuNipG07jeiXfYPW4_Js5Q", sharingPublicKey, salt, some kdf, 2⟩

/-- The second device's ciphertext, under the key of its own new password. -/
def orphan : String := btoa [3, 1]

def overtaken (w : World Bool SubmitAct SubmitReply SubmitResult (Rotating Bool)) : Bool :=
  decide (w.sys.versions = [rotated, profile.credential]) && (storedLinks w.sys.chain).all fun l =>
    match l.member "ciphertext" with
    | .ok x => x.same (.str orphan)
    | .error _ => false

theorem new_encoded : base64UrlEncode newPublic = rotated.authPublicKey := by decide

theorem keysOf_new : ∀ n, (keysOf n).authPublicKey = newPublic → (keysOf n).backupKey = [2]
  | 2, _ => rfl
  | 1, same => absurd same (show oldPublic ≠ newPublic by decide)
  | 0, same | _ + 3, same => absurd same (show List.replicate 32 3 ≠ newPublic by decide)

theorem rotated_keys {keys : DerivedKeys (List UInt8)} (known : KeysOf threePasswords rotated keys) :
    keys.backupKey = [2] := by
  obtain ⟨⟨n, derived⟩, auth⟩ := known
  rw [← Option.some.inj derived] at auth ⊢
  rw [← new_encoded] at auth
  exact keysOf_new n (Base64.encode_inj auth)

theorem overtaken_lost {w : World Bool SubmitAct SubmitReply SubmitResult (Rotating Bool)}
    (seen : overtaken w = true) : ¬ w.sys.Kept threePasswords := by
  obtain ⟨versions, links⟩ := Bool.and_eq_true_iff.mp seen
  intro kept
  have hop : [rotated, profile.credential] <:+: w.sys.versions :=
    ⟨[], [], (of_decide_eq_true versions).symm⟩
  obtain ⟨_, link, member, _, _, old, new, _, known, opened⟩ := kept profile.credential rotated hop
  have same := List.all_eq_true.mp links link.toJs member
  have cipher : link.ciphertext = orphan := by
    simpa [KeyChainLink.toJs, Js.lastOf, Js.same] using same
  rw [KeyChainLink.opened, cipher, rotated_keys known] at opened
  obtain ⟨iv, _, opened⟩ := Option.bind_eq_some_iff.mp opened
  have read : threePasswords.atob orphan = some [3, 1] := by
    rw [orphan]
    exact threePasswords.atob_btoa _
  rw [read] at opened
  have closed : threePasswords.decrypt [2] iv [3, 1] = none := rfl
  cases closed.symm.trans opened

/-- Both have written the chain when the first commits, and the second's link is all there is. -/
theorem link_lost : InOrder threePasswords user registered ∧
    ∃ w, Reach (submissions threePasswords env user racing) registered w ∧
      ¬ w.sys.Kept threePasswords := by
  refine ⟨registered_inOrder, ?_⟩
  obtain ⟨w, reached, seen⟩ : ∃ w, World.follow (performSubmit user)
      (submissions threePasswords env user racing).prog
      (firstWrites ++ List.replicate 5 (false, .answered) ++ commitsThen) (.init registered) = some w ∧
        overtaken w = true := by
    refine (Option.any_eq_true _ _).mp ?_
    simp only [submissions, submit, postRotation, handled, racing_token, rotateKeys,
      authenticate_known identity_token]
    decide +kernel
  exact ⟨w, steps_of_follow _ _ reached, overtaken_lost seen⟩

/-- A submission that nobody gets in the way of keeps its link. -/
theorem link_kept : ∃ w, Reach (timelySubmissions threePasswords env user racing) registered w ∧
    w.sys.versions = [rotated, profile.credential] ∧ w.sys.Kept threePasswords := by
  obtain ⟨w, reached, seen⟩ : ∃ w, World.follow (performTimely user)
      (timelySubmissions threePasswords env user racing).prog (firstWrites ++ commitsThen)
      (.init registered) = some w ∧ decide (w.sys.versions = [rotated, profile.credential]) = true := by
    refine (Option.any_eq_true _ _).mp ?_
    simp only [timelySubmissions, submit, postRotation, handled, racing_token, rotateKeys,
      authenticate_known identity_token]
    decide +kernel
  have run : Reach (timelySubmissions threePasswords env user racing) registered w :=
    steps_of_follow _ _ reached
  exact ⟨w, run, of_decide_eq_true seen, links_kept racing_account registered_inOrder run⟩

end Samples

end Atmin.Web
