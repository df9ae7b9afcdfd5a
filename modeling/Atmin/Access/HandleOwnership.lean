import Atmin.Access.CredentialFixed

/-!
# Whose handle a request may write

No user may write under `handles/`. Three handlers do it all the same, under the handle
that the caller's own profile names: as long as that profile names no handle of somebody
else, the handles of others stay as they are.
-/

namespace Atmin

open Interaction

/-- The handle is another account's: its projection says so, or the profile of that account. -/
def Foreign {ι : Type} (u : UserId) (s : Sys ι) (h : Handle) : Prop :=
  (∃ d p, s.objects.get (keyHandle h.str) = some d ∧ PublicHandleData.parse d = some p ∧
    ∃ v : UserId, v ≠ u ∧ p.userId = v.str) ∨
  ∃ v : UserId, v ≠ u ∧ ∃ p, profileOf v s = some p ∧ p.handle = h.str

/-- The profile names no handle of another account. -/
def NamesOwn {ι : Type} (u : UserId) (s : Sys ι) (p : Profile) : Prop :=
  ∀ h : Handle, p.handle = h.str → ¬ Foreign u s h

/-- Uploads go through URLs that were issued to the account. -/
def UserRequest.Issued (u : UserId) : UserRequest → Prop
  | .upload key _ => authorizeKeyWrite u.str key = true
  | _ => True

/-- What is uploaded over the account's profile names no handle of another account. -/
def UserRequest.UploadsOwn {ι : Type} (u : UserId) (s : Sys ι) : UserRequest → Prop
  | .upload key d => key = keyProfile u.str → ∀ p, Profile.parse d = some p → NamesOwn u s p
  | _ => True

/-- No key that a user may write is a handle. -/
theorem handle_ne_written {u : UserId} {key handle : String} (own : authorizeKeyWrite u.str key = true) :
    key ≠ keyHandle handle := by
  rintro rfl
  simp [authorizeKeyWrite, DATA_PREFIXES, startsWith, keyHandle, USERS_ROOT] at own

section Ownership

variable {ι : Type} (env : Env) (u : UserId) (size : Data → Nat)
  (req : ι → UserRequest) (s0 : Sys ι)

/-- The handles of other accounts are never touched. -/
def HandlesSpared [DecidableEq ι] : Prop :=
  ∀ w, Reach (userRequests size env req) s0 w → ∀ h, Foreign u s0 h →
    w.sys.objects.get (keyHandle h.str) = s0.objects.get (keyHandle h.str)

/-- The handles of others as at the start, and a profile that names none of them. -/
structure Owning (s : Sys ι) : Prop where
  spared : ∀ h, Foreign u s0 h → s.objects.get (keyHandle h.str) = s0.objects.get (keyHandle h.str)
  own : ∀ p, profileOf u s = some p → NamesOwn u s0 p

variable {env u size req s0}

variable {i : ι}

variable (u s0) in
abbrev owningRules : Rules ι (Sys ι) := .ofInvariant (Owning u s0)

variable (u s0) in
/-- What may be written: neither the profile nor a handle of others. -/
def SparesHandle (key : String) : Prop :=
  key ≠ keyProfile u.str ∧ ∀ h, Foreign u s0 h → key ≠ keyHandle h.str

variable (u s0) in
/-- What may be deleted: the profile too. -/
def Removable (key : String) : Prop := ∀ h, Foreign u s0 h → key ≠ keyHandle h.str

theorem sparesHandle_unnoticed {o : Op} (stays : o.Stays (SparesHandle u s0) (Removable u s0)) :
    Unnoticed (owningRules u s0) (UserExec size req) i o := by
  refine .of fun s r t owning served => ⟨⟨fun h foreign => ?_, fun p stored => ?_⟩, trivial, trivial⟩
  · have kept : t.objects.get (keyHandle h.str) = s.objects.get (keyHandle h.str) :=
      stays_get (faulty_of_user served) stays
      (fun harmless => harmless.2 h foreign rfl) (fun removable => removable h foreign rfl)
    rw [kept]
    exact owning.spared h foreign
  · rcases served_get (faulty_of_user served) (keyProfile u.str) with same | ⟨d, put, _⟩ | ⟨_, gone⟩
    · rw [profileOf, same] at stored
      exact owning.own p stored
    · exact absurd rfl (stays.1 _ (by rw [put]; rfl)).1
    · rw [profileOf, gone] at stored
      cases stored

theorem owning_confined :
    Confined (owningRules u s0) (UserExec size req) i (SparesHandle u s0) (Removable u s0) where
  quiet _ stays _ := sparesHandle_unnoticed stays
  guard env token enforceKv s := by
    refine (Safe.only (.pure True) (fun o passive => ?_)
      (authenticate_passive env token enforceKv) trivial).weaken fun _ _ h => h.1
    exact sparesHandle_unnoticed (Op.stays_passive passive) _
  lists pre limit cursor := user_lists (fun o reads =>
    sparesHandle_unnoticed (Op.stays_passive (Op.passive_of_reads reads))) pre limit cursor

/-- Every stored profile names no handle of others, nor does what is written after it. -/
theorem owning_keeps : ProfileInvariant (owningRules u s0) (UserExec size req) i u (NamesOwn u s0) where
  essential p q same _ own h named := own h (same ▸ named)
  passive o passive := sparesHandle_unnoticed (Op.stays_passive passive)
  locks l := ⟨sparesHandle_unnoticed (Op.stays_acquire l), sparesHandle_unnoticed (Op.stays_release l)⟩
  records rid d := sparesHandle_unnoticed (Op.stays_put
    ⟨keyRecord_ne_profile _ _, fun _ _ => (keyHandle_ne_record _ _ _).symm⟩)
  reads := by
    refine (sparesHandle_unnoticed (Op.stays_passive rfl)).serves (.pure True)
      fun s r t owning _ served d p ok parsed => ?_
    obtain ⟨_, found | ⟨_, _, _, fault⟩⟩ := served_getObject (faulty_of_user served)
    · have here := lookup_eq_ok.mp (found.symm.trans ok)
      refine owning.own p ?_
      rw [profileOf, here, Option.bind_some, parsed]
    · rw [ok] at fault
      cases fault
  writes p own s r t owning _ served := by
    refine ⟨?_, trivial, trivial⟩
    have written : t = s.put (keyProfile u.str) p.data ∨ t = s := by
      rcases served_putObject (faulty_of_user served) with ⟨_, new⟩ | ⟨_, either⟩
      · exact .inl new
      · exact either
    rcases written with rfl | rfl
    · refine ⟨fun h foreign => ?_, fun q stored => ?_⟩
      · rw [Sys.put, ObjectMap.get_insert, if_neg (keyHandle_ne_profile _ _)]
        exact owning.spared h foreign
      · rw [profileOf, Sys.put, ObjectMap.get_insert, if_pos rfl, Option.bind_some,
          Profile.parse_data] at stored
        cases stored
        exact own
    · exact owning
  projects p d own := by
    refine sparesHandle_unnoticed (Op.stays_put ⟨keyHandle_ne_profile _ _, fun h foreign same => ?_⟩)
    exact own h (keyHandle_inj same) foreign

theorem delete_owns {token : Option String} {s : Sys ι}
    (account : ∀ user, Token.identity env token = some user → user.userId = u) :
    Keeps (owningRules u s0) (UserExec size req) i (deleteProfile env token) s := by
  have c : Confined (owningRules u s0) (UserExec size req) i _ _ := owning_confined
  refine c.authenticated fun user t known => ?_
  rw [account user known]
  have k : ProfileInvariant (owningRules u s0) (UserExec size req) i u _ := owning_keeps
  refine Meets.read (.pure True) trivial k.reads (fun _ _ _ => trivial) fun bytes t read => ?_
  refine Keeps.orFail fun p parsed => ?_
  have own : NamesOwn u s0 p := read bytes p rfl parsed
  refine Keeps.bind (c.wipePrefixes _ fun key pre owned within h _ same => ?_) fun _ t => ?_
  · -- What is wiped lies under the account's own prefixes.
    have head : pre.toList.head? ≠ some 'h' := by
      simp only [ownedPrefixes, List.mem_cons, List.not_mem_nil, or_false] at owned
      rcases owned with rfl | rfl | rfl | rfl <;>
        simp [prefixUser, prefixInbox, prefixKeys, prefixMedia]
    have nonempty : pre.toList ≠ [] := by
      simp only [ownedPrefixes, List.mem_cons, List.not_mem_nil, or_false] at owned
      rcases owned with rfl | rfl | rfl | rfl <;>
        simp [prefixUser, prefixInbox, prefixKeys, prefixMedia]
    simp only [startsWith, List.isPrefixOf_iff_prefix] at within
    obtain ⟨rest, split⟩ := within
    obtain ⟨c, cs, chars⟩ := List.exists_cons_of_ne_nil nonempty
    rw [same, chars] at split
    rw [chars] at head
    have first := congrArg List.head? split
    simp only [List.cons_append, List.head?_cons] at first head
    rw [first] at head
    simp [keyHandle] at head
  · unfold releaseHandle
    split
    · exact Keeps.ret _
    · refine Keeps.withLock (sparesHandle_unnoticed (Op.stays_acquire _))
        (sparesHandle_unnoticed (Op.stays_release _)) fun t => ?_
      refine Keeps.bind (Keeps.call (c.looks rfl)) fun now t => ?_
      refine Keeps.tryStoreAs (Safe.request (k.has p) own (k.project rfl) ?_)
      exact fun _ _ _ _ _ => trivial

/-- Every request of the account keeps to its own handle. -/
theorem request_owns {r : UserRequest} (account : r.OnAccount env u) (issued : r.Issued u)
    (uploads : r.UploadsOwn u s0) (s : Sys ι) :
    Keeps (owningRules u s0) (UserExec size req) i (r.run env) s := by
  have c : Confined (owningRules u s0) (UserExec size req) i _ _ := owning_confined
  have mine (token : Option String) (same : r.token? = token) :
      ∀ user, Token.identity env token = some user → user.userId = u := by
    subst same
    exact account
  have data (key root : String) (member : root ∈ DATA_PREFIXES)
      (within : startsWith key root = true) : SparesHandle u s0 key := by
    refine ⟨?_, fun h _ same => ?_⟩
    · rw [keyProfile_eq]
      exact data_ne_user member within _ _
    · rw [same] at within
      simp only [DATA_PREFIXES, List.mem_cons, List.not_mem_nil, or_false] at member
      rcases member with rfl | rfl | rfl <;> simp [startsWith, keyHandle] at within
  have device (uid : UserId) (did : String) : SparesHandle u s0 (keyDevice uid.str did) :=
    ⟨device_ne_profile u uid did, fun h _ => (keyHandle_ne_device _ _ _).symm⟩
  cases r with
  | storeList token pre cursor => exact Keeps.bind (c.storeList pre cursor) fun _ _ => Keeps.ret _
  | storeObject token key => exact Keeps.bind (c.storeObject key) fun _ _ => Keeps.ret _
  | storeUsage token => exact Keeps.bind c.storeUsage fun _ _ => Keeps.ret _
  | deleteObject token key =>
    exact c.deleteObject fun user k known _ own h _ => handle_ne_written own
  | storePresign token body => exact c.storePresign body
  | upload key d =>
    by_cases same : key = keyProfile u.str
    · -- An upload over the profile itself names an own handle.
      refine Keeps.tryStore (Safe.request (.pure True) trivial (R := fun _ _ => True) ?_
        fun _ _ _ _ _ => trivial)
      intro s r t owning _ served
      refine ⟨⟨fun h foreign => ?_, fun p stored => ?_⟩, trivial, trivial⟩
      · have kept : t.objects.get (keyHandle h.str) = s.objects.get (keyHandle h.str) :=
          stays_get (faulty_of_user served) (W := (· = key)) (D := fun _ => False) (Op.stays_put rfl)
          (by rw [same]; exact keyHandle_ne_profile _ _) id
        rw [kept]
        exact owning.spared h foreign
      · rcases served_get (faulty_of_user served) (keyProfile u.str) with kept | ⟨d', put, now⟩ | ⟨_, gone⟩
        · rw [profileOf, kept] at stored
          exact owning.own p stored
        · rw [profileOf, now] at stored
          rw [same, Op.puts, if_pos rfl] at put
          cases put
          exact uploads same p stored
        · rw [profileOf, gone] at stored
          cases stored
    · exact Keeps.tryStore (c.asks (Op.stays_put ⟨same, fun h _ => handle_ne_written issued⟩)
        fun _ h => (by cases h))
  | addDevice body =>
    exact Keeps.bind (c.addDevice fun uid did => device uid did.str) fun _ _ => Keeps.ret _
  | storeCompact pages token body =>
    exact Keeps.bind (c.storeCompact data fun key root member within => (data key root member within).2)
      fun _ _ => Keeps.ret _
  | updateProfile token body => exact owning_keeps.updateProfile (mine token rfl)
  | deleteProfile token => exact delete_owns (mine token rfl)
  | deleteDevice token => exact c.deleteDevice fun user _ => (device user.userId _).2
  | revokeDevice token body => exact c.revokeDevice fun user did _ => (device user.userId did).2
  | send token body =>
    exact c.send (fun uid msgId => data _ "inbox/" (by simp [DATA_PREFIXES])
      (inboxLive_data uid msgId)) body
  | rotateKeys token body =>
    -- The credential changes, the handle does not.
    exact Keeps.bind (owning_keeps.rotateKeys (mine token rfl) fun _ _ _ own => own)
      fun _ _ => Keeps.ret _
  | events token =>
    refine c.authenticated fun user t known => ?_
    rw [mine token rfl user known]
    exact owning_keeps.updateLastActive

variable [DecidableEq ι]

theorem handles_spared (own : ∀ p, profileOf u s0 = some p → NamesOwn u s0 p)
    (account : ∀ i, (req i).OnAccount env u) (issued : ∀ i, (req i).Issued u)
    (uploads : ∀ i, (req i).UploadsOwn u s0) : HandlesSpared env u size req s0 := by
  intro w reached
  have contracts : Contracts (owningRules u s0) (userRequests size env req)
      (fun _ _ => True) fun _ _ _ => True :=
    ⟨fun _ => .const True, fun i s _ _ => request_owns (account i) (issued i) (uploads i) s⟩
  have start : Secured (owningRules u s0) (userRequests size env req)
      (fun _ _ => True) (fun _ _ _ => True) (.init s0) :=
    .init ⟨fun _ _ => rfl, own⟩ fun _ => trivial
  exact (start.run contracts reached).1.spared

end Ownership

/-! ### A profile that names somebody else's handle -/

section Taken

open Sample

def bobsHandle : Handle := ⟨"bob", by decide +kernel⟩

theorem bobId_valid : validateUlid "01BBBBBBBBBBBBBBBBBBBBBBBB" = true := by decide +kernel

def bobId : UserId := ⟨"01BBBBBBBBBBBBBBBBBBBBBBBB", bobId_valid⟩

def bobProfile : Profile := { profile with userId := bobId.str, handle := "bob" }

/-- Two accounts, Alice and Bob. -/
def townStore : ObjectMap String Data :=
  (store.insert (keyProfile bobId.str) bobProfile.data).insert (keyHandle "bob")
    (handleProjection bobProfile).data

def town (ι : Type) : Sys ι := { objects := townStore, deviceCache := [keyDevice uid did] }

def usurper : Profile := { profile with handle := "bob" }

/-- Alice has a URL for her profile, uploads one, and changes her display name. -/
def uploadAndRename (p : Profile) : Fin 3 → UserRequest
  | 0 => .storePresign token (some (.obj [("key", .str (keyProfile uid)), ("bytes", .num (.int 300))]))
  | 1 => .upload (keyProfile uid) p.data
  | 2 => .updateProfile token (some rename)

theorem uploadAndRename_account (p : Profile) (i : Fin 3) : (uploadAndRename p i).OnAccount env user := by
  match i with
  | 0 => exact fun other known => token_user known
  | 1 => exact fun other known => nomatch (show (none : Option AuthedUser) = some other from known)
  | 2 => exact fun other known => token_user known

theorem own_profile (uid : String) : authorizeKeyWrite uid (keyProfile uid) = true := by
  have within : startsWith (keyProfile uid) (USERS_ROOT ++ uid ++ "/") = true := by
    rw [keyProfile_eq]
    exact startsWith_append _ _
  rw [authorizeKeyWrite, within, Bool.or_true]

theorem uploadAndRename_issued (p : Profile) (i : Fin 3) : (uploadAndRename p i).Issued user := by
  match i with
  | 0 | 2 => exact trivial
  | 1 => exact own_profile _

theorem uploadAndRename_prog (p : Profile) :
    (userRequests anySize env (uploadAndRename p)).prog = fun i => match i with
      | 0 => (storePresign env token (some (.obj [("key", .str (keyProfile uid)),
          ("bytes", .num (.int 300))]))).run
      | 1 => (writeJson (keyProfile uid) p.data).run
      | 2 => (updateProfile env token (some rename)).run := by
  funext i
  match i with
  | 0 | 1 | 2 => rfl

theorem bob_foreign {ι : Type} : Foreign user (town ι) bobsHandle := by
  refine .inl ⟨(handleProjection bobProfile).data, handleProjection bobProfile, ?_,
    PublicHandleData.parse_data _, bobId, by decide, rfl⟩
  show townStore.get (keyHandle "bob") = _
  rw [townStore, ObjectMap.get_insert, if_pos rfl]

theorem usurpation_observed : ((World.init (town (Fin 3))).follow
    (userRun anySize (uploadAndRename usurper)) (userRequests anySize env (uploadAndRename usurper)).prog
      (List.replicate 6 (0, .ok) ++ List.replicate 2 (1, .ok) ++ List.replicate 6 (2, .ok))).map
        (fun w => ((w.sys.objects.get (keyHandle "bob")).bind PublicHandleData.parse).map
          PublicHandleData.userId) = some (some uid) := by
  rw [uploadAndRename_prog]
  simp only [storePresign, updateProfile, authenticate_known identity_token]
  decide

/-- Bob's handle leads to Alice. -/
theorem handle_usurped : (∀ i, (uploadAndRename usurper i).OnAccount env user ∧
      (uploadAndRename usurper i).Issued user) ∧
    ¬ HandlesSpared env user anySize (uploadAndRename usurper) (town (Fin 3)) := by
  refine ⟨fun i => ⟨uploadAndRename_account _ i, uploadAndRename_issued _ i⟩, fun spared => ?_⟩
  obtain ⟨w, followed, taken⟩ := Option.map_eq_some_iff.mp usurpation_observed
  have kept : w.sys.objects.get (keyHandle "bob") = townStore.get (keyHandle "bob") :=
    spared w (steps_of_follow _ _ followed) bobsHandle bob_foreign
  rw [kept] at taken
  revert taken
  show ((townStore.get (keyHandle "bob")).bind PublicHandleData.parse).map PublicHandleData.userId ≠ _
  rw [townStore, ObjectMap.get_insert, if_pos rfl, Option.bind_some, PublicHandleData.parse_data]
  decide

theorem town_profiles {ι : Type} {v : UserId} {p : Profile} (stored : profileOf v (town ι) = some p) :
    (v = user ∧ p = profile) ∨ (v = bobId ∧ p = bobProfile) := by
  have profiles {a b : UserId} (same : keyProfile a.str = keyProfile b.str) : a = b := by
    rw [keyProfile_eq, keyProfile_eq] at same
    have ids := (string_append_inj same prefixUser_length).1
    simp only [prefixUser, String.append_assoc] at ids
    cases a
    cases b
    cases append_right_inj (append_left_inj ids)
    rfl
  have stored : (townStore.get (keyProfile v.str)).bind Profile.parse = some p := stored
  rw [townStore, ObjectMap.get_insert, if_neg (keyHandle_ne_profile _ _).symm,
    ObjectMap.get_insert] at stored
  split at stored
  next same =>
    rw [Option.bind_some, Profile.parse_data] at stored
    exact .inr ⟨profiles same, (Option.some.inj stored).symm⟩
  next =>
    by_cases mine : v = user
    · subst mine
      rw [show store.get (keyProfile user.str) = some profile.data from store_profile,
        Option.bind_some, Profile.parse_data] at stored
      exact .inl ⟨rfl, (Option.some.inj stored).symm⟩
    · rw [store, ObjectMap.get_insert, if_neg (keyHandle_ne_profile _ _).symm, ObjectMap.get_insert,
        if_neg (show keyProfile v.str ≠ keyDevice uid did from (device_ne_profile v user did).symm),
        ObjectMap.get_insert, if_neg (show keyProfile v.str ≠ keyProfile uid from
          fun same => mine (profiles same))] at stored
      cases stored

/-- The handle that Alice registered is nobody else's. -/
theorem alice_own {ι : Type} : NamesOwn user (town ι) profile := by
  intro h named foreign
  have alice : h.str = "alice" := named.symm
  rcases foreign with ⟨d, p, found, parsed, v, differ, owner⟩ | ⟨v, differ, p, stored, handle⟩
  · have found : townStore.get (keyHandle "alice") = some d := alice ▸ found
    rw [townStore, ObjectMap.get_insert, if_neg (by decide), ObjectMap.get_insert,
      if_neg (keyHandle_ne_profile _ _), store, ObjectMap.get_insert, if_pos rfl] at found
    cases found
    rw [PublicHandleData.parse_data] at parsed
    cases parsed
    apply differ
    cases v
    cases owner
    rfl
  · rcases town_profiles stored with ⟨rfl, _⟩ | ⟨_, rfl⟩
    · exact differ rfl
    · rw [alice] at handle
      exact absurd handle (by decide)

/-- With her own profile uploaded Bob keeps his handle. -/
theorem handle_kept : HandlesSpared env user anySize (uploadAndRename profile) (town (Fin 3)) := by
  refine handles_spared (fun p stored => ?_) (uploadAndRename_account _) (uploadAndRename_issued _)
    fun i => ?_
  · rcases town_profiles stored with ⟨_, rfl⟩ | ⟨wrong, _⟩
    · exact alice_own
    · exact absurd wrong (by decide)
  · match i with
    | 0 | 2 => exact trivial
    | 1 =>
      intro _ p parsed
      rw [Profile.parse_data] at parsed
      cases parsed
      exact alice_own

end Taken

end Atmin
