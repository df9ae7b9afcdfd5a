import Atmin.Access.Footprint

/-!
# Properties of the stored profile

`update_profile`, `update_last_active` and `rotate_keys` write a profile that they have read
before. A property that holds of every profile they read, and that their changes keep, holds
of what they write.
-/

namespace Atmin

open Interaction

section ProfileInvariant

variable {ι σ : Type} {rules : Rules ι σ} {exec : ι → (o : Op) → σ → Res o → σ → Prop} {i : ι}
  {u : UserId} {N : Profile → Prop} {env : Env} {token : Option String} {body : Option Json} {s : σ}

/-- The slot reads only profiles with the property, and breaks no rule by writing such a
profile, its projection, or a rotation record. -/
structure ProfileInvariant (rules : Rules ι σ) (exec : ι → (o : Op) → σ → Res o → σ → Prop) (i : ι)
    (u : UserId) (N : Profile → Prop) : Prop where
  -- Neither the display fields nor the activity stamp matter.
  essential : ∀ p q : Profile, q.handle = p.handle → q.credential = p.credential → N p → N q
  passive : ∀ o : Op, o.passive = true → Unnoticed rules exec i o
  locks : ∀ l : Lock, Unnoticed rules exec i (.acquire l) ∧ Unnoticed rules exec i (.release l)
  records : ∀ rid d, Unnoticed rules exec i (.putObject (keyRotationRecord u.str rid) d)
  reads : Serves rules exec i (.getObject (keyProfile u.str)) (fun _ => True) fun r _ =>
    ∀ d p, r = .ok d → Profile.parse d = some p → N p
  writes : ∀ p : Profile, N p →
    Serves rules exec i (.putObject (keyProfile u.str) p.data) (fun _ => True) fun _ _ => True
  projects : ∀ p d, N p → Unnoticed rules exec i (.putObject (keyHandle p.handle) d)

namespace ProfileInvariant

variable (keeps : ProfileInvariant rules exec i u N)

include keeps

/-- A profile with the property was read. -/
abbrev has (_ : ProfileInvariant rules exec i u N) (p : Profile) : rules.Assertion i := .pure (N p)

theorem write {uid : UserId} (mine : uid = u) (p q : Profile) (handle : q.handle = p.handle)
    (credential : q.credential = p.credential)
    {R : Res (.putObject (keyProfile uid.str) q.data) → σ → Prop} (after : ∀ r t, N q → R r t) :
    Serves rules exec i (.putObject (keyProfile uid.str) q.data) (keeps.has p) R := by
  subst mine
  intro s r t inv known served
  have still := keeps.essential p q handle credential known
  obtain ⟨kept, guar, _⟩ := keeps.writes q still s r t inv trivial served
  exact ⟨kept, guar, after r t still⟩

theorem project {p q : Profile} {d : Data} (handle : q.handle = p.handle) :
    Serves rules exec i (.putObject (keyHandle p.handle) d) (keeps.has q) fun _ => keeps.has q := by
  intro s r t inv known served
  have named := keeps.projects q d known
  rw [handle] at named
  exact named _ s r t inv known served

theorem updateProfile (account : ∀ user, Token.identity env token = some user → user.userId = u) :
    Keeps rules exec i (Atmin.updateProfile env token body) s := by
  refine Meets.updateProfile (.pure True) (fun _ => keeps.has) (fun _ => keeps.has) trivial
    (fun _ _ _ => trivial) (fun o passive => keeps.passive o passive _) (fun user known => ?_)
    (fun user req p known _ => ?_) (fun user p _ _ => ?_) fun _ _ _ _ _ => trivial
  · rw [account user known]
    exact keeps.reads
  · exact keeps.write (account user known) p (req.apply p) rfl (req.credential_apply p)
      fun _ _ still => ⟨fun _ _ => trivial, fun _ => still⟩
  · intro s r t inv known served
    obtain ⟨kept, guar, _⟩ := keeps.project rfl s r t inv known served
    exact ⟨kept, guar, trivial⟩

theorem updateLastActive : Keeps rules exec i (Atmin.updateLastActive env u.str) s := by
  refine Meets.updateLastActive (.pure True) keeps.has trivial (fun _ _ => trivial)
    (fun _ _ _ => trivial) ?_ (fun p => keeps.passive _ rfl _) fun p stamp => ?_
  · exact (keeps.passive _ rfl (.pure True)).and keeps.reads
  · exact keeps.write rfl p { p with lastActive := stamp } rfl rfl fun _ _ _ => trivial

/-- A rotation needs more: the new credential must keep the property. -/
theorem rotateKeys (account : ∀ user, Token.identity env token = some user → user.userId = u)
    (installs : ∀ (x : Rotation env token body) p, x.Accepted p.credential → N p → N (x.req.install p)) :
    Keeps rules exec i (Atmin.rotateKeys env token body) s := by
  have mine (x : Rotation env token body) : x.user.userId = u := account x.user x.known
  have records (x : Rotation env token body) (d : Data) :
      Unnoticed rules exec i (.putObject x.recordKey d) := by
    rw [Rotation.recordKey, Rotation.uid, mine x]
    exact keeps.records _ _
  refine Meets.rotateKeys (fun _ _ => True) (.pure True) (fun _ => .pure True) (fun _ => .pure True)
    (fun _ => keeps.has) (fun x p => keeps.has (x.req.install p)) (fun _ _ => .pure True)
    (fun _ _ => .pure True) ?guard (fun _ _ _ => trivial) (fun _ _ _ _ => trivial)
    (fun _ _ _ => trivial) ?acquires ?looks ?reads (fun _ _ _ _ _ => trivial) ?refuses ?commits
    ?projects ?records ?invalidates ?releases
  case guard =>
    refine (Safe.only (.pure True) (fun o passive => keeps.passive o passive _)
      (authenticate_passive env token false) trivial).weaken fun _ _ h => ⟨h.1, trivial⟩
  case acquires =>
    exact fun x => (keeps.locks _).1.serves (.pure True)
      fun _ _ _ _ _ _ => ⟨fun _ => trivial, fun _ => trivial⟩
  case looks =>
    exact fun x => (keeps.passive _ rfl).serves (.pure True)
      fun _ _ _ _ _ _ => ⟨fun _ _ _ _ => trivial, fun _ => trivial⟩
  case reads =>
    intro x s r t inv known served
    rw [Rotation.uid, mine x] at served
    obtain ⟨kept, guar, read⟩ := keeps.reads s r t inv trivial served
    exact ⟨kept, guar, fun _ => trivial, read⟩
  case refuses => exact fun x p outcome _ => (records x _).serves _ fun _ _ _ _ _ _ => trivial
  case commits =>
    intro x p accepted s r t inv known served
    rw [Rotation.uid, mine x] at served
    have next := installs x p accepted known
    obtain ⟨kept, guar, _⟩ := keeps.writes _ next s r t inv trivial served
    exact ⟨kept, guar, fun _ => next, fun _ _ _ => trivial⟩
  case projects => exact fun x p _ => keeps.project rfl
  case records => exact fun x p => (records x _).serves _ fun _ _ _ _ _ _ => trivial
  case invalidates => exact fun x p => keeps.passive _ rfl _
  case releases => exact fun x r => (keeps.locks _).2 _

end ProfileInvariant

end ProfileInvariant

end Atmin
