import Atmin.Interaction.Heard
import Atmin.Inbox.Letters
import Atmin.Sync.Envelope
import Atmin.Web.Outbound

/-!
# No message without its key

The server writes a batch in its order, and a batch is made so that each message rests on a key
share: one before it in the batch, or one that the server has written already, which is what a
recorded share says. Every step of every call keeps this, so the inboxes are in that order too.
-/

namespace Atmin.Web

open Interaction

/-! ### Lists whose elements rest on those before them -/

section Justified

variable {α : Type} {J : List α → α → Prop} {l l' : List α}

/-- Each element is justified by the list before it. -/
def Justified (J : List α → α → Prop) (l : List α) : Prop :=
  ∀ before x after, l = before ++ x :: after → J before x

theorem Justified.nil : Justified J ([] : List α) := by
  intro before x after split
  cases before <;> cases split

theorem justified_of_all (all : ∀ before, ∀ x ∈ l, J before x) : Justified J l :=
  fun before x after split => all before x (by rw [split]; simp)

/-- The second half may use the first. -/
theorem Justified.append (first : Justified J l)
    (last : Justified (fun before x => J (l ++ before) x) l') : Justified J (l ++ l') := by
  intro before x after split
  rcases List.append_eq_append_iff.mp split with ⟨more, rfl, there⟩ | ⟨more, here, there⟩
  · exact last more x after there
  · cases more with
    | nil =>
      rw [List.append_nil] at here
      subst here
      simpa using last [] x after (by simpa using there.symm)
    | cons y more =>
      obtain ⟨rfl, _⟩ := List.cons.inj there
      exact first before x more here

theorem Justified.concat {x : α} (first : Justified J l) (last : J l x) : Justified J (l ++ [x]) := by
  refine first.append fun before y after split => ?_
  cases before with
  | nil =>
    obtain ⟨rfl, _⟩ := List.cons.inj split
    simpa using last
  | cons z before => cases before <;> cases split

end Justified

/-! ### Envelopes in an inbox -/

namespace Envelope

/-- Where the server writes an envelope, and what. -/
def entry (e : Envelope) : String × Data := (keyInboxLive e.toUser e.msgId, .json e.toJson)

theorem toJson_inj {e e' : Envelope} (same : e.toJson = e'.toJson) : e = e' := by
  obtain ⟨to_, from_, device, id, type_, sent, payload⟩ := e
  obtain ⟨to_', from', device', id', type', sent', payload'⟩ := e'
  simpa [toJson] using same

theorem entry_inj {e e' : Envelope} (same : e.entry = e'.entry) : e = e' :=
  toJson_inj (Data.json.inj (Prod.mk.inj same).2)

end Envelope

theorem sendBody_inj {batch batch' : List Envelope} (same : sendBody batch = sendBody batch') :
    batch = batch' := by
  have raws : batch.map Envelope.toJson = batch'.map Envelope.toJson := by simpa [sendBody] using same
  exact List.map_injective_iff.mpr (fun _ _ => Envelope.toJson_inj) raws

/-- A message in the inbox of a user, encrypted with a session at a ratchet index. -/
def MessageOf (crypto : Crypto) (user id : String) (index : Nat) (entry : String × Data) : Prop :=
  ∃ e : Envelope, entry = e.entry ∧ e.toUser = user ∧ e.contentType = "megolm.message" ∧
    ∃ conv text, e.payload = messagePayload conv id (crypto.encrypt id index text)

/-- A key share in the inbox of a user, with the key of a session at a ratchet index. -/
def ShareOf (crypto : Crypto) (user id : String) (index : Nat) (entry : String × Data) : Prop :=
  ∃ e : Envelope, entry = e.entry ∧ e.toUser = user ∧ e.contentType = "megolm.key_share" ∧
    ∃ conv publicKey random encrypted,
      crypto.eciesEncrypt publicKey (crypto.sessionKey id index) random = some encrypted ∧
        e.payload = keySharePayload conv encrypted

/-- The log has a key share that opens what the session encrypts at the index. -/
def KeyBy (crypto : Crypto) (log : List (String × Data)) (user id : String) (index : Nat) : Prop :=
  ∃ j ≤ index, ∃ entry ∈ log, ShareOf crypto user id j entry

/-- If the entry is a message, its key is in the log. -/
def Covered (crypto : Crypto) (log : List (String × Data)) (entry : String × Data) : Prop :=
  ∀ user id index, MessageOf crypto user id index entry → KeyBy crypto log user id index

/-- The batch can be written after the log. -/
def Ready (crypto : Crypto) (log : List (String × Data)) (batch : List Envelope) : Prop :=
  Justified (fun before e => Covered crypto (log ++ before.map Envelope.entry) e.entry) batch

section Order

variable {crypto : Crypto} {log log' : List (String × Data)} {user id : String} {index index' : Nat}
  {entry : String × Data} {batch : List Envelope}

theorem KeyBy.mono (key : KeyBy crypto log user id index) (grown : log ⊆ log')
    (later : index ≤ index') :
    KeyBy crypto log' user id index' := by
  obtain ⟨j, low, share, member, its⟩ := key
  exact ⟨j, low.trans later, share, grown member, its⟩

theorem Covered.mono (covered : Covered crypto log entry) (grown : log ⊆ log') :
    Covered crypto log' entry :=
  fun user id index message => (covered user id index message).mono grown le_rfl

theorem Ready.mono (ready : Ready crypto log batch) (grown : log ⊆ log') : Ready crypto log' batch := by
  intro before e after split
  refine (ready before e after split).mono ?_
  exact List.append_subset.mpr ⟨fun x member => List.mem_append_left _ (grown member),
    List.subset_append_right _ _⟩

end Order


/-! ### The state -/

variable {ι : Type} {device : Device} {s t u : SendState ι} {α β : Type}

/-- The key of the session is in the log or among the shares, for the inbox of a user and for the
own one, at an index that the session has reached. -/
def Backed (device : Device) (recipient id : String) (shares : List Envelope)
    (s : SendState ι) : Prop :=
  ∃ o, s.sessions.get id = some o ∧ ∀ user, user = recipient ∨ user = device.userId →
    KeyBy device.crypto (s.accepted ++ shares.map Envelope.entry) user id o.messageIndex

/-- A request made by a call: its batch can be written now, and was if that is the answer. -/
def TruePost (device : Device) (log : List (String × Data)) (p : Post) : Prop :=
  ∃ batch, p.body = sendBody batch ∧ Ready device.crypto log batch ∧
    (p.reply = some (.ok ()) → ∀ e ∈ batch, e.entry ∈ log)

structure Delivering (device : Device) (s : SendState ι) : Prop where
  lawful : Justified (Covered device.crypto) s.accepted
  posts : ∀ p ∈ s.posts, TruePost device s.accepted p
  shares : ∀ id user, (id, user) ∈ s.keyShares → Backed device user id [] s

/-- What no step takes back. -/
structure Onward (s t : SendState ι) : Prop where
  accepted : s.accepted <+: t.accepted
  bodies : s.posts.map Post.body <+: t.posts.map Post.body
  index : ∀ id o, s.sessions.get id = some o →
    ∃ o', t.sessions.get id = some o' ∧ o.messageIndex ≤ o'.messageIndex

theorem Onward.refl (s : SendState ι) : Onward s s :=
  ⟨List.prefix_rfl, List.prefix_rfl, fun _ o found => ⟨o, found, le_rfl⟩⟩

theorem Onward.trans (first : Onward s t) (last : Onward t u) : Onward s u where
  accepted := first.accepted.trans last.accepted
  bodies := first.bodies.trans last.bodies
  index id o found := by
    obtain ⟨o', found', low⟩ := first.index id o found
    obtain ⟨o'', found'', low'⟩ := last.index id o' found'
    exact ⟨o'', found'', low.trans low'⟩

/-- The body of a request does not change. -/
theorem Onward.posted {n : Nat} {body : Json} (on : Onward s t)
    (here : (s.posts.map Post.body)[n]? = some body) : (t.posts.map Post.body)[n]? = some body := by
  obtain ⟨more, same⟩ := on.bodies
  rw [← same, List.getElem?_append_left (List.getElem?_eq_some_iff.mp here).1]
  exact here

theorem TruePost.mono {log log' : List (String × Data)} {p : Post} (true_ : TruePost device log p)
    (grown : log ⊆ log') : TruePost device log' p := by
  obtain ⟨batch, body, ready, written⟩ := true_
  exact ⟨batch, body, ready.mono grown, fun ok e member => grown (written ok e member)⟩

theorem Backed.onward {recipient id : String} {shares : List Envelope}
    (backed : Backed device recipient id shares s)
    (on : Onward s t) : Backed device recipient id shares t := by
  obtain ⟨o, found, keys⟩ := backed
  obtain ⟨o', found', later⟩ := on.index id o found
  refine ⟨o', found', fun user party => (keys user party).mono ?_ later⟩
  exact List.append_subset.mpr ⟨fun x member => List.mem_append_left _ (on.accepted.subset member),
    List.subset_append_right _ _⟩

/-- A step that writes nothing into an inbox, and changes neither requests nor records. -/
structure Tame (s t : SendState ι) : Prop where
  accepted : t.accepted = s.accepted
  posts : (t.posts.map fun p => (p.body, p.reply)) = s.posts.map fun p => (p.body, p.reply)
  index : ∀ id o, s.sessions.get id = some o →
    ∃ o', t.sessions.get id = some o' ∧ o.messageIndex ≤ o'.messageIndex
  shares : t.keyShares ⊆ s.keyShares

theorem Tame.onward (tame : Tame s t) : Onward s t where
  accepted := ⟨[], by rw [List.append_nil, tame.accepted]⟩
  bodies := by
    have same := congrArg (List.map Prod.fst) tame.posts
    simp only [List.map_map, Function.comp_def] at same
    exact ⟨[], by rw [List.append_nil, same]⟩
  index := tame.index

theorem Tame.delivering (tame : Tame s t) (inv : Delivering device s) : Delivering device t where
  lawful := by rw [tame.accepted]; exact inv.lawful
  posts p member := by
    have seen := List.mem_map_of_mem (f := fun p : Post => (p.body, p.reply)) member
    rw [tame.posts] at seen
    obtain ⟨p', member', same⟩ := List.mem_map.mp seen
    obtain ⟨batch, body, ready, written⟩ := inv.posts p' member'
    obtain ⟨bodies, replies⟩ := Prod.mk.inj same
    rw [tame.accepted]
    exact ⟨batch, bodies ▸ body, ready, fun ok => written (replies.trans ok)⟩
  shares id user member := (inv.shares id user (tame.shares member)).onward tame.onward

theorem Tame.of_web {web : State} : Tame s { s with web } :=
  ⟨rfl, rfl, fun _ o found => ⟨o, found, le_rfl⟩, List.Subset.refl _⟩

/-- A session is added, or goes on. -/
theorem Tame.putSession {id : String} {o : Outbound}
    (on : ∀ o', s.sessions.get id = some o' → o'.messageIndex ≤ o.messageIndex) :
    Tame s (s.putSession id o) where
  accepted := rfl
  posts := rfl
  index id' o' found := by
    rw [SendState.putSession, ObjectMap.get_insert]
    split
    next same => subst same; exact ⟨o, rfl, on o' found⟩
    next => exact ⟨o', found, le_rfl⟩
  shares := List.Subset.refl _

theorem live_ok {id : String} {o : Outbound} (live : s.live id = .ok o) :
    s.sessions.get id = some o := by
  unfold SendState.live at live
  split at live
  next o' found =>
    split at live
    next => cases live
    next => cases live; exact found
  next => cases live

/-! ### Calm steps -/

/-- The steps that record nothing about deliveries. -/
def SendAct.calm : SendAct → Bool
  | .post .. | .respond .. | .recordKeyShare .. | .serve (some _) (.putObject ..) => false
  | _ => true

theorem Tame.refl (s : SendState ι) : Tame s s :=
  ⟨rfl, rfl, fun _ o found => ⟨o, found, le_rfl⟩, List.Subset.refl _⟩

theorem transaction_tame {γ : Type} {c : SendChoice} {result : γ} {r : Except Thrown γ}
    {u v : SendState ι} (done : transaction c result s t = some (r, v)) (here : Tame u s)
    (there : Tame u t) : Tame u v := by
  cases c <;> cases done
  · exact there
  · exact here

theorem calm_step {crypto : Crypto} {i : ι} {page : Nat} {act : SendAct} {c : SendChoice}
    {r : SendReply act} (calm : act.calm = true)
      (done : performSend crypto i page act c s = some (r, t)) :
    Tame s t := by
  have same (id : String) (o : Outbound) (found : s.sessions.get id = some o) :
      ∃ o', s.sessions.get id = some o' ∧ o.messageIndex ≤ o'.messageIndex := ⟨o, found, le_rfl⟩
  unfold performSend at done
  split at done
  -- a step on inbound sessions
  next act c =>
    split at done
    next => cases done
    next =>
      obtain ⟨⟨r', web⟩, _, made⟩ := Option.map_eq_some_iff.mp done
      cases made
      exact .of_web
  -- the variables of a session manager
  next m => split at done <;> cases done <;> exact ⟨rfl, rfl, same, List.Subset.refl _⟩
  next m id =>
    split at done
    next => cases done
    next fresh =>
      cases done
      have put : Tame s (s.putSession id {}) := .putSession fun o' found => by simp [found] at fresh
      exact ⟨rfl, rfl, put.index, List.Subset.refl _⟩
  next => cases done; exact .refl s
  next m =>
    split at done
    next id =>
      split at done
      next o live =>
        cases done
        refine .putSession fun o' found => ?_
        cases (live_ok live).symm.trans found
        exact le_rfl
      next => cases done; exact .refl s
    next => cases done; exact .refl s
  next => cases done; exact ⟨rfl, rfl, same, List.Subset.refl _⟩
  next m =>
    split at done
    next o live =>
      cases done
      obtain ⟨id, current, live⟩ := Option.map_eq_some_iff.mp live
      have put : Tame s (s.putSession ((s.outbound m).getD "") { o with freed := true }) := by
        refine .putSession fun o' found => ?_
        rw [current, Option.getD_some] at found
        cases (live_ok live).symm.trans found
        exact le_rfl
      exact ⟨rfl, rfl, put.index, List.Subset.refl _⟩
    next => cases done; exact ⟨rfl, rfl, same, List.Subset.refl _⟩
  -- the ratchet of a session
  next => cases done; exact .refl s
  next => cases done; exact .refl s
  next => cases done; exact .refl s
  next id text =>
    split at done
    next o live =>
      cases done
      refine .putSession fun o' found => ?_
      cases (live_ok live).symm.trans found
      exact Nat.le_succ _
    next => cases done; exact .refl s
  -- IndexedDB
  next => exact transaction_tame done (.refl s) (.refl s)
  next id _ =>
    split at done
    next => exact transaction_tame done (.refl s) ⟨rfl, rfl, same, List.Subset.refl _⟩
    next => cases done; exact .refl s
  next => exact transaction_tame done (.refl s) ⟨rfl, rfl, same, List.Subset.refl _⟩
  next => exact transaction_tame done (.refl s) (.refl s)
  next => cases calm
  next => exact transaction_tame done (.refl s) ⟨rfl, rfl, same, List.filter_subset_self _⟩
  next => split at done <;> cases done <;> exact .refl s
  next => cases done; exact .refl s
  next => cases done; exact .refl s
  next => cases done; exact .refl s
  -- requests
  next => cases calm
  next =>
    obtain ⟨_, _, made⟩ := Option.map_eq_some_iff.mp done
    cases made
    exact .refl s
  next => cases done; exact .refl s
  next => cases done; exact .refl s
  next n =>
    split at done
    next p here =>
      split at done
      next => cases done
      next =>
        cases done
        obtain ⟨bound, its⟩ := List.getElem?_eq_some_iff.mp here
        have seen := @List.set_getElem_self _ (s.posts.map fun p => (p.body, p.reply)) n
          (by simpa using bound)
        refine ⟨rfl, ?_, same, List.Subset.refl _⟩
        rw [SendState.putPost, List.map_set]
        simpa only [List.getElem_map, its] using seen
    next => cases done
  next post o c =>
    obtain ⟨⟨r', server⟩, _, made⟩ := Option.map_eq_some_iff.mp done
    cases made
    refine ⟨?_, rfl, same, List.Subset.refl _⟩
    cases post with
    | none => exact List.append_nil _
    | some n =>
      cases o with
      | putObject => cases calm
      | _ => exact List.append_nil _
  next => cases calm
  next => cases done; exact .of_web
  next => cases done

/-! ### Rules -/

/-- Every task keeps the invariant, and may rely on the others to take nothing back. -/
def sendRules (ι : Type) (device : Device) : Rules ι (SendState ι) where
  inv := Delivering device
  rely _ := Onward
  guar _ := Onward
  compat _ _ _ _ _ _ _ h := h

abbrev Sending.Assertion (ι : Type) (device : Device) (i : ι) := (sendRules ι device).Assertion i

/-- The steps a task can take. -/
abbrev TakingSend (device : Device) (page : ι → Nat) :
    ι → (act : SendAct) → SendState ι → SendReply act → SendState ι → Prop :=
  execOf fun i => takesSend device.crypto i (page i)

section Rules

variable {page : ι → Nat} {i : ι}

theorem takingSend_performs {act : SendAct} {r : SendReply act}
    (taken : TakingSend device page i act s r t) :
    ∃ c, performSend device.crypto i (page i) act c s = some (r, t) := by
  obtain ⟨c, done⟩ := taken
  exact ⟨c, (Option.ite_none_right_eq_some.mp done).2⟩

theorem calm_unnoticed {act : SendAct} (calm : act.calm = true) :
    Unnoticed (sendRules ι device) (TakingSend device page) i act := by
  refine .of fun s r t inv taken => ?_
  obtain ⟨c, done⟩ := takingSend_performs taken
  have tame := calm_step calm done
  exact ⟨tame.delivering inv, tame.onward, tame.onward⟩

/-- A step keeps what was known, beside what it establishes. -/
theorem serves_onward {act : SendAct} {R : SendReply act → SendState ι → Prop}
    (A : Sending.Assertion ι device i)
    (step : ∀ s c r t, Delivering device s → A s →
      performSend device.crypto i (page i) act c s = some (r, t) →
      Delivering device t ∧ Onward s t ∧ R r t) :
    Serves (sendRules ι device) (TakingSend device page) i act A fun r t => R r t ∧ A t := by
  intro s r t inv holds taken
  obtain ⟨c, done⟩ := takingSend_performs taken
  obtain ⟨kept, on, after⟩ := step s c r t inv holds done
  exact ⟨kept, on, after, A.stable s t inv kept on holds⟩

/-- A calm step keeps the invariant by itself. -/
theorem calm_serves {act : SendAct} {R : SendReply act → SendState ι → Prop} (calm : act.calm = true)
    (A : Sending.Assertion ι device i)
    (after : ∀ s c r t, Delivering device s → A s → Onward s t →
      performSend device.crypto i (page i) act c s = some (r, t) → R r t) :
    Serves (sendRules ι device) (TakingSend device page) i act A fun r t => R r t ∧ A t := by
  refine serves_onward A fun s c r t inv holds done => ?_
  have tame := calm_step calm done
  exact ⟨tame.delivering inv, tame.onward, after s c r t inv holds tame.onward done⟩

variable (device i)

/-- A property of the log that longer logs have too. -/
def logged (P : List (String × Data) → Prop) (mono : ∀ log log', log ⊆ log' → P log → P log') :
    Sending.Assertion ι device i :=
  ⟨fun s => P s.accepted, fun _ _ _ _ on => mono _ _ on.accepted.subset⟩

def sendable (batch : List Envelope) : Sending.Assertion ι device i :=
  logged device i (Ready device.crypto · batch) fun _ _ grown here => here.mono grown

def written_ (batch : List Envelope) : Sending.Assertion ι device i :=
  logged device i (fun log => ∀ e ∈ batch, e.entry ∈ log) fun _ _ grown here e member =>
    grown (here e member)

def backed (recipient id : String) (shares : List Envelope) : Sending.Assertion ι device i :=
  ⟨Backed device recipient id shares, fun _ _ _ _ on here => here.onward on⟩

/-- A session that has come to the index. -/
def reached (id : String) (index : Nat) : Sending.Assertion ι device i :=
  ⟨fun s => ∃ o, s.sessions.get id = some o ∧ index ≤ o.messageIndex,
    fun _ _ _ _ on ⟨o, found, low⟩ => by
    obtain ⟨o', found', later⟩ := on.index id o found
    exact ⟨o', found', low.trans later⟩⟩

def posted (n : Nat) (body : Json) : Sending.Assertion ι device i :=
  ⟨fun s => (s.posts.map Post.body)[n]? = some body, fun _ _ _ _ on here => on.posted here⟩

end Rules

/-! ### Calls -/

/-- What a reply says, wherever it comes from. -/
def TellsSend (crypto : Crypto) : (act : SendAct) → SendReply act → Prop
  | .eciesEncrypt publicKey text, r => ∀ encrypted, r = .ok encrypted →
      ∃ random, crypto.eciesEncrypt publicKey text random = some encrypted
  | _, _ => True

theorem tellsSend_step {crypto : Crypto} {i : ι} {page : Nat} {act : SendAct} {c : SendChoice}
    {r : SendReply act} (done : performSend crypto i page act c s = some (r, t)) :
      TellsSend crypto act r := by
  cases act with
  | eciesEncrypt publicKey text =>
    intro encrypted same
    subst same
    cases c with
    | draw random =>
      simp only [performSend] at done
      split at done
      next found => cases done; exact ⟨random, found⟩
      next => cases done
    | _ => cases done
  | _ => trivial

/-- The call takes calm steps only, and what it returns satisfies `P`. -/
abbrev Calmly (crypto : Crypto) (P : α → Prop) (p : Sending α) : Prop :=
  Prog.Given (fun act => act.calm = true) (TellsSend crypto) (fun r => ∀ a, r = .ok a → P a) p.run

theorem Sending.run_bind (p : Sending α) (f : α → Sending β) :
    (p >>= f).run = Prog.bind p.run fun
      | .ok a => (f a).run
      | .error e => .ret (.error e) := by
  show Prog.bind p.run (ExceptT.bindCont f) = _
  congr 1
  funext r
  cases r <;> rfl

namespace Calmly

variable {crypto : Crypto} {P : α → Prop} {Q : β → Prop}

theorem bind {p : Sending α} {f : α → Sending β} (first : Calmly crypto P p)
    (rest : ∀ a, P a → Calmly crypto Q (f a)) : Calmly crypto Q (p >>= f) := by
  unfold Calmly
  rw [Sending.run_bind]
  refine Prog.Given.bind first fun r holds => ?_
  cases r with
  | ok a => exact rest a (holds a rfl)
  | error e => exact .ret fun _ wrong => by cases wrong

theorem pure {a : α} (holds : P a) : Calmly crypto P (pure a : Sending α) :=
  .ret fun _ same => Except.ok.inj same ▸ holds

theorem throw (e : Thrown) : Calmly crypto P (throw e : Sending α) :=
  .ret fun _ wrong => by cases wrong

theorem slice {act : SendAct} (calm : act.calm = true) :
    Calmly crypto (fun _ => True) (Web.slice (does act)) :=
  .op calm fun _ _ => .ret fun _ _ => trivial

theorem any {p : Prog SendAct SendReply (Except Thrown α)}
    (only : Prog.Only (fun act => act.calm = true) (fun _ => True) p) :
    Calmly crypto (fun _ => True) (wait p) :=
  (Prog.Only.given only).weaken fun _ _ _ _ => trivial

end Calmly

section Manager

variable (device : Device) (manager : Nat) (out : Outgoing)

theorem page_calm (p : Prog Act Reply α) : Prog.Only (fun act => SendAct.calm act = true)
    (fun _ => True)
    (p.expand fun act => (Prog.request (SendAct.page act) : Prog SendAct SendReply (Reply act))) := by
  induction p with
  | ret a => exact .ret trivial
  | op act k ih => exact .op rfl fun r => ih r

theorem addSelf_calm (sessionKey : String) :
    Calmly device.crypto (fun _ => True) (addSelf device sessionKey) :=
  .any ((page_calm _).bind fun _ _ => .ret trivial)

theorem currentSession_calm : Calmly device.crypto (fun _ => True) (currentSession manager) := by
  refine .bind (.slice rfl) fun session _ => ?_
  cases session with
  | none => exact .throw _
  | some session => exact .pure trivial

theorem persistOutbound_calm (session : String) :
    Calmly device.crypto (fun _ => True) (persistOutbound session) :=
  .any (.op rfl fun _ => .ret trivial)

theorem announce_calm : Calmly device.crypto (fun _ => True) (announce device manager) := by
  refine .bind (currentSession_calm device manager) fun session _ => ?_
  refine .bind (.any (.op rfl fun _ => .ret trivial)) fun key _ => ?_
  refine .bind (addSelf_calm device key) fun _ _ => ?_
  refine .bind (currentSession_calm device manager) fun session _ => ?_
  refine .bind (.any (.op rfl fun _ => .ret trivial)) fun key _ => ?_
  exact .op rfl fun _ _ => .ret fun _ _ => trivial

theorem retire_calm (stored : Option StoredOutbound) :
    Calmly device.crypto (fun _ => True) (retire device stored) := by
  cases stored with
  | none => exact .pure trivial
  | some stored =>
    refine .bind (addSelf_calm device _) fun _ _ => ?_
    refine .bind (.any (.op rfl fun _ => .ret trivial)) fun _ _ => ?_
    exact .any (.op rfl fun _ => .ret trivial)

theorem openOutbound_calm : Calmly device.crypto (fun _ => True) (openOutbound device manager) := by
  refine .bind (.any (.op rfl fun _ => .ret trivial)) fun stored _ => ?_
  refine .bind (retire_calm device stored) fun _ _ => ?_
  refine .bind (.slice rfl) fun session _ => ?_
  refine .bind (persistOutbound_calm device session) fun _ _ => ?_
  refine .bind (announce_calm device manager) fun _ _ => ?_
  exact .bind (currentSession_calm device manager) fun _ _ => .pure trivial

theorem rotate_calm : Calmly device.crypto (fun _ => True) (rotate device manager) := by
  refine .bind (.any (.op rfl fun _ => .ret trivial)) fun old _ => ?_
  have cleared : Calmly device.crypto (fun _ => True) (clearFreed old) := by
    cases old with
    | none => exact .pure trivial
    | some old => exact .any (.op rfl fun _ => .ret trivial)
  refine .bind cleared fun _ _ => ?_
  refine .bind (.slice rfl) fun _ _ => ?_
  refine .bind (.any (.op rfl fun _ => .ret trivial)) fun _ _ => ?_
  refine .bind (currentSession_calm device manager) fun session _ => ?_
  refine .bind (persistOutbound_calm device session) fun _ _ => ?_
  exact .bind (announce_calm device manager) fun _ _ => currentSession_calm device manager

theorem createSessionManager_calm :
    Calmly device.crypto (fun _ => True) (createSessionManager device manager) := by
  refine .bind (.any (.op rfl fun _ => .ret trivial)) fun stored _ => ?_
  cases stored with
  | none => exact .pure trivial
  | some stored =>
    refine .bind (retire_calm device (some stored)) fun _ _ => ?_
    refine .bind (.slice rfl) fun session _ => ?_
    refine .bind (persistOutbound_calm device session) fun _ _ => ?_
    exact .bind (announce_calm device manager) fun _ _ => .op rfl fun _ _ => .ret fun _ _ => trivial

theorem sessionFor_calm : Calmly device.crypto (fun _ => True) (sessionFor device manager) := by
  have opened : Calmly device.crypto (fun _ => True) (getOutbound device manager) := by
    refine .bind (.slice rfl) fun cached _ => ?_
    cases cached with
    | none => exact openOutbound_calm device manager
    | some cached => exact .pure trivial
  refine .bind opened fun current _ => ?_
  refine .bind (.any (.op rfl fun _ => .ret trivial)) fun index _ => ?_
  split
  next => exact .bind (rotate_calm device manager) fun _ _ => .pure trivial
  next => exact .pure trivial

end Manager

/-! ### The envelopes of a call -/

section Batch

variable (device : Device) (out : Outgoing)

/-- The inboxes that a call writes into. -/
def Party (user : String) : Prop := user = out.toUserId ∨ user = device.userId

/-- Key shares of the session at the index, for each inbox. -/
def SharesAt (id : String) (index : Nat) (shares : List Envelope) : Prop :=
  (∀ e ∈ shares, e.contentType = "megolm.key_share") ∧
    ∀ user, Party device out user → ∃ e ∈ shares, ShareOf device.crypto user id index e.entry

/-- The message, for some of these inboxes. -/
def CopiesOf (id ciphertext : String) (copies : List Envelope) : Prop :=
  ∀ e ∈ copies, Party device out e.toUser ∧
    e.payload = messagePayload (conversationId device.userId out.toUserId) id ciphertext

variable {device out}

theorem share_of {id key toUser publicKey random msgId sentAt : String} {index : Nat}
    {encrypted : Sealed}
    (its : key = device.crypto.sessionKey id index)
    (made : device.crypto.eciesEncrypt publicKey key random = some encrypted) :
    ShareOf device.crypto toUser id index (device.keyShare out toUser msgId sentAt encrypted).entry :=
  ⟨_, rfl, rfl, rfl, _, publicKey, random, encrypted, its ▸ made, rfl⟩

/-- The first part of a key share's making: the encryption. -/
theorem eciesEncrypt_calm {crypto : Crypto} (publicKey text : String) :
    Calmly crypto
      (fun encrypted => ∃ random, crypto.eciesEncrypt publicKey text random = some encrypted)
      (wait (does (.eciesEncrypt publicKey text))) :=
  .op rfl fun _ told => .ret told

theorem messages_calm (session ciphertext : String) :
    Calmly device.crypto (CopiesOf device out session ciphertext)
      (messages device out session ciphertext) := by
  have first (msgId sentAt : String) : CopiesOf device out session ciphertext
      [device.message out out.toUserId msgId sentAt session ciphertext] := by
    intro e member
    rw [List.mem_singleton.mp member]
    exact ⟨.inl rfl, rfl⟩
  refine .bind (.slice rfl) fun msgId _ => ?_
  refine .bind (.slice rfl) fun sentAt _ => ?_
  refine .bind (.any (.op rfl fun _ => .ret trivial)) fun _ _ => ?_
  split
  next => exact .pure (first msgId sentAt)
  next =>
    refine .bind (.slice rfl) fun sentAt' _ => .pure ?_
    intro e member
    rcases List.mem_cons.mp member with rfl | own
    · exact ⟨.inl rfl, rfl⟩
    · rw [List.mem_singleton.mp own]
      exact ⟨.inr rfl, rfl⟩

/-- The shares come first in a batch, and the message rests on them or on the log. -/
theorem ready_batch {log : List (String × Data)} {id ciphertext text : String} {index : Nat}
    {shares copies : List Envelope}
    (law : ∀ id index index' text text', device.crypto.encrypt id index text =
      device.crypto.encrypt id index' text' → index = index')
    (only : ∀ e ∈ shares, e.contentType = "megolm.key_share")
    (keys : ∀ user, Party device out user →
      KeyBy device.crypto (log ++ shares.map Envelope.entry) user id index)
    (made : ciphertext = device.crypto.encrypt id index text)
    (messages : CopiesOf device out id ciphertext copies) :
    Ready device.crypto log (shares ++ copies) := by
  refine Justified.append (justified_of_all fun before e member => ?_)
    (justified_of_all fun before e member => ?_)
  · -- A share is no message.
    rintro user id index ⟨e', same, _, type_, _⟩
    cases Envelope.entry_inj same
    exact absurd ((only e member).symm.trans type_) (by decide)
  · rintro user id' index' ⟨e', same, rfl, _, conv, text', payload⟩
    cases Envelope.entry_inj same
    obtain ⟨party, own⟩ := messages e member
    obtain ⟨rfl, rfl, same⟩ : conv = conversationId device.userId out.toUserId ∧ id' = id ∧
        device.crypto.encrypt id' index' text' = ciphertext := by
      simpa [messagePayload] using payload.symm.trans own
    -- The ciphertext tells the index.
    obtain rfl := law _ _ _ _ _ (same.trans made)
    refine (keys _ party).mono ?_ le_rfl
    rw [List.map_append, ← List.append_assoc]
    exact List.subset_append_left _ _

end Batch

/-! ### One call -/

section Call

variable {page : ι → Nat} {i : ι}

variable (device page i) in
/-- From `s` on the call keeps the rules, and what it returns satisfies `Q`. -/
def Sends (Q : α → Sending.Assertion ι device i) (p : Sending α) (s : SendState ι) : Prop :=
  Safe (sendRules ι device) (TakingSend device page) i (fun r t => ∀ a, r = .ok a → Q a t) p.run s

namespace Sends

variable {P : α → Sending.Assertion ι device i} {Q : β → Sending.Assertion ι device i}

theorem bind {p : Sending α} {f : α → Sending β} (first : Sends device page i P p s)
    (rest : ∀ a t, P a t → Sends device page i Q (f a) t) : Sends device page i Q (p >>= f) s := by
  unfold Sends
  rw [Sending.run_bind]
  refine Safe.bind first fun r t after => ?_
  cases r with
  | ok a => exact rest a t (after a rfl)
  | error e => exact fun _ _ _ wrong => by cases wrong

theorem pure {a : α} (holds : P a s) : Sends device page i P (pure a) s := by
  intro t moved b same
  cases same
  exact (P a).stable.others moved holds

theorem throw (e : Thrown) : Sends device page i P (throw e) s :=
  fun _ _ _ wrong => by cases wrong

theorem weaken {P' : α → Sending.Assertion ι device i} {p : Sending α}
    (sends : Sends device page i P p s)
    (weaker : ∀ a t, P a t → P' a t) : Sends device page i P' p s :=
  Safe.weaken sends fun _ _ after a same => weaker a _ (after a same)

/-- Calm steps take nothing back that was known. -/
theorem calmly {R : α → Prop} {p : Sending α} (A : Sending.Assertion ι device i)
    (calm : Calmly device.crypto R p) (holds : A s) :
    Sends device page i (fun a => (Rules.Assertion.pure (R a)).and A) p s := by
  have given : Prog.Given _ _ _ p.run := calm
  unfold Sends
  generalize p.run = prog at given ⊢
  induction given generalizing s with
  | ret done => exact fun t moved a same => ⟨done a same, A.stable.others moved holds⟩
  | op allowed _ ih =>
    exact Safe.request A holds (calm_serves allowed A fun _ _ _ _ _ _ _ done => tellsSend_step done)
      fun r t after => ih r after.1 after.2

/-- After the last step. -/
theorem last {r : Except Thrown α} (holds : ∀ a, r = .ok a → P a s) :
    Safe (sendRules ι device) (TakingSend device page) i (fun r t => ∀ a, r = .ok a → P a t)
      (.ret r) s :=
  fun _ moved a same => (P a).stable.others moved (holds a same)

end Sends

/-! ### Steps that matter -/

variable (out : Outgoing) {session : String}

theorem transaction_ok {γ : Type} {c : SendChoice} {result a : γ} {u v : SendState ι}
    (done : transaction c result u t = some (.ok a, v)) : a = result ∧ v = t := by
  cases c <;> cases done
  exact ⟨rfl, rfl⟩

/-- A share on record was accepted. -/
theorem hasKeyShare_serves (recipient : String) (A : Sending.Assertion ι device i) :
    Serves (sendRules ι device) (TakingSend device page) i (.hasKeyShare session recipient) A
      fun r t => (r = .ok true → Backed device recipient session [] t) ∧ A t := by
  refine calm_serves rfl A fun s c r t inv _ _ done same => ?_
  subst same
  obtain ⟨member, rfl⟩ := transaction_ok done
  exact inv.shares _ _ (of_decide_eq_true member.symm)

/-- The key is that of an index the session has come to. -/
theorem sessionKey_serves (A : Sending.Assertion ι device i) :
    Serves (sendRules ι device) (TakingSend device page) i (.sessionKey session) A fun r t =>
      (∀ key, r = .ok key → ∃ index, key = device.crypto.sessionKey session index ∧
        reached device i session index t) ∧ A t := by
  refine calm_serves rfl A fun s c r t _ _ _ done key same => ?_
  cases c with
  | ok =>
    subst same
    obtain ⟨made, rfl⟩ := Prod.mk.inj (Option.some.inj done)
    cases live : s.live session with
    | error e => rw [live] at made; cases made
    | ok o =>
      rw [live] at made
      cases made
      exact ⟨o.messageIndex, rfl, o, live_ok live, le_rfl⟩
  | _ => cases done

/-- A message is encrypted at an index for which the keys are there. -/
theorem encrypt_serves {recipient text : String} {shares : List Envelope} :
    Serves (sendRules ι device) (TakingSend device page) i (.encrypt session text)
      (backed device i recipient session shares) fun r t =>
        (∀ ciphertext, r = .ok ciphertext → ∃ index,
          ciphertext = device.crypto.encrypt session index text ∧
          ∀ user, user = recipient ∨ user = device.userId →
            KeyBy device.crypto (t.accepted ++ shares.map Envelope.entry) user session index) ∧
          backed device i recipient session shares t := by
  refine calm_serves rfl _ fun s c r t _ here _ done ciphertext same => ?_
  cases c with
  | ok =>
    subst same
    simp only [performSend] at done
    split at done
    next o live =>
      cases done
      obtain ⟨o', found, keys⟩ := here
      cases found.symm.trans (live_ok live)
      exact ⟨o.messageIndex, rfl, keys⟩
    next => cases done
  | _ => cases done

/-- A batch that is ready is posted. -/
theorem request_serves {token : String} {batch : List Envelope} (A : Sending.Assertion ι device i) :
    Serves (sendRules ι device) (TakingSend device page) i (.post token (sendBody batch))
      ((sendable device i batch).and A) fun n t => posted device i n (sendBody batch) t ∧
        ((sendable device i batch).and A) t := by
  refine serves_onward _ fun s c n t inv here done => ?_
  cases c with
  | ok =>
    cases done
    refine ⟨⟨inv.lawful, fun p member => ?_, inv.shares⟩, ⟨List.prefix_rfl, ?_, fun _ o found =>
      ⟨o, found, le_rfl⟩⟩, ?_⟩
    · rcases List.mem_append.mp member with old | new
      · exact inv.posts p old
      · rw [List.mem_singleton.mp new]
        exact ⟨batch, rfl, here.1, fun wrong => by cases wrong⟩
    · rw [List.map_append]
      exact List.prefix_append _ _
    · show (List.map Post.body (s.posts ++ [_]))[s.posts.length]? = _
      simp
  | _ => cases done

/-- A batch is written when that is the answer. -/
theorem response_serves {n : Nat} {batch : List Envelope} (A : Sending.Assertion ι device i) :
    Serves (sendRules ι device) (TakingSend device page) i (.response n)
      ((posted device i n (sendBody batch)).and A) fun r t =>
        (r = .answered (.ok ()) → written_ device i batch t) ∧
          ((posted device i n (sendBody batch)).and A) t := by
  refine calm_serves rfl _ fun s c r t inv here _ done same => ?_
  subst same
  cases c with
  | ok =>
    obtain ⟨reply, found, made⟩ := Option.map_eq_some_iff.mp done
    cases made
    obtain ⟨p, at_, replied⟩ := Option.bind_eq_some_iff.mp found
    obtain ⟨batch', body, _, all⟩ := inv.posts p (List.mem_of_getElem? at_)
    have its : (s.posts.map Post.body)[n]? = some (sendBody batch) := here.1
    rw [List.getElem?_map, at_, Option.map_some] at its
    cases sendBody_inj (body.symm.trans (Option.some.inj its))
    exact all replied
  | _ => cases done

/-- Who has the key is recorded. -/
theorem recordKeyShare_serves {recipient : String} :
    Serves (sendRules ι device) (TakingSend device page) i (.recordKeyShare session recipient)
      (backed device i recipient session []) fun _ t => True ∧
        backed device i recipient session [] t := by
  refine serves_onward _ fun s c r t inv here done => ?_
  cases c with
  | ok =>
    cases done
    refine ⟨⟨inv.lawful, inv.posts, fun id user member => ?_⟩,
      ⟨List.prefix_rfl, List.prefix_rfl, fun _ o found => ⟨o, found, le_rfl⟩⟩, trivial⟩
    rcases List.mem_cons.mp member with new | old
    · cases new
      exact here
    · exact inv.shares id user old
  | fail e =>
    cases done
    exact ⟨inv, (Tame.refl s).onward, trivial⟩
  | _ => cases done

/-! ### From the session to the record -/

/-- Where no share is needed, one is on record. -/
def known (device : Device) (i : ι) (recipient id : String)
    (share : Bool) : Sending.Assertion ι device i :=
  ⟨fun t => share = false → Backed device recipient id [] t,
    .imp (backed device i recipient id []).stable⟩

theorem needsShare_sends (isNew : Bool) :
    Sends device page i (known device i out.toUserId session) (needsShare out session isNew) s := by
  unfold needsShare
  split
  next => exact .pure fun wrong => by cases wrong
  next =>
    refine Sends.bind (.calmly (.pure True) (.any (.op rfl fun _ => .ret trivial)) trivial)
      fun _ t _ => ?_
    have asks : Sends device page i (fun shared => known device i out.toUserId session !shared)
        (wait (does (.hasKeyShare session out.toUserId))) t := by
      refine Safe.request (.pure True) trivial (hasKeyShare_serves out.toUserId _) fun r u after => ?_
      refine Sends.last fun shared same unshared => after.1 ?_
      rw [same]
      simpa using unshared
    exact asks.bind fun shared u knows => .pure knows

theorem sessionKey_sends : Sends device page i (fun key =>
    ⟨fun t => ∃ index, key = device.crypto.sessionKey session index ∧ reached device i session index t,
      fun s t inv kept on here => by
        obtain ⟨index, its, at_⟩ := here
        exact ⟨index, its, (reached device i session index).stable s t inv kept on at_⟩⟩)
    (wait (does (.sessionKey session))) s :=
  Safe.request (.pure True) trivial (sessionKey_serves _) fun _ _ after => Sends.last after.1

/-- With the shares of a key that the session has come to, its messages can be sent. -/
theorem keyShares_sends : Sends device page i (fun shares =>
      (Rules.Assertion.pure (∀ e ∈ shares, e.contentType = "megolm.key_share")).and
        (backed device i out.toUserId session shares)) (keyShares device out session) s := by
  unfold keyShares
  refine sessionKey_sends.bind fun key t after => ?_
  obtain ⟨index, its, at_⟩ := after
  refine (Sends.calmly (R := SharesAt device out session index)
    (reached device i session index) ?_ at_).weaken
    fun shares u made => ?_
  · refine .bind (.slice rfl) fun msgId _ => ?_
    refine .bind (eciesEncrypt_calm _ _) fun encrypted sealed_ => ?_
    obtain ⟨random, sealed_⟩ := sealed_
    refine .bind (.slice rfl) fun sentAt _ => ?_
    dsimp only
    split
    next self =>
      refine .pure ⟨fun e member => by rw [List.mem_singleton.mp member]; rfl, fun user party => ?_⟩
      have same : user = out.toUserId := party.elim id fun own => own.trans self.symm
      exact ⟨_, List.mem_singleton.mpr rfl, same ▸ share_of its sealed_⟩
    next =>
      refine .bind (eciesEncrypt_calm _ _) fun encrypted' sealed' => ?_
      obtain ⟨random', sealed'⟩ := sealed'
      refine .bind (.slice rfl) fun msgId' _ => ?_
      refine .bind (.slice rfl) fun sentAt' _ => .pure ⟨fun e member => ?_, fun user party => ?_⟩
      · rcases List.mem_cons.mp member with rfl | own
        · rfl
        · rw [List.mem_singleton.mp own]
          rfl
      · rcases party with rfl | rfl
        · exact ⟨_, List.mem_cons_self, share_of its sealed_⟩
        · exact ⟨_, List.mem_cons_of_mem _ (List.mem_singleton.mpr rfl), share_of its sealed'⟩
  · obtain ⟨⟨only, shared⟩, o, found, low⟩ := made
    refine ⟨only, o, found, fun user party => ?_⟩
    obtain ⟨e, member, share⟩ := shared user party
    exact ⟨index, low, e.entry, List.mem_append_right _ (List.mem_map_of_mem member), share⟩

variable (device i) in
/-- A batch that can be written, and what it says of the session once it is. -/
def prepared (recipient id : String) (batch : List Envelope) : Sending.Assertion ι device i :=
  ⟨fun s => ∃ shares, shares ⊆ batch ∧ Backed device recipient id shares s ∧
      Ready device.crypto s.accepted batch, fun s t inv kept on here => by
    obtain ⟨shares, part, keys, here⟩ := here
    exact ⟨shares, part, keys.onward on, here.mono on.accepted.subset⟩⟩

variable (law : ∀ id index index' text text', device.crypto.encrypt id index text =
  device.crypto.encrypt id index' text' → index = index')

include law in
theorem batchFor_sends {share : Bool} (knows : known device i out.toUserId session share s) :
    Sends device page i (prepared device i out.toUserId session)
      (batchFor device out session share) s := by
  have shares : Sends device page i (fun shares =>
      (Rules.Assertion.pure (∀ e ∈ shares, e.contentType = "megolm.key_share")).and
        (backed device i out.toUserId session shares))
      (sharesFor device out session share) s := by
    cases share with
    | true => exact keyShares_sends out
    | false => exact .pure ⟨fun e member => (List.not_mem_nil member).elim, knows rfl⟩
  refine shares.bind fun shares t made => ?_
  obtain ⟨only, keys⟩ := made
  have encrypts : Sends device page i (fun ciphertext =>
      ⟨fun t => (∃ index, ciphertext = device.crypto.encrypt session index out.payload ∧
          ∀ user, Party device out user →
            KeyBy device.crypto (t.accepted ++ shares.map Envelope.entry) user session index) ∧
          Backed device out.toUserId session shares t, fun s t _ _ on here => by
        obtain ⟨⟨index, made, covered⟩, keys⟩ := here
        refine ⟨⟨index, made, fun user party => (covered user party).mono ?_ le_rfl⟩, keys.onward on⟩
        exact List.append_subset.mpr
          ⟨fun x member => List.mem_append_left _ (on.accepted.subset member),
          List.subset_append_right _ _⟩⟩) (wait (does (.encrypt session out.payload))) t :=
    Safe.request _ keys encrypt_serves fun r u after => Sends.last fun ciphertext same =>
      ⟨after.1 ciphertext same, after.2⟩
  refine encrypts.bind fun ciphertext u after => ?_
  refine (Sends.calmly _ (messages_calm session ciphertext) after).bind fun copies v after => ?_
  obtain ⟨its, ⟨index, made, covered⟩, keys⟩ := after
  exact .pure ⟨shares, List.subset_append_left _ _, keys, ready_batch law only covered made its⟩

/-- A batch that was answered was written, with what is known beside. -/
theorem sendBatch_sends {token : String} {batch : List Envelope} (A : Sending.Assertion ι device i)
    (attempts : Nat) (can : sendable device i batch s) (holds : A s) :
    Sends device page i (fun _ => (written_ device i batch).and A)
      (sendBatch token batch attempts) s := by
  induction attempts generalizing s with
  | zero => exact .throw _
  | succ attempts ih =>
    have posts : Sends device page i
        (fun n => (posted device i n (sendBody batch)).and ((sendable device i batch).and A))
        (slice (does (.post token (sendBody batch)))) s :=
      Safe.request ((sendable device i batch).and A) ⟨can, holds⟩ (request_serves A) fun n t after =>
        Sends.last fun _ same => by
        cases same
        exact after
    refine posts.bind fun n t after => ?_
    have hears : Sends device page i (fun r =>
        ⟨fun t => (r = .answered (.ok ()) → written_ device i batch t) ∧
          ((sendable device i batch).and A) t,
          (Rules.Stable.imp (written_ device i batch).stable).and ((sendable device i batch).and A).stable⟩)
        (slice (does (.response n))) t :=
      Safe.request _ after (response_serves ((sendable device i batch).and A)) fun r u after =>
        Sends.last fun _ same => by
          cases same
          exact ⟨after.1, after.2.2⟩
    refine hears.bind fun r u after => ?_
    obtain ⟨done, can, holds⟩ := after
    rcases r with (e | _) | _ | _
    · dsimp only
      split
      next => exact .throw _
      next => exact ih can holds
    · exact .pure ⟨done rfl, holds⟩
    · exact .throw _
    · exact ih can holds

include law in
/-- A call keeps the rules, however it ends. -/
theorem sendInnerPayload_sends (manager : Nat) :
    Sends device page i (fun _ => .pure True) (sendInnerPayload device manager out) s := by
  refine (Sends.calmly (.pure True) (sessionFor_calm device manager) trivial).bind fun current t _ => ?_
  obtain ⟨session, isNew⟩ := current
  refine (needsShare_sends out isNew).bind fun share u knows => ?_
  refine (batchFor_sends out law knows).bind fun batch v made => ?_
  refine (Sends.calmly _ (persistOutbound_calm device session) made).bind fun _ w after => ?_
  have made := after.2
  have can : sendable device i batch w := made.choose_spec.2.2
  refine (sendBatch_sends (prepared device i out.toUserId session batch) _ can made).bind
    fun _ x after => ?_
  obtain ⟨all, shares, part, ⟨o, found, keys⟩, _⟩ := after
  cases share with
  | false => exact .pure trivial
  | true =>
    -- The shares were in the batch, so they are in the log now.
    have logged : Backed device out.toUserId session [] x := by
      refine ⟨o, found, fun user party =>
        (keys user party).mono (List.append_subset.mpr ⟨?_, ?_⟩) le_rfl⟩
      · exact List.subset_append_left _ _
      · intro entry member
        obtain ⟨e, own, rfl⟩ := List.mem_map.mp member
        exact List.mem_append_left _ (all e (part own))
    refine (Sends.calmly (backed device i out.toUserId session [])
      (.any (.op rfl fun _ => .ret trivial))
      logged).bind fun _ y after => ?_
    exact Safe.request _ after.2 recordKeyShare_serves fun _ _ _ => Sends.last fun _ _ => trivial

end Call

/-! ### The server -/

section Server

variable {page : ι → Nat} {i : ι} {n : Nat} {batch : List Envelope} {env : Env}

/-- The requests of a handler for one of the posts. -/
abbrev HandlingPost (device : Device) (page : ι → Nat) (n : Nat) :
    ι → (o : Op) → SendState ι → Res o → SendState ι → Prop :=
  fun i o => TakingSend device page i (.serve (some n) o)

theorem Safe.handlesPost {γ : Type} {Q : γ → SendState ι → Prop} {p : Eff γ}
    (safe : Safe (sendRules ι device) (HandlingPost device page n) i Q p s) :
    Safe (sendRules ι device) (TakingSend device page) i Q
      (p.expand fun o => (Prog.request (SendAct.serve (some n) o) :
        Prog SendAct SendReply (Res o))) s := by
  induction p generalizing s with
  | ret a => exact safe
  | op o k ih =>
    intro t moved inv r v served
    obtain ⟨kept, own, rest⟩ := safe t moved inv r v served
    exact ⟨kept, own, ih r rest⟩

theorem passive_serves {o : Op} (passive : o.passive = true) (A : Sending.Assertion ι device i) :
    Serves (sendRules ι device) (HandlingPost device page n) i o A fun _ => A := by
  have calm : (SendAct.serve (some n) o).calm = true := by
    cases o with
    | putObject => cases passive
    | _ => rfl
  have quiet : Unnoticed (sendRules ι device) (TakingSend device page) i (.serve (some n) o) :=
    calm_unnoticed calm
  exact quiet A

theorem header_fromJson (e : Envelope) :
    EnvelopeHeader.fromJson e.toJson = some ⟨e.toUser, e.fromUser, e.fromDevice, e.msgId⟩ := rfl

/-- An entry whose key is in the log is accepted. -/
theorem accept_step {entry : String × Data} {server : Sys ι} (inv : Delivering device s)
    (covered : Covered device.crypto s.accepted entry) :
    Delivering device { s with server, accepted := s.accepted ++ [entry] } ∧
      Onward s { s with server, accepted := s.accepted ++ [entry] } := by
  have on : Onward s { s with server, accepted := s.accepted ++ [entry] } :=
    ⟨List.prefix_append _ _, List.prefix_rfl, fun _ o found => ⟨o, found, le_rfl⟩⟩
  exact ⟨⟨inv.lawful.concat covered,
    fun p member => (inv.posts p member).mono (List.subset_append_left _ _),
    fun id user member => (inv.shares id user member).onward on⟩, on⟩

/-- The next envelope of a batch is written, when those before it were. -/
theorem put_serves {before after : List Envelope} {e : Envelope}
    (whole : batch = before ++ e :: after) :
    Serves (sendRules ι device) (HandlingPost device page n) i
      (.putObject (keyInboxLive e.toUser e.msgId) (.json e.toJson))
      ((sendable device i batch).and (written_ device i before)) fun r t =>
        (r = .ok () → written_ device i (before ++ [e]) t) ∧
          ((sendable device i batch).and (written_ device i before)) t := by
  intro s r t inv here taken
  obtain ⟨c, done⟩ := takingSend_performs taken
  have covered : Covered device.crypto s.accepted e.entry := by
    refine (here.1 before e after whole).mono (List.append_subset.mpr ⟨List.Subset.refl _, ?_⟩)
    intro entry member
    obtain ⟨e', own, rfl⟩ := List.mem_map.mp member
    exact here.2 e' own
  -- The put takes place, whatever is answered, or it does not.
  have outcome : (t = { s with server := t.server, accepted := s.accepted ++ [e.entry] }) ∨
      r ≠ .ok () ∧ t = { s with server := t.server } := by
    cases c with
    | store c =>
      obtain ⟨⟨r', server⟩, ran, made⟩ := Option.map_eq_some_iff.mp done
      cases made
      cases c with
      | ok => exact .inl rfl
      | fail err applied =>
        cases applied with
        | true => exact .inl rfl
        | false =>
          cases ran
          exact .inr ⟨by simp, by simp [written]⟩
      | _ => cases ran
    | _ => cases done
  rcases outcome with same | ⟨failed, same⟩
  · obtain ⟨kept, on⟩ := @accept_step ι device s e.entry t.server inv covered
    rw [← same] at kept on
    refine ⟨kept, on, fun _ e' member => ?_, (Rules.Assertion.stable _) s t inv kept on here⟩
    rw [same]
    rcases List.mem_append.mp member with old | new
    · exact List.mem_append_left _ (here.2 e' old)
    · rw [List.mem_singleton.mp new]
      exact List.mem_append_right _ (List.mem_singleton.mpr rfl)
  · have tame : Tame s { s with server := t.server } :=
      ⟨rfl, rfl, fun _ o found => ⟨o, found, le_rfl⟩, List.Subset.refl _⟩
    rw [← same] at tame
    exact ⟨tame.delivering inv, tame.onward, fun ok => absurd ok failed,
      (Rules.Assertion.stable _) s t inv (tame.delivering inv) tame.onward here⟩

/-- What is known when the handler answers that all is well. -/
def onceOk {γ : Type} (A : Sending.Assertion ι device i)
    (r : Except ApiError γ) : Sending.Assertion ι device i :=
  ⟨fun t => ∀ a, r = .ok a → A t, .all fun _ => .imp A.stable⟩

/-- A batch is written from the front. -/
theorem deliver_writes {user : AuthedUser} {before rest : List Envelope}
    (whole : batch = before ++ rest)
    (here : ((sendable device i batch).and (written_ device i before)) s) :
    Meets (sendRules ι device) (HandlingPost device page n) (onceOk (written_ device i batch))
      (deliver user (rest.map Envelope.toJson)) s := by
  induction rest generalizing before s with
  | nil =>
    rw [List.append_nil] at whole
    subst whole
    exact Meets.pure fun _ _ => here.2
  | cons e rest ih =>
    have refused {γ : Type} (err : ApiError) (t : SendState ι) :
        onceOk (written_ device i batch) (.error err : Except ApiError γ) t :=
          fun _ wrong => by cases wrong
    refine Meets.orFail (fun _ => refused _ s) fun header its => ?_
    cases (header_fromJson e).symm.trans its
    refine Meets.checked (fun _ => refused _ s) fun _ => ?_
    refine Meets.write _ here (put_serves whole) (fun err t _ => refused _ t) fun t after => ?_
    have next : batch = (before ++ [e]) ++ rest := by rw [whole, List.append_assoc]; rfl
    refine Meets.bind (ih next ⟨after.2.1, after.1 rfl⟩)
      (fun err t _ => refused _ t) fun uids u all => ?_
    exact Meets.pure fun _ _ => all _ rfl

theorem notifyAll_serves {uids : List String} (A : Sending.Assertion ι device i) (here : A s) :
    Meets (sendRules ι device) (HandlingPost device page n) (onceOk A) (notifyAll uids) s :=
  (Safe.only A (fun _ passive => passive_serves passive A) (notifyAll_passive uids) here).weaken
    fun _ _ after _ _ => after.2

theorem sendEnvelopes_body : sendEnvelopes (sendBody batch) = some (batch.map Envelope.toJson) := rfl

/-- What is answered with success was written. -/
theorem send_writes {token : String} (can : sendable device i batch s) :
    Meets (sendRules ι device) (HandlingPost device page n) (onceOk (written_ device i batch))
      (Atmin.send env (some token) (some (sendBody batch))) s := by
  have refused {γ : Type} (err : ApiError) (t : SendState ι) :
      onceOk (written_ device i batch) (.error err : Except ApiError γ) t :=
        fun _ wrong => by cases wrong
  unfold Atmin.send
  refine Meets.authenticated (sendable device i batch) (fun o passive => passive_serves passive _) can
    (fun err t _ => refused _ t) fun user t _ can => ?_
  refine Meets.parsed (fun _ => refused _ t) fun raws read => ?_
  cases sendEnvelopes_body.symm.trans read
  have start : batch = [] ++ batch := rfl
  refine Meets.bind (deliver_writes start ⟨can, fun e member => (List.not_mem_nil member).elim⟩)
    (fun err u _ => refused _ u) fun uids u all => ?_
  exact notifyAll_serves _ (all _ rfl)

/-- The server takes up a request whose batch is ready. -/
theorem receive_serves : Serves (sendRules ι device) (TakingSend device page) i .receive (fun _ => True)
    fun r t => ∃ batch, r.2.body = sendBody batch ∧
      ((sendable device i batch).and (posted device i r.1 (sendBody batch))) t := by
  intro s r t inv _ taken
  obtain ⟨c, done⟩ := takingSend_performs taken
  have tame := calm_step rfl done
  refine ⟨tame.delivering inv, tame.onward, ?_⟩
  cases c with
  | pick n =>
    simp only [performSend] at done
    split at done
    next p here =>
      split at done
      next => cases done
      next =>
        cases done
        obtain ⟨batch, body, can, _⟩ := inv.posts p (List.mem_of_getElem? here)
        have its : (s.posts.map Post.body)[n]? = some (sendBody batch) := by
          rw [List.getElem?_map, here, Option.map_some, body]
        exact ⟨batch, body, can,
          (posted device i n (sendBody batch)).stable s _ inv (tame.delivering inv)
          tame.onward its⟩
    next => cases done
  | _ => cases done

/-- The answer goes to the request whose batch it is about. -/
theorem respond_serves {reply : Except ApiError Unit} :
    Serves (sendRules ι device) (TakingSend device page) i (.respond n reply)
      ((onceOk (written_ device i batch) reply).and
        ((sendable device i batch).and (posted device i n (sendBody batch)))) fun _ _ => True := by
  intro s r t inv here taken
  obtain ⟨c, done⟩ := takingSend_performs taken
  obtain ⟨all, can, its⟩ := here
  cases c with
  | ok =>
    obtain ⟨p, found, made⟩ := Option.map_eq_some_iff.mp done
    cases made
    have body : p.body = sendBody batch := by
      have its : (s.posts.map Post.body)[n]? = some (sendBody batch) := its
      rw [List.getElem?_map, found, Option.map_some] at its
      exact Option.some.inj its
    obtain ⟨bound, at_⟩ := List.getElem?_eq_some_iff.mp found
    refine ⟨⟨inv.lawful, fun p' member => ?_, inv.shares⟩, ⟨List.prefix_rfl, ?_, fun _ o found =>
      ⟨o, found, le_rfl⟩⟩, trivial⟩
    · rcases List.mem_or_eq_of_mem_set member with old | rfl
      · exact inv.posts p' old
      · exact ⟨batch, body, can, fun ok => all () (Option.some.inj ok)⟩
    · have same := @List.set_getElem_self _ (s.posts.map Post.body) n (by simpa using bound)
      rw [List.getElem_map, at_] at same
      exact ⟨[], by rw [List.append_nil, SendState.putPost, List.map_set, same]⟩
  | _ => cases done

/-- A request of a call, from its arrival to the answer. -/
theorem handlePost_safe : Safe (sendRules ι device) (TakingSend device page) i (fun _ _ => True)
    (handlePost env) s := by
  refine Safe.request (.pure True) trivial receive_serves fun r t after => ?_
  obtain ⟨n, p⟩ := r
  obtain ⟨batch, body, can, its⟩ := after
  have handled : Safe (sendRules ι device) (TakingSend device page) i
      (fun r u => onceOk (written_ device i batch) r u ∧ Onward t u)
      ((Atmin.send env (some p.token) (some (sendBody batch))).run.expand fun o =>
        (Prog.request (SendAct.serve (some n) o) : Prog SendAct SendReply (Res o))) t :=
    (Safe.handlesPost (send_writes can)).relates Onward.refl (fun _ _ _ => Onward.trans)
      (fun _ _ on => on) fun _ _ on => on
  rw [← body] at handled
  refine handled.bind fun reply u after => ?_
  obtain ⟨all, on⟩ := after
  exact Safe.request ((onceOk (written_ device i batch) reply).and
      ((sendable device i batch).and (posted device i n (sendBody batch))))
    ⟨all, can.mono on.accepted.subset, on.posted its⟩ respond_serves fun _ _ _ _ _ => trivial

end Server

/-! ### Every run -/

section Runs

variable {env : Env} {tasks : SendTasks ι} {page : ι → Nat} {i : ι}

/-- A program of calm steps does no harm. -/
theorem calm_safe {p : Prog SendAct SendReply Unit}
    (only : Prog.Only (fun act => act.calm = true) (fun _ => True) p) :
    Safe (sendRules ι device) (TakingSend device page) i (fun _ _ => True) p s :=
  (Safe.only (.pure True) (fun _ calm => calm_unnoticed calm _) only trivial).weaken fun _ _ _ =>
    trivial

/-- How a call ends is no matter. -/
theorem Sends.ends {p : Sending Unit} (sends : Sends device page i (fun _ => .pure True) p s) :
    Safe (sendRules ι device) (TakingSend device page) i (fun _ _ => True)
      (p.run.bind fun _ => .ret ()) s :=
  Safe.bind sends fun _ _ _ _ _ => trivial

theorem sender_contracts (law : ∀ id index index' text text', device.crypto.encrypt id index text =
      device.crypto.encrypt id index' text' → index = index') :
    Contracts (sendRules ι device) (sender env device tasks) (fun _ _ => True) fun _ _ _ => True where
  stable _ _ _ _ _ _ _ := trivial
  arrives i s _ _ := by
    show Safe _ (TakingSend device tasks.page) i _ ((tasks.task i).prog env device) s
    cases tasks.task i with
    | start manager => exact (Sends.calmly (.pure True)
      (createSessionManager_calm device manager) trivial
        |>.weaken fun _ _ _ => trivial).ends
    | send manager out => exact (sendInnerPayload_sends out law manager).ends
    | page task => exact calm_safe (page_calm task)
    | destroy manager => exact calm_safe (.op rfl fun _ => .ret trivial)
    | reload => exact calm_safe (.op rfl fun _ => .ret trivial)
    | handle => exact handlePost_safe
    | request handler =>
      refine calm_safe ?_
      simp only [SendTask.prog]
      induction handler with
      | ret a => exact .ret trivial
      | op o k ih => exact .op rfl fun r => ih r

/-- In every inbox the key share of a session comes before each message that it opens, whatever calls
run side by side, however far a batch gets, and whenever the page is reloaded. -/
theorem message_after_key [DecidableEq ι]
    (law : ∀ id index index' text text', device.crypto.encrypt id index text =
      device.crypto.encrypt id index' text' → index = index') {web : State} {server : Sys ι}
    {w : World ι SendAct SendReply Unit (SendState ι)}
    (run : Reach (sender env device tasks) { web, server } w) {before after : List (String × Data)}
    {entry : String × Data} (accepted : w.sys.accepted = before ++ entry :: after) {user id : String}
    {index : Nat} (message : MessageOf device.crypto user id index entry) :
    ∃ j ≤ index, ∃ share ∈ before, ShareOf device.crypto user id j share := by
  have start : Delivering device ({ web, server } : SendState ι) :=
    { lawful := .nil
      posts := fun _ member => by cases member
      shares := fun _ _ member => by cases member }
  have secured := (Secured.init start fun _ => trivial).run (sender_contracts law) run
  exact secured.1.lawful before entry after accepted user id index message

end Runs

/-! ### A sample -/

section Samples

open Demo

/-- Ciphertexts that show their index. -/
def countingCrypto : Crypto :=
  { crypto with encrypt := fun id index text =>
      String.ofList (id.toList ++ (List.replicate index 'i' ++ ':' :: text.toList)) }

theorem countingCrypto_index {id : String} {index index' : Nat} {text text' : String}
    (same : countingCrypto.encrypt id index text = countingCrypto.encrypt id index' text') :
    index = index' := by
  have tails := List.append_cancel_left (String.ofList_inj.mp same)
  clear same
  induction index generalizing index' with
  | zero =>
    cases index' with
    | zero => rfl
    | succ _ => cases tails
  | succ index ih =>
    cases index' with
    | zero => cases tails
    | succ index' => exact congrArg Nat.succ (ih (List.cons.inj tails).2)

def phone : Device := ⟨Demo.user.str, Demo.device.str, countingCrypto⟩

/-- A first note to another account, and the server that takes it up. -/
def noteToBob : SendTasks Bool where
  task
    | true => .send 0 ⟨Sample.token.getD "", bob.str, "", "", "note"⟩
    | false => .handle
  page _ := 0

/-- The call up to its request, and the whole handling of it. -/
def noteDelivered : List (Bool × SendChoice) :=
  ([.ok, .ok, .ok, .draw "s", .ok, .ok, .ok, .page .ok, .page .ok, .page .ok, .page .ok, .ok, .ok,
      .ok, .ok, .ok, .ok, .draw "k1", .draw "", .draw "t", .draw "", .draw "k2", .draw "t", .ok,
      .draw "m", .draw "t",
      .ok, .draw "t", .ok, .ok].map fun c => (true, c)) ++
    [.ok, .pick 0, .store .ok, .store .ok, .store .ok, .store .ok, .store .ok, .store .ok, .store .ok,
      .store .ok, .store .ok, .store .ok, .ok].map fun c => (false, c)

def isMessage (recipient id ciphertext : String) : String × Data → Bool
  | (key, .json (.obj [("v", .num (.int 1)), ("to_user", .str toUser), ("from_user", .str _),
      ("from_device", .str _), ("msg_id", .str msgId), ("content_type", .str type_),
      ("sent_at", .str _), ("payload", .obj [("conversation_id", .str _),
        ("session_id", .str session), ("ciphertext", .str text)])])) =>
    decide (key = keyInboxLive toUser msgId ∧ toUser = recipient ∧ type_ = "megolm.message" ∧
      session = id ∧
      text = ciphertext)
  | _ => false

theorem of_isMessage {recipient id text : String} {index : Nat} {entry : String × Data}
    (checked : isMessage recipient id (countingCrypto.encrypt id index text) entry = true) :
    MessageOf countingCrypto recipient id index entry := by
  unfold isMessage at checked
  split at checked
  next toUser fromUser fromDevice msgId type_ sentAt conv session ciphertext =>
    obtain ⟨rfl, rfl, rfl, rfl, rfl⟩ := of_decide_eq_true checked
    exact ⟨⟨toUser, fromUser, fromDevice, msgId, _, sentAt, _⟩, rfl, rfl, rfl, conv, text, rfl⟩
  next => cases checked

/-- The first message of a session is in Bob's inbox, behind its key. -/
theorem note_after_key : ∃ w before entry after,
    Reach (sender Sample.env phone noteToBob) { web := {}, server := Sample.sys Bool } w ∧
      w.sys.accepted = before ++ entry :: after ∧ MessageOf phone.crypto bob.str "s" 0 entry ∧
        ∃ j ≤ 0, ∃ share ∈ before, ShareOf phone.crypto bob.str "s" j share := by
  obtain ⟨w, reached, seen⟩ : ∃ w, World.follow (fun i => takesSend phone.crypto i (noteToBob.page i))
      (sender Sample.env phone noteToBob).prog noteDelivered
      (.init { web := {}, server := Sample.sys Bool }) = some w ∧
        w.sys.accepted.any (isMessage bob.str "s" (countingCrypto.encrypt "s" 0 "note")) = true := by
    refine (Option.any_eq_true _ _).mp ?_
    decide +kernel
  have run : Reach (sender Sample.env phone noteToBob) { web := {}, server := Sample.sys Bool } w :=
    steps_of_follow _ _ reached
  obtain ⟨entry, member, checked⟩ := List.any_eq_true.mp seen
  obtain ⟨before, after, split⟩ := List.append_of_mem member
  have message : MessageOf phone.crypto bob.str "s" 0 entry := of_isMessage checked
  exact ⟨w, before, entry, after, run, split, message,
    message_after_key (fun _ _ _ _ _ => countingCrypto_index) run split message⟩

end Samples

end Atmin.Web
