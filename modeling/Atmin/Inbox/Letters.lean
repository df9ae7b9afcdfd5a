import Atmin.Inbox.Outcome
import Atmin.Server.Contracts
import Atmin.Server.Sample
import Mathlib.Data.List.Induction

/-!
# Accepted deliveries

What a sequence of accepted `send` requests leaves in the store: the last envelope written
under each key, in the order of the requests.
-/

namespace Atmin

open Interaction

/-- An envelope with its header, and the account that sent it. -/
structure Letter where
  sender : UserId
  header : EnvelopeHeader
  raw : Json

def Letter.key (l : Letter) : String := keyInboxLive l.header.toUser l.header.msgId

/-- A `send` request: its token and its body. -/
abbrev SendCall := Option String × Option Json

def lettersFrom (sender : UserId) (envelopes : List Json) : List Letter :=
  envelopes.filterMap fun raw => (EnvelopeHeader.fromJson raw).map fun header => ⟨sender, header, raw⟩

/-- The envelopes of a request, if it is accepted. -/
def SendCall.letters (env : Env) (call : SendCall) : List Letter :=
  ((Token.identity env call.1).map fun user =>
    lettersFrom user.userId ((call.2.bind sendEnvelopes).getD [])).getD []

def postAll (letters : List Letter) (store : Store) : Store :=
  letters.foldl (fun store l => store.insert l.key (.json l.raw)) store

/-- The last envelope written under a key. -/
def lastUnder (letters : List Letter) (key : String) : Option Letter :=
  letters.reverse.find? fun l => decide (l.key = key)

/-- The requests are served one after the other, and all are answered with success. -/
inductive SentAll {ι : Type} (env : Env) (i : ι) : List SendCall → Sys ι → Sys ι → Prop
  | nil (s : Sys ι) : SentAll env i [] s s
  | cons {call : SendCall} {rest : List SendCall} {s t u : Sys ι} :
      Runs (Faulty i) (send env call.1 call.2).run s (.ok ()) t → SentAll env i rest t u →
      SentAll env i (call :: rest) s u

section Letters

variable {ι : Type} {env : Env} {i : ι} {s t : Sys ι}

theorem postAll_append (first second : List Letter) (store : Store) :
    postAll (first ++ second) store = postAll second (postAll first store) :=
  List.foldl_append

theorem postAll_get (letters : List Letter) (store : Store) (key : String) :
    (postAll letters store).get key =
      ((lastUnder letters key).map fun l => Data.json l.raw).or (store.get key) := by
  induction letters using List.reverseRec with
  | nil => rfl
  | append_singleton front l ih =>
    rw [postAll_append, postAll, List.foldl_cons, List.foldl_nil, ObjectMap.get_insert, ih]
    by_cases same : key = l.key
    · simp [lastUnder, same]
    · simp [lastUnder, same, Ne.symm same]

theorem lastUnder_mem {letters : List Letter} {key : String} {l : Letter}
    (last : lastUnder letters key = some l) : l ∈ letters ∧ l.key = key := by
  refine ⟨List.mem_reverse.mp (List.mem_of_find?_eq_some last), ?_⟩
  simpa using List.find?_some last

/-- Letters are written under the inboxes only. -/
theorem postAll_other {letters : List Letter} {store : Store} {key : String}
    (other : key.toList.head? ≠ some 'i') : (postAll letters store).get key = store.get key := by
  rw [postAll_get]
  cases last : lastUnder letters key with
  | none => rfl
  | some l =>
    rw [← (lastUnder_mem last).2] at other
    exact absurd (by simp [Letter.key, keyInboxLive]) other

/-- Requests that write nothing. -/
theorem passive_objects {α : Type} {P : α → Prop} {p : Eff α} (passive : Passive P p) (store : Store)
    (here : s.objects = store) :
    Interaction.Ends (Faulty i) p s fun a t => P a ∧ t.objects = store := by
  refine Interaction.Ends.keeping passive (fun o s r t reads served kept => ?_) here
  obtain ⟨_, _, _, _, _, rfl⟩ := served_passive served reads
  exact kept

theorem notifyAll_passive (uids : List String) : Passive (fun _ => True) (notifyAll uids).run := by
  induction uids with
  | nil => exact .ret trivial
  | cons uid rest ih =>
    simp only [notifyAll, run_bind, run_call, ask_bind, Prog.op_bind, Prog.ret_bind]
    exact .op rfl fun _ => ih

theorem deliver_writes (user : AuthedUser) (envelopes : List Json) :
    Interaction.Ends (Faulty i) (deliver user envelopes).run s fun r t => ∀ uids, r = .ok uids →
      t.objects = postAll (lettersFrom user.userId envelopes) s.objects ∧
      ∀ l ∈ lettersFrom user.userId envelopes, l.header.fromUser = user.userId.str := by
  induction envelopes generalizing s with
  | nil => exact .ret fun _ _ => ⟨rfl, fun _ member => nomatch member⟩
  | cons raw rest ih =>
    unfold deliver
    refine Ends.orFail (fun _ _ wrong => nomatch wrong) fun header read => ?_
    refine Ends.checked (fun _ _ wrong => nomatch wrong) fun mine => ?_
    simp only [run_bind, writeJson, run_tryStore, ask_bind, Prog.op_bind]
    refine .op fun r t served => ?_
    have first : lettersFrom user.userId (raw :: rest) =
        ⟨user.userId, header, raw⟩ :: lettersFrom user.userId rest := by
      simp [lettersFrom, read]
    rcases served_putObject served with ⟨rfl, rfl⟩ | ⟨⟨_, _, _, rfl⟩, _⟩
    · simp only [Prog.ret_bind]
      refine Interaction.Ends.bind ih fun r u after => ?_
      cases r with
      | error e => exact .ret fun _ wrong => nomatch wrong
      | ok uids =>
      refine .ret fun _ _ => ?_
      obtain ⟨written, own⟩ := after uids rfl
      rw [first]
      refine ⟨written, List.forall_mem_cons.mpr ⟨?_, own⟩⟩
      exact (of_decide_eq_true mine).1
    · exact .ret fun _ wrong => nomatch wrong

theorem send_writes (call : SendCall) :
    Interaction.Ends (Faulty i) (send env call.1 call.2).run s fun r t => r = .ok () →
      t.objects = postAll (call.letters env) s.objects ∧
      ∀ l ∈ call.letters env, l.header.fromUser = l.sender.str := by
  unfold send
  refine Ends.andThen (passive_objects (authenticate_passive env call.1 true) _ rfl)
    (fun _ _ _ wrong => nomatch wrong) fun user t ⟨known, kept⟩ => ?_
  refine Ends.orFail (fun _ wrong => nomatch wrong) fun envelopes parsed => ?_
  have letters : call.letters env = lettersFrom user.userId envelopes := by
    rw [SendCall.letters, known user rfl, parsed]
    rfl
  rw [letters]
  refine Ends.andThen (deliver_writes user envelopes) (fun _ _ _ wrong => nomatch wrong)
    fun uids u after => ?_
  obtain ⟨written, own⟩ := after uids rfl
  refine (passive_objects (notifyAll_passive _) _ rfl).weaken fun r v ⟨_, same⟩ _ => ?_
  refine ⟨by rw [same, written, kept], fun l member => ?_⟩
  obtain ⟨raw, _, made⟩ := List.mem_filterMap.mp member
  obtain ⟨header, _, rfl⟩ := Option.map_eq_some_iff.mp made
  exact own _ member

/-- What a sequence of accepted requests leaves. -/
theorem SentAll.writes {calls : List SendCall} (sent : SentAll env i calls s t) :
    t.objects = postAll (calls.flatMap (SendCall.letters env)) s.objects ∧
      ∀ l ∈ calls.flatMap (SendCall.letters env), l.header.fromUser = l.sender.str := by
  induction sent with
  | nil s => exact ⟨rfl, fun _ member => nomatch member⟩
  | cons run _ ih =>
    obtain ⟨written, own⟩ := send_writes _ _ _ run rfl
    obtain ⟨written', own'⟩ := ih
    rw [List.flatMap_cons, postAll_append, ← written]
    exact ⟨written', List.forall_mem_append.mpr ⟨own, own'⟩⟩

/-- A request whose token is known to be this account's. -/
def sendAs (call : SendCall) (user : AuthedUser) : Handler Unit := do
  let user ← admitUser user true
  let envelopes ← parseBody sendEnvelopes call.2
  let recipients ← deliver user envelopes
  notifyAll (recipients.dedup.insertionSort (· ≤ ·))

/-- The requests one after the other, none of which fails. -/
def sendAll (i : ι) : List (SendCall × AuthedUser) → Sys ι → Option (Sys ι)
  | [], s => some s
  | (call, user) :: rest, s =>
    match (sendAs call user).run.execute (fun o s => serve (fun _ => true) i o .ok s) s with
    | some (.ok _, t) => sendAll i rest t
    | _ => none

theorem sentAll_of_sendAll {calls : List (SendCall × AuthedUser)}
    (known : ∀ e ∈ calls, Token.identity env e.1.1 = some e.2) (sent : sendAll i calls s = some t) :
    SentAll env i (calls.map Prod.fst) s t := by
  induction calls generalizing s with
  | nil => cases sent; exact .nil t
  | cons e rest ih =>
    obtain ⟨mine, others⟩ := List.forall_mem_cons.mp known
    unfold sendAll at sent
    split at sent
    next u ran =>
      refine .cons ?_ (ih others sent)
      rw [send, authenticate_known mine]
      exact (runs_of_execute ran).mono fun _ _ _ _ served => ⟨.ok, served⟩
    next => cases sent

end Letters

/-! ### A second account -/

namespace Sample

def mallory : UserId := ⟨"01MMMMMMMMMMMMMMMMMMMMMMMM", by decide +kernel⟩

def mallorysDevice : DeviceId := ⟨"01BX5ZZKBKACTAV9WEVGEMMVS2", by decide +kernel⟩

/-- The sample account's environment, with the MAC of a second token. -/
def twoEnv : Env :=
  { env with
    hmac := fun _ message =>
      if message = Token.utf8 (mallory.str ++ "." ++ mallorysDevice.str ++ ".1") then
        [8, 4, 245, 204, 143, 75, 171, 255, 86, 10, 163, 121, 203, 185, 15, 53, 87, 68, 219, 48, 207,
          125, 37, 252, 101, 158, 46, 223, 28, 172, 27, 91]
      else mac message }

def mallorysToken : Option String :=
  some ("MDFNTU1NTU1NTU1NTU1NTU1NTU1NTU1NTU0uMDFCWDVaWktCS0FDVEFWOVdFVkdFTU1WUzIuMS5DQVQxekk5" ++
    "THFfOVdDcU41eTdrUE5WZEUyekRQZlNYOFpaNHUzeHlzRzFz")

theorem twoEnv_user : Token.identity twoEnv token = some authed := by decide +kernel

def malloryAuthed : AuthedUser := ⟨mallory, mallorysDevice, .ONE⟩

theorem twoEnv_mallory : Token.identity twoEnv mallorysToken = some malloryAuthed := by decide +kernel

/-- Both accounts are registered, each with one device, and both were seen. -/
def twoAccounts (ι : Type) : Sys ι where
  objects := (store.insert (keyProfile mallory.str)
    { profile with userId := mallory.str, handle := "mallory" }.data).insert
      (keyDevice mallory.str mallorysDevice.str) (deviceFile mallorysDevice.str "phone" epoch)
  deviceCache := [keyDevice uid did, keyDevice mallory.str mallorysDevice.str]
  profileCache := [(uid, 1), (mallory.str, 1)]

theorem twoAccounts_data {ι : Type} {key : String} (within : startsWith key "inbox/" = true) :
    (twoAccounts ι).objects.get key = none := by
  rw [twoAccounts, ObjectMap.get_insert, if_neg (ne_of_inbox within _ (by simp [keyDevice])),
    ObjectMap.get_insert, if_neg (ne_of_inbox within _ (by simp [keyProfile]))]
  exact store_data within

end Sample

end Atmin
