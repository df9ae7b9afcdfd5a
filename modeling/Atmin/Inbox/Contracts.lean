import Atmin.Server.Contracts

/-!
# Contracts of the inbox loops

The paging and reading loops of compaction and the delivery loop, each by induction on
the pages, keys or envelopes that are left.
-/

namespace Atmin

open Interaction

section Loops

variable {ι σ : Type} {rules : Rules ι σ} {exec : ι → (o : Op) → σ → Res o → σ → Prop} {i : ι}

/-- What a page of a listing establishes of each key on it. -/
def Lists (rules : Rules ι σ) (exec : ι → (o : Op) → σ → Res o → σ → Prop) (i : ι) (pre : String)
    (K : String → rules.Assertion i) : Prop :=
  ∀ limit cursor, Serves rules exec i (.listObjects pre limit cursor) (fun _ => True) fun r t =>
    ∀ page, r = .ok page → ∀ k ∈ page.keys, K k t

/-- The keys collected so far keep their assertions while more pages are read. -/
def Collected {i : ι} (A : rules.Assertion i) (K : String → rules.Assertion i)
    (r : Except ApiError (List String)) (t : σ) : Prop :=
  A t ∧ ∀ ks, r = .ok ks → ∀ k ∈ ks, K k t

/-- The first page, then the rest: what both paging loops share. -/
theorem page_then {pre : String} {limit : Nat} {cursor : Option String}
    {K : String → rules.Assertion i} (lists : Lists rules exec i pre K)
    (quiet : ∀ o : Op, o.reads = true → Unnoticed rules exec i o) (A : rules.Assertion i) {s : σ}
    (here : A s) {f : ListPage → Handler (List String)}
    (rest : ∀ page t, A t → (∀ k ∈ page.keys, K k t) →
      Safe rules exec i (Collected A K) (f page).run t) :
    Safe rules exec i (Collected A K)
      (tryStore (ask (.listObjects pre limit cursor)) >>= f).run s := by
  simp only [run_bind, run_tryStore, ask_bind, Prog.op_bind]
  refine Safe.request A here ((quiet (.listObjects ..) rfl A).and
    ((lists limit cursor).of fun _ _ => trivial)) fun r t after => ?_
  obtain ⟨after, found⟩ := after
  cases r with
  | ok page => exact rest page t after (found page rfl)
  | error e => exact fun u moved => ⟨A.stable.others moved after, fun _ same => nomatch same⟩

/-- Keys in hand survive a further collection. -/
theorem Collected.append {A : rules.Assertion i} {K : String → rules.Assertion i}
    {held : List String} {h : Handler (List String)} {s : σ}
    (more : Safe rules exec i (Collected (A.and (.each held K)) K) h.run s) :
    Safe rules exec i (Collected A K) (do let ks ← h; pure (held ++ ks) : Handler _).run s := by
  simp only [run_bind]
  refine Safe.bind more fun r t after => ?_
  cases r with
  | error e =>
    exact fun u moved => ⟨A.stable.others moved after.1.1, fun _ same => nomatch same⟩
  | ok ks =>
    intro u moved
    refine ⟨A.stable.others moved after.1.1, fun all same k member => ?_⟩
    cases same
    refine (K k).stable.others moved ?_
    rcases List.mem_append.mp member with first | second
    · exact after.1.2 k first
    · exact after.2 ks rfl k second

theorem collectLive_safe {pre boundary : String} {K : String → rules.Assertion i}
    (lists : Lists rules exec i pre K)
    (quiet : ∀ o : Op, o.reads = true → Unnoticed rules exec i o) (pages : Nat)
    (cursor : Option String) (A : rules.Assertion i) {s : σ} (here : A s) :
    Safe rules exec i (Collected A K) (collectLive pre boundary pages cursor).run s := by
  induction pages generalizing cursor A s with
  | zero => exact fun t moved => ⟨A.stable.others moved here, fun _ same => nomatch same⟩
  | succ pages ih =>
    refine page_then lists quiet A here fun page t after found => ?_
    have within : ∀ k ∈ page.keys.filter fun k => decide (k ≤ boundary), K k t :=
      fun k member => found k (List.mem_filter.mp member).1
    have stop : Safe rules exec i (Collected A K)
        (pure (page.keys.filter fun k => decide (k ≤ boundary)) : Handler (List String)).run t := by
      intro u moved
      refine ⟨A.stable.others moved after, fun all same k member => ?_⟩
      cases same
      exact (K k).stable.others moved (within k member)
    cases page.nextCursor with
    | none => exact stop
    | some c =>
      dsimp only
      split
      · exact stop
      · exact Collected.append (ih (some c) (A.and (.each _ K)) ⟨after, within⟩)

theorem collectAll_safe {pre : String} {K : String → rules.Assertion i}
    (lists : Lists rules exec i pre K)
    (quiet : ∀ o : Op, o.reads = true → Unnoticed rules exec i o) (pages : Nat)
    (cursor : Option String) (A : rules.Assertion i) {s : σ} (here : A s) :
    Safe rules exec i (Collected A K) (collectAll pre pages cursor).run s := by
  induction pages generalizing cursor A s with
  | zero => exact fun t moved => ⟨A.stable.others moved here, fun _ same => nomatch same⟩
  | succ pages ih =>
    refine page_then lists quiet A here fun page t after found => ?_
    cases page.nextCursor with
    | none =>
      intro u moved
      refine ⟨A.stable.others moved after, fun all same k member => ?_⟩
      cases same
      exact (K k).stable.others moved (found k member)
    | some c => exact Collected.append (ih (some c) (A.and (.each _ K)) ⟨after, found⟩)

/-- What has been read: `B k acc` of every key once its entries are among `acc`, and `E`
of every entry. -/
theorem readObjects_safe {α : Type} {e : ApiError} {dec : Data → Option (List α)}
    {K : String → rules.Assertion i} {B : String → List α → rules.Assertion i} {E : α → Prop}
    (quiet : ∀ o : Op, o.reads = true → Unnoticed rules exec i o)
    (grows : ∀ k some_ more t, B k some_ t → (∀ x ∈ some_, x ∈ more) → B k more t)
    (reads : ∀ k, Serves rules exec i (.getObject k) (K k) fun r t =>
      (r = .error .notFound → B k [] t) ∧
        ∀ d es, r = .ok d → dec d = some es → B k es t ∧ ∀ x ∈ es, E x)
    (keys : List String) (A : rules.Assertion i) {s : σ} (here : A s) (listed : ∀ k ∈ keys, K k s) :
    Safe rules exec i (fun r t => A t ∧ ∀ acc, r = .ok acc → (∀ k ∈ keys, B k acc t) ∧
      ∀ x ∈ acc, E x) (readObjects e dec keys).run s := by
  induction keys generalizing A s with
  | nil =>
    refine fun t moved => ⟨A.stable.others moved here, fun acc same => ?_⟩
    cases same
    exact ⟨fun _ h => (nomatch h), fun _ h => (nomatch h)⟩
  | cons key rest ih =>
    simp only [readObjects, run_bind, run_call, ask_bind, Prog.op_bind, Prog.ret_bind]
    let Rest := A.and (Rules.Assertion.each rest K)
    refine Safe.request (Rest.and (K key))
      ⟨⟨here, fun k member => listed k (List.mem_cons_of_mem _ member)⟩,
        listed key List.mem_cons_self⟩
      (((quiet (.getObject key) rfl Rest).of fun _ h => h.1).and
        ((reads key).of fun _ h => h.2)) fun found t after => ?_
    obtain ⟨⟨after, pending⟩, missed, read⟩ := after
    rcases found with (_ | err) | d
    · -- a missing object is passed over
      refine (ih (A.and (B key [])) ⟨after, missed rfl⟩ pending).weaken fun r u done => ?_
      refine ⟨done.1.1, fun acc same => ⟨fun k member => ?_, (done.2 acc same).2⟩⟩
      rcases List.mem_cons.mp member with rfl | later
      · exact grows _ _ _ _ done.1.2 fun _ h => (nomatch h)
      · exact (done.2 acc same).1 k later
    · -- a storage error ends the reads
      exact fun u moved => ⟨A.stable.others moved after, fun _ same => nomatch same⟩
    · simp only [run_bind]
      cases decoded : dec d with
      | none => exact fun u moved => ⟨A.stable.others moved after, fun _ same => nomatch same⟩
      -- its entries come before those of the rest
      | some es =>
        obtain ⟨mine, good⟩ := read d es rfl decoded
        simp only [run_orFail_some, Prog.ret_bind, run_pure]
        refine Safe.bind (ih (A.and (B key es)) ⟨after, mine⟩ pending) fun r u done => ?_
        cases r with
        | error err =>
          exact fun v moved => ⟨A.stable.others moved done.1.1, fun _ same => nomatch same⟩
        | ok more =>
          intro v moved
          refine ⟨A.stable.others moved done.1.1, fun acc same => ?_⟩
          cases same
          refine ⟨fun k member => (B k _).stable.others moved ?_, fun x member => ?_⟩
          · rcases List.mem_cons.mp member with rfl | later
            · exact grows _ _ _ _ done.1.2 fun x h => List.mem_append_left _ h
            · exact grows _ _ _ _ ((done.2 more rfl).1 k later)
                fun x h => List.mem_append_right _ h
          · rcases List.mem_append.mp member with first | second
            · exact good x first
            · exact (done.2 more rfl).2 x second

end Loops

end Atmin
