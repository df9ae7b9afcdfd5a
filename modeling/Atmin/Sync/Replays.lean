import Atmin.Sync.Edits

/-!
# Replayed amendments

A copy of an amendment under a later id. It changes nothing where the amendment was the last
word already; an edit that was superseded comes back into force.
-/

namespace Atmin.Web

open Interaction

section Replays

variable {account : Account} {atob : String → Option (List UInt8)} {parse : String → Option Json}
  {before after : List StoredMessage} {m am copy : StoredMessage}

/-- The same plaintext by the same sender. -/
structure Copies (am copy : StoredMessage) : Prop where
  sender : copy.fromUser = am.fromUser
  text : copy.text = am.text

/-- What is compared of a bubble. -/
def Message.face (b : Message) : Js × Js × Option MediaFile × Bool := (b.id, b.text, b.media, b.deleted)

/-- The copy is an edit after all others, and puts back a body that was replaced. -/
def Supersedes (parse : String → Option Json) (msgs : List StoredMessage) (copy m : StoredMessage) : Prop :=
  ∃ body other, editBody parse m copy = some body ∧
    Latest (editBody parse m) StoredMessage.place msgs other ∧ other ≠ body ∧
    ∀ am ∈ msgs, (editBody parse m am).isSome → am.place < copy.place

theorem Copies.editBody (copies : Copies am copy) (m : StoredMessage) :
    editBody parse m copy = Web.editBody parse m am := by
  rw [Web.editBody, Web.editBody, copies.text, copies.sender]

theorem Copies.retracts (copies : Copies am copy) (m : StoredMessage) :
    retracts parse m copy = Web.retracts parse m am := by
  simp only [Web.retracts, amendsRow, deletes, copies.text, copies.sender]

theorem mem_inserted {x : StoredMessage} :
    x ∈ before ++ copy :: after ↔ x = copy ∨ x ∈ before ++ after := by
  simp only [List.mem_append, List.mem_cons]
  exact or_left_comm

theorem Distinct.without (distinct : Distinct (before ++ copy :: after)) : Distinct (before ++ after) :=
  distinct.sublist ((List.Sublist.refl before).append (List.sublist_cons_self copy after))

theorem Distinct.fresh (distinct : Distinct (before ++ copy :: after)) :
    ∀ x ∈ before ++ after, x.place ≠ copy.place := by
  intro x member same
  have inside : x ∈ before ++ copy :: after := mem_inserted.mpr (Or.inr member)
  have here : copy ∈ before ++ copy :: after := mem_inserted.mpr (Or.inl rfl)
  have equal : x = copy := distinct.unique x inside copy here
    (by rw [distinct.ids x inside, distinct.ids copy here, Utf16.place_inj same])
  have once := (List.nodup_middle.mp distinct.nodup)
  rw [← equal] at once
  exact (List.nodup_cons.mp once).1 member

theorem retracted_inserted (copies : Copies am copy) (here : am ∈ before ++ after) :
    (∃ x ∈ before ++ copy :: after, retracts parse m x = true) ↔
      ∃ x ∈ before ++ after, retracts parse m x = true := by
  constructor
  · rintro ⟨x, member, retracted⟩
    rcases mem_inserted.mp member with rfl | inside
    · exact ⟨am, here, by rw [← copies.retracts, retracted]⟩
    · exact ⟨x, inside, retracted⟩
  · rintro ⟨x, inside, retracted⟩
    exact ⟨x, mem_inserted.mpr (Or.inr inside), retracted⟩

theorem bodies_inserted (copies : Copies am copy) (here : am ∈ before ++ after) {body : Js} :
    body ∈ bodies parse (before ++ copy :: after) m ↔ body ∈ bodies parse (before ++ after) m := by
  rw [mem_bodies, mem_bodies]
  constructor
  · rintro ⟨x, member, given⟩
    rcases mem_inserted.mp member with rfl | inside
    · exact ⟨am, here, by rw [← copies.editBody, given]⟩
    · exact ⟨x, inside, given⟩
  · rintro ⟨x, inside, given⟩
    exact ⟨x, mem_inserted.mpr (Or.inr inside), given⟩

theorem latest_inserted (distinct : Distinct (before ++ copy :: after)) (x : Js) :
    Latest (editBody parse m) StoredMessage.place (before ++ copy :: after) x ↔
      (editBody parse m copy = some x ∧
        ∀ a ∈ before ++ after, (editBody parse m a).isSome → a.place < copy.place) ∨
      (Latest (editBody parse m) StoredMessage.place (before ++ after) x ∧ ((editBody parse m copy).isSome →
        ∃ a ∈ before ++ after, (editBody parse m a).isSome ∧ copy.place < a.place)) :=
  latest_insert (fun _ => mem_inserted) distinct.fresh

/-- A copy that supersedes changes the last edit. -/
theorem Supersedes.last (distinct : Distinct (before ++ copy :: after))
    (supersedes : Supersedes parse (before ++ after) copy m) :
    ∃ body other, (bodies parse (before ++ copy :: after) m).getLast? = some body ∧
      (bodies parse (before ++ after) m).getLast? = some other ∧ other ≠ body := by
  obtain ⟨body, other, given, top, differs, above⟩ := supersedes
  refine ⟨body, other, ?_, (latest_bodies distinct.without).mp top, differs⟩
  rw [← latest_bodies distinct, latest_inserted distinct]
  exact Or.inl ⟨given, above⟩

/-- Any other copy leaves it. -/
theorem last_kept (distinct : Distinct (before ++ copy :: after)) (copies : Copies am copy)
    (here : am ∈ before ++ after) (kept : ¬ Supersedes parse (before ++ after) copy m) :
    (bodies parse (before ++ copy :: after) m).getLast? = (bodies parse (before ++ after) m).getLast? := by
  cases last : (bodies parse (before ++ after) m).getLast? with
  | none =>
    rw [List.getLast?_eq_none_iff, List.eq_nil_iff_forall_not_mem] at last ⊢
    exact fun body member => last body ((bodies_inserted copies here).mp member)
  | some other =>
    rw [← latest_bodies distinct.without] at last
    rw [← latest_bodies distinct, latest_inserted distinct]
    by_cases later : (editBody parse m copy).isSome →
        ∃ a ∈ before ++ after, (editBody parse m a).isSome ∧ copy.place < a.place
    · exact Or.inr ⟨last, later⟩
    · push Not at later
      obtain ⟨has, below⟩ := later
      obtain ⟨body, given⟩ := Option.isSome_iff_exists.mp has
      have above : ∀ a ∈ before ++ after, (editBody parse m a).isSome → a.place < copy.place :=
        fun a member valued => lt_of_le_of_ne (below a member valued) (distinct.fresh a member)
      refine Or.inl ⟨?_, above⟩
      by_contra differs
      refine kept ⟨body, other, given, last, fun same => differs ?_, above⟩
      rw [given, same]

theorem getD_inserted (distinct : Distinct (before ++ copy :: after)) (copies : Copies am copy)
    (here : am ∈ before ++ after) (text : Js) :
    (bodies parse (before ++ copy :: after) m).getLast?.getD text =
        (bodies parse (before ++ after) m).getLast?.getD text ↔
      ¬ Supersedes parse (before ++ after) copy m := by
  constructor
  · intro same supersedes
    obtain ⟨body, other, last, last', differs⟩ := supersedes.last distinct
    rw [last, last'] at same
    exact differs same.symm
  · intro kept
    rw [last_kept distinct copies here kept]

/-! ### The bubbles -/

/-- The copy shows: the message is not deleted, its text is not stuck without a caption, and the
copy supersedes the last edit. -/
structure Overrides (parse : String → Option Json) (msgs : List StoredMessage)
    (copy m : StoredMessage) : Prop where
  inside : m ∈ msgs
  kept : ∀ am ∈ msgs, retracts parse m am = false
  caption : captioned parse m = true
  titled : hasMedia parse m = true → ∀ am ∈ msgs, editBody parse m am ≠ some (.str "")
  supersedes : Supersedes parse msgs copy m

theorem captioned_body {body : Js} (original : originalBody parse m = some body) :
    captioned parse m = true ↔ (hasMedia parse m = true → body.same (.str "") = false) := by
  unfold captioned hasMedia
  unfold originalBody at original
  cases inner : parseInner parse m.text with
  | text text => simp
  | media text file =>
    simp only [inner, Option.some.injEq] at original
    simp [original]
  | amendment target action change => simp [inner] at original
  | unknown => simp [inner] at original

/-- A text changes exactly by a copy that supersedes, unless the caption is empty and stays so. -/
theorem retitle_inserted (distinct : Distinct (before ++ copy :: after)) (copies : Copies am copy)
    (here : am ∈ before ++ after) {body : Js} (original : originalBody parse m = some body) :
    retitle (hasMedia parse m) body (bodies parse (before ++ copy :: after) m) =
        retitle (hasMedia parse m) body (bodies parse (before ++ after) m) ↔
      ¬ (captioned parse m = true ∧
        (hasMedia parse m = true → ∀ am ∈ before ++ after, editBody parse m am ≠ some (.str "")) ∧
        Supersedes parse (before ++ after) copy m) := by
  rw [captioned_body original]
  cases media : hasMedia parse m with
  | false =>
    rw [retitle_text, retitle_text, getD_inserted distinct copies here]
    simp
  | true =>
    cases empty : body.same (.str "") with
    | true =>
      rw [(Js.same_of_str "" body).mp empty, retitle_empty, retitle_empty]
      simp
    | false =>
      rw [retitle_media _ empty, retitle_media _ empty]
      have emptied (msgs : List StoredMessage) :
          (bodies parse msgs m).any (fun body => body.same (.str "")) = true ↔
            .str "" ∈ bodies parse msgs m := by
        simp only [List.any_eq_true, Js.same_of_str, exists_eq_right]
      by_cases cleared : .str "" ∈ bodies parse (before ++ after) m
      · rw [if_pos ((emptied _).mpr ((bodies_inserted copies here).mpr cleared)),
          if_pos ((emptied _).mpr cleared)]
        obtain ⟨x, inside, given⟩ := mem_bodies.mp cleared
        refine iff_of_true rfl fun wrong => wrong.2.1 rfl x inside given
      · rw [if_neg fun any => cleared ((bodies_inserted copies here).mp ((emptied _).mp any)),
          if_neg fun any => cleared ((emptied _).mp any), getD_inserted distinct copies here]
        have titled : ∀ am ∈ before ++ after, editBody parse m am ≠ some (.str "") :=
          fun x inside given => cleared (mem_bodies.mpr ⟨x, inside, given⟩)
        exact not_congr ⟨fun supersedes => ⟨fun _ => rfl, fun _ => titled, supersedes⟩, fun all => all.2.2⟩

/-- A bubble that is deleted shows nothing. -/
theorem amend_removed (author : Js) {base : Message} (chain : List StoredMessage) (kept : base.deleted = false)
    (deleted : (amend account author base chain).deleted = true) :
    (amend account author base chain).text = .str "" ∧ (amend account author base chain).media = none := by
  induction chain generalizing base with
  | nil => exact absurd (deleted.symm.trans kept) (by decide)
  | cons x rest ih =>
    rcases chain_cases account.parse author x with skip | ⟨own, deleting⟩ | ⟨own, _, target, body, inner⟩
    · rw [amend_skip skip] at deleted ⊢
      exact ih kept deleted
    · rw [amend_remove own deleting]
      exact ⟨rfl, rfl⟩
    · rw [amend_edit own inner] at deleted ⊢
      exact ih ((edited_deleted base x body).trans kept) deleted

theorem amend_retracted {msgs : List StoredMessage} {base : Message} (kept : base.deleted = false) :
    (amend account m.fromUser base (amendmentChain account.parse msgs m.id)).deleted = true ↔
      ∃ x ∈ msgs, retracts account.parse m x = true := by
  rw [amend_deleted, kept]
  simp only [Bool.false_eq_true, false_or, retracts, Bool.and_eq_true]
  constructor
  · rintro ⟨x, listed, own, deleting⟩
    exact ⟨x, (mem_chain.mp listed).1, ⟨(mem_chain.mp listed).2, own⟩, deleting⟩
  · rintro ⟨x, inside, ⟨names, own⟩, deleting⟩
    exact ⟨x, mem_chain.mpr ⟨inside, names⟩, own, deleting⟩

theorem amend_media (m : StoredMessage) {base : Message} (chain : List StoredMessage) (kept : base.deleted = false)
    (still : (amend account m.fromUser base chain).deleted = false) :
    (amend account m.fromUser base chain).media = base.media := by
  have abreast : Abreast false base.text base none := ⟨kept, fun text => absurd text (by decide)⟩
  obtain ⟨deleted, ended⟩ := walks_agree account m chain abreast
  exact (ended (deleted.symm.trans still)).1

/-- One bubble changes its face exactly when the copy shows. -/
theorem face_inserted (distinct : Distinct (before ++ copy :: after)) (copies : Copies am copy)
    (here : am ∈ before ++ after) (inside : m ∈ before ++ after) {b b' : Message}
    (made : entry account atob (before ++ after) m = some b)
    (made' : entry account atob (before ++ copy :: after) m = some b') :
    b'.face = b.face ↔ ¬ Overrides account.parse (before ++ after) copy m := by
  have ids : b'.id = b.id := (entry_id made').trans (entry_id made).symm
  obtain ⟨base, found, shown⟩ := Option.map_eq_some_iff.mp made
  obtain ⟨base', found', shown'⟩ := Option.map_eq_some_iff.mp made'
  cases found.symm.trans found'
  have kept := baseMessage_deleted (Option.join_eq_some_iff.mp found)
  have gone : b.deleted = true ↔ ∃ x ∈ before ++ after, retracts account.parse m x = true := by
    rw [← shown]
    exact amend_retracted kept
  have gone' : b'.deleted = true ↔ ∃ x ∈ before ++ after, retracts account.parse m x = true := by
    rw [← shown', ← retracted_inserted copies here]
    exact amend_retracted kept
  by_cases retracted : ∃ x ∈ before ++ after, retracts account.parse m x = true
  · -- A deleted message has one face only.
    have empty := amend_removed m.fromUser _ kept (shown ▸ gone.mpr retracted)
    have empty' := amend_removed m.fromUser _ kept (shown' ▸ gone'.mpr retracted)
    rw [shown] at empty
    rw [shown'] at empty'
    refine iff_of_true ?_ fun overrides => ?_
    · simp only [Message.face, ids, empty, empty', gone.mpr retracted, gone'.mpr retracted]
    · obtain ⟨x, member, deletes_⟩ := retracted
      rw [overrides.kept x member] at deletes_
      cases deletes_
  · have still : b.deleted = false := Bool.eq_false_iff.mpr fun deleted => retracted (gone.mp deleted)
    have still' : b'.deleted = false := Bool.eq_false_iff.mpr fun deleted => retracted (gone'.mp deleted)
    have media := amend_media m _ kept (shown ▸ still)
    have media' := amend_media m _ kept (shown' ▸ still')
    rw [shown] at media
    rw [shown'] at media'
    have none_ : ∀ x ∈ before ++ after, retracts account.parse m x = false :=
      fun x member => Bool.eq_false_iff.mpr fun deletes_ => retracted ⟨x, member, deletes_⟩
    have none_' : ∀ x ∈ before ++ copy :: after, retracts account.parse m x = false :=
      fun x member => Bool.eq_false_iff.mpr fun deletes_ =>
        retracted ((retracted_inserted copies here).mp ⟨x, member, deletes_⟩)
    obtain ⟨body, original, text⟩ := entry_text made none_
    obtain ⟨body', original', text'⟩ := entry_text made' none_'
    cases original.symm.trans original'
    have faces : b'.face = b.face ↔ b'.text = b.text := by
      simp only [Message.face, ids, media, media', still, still', Prod.mk.injEq, and_true, true_and]
    rw [faces, text, text', retitle_inserted distinct copies here original]
    exact not_congr ⟨fun ⟨caption, titled, supersedes⟩ => ⟨inside, none_, caption, titled, supersedes⟩,
      fun overrides => ⟨overrides.caption, overrides.titled, overrides.supersedes⟩⟩

/-- Two readings of a list agree under `φ` when each element does. -/
theorem filterMap_map_eq {α β γ : Type} {f g : α → Option β} {φ : β → γ} {xs : List α}
    (some_ : ∀ x ∈ xs, (f x).isSome) (some_' : ∀ x ∈ xs, (g x).isSome) :
    (xs.filterMap f).map φ = (xs.filterMap g).map φ ↔
      ∀ x ∈ xs, ∀ b b', f x = some b → g x = some b' → φ b = φ b' := by
  induction xs with
  | nil => simp
  | cons x rest ih =>
    rw [List.forall_mem_cons] at some_ some_'
    obtain ⟨b, first⟩ := Option.isSome_iff_exists.mp some_.1
    obtain ⟨b', first'⟩ := Option.isSome_iff_exists.mp some_'.1
    rw [List.filterMap_cons_some first, List.filterMap_cons_some first', List.map_cons, List.map_cons,
      List.cons.injEq, ih some_.2 some_'.2, List.forall_mem_cons]
    simp [first, first']

def view (account : Account) (atob : String → Option (List UInt8)) (msgs : List StoredMessage) :
    Option (List (Js × Js × Option MediaFile × Bool)) :=
  (toMessages account atob msgs).map fun shown => shown.map Message.face

theorem originals_inserted (amends : isOriginal parse copy.text = false) :
    originals parse (before ++ copy :: after) = originals parse (before ++ after) := by
  simp [originals, List.filter_append, amends]

theorem captioned_original (caption : captioned parse m = true) : isOriginal parse m.text = true := by
  unfold captioned at caption
  unfold isOriginal
  split at caption <;> simp_all

/-- The view changes exactly when it decodes and the copy shows in some bubble. -/
theorem view_inserted (distinct : Distinct (before ++ copy :: after)) (copies : Copies am copy)
    (here : am ∈ before ++ after) (amends : isOriginal account.parse am.text = false) :
    view account atob (before ++ copy :: after) = view account atob (before ++ after) ↔
      ((∀ x ∈ before ++ after, decodable account.parse atob x = true) →
        ∀ m, ¬ Overrides account.parse (before ++ after) copy m) := by
  have same : originals account.parse (before ++ copy :: after) = originals account.parse (before ++ after) :=
    originals_inserted (copies.text ▸ amends)
  have all_ : (before ++ copy :: after).all (decodable account.parse atob) =
      (before ++ after).all (decodable account.parse atob) := by
    rw [all_originals, same, ← all_originals]
  unfold view
  rw [toMessages_eq, toMessages_eq, all_, entries_originals (before ++ copy :: after),
    entries_originals (before ++ after), same]
  by_cases decodes : ∀ x ∈ before ++ after, decodable account.parse atob x = true
  · rw [if_pos (List.all_eq_true.mpr decodes), if_pos (List.all_eq_true.mpr decodes)]
    have some_ (rows : List StoredMessage) : ∀ m ∈ originals account.parse (before ++ after),
        (entry account atob rows m).isSome := by
      intro m original
      obtain ⟨inside, original⟩ := List.mem_filter.mp original
      rw [entry_isSome rows (decodes m inside), original]
    rw [Option.map_some, Option.map_some, Option.some.injEq, filterMap_map_eq (some_ _) (some_ _)]
    constructor
    · intro faces _ m overrides
      have original : m ∈ originals account.parse (before ++ after) :=
        List.mem_filter.mpr ⟨overrides.inside, captioned_original overrides.caption⟩
      obtain ⟨b', made'⟩ := Option.isSome_iff_exists.mp (some_ (before ++ copy :: after) m original)
      obtain ⟨b, made⟩ := Option.isSome_iff_exists.mp (some_ (before ++ after) m original)
      exact (face_inserted distinct copies here overrides.inside made made').mp
        (faces m original b' b made' made) overrides
    · intro none_ m original b' b made' made
      have inside := (List.mem_filter.mp original).1
      exact (face_inserted distinct copies here inside made made').mpr (none_ decodes m)
  · have broken : ¬ (before ++ after).all (decodable account.parse atob) = true :=
      fun all => decodes (List.all_eq_true.mp all)
    rw [if_neg broken, if_neg broken]
    exact iff_of_true rfl fun all => absurd all decodes

/-! ### The chat list -/

/-- The message that a summary is about. -/
def summarized (parse : String → Option Json) (msgs : List StoredMessage) : Option StoredMessage :=
  match originals parse msgs with
  | [] => none
  | first :: rest => some (latestOf first rest)

theorem summarizeConversation_map (render : Js → String) (msgs : List StoredMessage) :
    summarizeConversation parse render msgs = (summarized parse msgs).map fun latest =>
      preview parse render latest (amendmentChain parse msgs latest.id) := by
  rw [summarizeConversation_eq]
  unfold summarized originals
  cases msgs.filter fun m => isOriginal parse m.text <;> rfl

theorem latestOf_mem (first : StoredMessage) (rest : List StoredMessage) :
    latestOf first rest ∈ first :: rest := by
  induction rest generalizing first with
  | nil => simp [latestOf]
  | cons x rest ih =>
    rw [latestOf]
    split
    · exact List.mem_cons_of_mem _ (ih x)
    · rcases List.mem_cons.mp (ih first) with same | later
      · rw [same]
        exact List.mem_cons_self
      · exact List.mem_cons_of_mem _ (List.mem_cons_of_mem _ later)

theorem summarized_inside {msgs : List StoredMessage} (latest : summarized parse msgs = some m) :
    m ∈ msgs ∧ isOriginal parse m.text = true := by
  unfold summarized at latest
  split at latest
  · cases latest
  next first rest found =>
    have member := latestOf_mem first rest
    rw [Option.some.inj latest, ← found] at member
    exact List.mem_filter.mp member

/-- What a walk keeps of a chain: whether the message is deleted, and else a text's last edit. -/
theorem applyChain_bodies {chain : List StoredMessage} (isText : Bool) (edited : Option Js)
    (names : ∀ x ∈ chain, amendsRow parse m.id x = true) :
    applyChain parse m isText chain edited =
      if chain.any (retracts parse m) then (true, none)
      else (false, if isText then (chain.filterMap (editBody parse m)).getLast?.or edited else edited) := by
  induction chain generalizing edited with
  | nil => cases isText <;> rfl
  | cons x rest ih =>
    rw [List.forall_mem_cons] at names
    rcases chain_cases parse m.fromUser x with skip | ⟨own, deleting⟩ | ⟨own, kept, target, body, inner⟩
    · have idle : retracts parse m x = false := by
        simp only [skipped, Bool.or_eq_true, Bool.not_eq_true', Bool.or_eq_false_iff] at skip
        rcases skip with other | ⟨stays, _⟩
        · simp [retracts, other]
        · simp [retracts, stays]
      rw [applyChain_skip skip, ih edited names.2, List.any_cons, idle, Bool.false_or,
        List.filterMap_cons_none (editBody_skipped skip)]
    · rw [applyChain_remove own deleting, List.any_cons]
      simp [retracts, names.1, own, deleting]
    · have idle : retracts parse m x = false := by simp [retracts, kept]
      have given : editBody parse m x = body := editBody_amendment names.1 own inner
      rw [applyChain_edit own inner, ih _ names.2, List.any_cons, idle, Bool.false_or]
      cases body with
      | none => rw [List.filterMap_cons_none given, revised, Option.isSome_none, Bool.and_false]; rfl
      | some body =>
        rw [List.filterMap_cons_some given, revised]
        cases isText with
        | false => rfl
        | true =>
          simp only [Option.isSome_some, Bool.and_true, if_true]
          cases (rest.filterMap (editBody parse m)) <;> simp [List.getLast?_cons]

theorem editBody_text {render : Js → String} (stringifies : Stringifies parse render) {body : Js}
    (given : editBody parse m am = some body) : body.IsText := by
  unfold editBody at given
  cases inner : parseInner parse am.text with
  | amendment target action change =>
    simp only [inner, Option.ite_none_right_eq_some] at given
    exact amendment_body stringifies inner body given.2
  | text body => simp [inner] at given
  | media body file => simp [inner] at given
  | unknown => simp [inner] at given

/-- Different bodies are written differently. -/
theorem render_inj {render : Js → String} (stringifies : Stringifies parse render) {a b : Js}
    (text : a.IsText) (text' : b.IsText) (same : render a = render b) : a = b := by
  have read : parseInner parse (render a) = .text a := parseInner_render stringifies text
  rw [same, parseInner_render stringifies text'] at read
  cases read
  rfl

/-- The summary of an original that is not deleted. -/
theorem preview_kept (render : Js → String) {msgs : List StoredMessage}
    (original : isOriginal parse m.text = true) (kept : ∀ x ∈ msgs, retracts parse m x = false) :
    preview parse render m (amendmentChain parse msgs m.id) =
      match hasMedia parse m, (bodies parse msgs m).getLast? with
      | false, some body => ⟨render body, m.timestamp, false⟩
      | _, _ => ⟨m.text, m.timestamp, false⟩ := by
  have names : ∀ x ∈ amendmentChain parse msgs m.id, amendsRow parse m.id x = true :=
    fun x listed => (mem_chain.mp listed).2
  have none_ : ¬ (amendmentChain parse msgs m.id).any (retracts parse m) = true := by
    intro any
    obtain ⟨x, listed, deletes_⟩ := List.any_eq_true.mp any
    rw [kept x (mem_chain.mp listed).1] at deletes_
    cases deletes_
  unfold preview
  dsimp only
  rw [applyChain_bodies _ _ names, if_neg none_]
  unfold isOriginal at original
  unfold hasMedia bodies
  cases inner : parseInner parse m.text with
  | text body =>
    simp only [if_true, Option.or_none]
    cases ((amendmentChain parse msgs m.id).filterMap (editBody parse m)).getLast? <;> rfl
  | media body file => rfl
  | amendment target action change => simp [inner] at original
  | unknown => simp [inner] at original

theorem preview_retracted (render : Js → String) {msgs : List StoredMessage}
    (retracted : ∃ x ∈ msgs, retracts parse m x = true) :
    preview parse render m (amendmentChain parse msgs m.id) = ⟨"", m.timestamp, true⟩ := by
  have names : ∀ x ∈ amendmentChain parse msgs m.id, amendsRow parse m.id x = true :=
    fun x listed => (mem_chain.mp listed).2
  have any : (amendmentChain parse msgs m.id).any (retracts parse m) = true := by
    obtain ⟨x, inside, deletes_⟩ := retracted
    have amends : amendsRow parse m.id x = true := by
      simp only [retracts, Bool.and_eq_true] at deletes_
      exact deletes_.1.1
    exact List.any_eq_true.mpr ⟨x, mem_chain.mpr ⟨inside, amends⟩, deletes_⟩
  unfold preview
  dsimp only
  rw [applyChain_bodies _ _ names, if_pos any]

/-- The summary changes exactly when the copy shows in the text it is about. -/
theorem summary_inserted {render : Js → String} (stringifies : Stringifies parse render)
    (distinct : Distinct (before ++ copy :: after)) (copies : Copies am copy) (here : am ∈ before ++ after)
    (amends : isOriginal parse am.text = false) :
    summarizeConversation parse render (before ++ copy :: after) =
        summarizeConversation parse render (before ++ after) ↔
      ∀ m, summarized parse (before ++ after) = some m → hasMedia parse m = false →
        ¬ Overrides parse (before ++ after) copy m := by
  have same : summarized parse (before ++ copy :: after) = summarized parse (before ++ after) := by
    rw [summarized, summarized, originals_inserted (copies.text ▸ amends)]
  rw [summarizeConversation_map, summarizeConversation_map, same]
  cases latest : summarized parse (before ++ after) with
  | none => simp
  | some m =>
    obtain ⟨inside, original⟩ := summarized_inside latest
    simp only [Option.map_some, Option.some.injEq, forall_eq']
    -- a deleted message stays deleted
    by_cases retracted : ∃ x ∈ before ++ after, retracts parse m x = true
    · rw [preview_retracted render retracted,
        preview_retracted render ((retracted_inserted copies here).mpr retracted)]
      refine iff_of_true rfl fun _ overrides => ?_
      obtain ⟨x, member, deletes_⟩ := retracted
      rw [overrides.kept x member] at deletes_
      cases deletes_
    · -- the preview is the last edit, which the copy changes exactly if it overrides
      have none_ : ∀ x ∈ before ++ after, retracts parse m x = false :=
        fun x member => Bool.eq_false_iff.mpr fun deletes_ => retracted ⟨x, member, deletes_⟩
      have none_' : ∀ x ∈ before ++ copy :: after, retracts parse m x = false :=
        fun x member => Bool.eq_false_iff.mpr fun deletes_ =>
          retracted ((retracted_inserted copies here).mp ⟨x, member, deletes_⟩)
      rw [preview_kept render original none_, preview_kept render original none_']
      cases media : hasMedia parse m with
      | true => simp
      | false =>
        have caption : captioned parse m = true := by
          unfold hasMedia at media
          unfold isOriginal at original
          unfold captioned
          split at original <;> simp_all
        have shows_ : Overrides parse (before ++ after) copy m ↔ Supersedes parse (before ++ after) copy m :=
          ⟨fun overrides => overrides.supersedes, fun supersedes =>
            ⟨inside, none_, caption, fun wrong => absurd (media.symm.trans wrong) (by decide), supersedes⟩⟩
        simp only [shows_, true_imp_iff]
        constructor
        · intro equal supersedes
          obtain ⟨body, other, last, last', differs⟩ := supersedes.last distinct
          rw [last, last'] at equal
          obtain ⟨x, _, given⟩ := mem_bodies.mp (List.mem_of_getLast? last)
          obtain ⟨y, _, given'⟩ := mem_bodies.mp (List.mem_of_getLast? last')
          have texts : render body = render other := congrArg Summary.lastMessageText equal
          exact differs (render_inj stringifies (editBody_text stringifies given)
            (editBody_text stringifies given') texts).symm
        · intro kept
          rw [last_kept distinct copies here kept]

/-- A replay changes no bubble and no summary exactly when it overrides nothing that is shown. -/
theorem replay_unchanged (stringifies : Stringifies account.parse account.render)
    (distinct : Distinct (before ++ copy :: after)) (copies : Copies am copy) (here : am ∈ before ++ after)
    (amends : (parseInner account.parse am.text).isAmendment = true) :
    (view account atob (before ++ copy :: after) = view account atob (before ++ after) ∧
      summarizeConversation account.parse account.render (before ++ copy :: after) =
        summarizeConversation account.parse account.render (before ++ after)) ↔
    ∀ m, Overrides account.parse (before ++ after) copy m →
      ¬ (∀ x ∈ before ++ after, decodable account.parse atob x = true) ∧
      ¬ (summarized account.parse (before ++ after) = some m ∧ hasMedia account.parse m = false) := by
  have other : isOriginal account.parse am.text = false := by
    unfold isOriginal
    cases inner : parseInner account.parse am.text <;> simp_all [ParsedInner.isAmendment]
  rw [view_inserted distinct copies here other, summary_inserted stringifies distinct copies here other]
  constructor
  · rintro ⟨shown, listed⟩ m overrides
    exact ⟨fun decodes => shown decodes m overrides, fun ⟨latest, text⟩ => listed m latest text overrides⟩
  · intro none_
    exact ⟨fun decodes m overrides => (none_ m overrides).1 decodes,
      fun m latest text overrides => (none_ m overrides).2 ⟨latest, text⟩⟩

end Replays

section Samples

open Demo

def replayer : Account := { viewer with render := renderText }

/-- A text, and the two edits of `viewer`. -/
def beach : List StoredMessage := [row bob "a" "sea", cleared, renamed]

/-- The first edit once more, under the id `d`. -/
def reissued : StoredMessage := row bob "d" (recaption "")

theorem beach_distinct : Distinct (beach ++ [reissued]) := by
  refine distinct_of_names (fun m member => ?_) (by decide)
  simp only [beach, List.mem_append, List.mem_cons, List.not_mem_nil, or_false] at member
  rcases member with (rfl | rfl | rfl) | rfl <;> rfl

/-- The copy of the first edit undoes the second one, in the chat and in the chat list. -/
theorem edit_reissued : Distinct (beach ++ [reissued]) ∧ Copies cleared reissued ∧ cleared ∈ beach ∧
    cleared.place < reissued.place ∧ (parseInner replayer.parse cleared.text).isAmendment = true ∧
    view replayer atob (beach ++ [reissued]) ≠ view replayer atob beach ∧
    summarizeConversation replayer.parse replayer.render (beach ++ [reissued]) ≠
      summarizeConversation replayer.parse replayer.render beach := by
  refine ⟨beach_distinct, ⟨rfl, rfl⟩, by simp [beach], by decide, by decide, ?_,
    by decide +kernel⟩
  have shore : ((view replayer atob beach).any fun faces =>
      faces.any fun face => face.2.1.same (.str "shore")) = true := by decide
  have blank : ((view replayer atob (beach ++ [reissued])).any fun faces =>
      faces.any fun face => face.2.1.same (.str "shore")) = false := by decide
  intro same
  rw [same, shore] at blank
  cases blank

/-- Bob's only edit once more. -/
theorem revision_reissued :
    view teller atob (revision ++ [row bob "c" editText]) = view teller atob revision ∧
      summarizeConversation teller.parse teller.render (revision ++ [row bob "c" editText]) =
        summarizeConversation teller.parse teller.render revision := by
  have distinct : Distinct (revision ++ [row bob "c" editText]) := by
    refine distinct_of_names (fun m member => ?_) (by decide)
    simp only [revision, List.mem_append, List.mem_cons, List.not_mem_nil, or_false] at member
    rcases member with (rfl | rfl) | rfl <;> rfl
  have copies : Copies { row bob "b" editText with timestamp := some 1 } (row bob "c" editText) := ⟨rfl, rfl⟩
  have amends : (parseInner teller.parse editText).isAmendment = true := by decide +kernel
  have same := @replay_unchanged teller atob revision [] _ _ text_stringifies distinct copies
    (by simp [revision]) amends
  rw [List.append_nil] at same
  refine same.mpr fun m overrides => ?_
  obtain ⟨body, other, given, ⟨am, inside, given', _⟩, differs, _⟩ := overrides.supersedes
  have plain : editBody teller.parse m hello = none := by
    have text : parseInner teller.parse hello.text = .text (.str "hi") := by rfl
    simp [editBody, text]
  rw [copies.editBody] at given
  rcases List.mem_pair.mp inside with rfl | rfl
  · rw [plain] at given'
    cases given'
  · rw [given] at given'
    exact absurd (Option.some.inj given').symm differs

end Samples

end Atmin.Web
