import Atmin.Sync.Previews
import Atmin.Web.Atob

/-!
# Bubbles

One bubble for each text and each media message, in the order of the list, under the
amendments of its author. What comes from others changes no bubble, and neither does the
order in which amendments arrive; but a media message whose keys do not decode takes the
whole view with it.
-/

namespace Atmin.Web

/-! ### What decodes -/

section Decoding

variable {account : Account} {atob : String → Option (List UInt8)}

def PreviewRef.decodes (atob : String → Option (List UInt8)) (p : PreviewRef) : Bool :=
  (base64UrlDecode atob p.key).isSome && (base64UrlDecode atob p.iv).isSome

/-- The key and the iv are base64url, those of a preview as well. -/
def ParsedMediaFile.decodes (atob : String → Option (List UInt8)) (file : ParsedMediaFile) : Bool :=
  (base64UrlDecode atob file.key).isSome && (base64UrlDecode atob file.iv).isSome &&
    file.preview.all (PreviewRef.decodes atob)

/-- Whether the message can be materialized; only media have anything to decode. -/
def decodable (parse : String → Option Json) (atob : String → Option (List UInt8))
    (m : StoredMessage) : Bool :=
  match parseInner parse m.text with
  | .media _ file => file.decodes atob
  | _ => true

theorem decodePreview_isSome (p : PreviewRef) : (decodePreview atob p).isSome = p.decodes atob := by
  unfold decodePreview PreviewRef.decodes
  cases base64UrlDecode atob p.key <;> cases base64UrlDecode atob p.iv <;> rfl

theorem decodeMedia_isSome (file : ParsedMediaFile) :
    (decodeMedia atob file).isSome = file.decodes atob := by
  unfold decodeMedia ParsedMediaFile.decodes
  cases base64UrlDecode atob file.key with
  | none => rfl
  | some key =>
    cases base64UrlDecode atob file.iv with
    | none => rfl
    | some iv =>
      cases file.preview with
      | none => rfl
      | some p =>
        have preview : (decodePreview atob p).isSome = p.decodes atob := decodePreview_isSome p
        cases decoded : decodePreview atob p <;> simp [decoded] at preview ⊢ <;> simp [preview]

theorem baseMessage_isSome (m : StoredMessage) :
    (baseMessage account atob m).isSome = decodable account.parse atob m := by
  unfold baseMessage decodable
  cases inner : parseInner account.parse m.text with
  | text body => rfl
  | media body file =>
    dsimp only
    rw [← decodeMedia_isSome]
    cases decodeMedia atob file <;> rfl
  | amendment target action body => rfl
  | unknown => rfl

theorem baseMessage_join {m : StoredMessage} (decodes : decodable account.parse atob m = true) :
    (baseMessage account atob m).join.isSome = isOriginal account.parse m.text := by
  have based := (baseMessage_isSome m).trans decodes
  unfold baseMessage at based ⊢
  unfold isOriginal
  cases inner : parseInner account.parse m.text with
  | text body => rfl
  | media body file =>
    rw [inner] at based
    dsimp only at based ⊢
    cases media : decodeMedia atob file with
    | none => simp [media] at based
    | some found => rfl
  | amendment target action body => rfl
  | unknown => rfl

theorem entry_isSome (msgs : List StoredMessage) {m : StoredMessage}
    (decodes : decodable account.parse atob m = true) :
    (entry account atob msgs m).isSome = isOriginal account.parse m.text := by
  rw [entry, Option.isSome_map, baseMessage_join decodes]

/-- A view is made of the entries of its rows, unless one of them does not decode. -/
theorem toMessages_eq (msgs : List StoredMessage) : toMessages account atob msgs =
    if msgs.all (decodable account.parse atob) then some (msgs.filterMap (entry account atob msgs))
    else none := by
  rw [toMessages, materialize_eq]
  simp only [baseMessage_isSome]

end Decoding

/-! ### One bubble a message -/

section Bubbles

variable {account : Account} {atob : String → Option (List UInt8)} {msgs : List StoredMessage}

/-- The texts and the media messages of a list. -/
def originals (parse : String → Option Json) (msgs : List StoredMessage) : List StoredMessage :=
  msgs.filter fun m => isOriginal parse m.text

/-- One bubble for each text and each media message, in the order of the list. -/
def Renders (account : Account) (atob : String → Option (List UInt8)) (msgs : List StoredMessage) :
    Prop :=
  ∃ shown, toMessages account atob msgs = some shown ∧
    shown.map Message.id = (originals account.parse msgs).map StoredMessage.id

/-- What the view shows under an id, if there is a view. -/
def bubble (account : Account) (atob : String → Option (List UInt8)) (msgs : List StoredMessage)
    (id : Js) : Option (Option Message) :=
  (toMessages account atob msgs).map fun shown => shown.find? fun b => b.id.same id

/-- The bubbles of a list, each with its original. -/
theorem entries_forall {rows : List StoredMessage} {R : StoredMessage → Message → Prop}
    (decodes : ∀ m ∈ rows, decodable account.parse atob m = true)
    (each : ∀ m ∈ rows, ∀ b, entry account atob msgs m = some b → R m b) :
    List.Forall₂ R (originals account.parse rows) (rows.filterMap (entry account atob msgs)) := by
  induction rows with
  | nil => exact .nil
  | cons m rest ih =>
    have shown := entry_isSome msgs (decodes m (by simp))
    have others := ih (fun m' member => decodes m' (List.mem_cons_of_mem _ member))
      fun m' member => each m' (List.mem_cons_of_mem _ member)
    cases made : entry account atob msgs m with
    | none =>
      rw [made] at shown
      rwa [List.filterMap_cons_none made, originals, List.filter_cons_of_neg (by simp [← shown])]
    | some b =>
      rw [made] at shown
      rw [List.filterMap_cons_some made, originals, List.filter_cons_of_pos (by simp [← shown])]
      exact .cons (each m (by simp) b made) others

theorem entries_ids {rows : List StoredMessage}
    (decodes : ∀ m ∈ rows, decodable account.parse atob m = true) :
    (rows.filterMap (entry account atob msgs)).map Message.id =
      (originals account.parse rows).map StoredMessage.id := by
  have paired : List.Forall₂ (fun (m : StoredMessage) (b : Message) => m.id = b.id)
      (originals account.parse rows) (rows.filterMap (entry account atob msgs)) :=
    entries_forall decodes fun m _ b made => (entry_id made).symm
  rw [eq_comm, ← List.forall₂_eq_eq_eq, List.forall₂_map_left_iff, List.forall₂_map_right_iff]
  exact paired

theorem renders_iff :
    Renders account atob msgs ↔ ∀ m ∈ msgs, decodable account.parse atob m = true := by
  rw [Renders, toMessages_eq]
  constructor
  · rintro ⟨shown, view, _⟩
    split at view
    next all => exact List.all_eq_true.mp all
    next => cases view
  · intro decodes
    rw [if_pos (List.all_eq_true.mpr decodes)]
    exact ⟨_, rfl, entries_ids decodes⟩

/-- Two lists with the same messages of one author have the same entries of the author. -/
theorem entry_author {rows : List StoredMessage} (distinct : Distinct msgs)
    (distinct' : Distinct rows) {m : StoredMessage}
    (common : ∀ x, x.fromUser.same m.fromUser = true → (x ∈ msgs ↔ x ∈ rows)) :
    entry account atob msgs m = entry account atob rows m := by
  simp only [entry]
  congr 1
  funext base
  rw [amend_author, chain_author distinct distinct' common, ← amend_author]

theorem Distinct.sublist {rows : List StoredMessage} (distinct : Distinct msgs)
    (part : rows.Sublist msgs) : Distinct rows where
  nodup := distinct.nodup.sublist part
  ids m member := distinct.ids m (part.subset member)
  unique m member m' member' := distinct.unique m (part.subset member) m' (part.subset member')

/-- A bubble is the entry of the message under the id. -/
theorem bubble_eq (distinct : Distinct msgs)
    (decodes : ∀ m ∈ msgs, decodable account.parse atob m = true) {m : StoredMessage}
    (here : m ∈ msgs) : bubble account atob msgs m.id = some (entry account atob msgs m) := by
  rw [bubble, toMessages_eq, if_pos (List.all_eq_true.mpr decodes), Option.map_some]
  congr 1
  have named : m.id.same m.id = true := by rw [distinct.ids m here, Js.same_str]
  refine find_entry (fun _ _ made => entry_id made) here named fun m' inside same => ?_
  exact distinct.unique m' inside m here (Js.eq_of_same same)

/-- One more message leaves the bubbles of the other authors as they are. -/
theorem bubble_insert {before after : List StoredMessage} {m : StoredMessage}
    (distinct : Distinct (before ++ m :: after))
    (decodes : ∀ x ∈ before ++ m :: after, decodable account.parse atob x = true)
    {other : StoredMessage} (here : other ∈ before ++ after)
    (stranger : other.fromUser.same m.fromUser = false) :
    bubble account atob (before ++ m :: after) other.id =
      bubble account atob (before ++ after) other.id := by
  have part : (before ++ after).Sublist (before ++ m :: after) :=
    (List.Sublist.refl before).append (List.sublist_cons_self m after)
  rw [bubble_eq distinct decodes (part.subset here),
    bubble_eq (distinct.sublist part) (fun x member => decodes x (part.subset member)) here,
    entry_author distinct (distinct.sublist part)]
  intro x own
  refine ⟨fun inside => ?_, fun inside => part.subset inside⟩
  -- The new message is by somebody else, so a message of the author was there before.
  have apart : x ≠ m := by
    rintro rfl
    have same := Js.eq_of_same own
    rw [← same] at own stranger
    rw [own] at stranger
    cases stranger
  simp only [List.mem_append, List.mem_cons] at inside ⊢
  rcases inside with left | rfl | right
  · exact .inl left
  · exact absurd rfl apart
  · exact .inr right

/-- A list is materialized message by message, and each message leaves the bubbles of other
authors alone, exactly where all its media decode. -/
theorem materialized_iff (distinct : Distinct msgs) :
    (Renders account atob msgs ∧
      ∀ before m after, msgs = before ++ m :: after →
        ∀ other ∈ before ++ after, other.fromUser.same m.fromUser = false →
          bubble account atob msgs other.id = bubble account atob (before ++ after) other.id) ↔
    ∀ m ∈ msgs, decodable account.parse atob m = true := by
  constructor
  · rintro ⟨renders, _⟩
    exact renders_iff.mp renders
  · intro decodes
    refine ⟨renders_iff.mpr decodes, ?_⟩
    rintro before m after rfl other here stranger
    exact bubble_insert distinct decodes here stranger

end Bubbles

/-! ### Amendments that count -/

section Amendments

variable {account : Account} {atob : String → Option (List UInt8)} {msgs : List StoredMessage}

/-- A message that deletes what it amends. -/
def deletes (parse : String → Option Json) (am : StoredMessage) : Bool :=
  match parseInner parse am.text with
  | .amendment _ action _ => action.same (.str "delete")
  | _ => false

/-- A message that edits what it amends; without a body it has no effect. -/
def edits (parse : String → Option Json) (am : StoredMessage) : Bool :=
  match parseInner parse am.text with
  | .amendment _ action _ => action.same (.str "edit")
  | _ => false

/-- An amendment without an original in the list, of the message of somebody else, or of an
unknown action. -/
def inert (parse : String → Option Json) (msgs : List StoredMessage) (am : StoredMessage) : Bool :=
  match parseInner parse am.text with
  | .amendment target _ _ =>
    match (originals parse msgs).find? fun m => m.id.same target with
    | some m => !am.fromUser.same m.fromUser || !(deletes parse am || edits parse am)
    | none => true
  | _ => false

/-- What a chain does not act on for the author. -/
def skipped (parse : String → Option Json) (author : Js) (am : StoredMessage) : Bool :=
  !am.fromUser.same author || !(deletes parse am || edits parse am)

def Message.removed (base : Message) : Message :=
  { base with deleted := true, text := .str "", media := none }

/-- An edit without a body, or of a media message without a caption, is malformed. -/
def Message.edited (base : Message) (am : StoredMessage) : Option Js → Message
  | none => base
  | some body =>
    if base.media.isSome && base.text.same (.str "") then base
    else { base with text := body, editedAt := some am.timestamp }

/-- A member of a chain is skipped, deletes or edits. -/
theorem chain_cases (parse : String → Option Json) (author : Js) (am : StoredMessage) :
    skipped parse author am = true ∨
    (am.fromUser.same author = true ∧ deletes parse am = true) ∨
    (am.fromUser.same author = true ∧ deletes parse am = false ∧
      ∃ target body, parseInner parse am.text = .amendment target (.str "edit") body) := by
  unfold skipped deletes edits
  cases inner : parseInner parse am.text with
  | text body => exact .inl (by simp)
  | media body file => exact .inl (by simp)
  | unknown => exact .inl (by simp)
  | amendment target action body =>
    dsimp only
    cases own : am.fromUser.same author with
    | false => exact .inl (by simp)
    | true =>
      cases deleting : action.same (.str "delete") with
      | true => exact .inr (.inl ⟨rfl, rfl⟩)
      | false =>
        cases editing : action.same (.str "edit") with
        | false => exact .inl (by simp)
        | true =>
          rw [(Js.same_of_str "edit" action).mp editing]
          exact .inr (.inr ⟨rfl, rfl, target, body, rfl⟩)

theorem amend_skip {author : Js} {am : StoredMessage} (skip : skipped account.parse author am = true)
    (base : Message) (rest : List StoredMessage) :
    amend account author base (am :: rest) = amend account author base rest := by
  unfold skipped deletes edits at skip
  rw [amend]
  cases inner : parseInner account.parse am.text with
  | text body => rfl
  | media body file => rfl
  | unknown => rfl
  | amendment target action body =>
    rw [inner] at skip
    cases own : am.fromUser.same author with
    | false => simp
    | true => simp_all

theorem amend_remove {author : Js} {am : StoredMessage} (own : am.fromUser.same author = true)
    (deleting : deletes account.parse am = true) (base : Message) (rest : List StoredMessage) :
    amend account author base (am :: rest) = base.removed := by
  unfold deletes at deleting
  rw [amend]
  cases inner : parseInner account.parse am.text with
  | text body => simp [inner] at deleting
  | media body file => simp [inner] at deleting
  | unknown => simp [inner] at deleting
  | amendment target action body =>
    have action_ : action.same (.str "delete") = true := by simpa only [inner] using deleting
    simp only [own, action_, Bool.not_true, Bool.false_eq_true, if_false, if_true, Message.removed]

theorem amend_edit {author target : Js} {am : StoredMessage} {body : Option Js}
    (own : am.fromUser.same author = true)
    (inner : parseInner account.parse am.text = .amendment target (.str "edit") body) (base : Message)
    (rest : List StoredMessage) :
    amend account author base (am :: rest) = amend account author (base.edited am body) rest := by
  have edit : (Js.str "edit").same (.str "delete") = false := by decide
  have edit_ : (Js.str "edit").same (.str "edit") = true := by decide
  rw [amend, inner]
  simp only [own, edit, edit_, Bool.not_true, Bool.false_eq_true, if_false, if_true, Message.edited]
  cases body with
  | none => rfl
  | some body =>
    dsimp only
    split <;> rfl

/-- A chain without the messages that are skipped amends alike. -/
theorem amend_filter {author : Js} {p : StoredMessage → Bool} {chain : List StoredMessage}
    (skips : ∀ am ∈ chain, p am = false → skipped account.parse author am = true) (base : Message) :
    amend account author base chain = amend account author base (chain.filter p) := by
  induction chain generalizing base with
  | nil => rfl
  | cons am rest ih =>
    have others (base : Message) := ih (fun x member => skips x (List.mem_cons_of_mem _ member)) base
    cases kept : p am with
    | true =>
      rw [List.filter_cons_of_pos kept]
      simp only [amend, others]
    | false =>
      rw [List.filter_cons_of_neg (by simp [kept]), ← others]
      exact amend_skip (skips am (by simp) kept) base rest

theorem edited_deleted (base : Message) (am : StoredMessage) (body : Option Js) :
    (base.edited am body).deleted = base.deleted := by
  cases body with
  | none => rfl
  | some body =>
    rw [Message.edited]
    split <;> rfl

/-- A bubble is deleted by the deletions of its author. -/
theorem amend_deleted (account : Account) (author : Js) (base : Message) (chain : List StoredMessage) :
    (amend account author base chain).deleted = true ↔ base.deleted = true ∨
      ∃ am ∈ chain, am.fromUser.same author = true ∧ deletes account.parse am = true := by
  induction chain generalizing base with
  | nil => simp [amend]
  | cons am rest ih =>
    simp only [List.mem_cons, exists_eq_or_imp]
    rcases chain_cases account.parse author am with skip | ⟨own, deleting⟩ |
      ⟨own, kept, target, body, inner⟩
    · have idle : ¬ (am.fromUser.same author = true ∧ deletes account.parse am = true) := by
        rintro ⟨own, deleting⟩
        simp [skipped, own, deleting] at skip
      rw [amend_skip skip, ih]
      simp only [idle, false_or]
    · rw [amend_remove own deleting]
      simp [Message.removed, own, deleting]
    · rw [amend_edit own inner, ih, edited_deleted]
      simp only [kept, Bool.false_eq_true, and_false, false_or]

/-! ### The order of arrival -/

/-- Sorted lists of the same messages are equal. -/
theorem Distinct.sorted_ext (distinct : Distinct msgs) {l l' : List StoredMessage}
    (part : ∀ m ∈ l, m ∈ msgs) (nodup : l.Nodup) (nodup' : l'.Nodup)
    (sorted : l.Pairwise fun a b => a.place ≤ b.place) (sorted' : l'.Pairwise fun a b => a.place ≤ b.place)
    (same : ∀ m, m ∈ l ↔ m ∈ l') : l = l' := by
  refine ((List.perm_ext_iff_of_nodup nodup nodup').mpr same).eq_of_pairwise ?_ sorted sorted'
  intro a b first second le ge
  have here := part a first
  have there := part b ((same b).mpr second)
  refine distinct.unique a here b there ?_
  rw [distinct.ids a here, distinct.ids b there, Utf16.place_inj (le_antisymm le ge)]

theorem chain_nodup {parse : String → Option Json} (distinct : Distinct msgs) (target : Js) :
    (amendmentChain parse msgs target).Nodup :=
  (List.perm_insertionSort _ _).nodup_iff.mpr (distinct.nodup.filter _)

/-- The chains of a part of the list are the parts of the chains. -/
theorem chain_filter {parse : String → Option Json} (distinct : Distinct msgs)
    (p : StoredMessage → Bool) (target : Js) :
    amendmentChain parse (msgs.filter p) target = (amendmentChain parse msgs target).filter p := by
  have part : (msgs.filter p).Sublist msgs := List.filter_sublist
  have distinct' := distinct.sublist part
  refine distinct.sorted_ext (fun m member => part.subset (mem_chain.mp member).1)
    (chain_nodup distinct' target) ((chain_nodup distinct target).filter p)
    (chain_sorted distinct' target) ((chain_sorted distinct target).filter p) fun m => ?_
  rw [mem_chain, List.mem_filter, List.mem_filter, mem_chain, and_right_comm]

theorem baseMessage_other {m : StoredMessage} (other : isOriginal account.parse m.text = false) :
    baseMessage account atob m = some none := by
  unfold isOriginal at other
  unfold baseMessage
  cases inner : parseInner account.parse m.text with
  | text body => simp [inner] at other
  | media body file => simp [inner] at other
  | amendment target action body => rfl
  | unknown => rfl

/-- Only originals have anything to decode. -/
theorem all_originals (list : List StoredMessage) : list.all (decodable account.parse atob) =
    (originals account.parse list).all (decodable account.parse atob) := by
  rw [originals, List.all_filter]
  refine List.all_congr rfl fun m => ?_
  cases original : isOriginal account.parse m.text with
  | true => simp
  | false =>
    have based : (baseMessage account atob m).isSome = decodable account.parse atob m :=
      baseMessage_isSome m
    rw [baseMessage_other original] at based
    simp [← based]

theorem entries_originals (list rows : List StoredMessage) : list.filterMap (entry account atob rows) =
    (originals account.parse list).filterMap (entry account atob rows) := by
  rw [originals, List.filterMap_filter]
  refine List.filterMap_congr fun m _ => ?_
  split
  next => rfl
  next other => simp [entry, baseMessage_other (Bool.eq_false_iff.mpr other)]

/-- Lists with the same originals under chains that amend alike make the same bubbles. -/
theorem toMessages_congr {rows : List StoredMessage}
    (same : originals account.parse rows = originals account.parse msgs)
    (alike : ∀ m ∈ originals account.parse msgs, ∀ base,
      amend account m.fromUser base (amendmentChain account.parse rows m.id) =
        amend account m.fromUser base (amendmentChain account.parse msgs m.id)) :
    toMessages account atob rows = toMessages account atob msgs := by
  rw [toMessages_eq, toMessages_eq, all_originals rows, all_originals msgs, same, entries_originals rows,
    entries_originals msgs, same]
  congr 2
  refine List.filterMap_congr fun m member => ?_
  simp only [entry, alike m member]

/-- What is inert in a list is skipped in the chain of every original. -/
theorem inert_skipped (distinct : Distinct msgs) {m am : StoredMessage}
    (original : m ∈ originals account.parse msgs)
    (listed : am ∈ amendmentChain account.parse msgs m.id)
    (idle : inert account.parse msgs am = true) : skipped account.parse m.fromUser am = true := by
  have names := (mem_chain.mp listed).2
  unfold inert at idle
  cases inner : parseInner account.parse am.text with
  | text body => simp [inner] at names
  | media body file => simp [inner] at names
  | unknown => simp [inner] at names
  | amendment target action body =>
    simp only [inner] at names idle
    have target_ := Js.eq_of_same names
    subst target_
    have here := (List.mem_filter.mp original).1
    have self_ : m.id.same m.id = true := by rw [distinct.ids m here, Js.same_str]
    cases found : (originals account.parse msgs).find? fun x => x.id.same m.id with
    | none => exact absurd self_ (List.find?_eq_none.mp found m original)
    | some x =>
      -- Ids are distinct, so this is the original the chain belongs to.
      have inside := (List.mem_filter.mp (List.mem_of_find?_eq_some found)).1
      have named := List.find?_some found
      have same := distinct.unique x inside m here (Js.eq_of_same named)
      subst same
      simpa only [found, skipped] using idle

/-- Amendments that are inert may as well be missing. -/
theorem toMessages_filter (distinct : Distinct msgs) {p : StoredMessage → Bool}
    (removed : ∀ m ∈ msgs, p m = false → inert account.parse msgs m = true) :
    toMessages account atob (msgs.filter p) = toMessages account atob msgs := by
  refine toMessages_congr ?_ fun m original base => ?_
  · rw [originals, originals, List.filter_filter]
    refine List.filter_congr fun m member => ?_
    cases kept : p m with
    | true => rw [Bool.and_true]
    | false =>
      have idle := removed m member kept
      unfold inert at idle
      unfold isOriginal
      cases inner : parseInner account.parse m.text with
      | text body => simp [inner] at idle
      | media body file => simp [inner] at idle
      | unknown => simp [inner] at idle
      | amendment target action body => rfl
  · rw [chain_filter distinct p m.id]
    refine (amend_filter (fun am listed dropped => ?_) base).symm
    exact inert_skipped distinct original listed (removed am (mem_chain.mp listed).1 dropped)

/-- The order of the amendments is no matter. -/
theorem toMessages_perm (distinct : Distinct msgs) {rows : List StoredMessage} (perm : rows.Perm msgs)
    (same : originals account.parse rows = originals account.parse msgs) :
    toMessages account atob rows = toMessages account atob msgs := by
  have distinct' : Distinct rows :=
    ⟨perm.nodup_iff.mpr distinct.nodup, fun m member => distinct.ids m (perm.mem_iff.mp member),
      fun m member m' member' => distinct.unique m (perm.mem_iff.mp member) m' (perm.mem_iff.mp member')⟩
  refine toMessages_congr same fun m _ base => ?_
  rw [chain_congr distinct' distinct m.id fun x _ => perm.mem_iff]

/-- A bubble, and whether its author deleted it. -/
def DeletedByAuthor (account : Account) (msgs : List StoredMessage) (m : StoredMessage) (b : Message) :
    Prop :=
  b.id = m.id ∧ (b.deleted = true ↔ ∃ am ∈ amendmentChain account.parse msgs m.id,
    am.fromUser.same m.fromUser = true ∧ deletes account.parse am = true)

theorem baseMessage_deleted {m : StoredMessage} {base : Message}
    (made : baseMessage account atob m = some (some base)) : base.deleted = false := by
  unfold baseMessage at made
  cases inner : parseInner account.parse m.text with
  | text body =>
    simp only [inner, Option.some.injEq] at made
    rw [← made]
  | media body file =>
    simp only [inner] at made
    cases media : decodeMedia atob file with
    | none => simp [media] at made
    | some found =>
      simp only [media, Option.bind_eq_bind, Option.bind_some, Option.pure_def, Option.some.injEq] at made
      rw [← made]
  | amendment target action body => simp [inner] at made
  | unknown => simp [inner] at made

theorem entry_deleted {m : StoredMessage} {b : Message}
    (made : entry account atob msgs m = some b) : DeletedByAuthor account msgs m b := by
  refine ⟨entry_id made, ?_⟩
  obtain ⟨base, found, rfl⟩ := Option.map_eq_some_iff.mp made
  rw [amend_deleted, baseMessage_deleted (Option.join_eq_some_iff.mp found)]
  simp

/-- Amendments that are inert may as well be missing, the order of the others is no matter, and
a bubble is deleted where its author said so. -/
theorem amendments_guarded (distinct : Distinct msgs)
    (decodes : ∀ m ∈ msgs, decodable account.parse atob m = true) :
    toMessages account atob (msgs.filter fun m => !inert account.parse msgs m) =
        toMessages account atob msgs ∧
      (∀ rows : List StoredMessage, rows.Perm msgs →
        originals account.parse rows = originals account.parse msgs →
          toMessages account atob rows = toMessages account atob msgs) ∧
      ∃ shown, toMessages account atob msgs = some shown ∧
        List.Forall₂ (DeletedByAuthor account msgs) (originals account.parse msgs) shown := by
  refine ⟨toMessages_filter distinct fun m _ dropped => by simpa using dropped,
    fun rows perm same => toMessages_perm distinct perm same, _, ?_,
    entries_forall decodes fun m _ b made => entry_deleted made⟩
  rw [toMessages_eq, if_pos (List.all_eq_true.mpr decodes)]

end Amendments

section Samples

open Demo

theorem distinct_of_names {rows : List StoredMessage} (named : ∀ m ∈ rows, m.id = .str m.name)
    (names : (rows.map StoredMessage.name).Nodup) : Distinct rows where
  nodup := names.of_map
  ids := named
  unique m member m' member' same := by
    refine List.inj_on_of_nodup_map names member member' ?_
    rw [StoredMessage.name, StoredMessage.name, same]

/-- A message to the user. -/
def row (sender : UserId) (id text : String) : StoredMessage :=
  { id := .str id, userId := user.str, conversationId := .str "dm:a:b", fromUser := .str sender.str
    fromDevice := .str device.str, text, timestamp := some 0 }

/-- A media message whose key is no base64, and the deletion of another message. -/
def brokenText : String :=
  "\x7b\"type\":\"media\",\"body\":\"\",\"file\":\x7b\"url\":\"u\",\"key\":\"!\",\"iv\":\"\"," ++
    "\"name\":\"n\",\"size\":1\x7d\x7d"

def deletionText : String :=
  "\x7b\"type\":\"amendment\",\"target_msg_id\":\"a\",\"action\":\"delete\"\x7d"

/-- `JSON.parse` of these two. -/
def readText (text : String) : Option Json :=
  if text = brokenText then
    some (.obj [("type", .str "media"), ("body", .str ""), ("file", .obj [("url", .str "u"),
      ("key", .str "!"), ("iv", .str ""), ("name", .str "n"), ("size", .num (.int 1))])])
  else if text = deletionText then
    some (.obj [("type", .str "amendment"), ("target_msg_id", .str "a"), ("action", .str "delete")])
  else none

def reader : Account := { account with parse := readText }

/-- Bob's greeting, Mallory's photo, and Mallory's deletion of the greeting. -/
def hello : StoredMessage := row bob "a" "hi"

def photo : StoredMessage := row mallory "b" brokenText

def silencing : StoredMessage := row mallory "b" deletionText

theorem hello_then (m : StoredMessage) (other : m.id = .str "b") : Distinct [hello, m] := by
  have named : m.name = "b" := by rw [StoredMessage.name, other, Js.asStr_str, Option.getD_some]
  refine distinct_of_names (fun x member => ?_) ?_
  · rcases List.mem_pair.mp member with rfl | rfl
    · rfl
    · rw [other, named]
  · rw [List.map_cons, List.map_cons, List.map_nil, named]
    decide

/-- One photo with a broken key, and Bob's greeting is gone. -/
theorem photo_blanks : Distinct [hello, photo] ∧ ¬ Renders reader atob [hello, photo] ∧
    bubble reader atob [hello, photo] hello.id ≠ bubble reader atob [hello] hello.id := by
  refine ⟨hello_then photo rfl, fun renders => ?_, fun same => ?_⟩
  · exact absurd (renders_iff.mp renders photo (by simp)) (by decide)
  · have lost : (bubble reader atob [hello, photo] hello.id).isSome = false := by decide
    have shown : (bubble reader atob [hello] hello.id).isSome = true := by decide
    rw [same, shown] at lost
    cases lost

theorem silencing_decodes :
    ∀ m ∈ [hello, silencing], decodable reader.parse atob m = true := by decide

/-- Mallory's deletion changes nothing. -/
theorem silencing_local : Renders reader atob [hello, silencing] ∧
    bubble reader atob [hello, silencing] hello.id = bubble reader atob [hello] hello.id := by
  obtain ⟨renders, local_⟩ := (materialized_iff (hello_then silencing rfl)).mpr silencing_decodes
  exact ⟨renders, local_ [hello] silencing [] rfl hello (by simp) (by decide)⟩

theorem silencing_inert : inert reader.parse [hello, silencing] silencing = true ∧
    toMessages reader atob ([hello, silencing].filter fun m => !inert reader.parse [hello, silencing] m) =
      toMessages reader atob [hello, silencing] ∧
    toMessages reader atob [silencing, hello] = toMessages reader atob [hello, silencing] ∧
    ∃ shown, toMessages reader atob [hello, silencing] = some shown ∧
      List.Forall₂ (DeletedByAuthor reader [hello, silencing])
        (originals reader.parse [hello, silencing]) shown := by
  obtain ⟨removed, reordered, deleted⟩ :=
    amendments_guarded (hello_then silencing rfl) silencing_decodes
  refine ⟨by decide, removed, reordered _ (.swap ..) ?_, deleted⟩
  have first : isOriginal reader.parse hello.text = true := by decide
  have second : isOriginal reader.parse silencing.text = false := by decide
  simp [originals, first, second]

end Samples

end Atmin.Web
