import Atmin.Interaction.Latest
import Atmin.Sync.LastBubble

/-!
# Which edit a bubble shows

The edits of a message are applied oldest id first, and each replaces the text. The last one
wins, unless an earlier one has emptied the caption of a photo: from then on the photo counts
as one without a caption, which has nothing to edit.
-/

namespace Atmin.Web

open Interaction

section Edits

variable {account : Account} {atob : String → Option (List UInt8)} {parse : String → Option Json}
  {msgs : List StoredMessage} {m : StoredMessage}

/-- The body that `am` gives to the message `m`, as an edit by its author. -/
def editBody (parse : String → Option Json) (m am : StoredMessage) : Option Js :=
  match parseInner parse am.text with
  | .amendment target action body =>
    if target.same m.id && am.fromUser.same m.fromUser && action.same (.str "edit") then body else none
  | _ => none

/-- `am` deletes the message `m`, and is by its author. -/
def retracts (parse : String → Option Json) (m am : StoredMessage) : Bool :=
  amendsRow parse m.id am && am.fromUser.same m.fromUser && deletes parse am

/-- The body of a text, or the caption of a media message. -/
def originalBody (parse : String → Option Json) (m : StoredMessage) : Option Js :=
  match parseInner parse m.text with
  | .text body | .media body _ => some body
  | _ => none

def hasMedia (parse : String → Option Json) (m : StoredMessage) : Bool :=
  match parseInner parse m.text with
  | .media .. => true
  | _ => false

/-- A text, or a media message with a caption. -/
def captioned (parse : String → Option Json) (m : StoredMessage) : Bool :=
  match parseInner parse m.text with
  | .text _ => true
  | .media body _ => !body.same (.str "")
  | _ => false

/-- The body of the author's edit with the greatest id, or else the original one. -/
def LastEdit (parse : String → Option Json) (msgs : List StoredMessage) (m : StoredMessage) (text : Js) :
    Prop :=
  Latest (editBody parse m) StoredMessage.place msgs text ∨
    (∀ am ∈ msgs, editBody parse m am = none) ∧ originalBody parse m = some text

/-- An edit that leaves a photo without a caption is not followed by one that counts. -/
def CaptionLast (parse : String → Option Json) (msgs : List StoredMessage) (m : StoredMessage) : Prop :=
  (∃ am ∈ msgs, editBody parse m am = some (.str "")) →
    Latest (editBody parse m) StoredMessage.place msgs (.str "")

/-! ### Along the chain -/

/-- The text after some edits; a photo whose text is empty keeps it. -/
def retitle (media : Bool) (text : Js) (bodies : List Js) : Js :=
  bodies.foldl (fun text body => if media && text.same (.str "") then text else body) text

theorem retitle_text (text : Js) (bodies : List Js) :
    retitle false text bodies = bodies.getLast?.getD text := by
  induction bodies generalizing text with
  | nil => rfl
  | cons body rest ih =>
    have step : retitle false text (body :: rest) = retitle false body rest := rfl
    rw [step, ih]
    cases rest <;> simp [List.getLast?_cons]

theorem retitle_empty (bodies : List Js) : retitle true (.str "") bodies = .str "" := by
  induction bodies with
  | nil => rfl
  | cons body rest ih => exact ih

/-- Empty once, empty for good. -/
theorem retitle_media {text : Js} (bodies : List Js) (some_ : text.same (.str "") = false) :
    retitle true text bodies =
      if bodies.any fun body => body.same (.str "") then .str "" else bodies.getLast?.getD text := by
  induction bodies generalizing text with
  | nil => rfl
  | cons body rest ih =>
    have step : retitle true text (body :: rest) = retitle true body rest := by
      rw [retitle, List.foldl_cons, some_]
      rfl
    rw [step]
    cases emptied : body.same (.str "") with
    | true =>
      rw [(Js.same_of_str "" body).mp emptied, retitle_empty]
      simp
    | false =>
      rw [ih emptied, List.any_cons, emptied, Bool.false_or]
      cases rest <;> simp [List.getLast?_cons]

theorem editBody_amendment {target : Js} {am : StoredMessage} {body : Option Js}
    (names : amendsRow parse m.id am = true) (own : am.fromUser.same m.fromUser = true)
    (inner : parseInner parse am.text = .amendment target (.str "edit") body) :
    editBody parse m am = body := by
  simp only [amendsRow, inner] at names
  simp [editBody, inner, names, own]

theorem editBody_skipped {am : StoredMessage} (skip : skipped parse m.fromUser am = true) :
    editBody parse m am = none := by
  unfold skipped edits at skip
  unfold editBody
  cases inner : parseInner parse am.text with
  | amendment target action body =>
    simp only [inner] at skip ⊢
    rw [if_neg]
    simp only [Bool.and_eq_true, not_and]
    intro names edit
    simp [names.2, edit] at skip
  | text body => rfl
  | media body file => rfl
  | unknown => rfl

/-- The text of a bubble that is not deleted. -/
theorem amend_text {chain : List StoredMessage} (base : Message)
    (names : ∀ am ∈ chain, amendsRow account.parse m.id am = true)
    (kept : ∀ am ∈ chain, retracts account.parse m am = false) :
    (amend account m.fromUser base chain).text =
      retitle base.media.isSome base.text (chain.filterMap (editBody account.parse m)) := by
  induction chain generalizing base with
  | nil => rfl
  | cons am rest ih =>
    rw [List.forall_mem_cons] at names kept
    have ih (base : Message) := ih base names.2 kept.2
    rcases chain_cases account.parse m.fromUser am with skip | ⟨own, deleting⟩ |
      ⟨own, _, target, body, inner⟩
    · rw [amend_skip skip, List.filterMap_cons_none (editBody_skipped skip)]
      exact ih base
    · -- no deletion by the author
      simp [retracts, names.1, own, deleting] at kept
    · have given : editBody account.parse m am = body := editBody_amendment names.1 own inner
      rw [amend_edit own inner, ih, edited_media]
      -- an edit without a body leaves the text
      cases body with
      | none => rw [List.filterMap_cons_none given, Message.edited]
      | some body =>
        rw [List.filterMap_cons_some given, Message.edited]
        show _ = retitle _ (if base.media.isSome && base.text.same (.str "") then base.text else body) _
        split <;> rfl

/-! ### The last edit -/

theorem editBody_names {am : StoredMessage} (has : (editBody parse m am).isSome) :
    amendsRow parse m.id am = true := by
  unfold editBody at has
  unfold amendsRow
  cases inner : parseInner parse am.text with
  | amendment target action body =>
    simp only [inner] at has ⊢
    split at has
    next all =>
      simp only [Bool.and_eq_true] at all
      exact all.1.1
    next => cases has
  | text body => simp [inner] at has
  | media body file => simp [inner] at has
  | unknown => simp [inner] at has

theorem chain_strict (distinct : Distinct msgs) (target : Js) :
    (amendmentChain parse msgs target).Pairwise fun a b => a.place < b.place := by
  have sorted : (amendmentChain parse msgs target).Pairwise fun a b => a.place ≤ b.place :=
    chain_sorted distinct target
  have nodup : (amendmentChain parse msgs target).Pairwise (· ≠ ·) := chain_nodup distinct target
  have both := List.pairwise_and_iff.mpr ⟨sorted, nodup⟩
  refine both.imp_of_mem fun {a b} first second ⟨le, apart⟩ => lt_of_le_of_ne le fun same => apart ?_
  have here := (mem_chain.mp first).1
  have there := (mem_chain.mp second).1
  exact distinct.unique a here b there (by rw [distinct.ids a here, distinct.ids b there, Utf16.place_inj same])

/-- The bodies of the edits of a message, oldest first. -/
def bodies (parse : String → Option Json) (msgs : List StoredMessage) (m : StoredMessage) : List Js :=
  (amendmentChain parse msgs m.id).filterMap (editBody parse m)

theorem latest_bodies (distinct : Distinct msgs) {text : Js} :
    Latest (editBody parse m) StoredMessage.place msgs text ↔
      (bodies parse msgs m).getLast? = some text := by
  rw [bodies, ← latest_iff_getLast? (chain_strict distinct m.id)]
  exact latest_congr fun am has => by
    rw [mem_chain]
    exact ⟨fun inside => ⟨inside, editBody_names has⟩, And.left⟩

theorem mem_bodies {body : Js} :
    body ∈ bodies parse msgs m ↔ ∃ am ∈ msgs, editBody parse m am = some body := by
  simp only [bodies, List.mem_filterMap]
  constructor
  · rintro ⟨am, listed, given⟩
    exact ⟨am, (mem_chain.mp listed).1, given⟩
  · rintro ⟨am, inside, given⟩
    exact ⟨am, mem_chain.mpr ⟨inside, editBody_names (by rw [given]; rfl)⟩, given⟩

theorem lastEdit_iff (distinct : Distinct msgs) {text body : Js} (original : originalBody parse m = some body) :
    LastEdit parse msgs m text ↔ text = (bodies parse msgs m).getLast?.getD body := by
  -- without an edit the original body is the last one
  have none_ : (∀ am ∈ msgs, editBody parse m am = none) ↔ bodies parse msgs m = [] := by
    rw [List.eq_nil_iff_forall_not_mem]
    constructor
    · intro nothing text member
      obtain ⟨am, inside, given⟩ := mem_bodies.mp member
      rw [nothing am inside] at given
      cases given
    · intro nothing am inside
      cases given : editBody parse m am with
      | none => rfl
      | some text => exact absurd (mem_bodies.mpr ⟨am, inside, given⟩) (nothing text)
  rw [LastEdit, latest_bodies distinct, none_, original]
  cases last : (bodies parse msgs m).getLast? with
  | none =>
    rw [List.getLast?_eq_none_iff] at last
    simp [last, eq_comm]
  | some found =>
    have filled : bodies parse msgs m ≠ [] := by
      rintro empty
      simp [empty] at last
    simp [filled, eq_comm]

/-! ### What the bubble shows -/

theorem baseMessage_body {base : Message} (made : baseMessage account atob m = some (some base)) :
    originalBody account.parse m = some base.text ∧ base.media.isSome = hasMedia account.parse m := by
  unfold baseMessage at made
  unfold originalBody hasMedia
  cases inner : parseInner account.parse m.text with
  | text body =>
    simp only [inner, Option.some.injEq] at made
    subst made
    exact ⟨rfl, rfl⟩
  | media body file =>
    simp only [inner, Option.bind_eq_bind, Option.bind_eq_some_iff, Option.pure_def,
      Option.some.injEq] at made
    obtain ⟨media, _, rfl⟩ := made
    exact ⟨rfl, rfl⟩
  | amendment target action body => simp [inner] at made
  | unknown => simp [inner] at made

theorem entry_text {b : Message} (made : entry account atob msgs m = some b)
    (kept : ∀ am ∈ msgs, retracts account.parse m am = false) :
    ∃ body, originalBody account.parse m = some body ∧
      b.text = retitle (hasMedia account.parse m) body (bodies account.parse msgs m) := by
  obtain ⟨base, found, rfl⟩ := Option.map_eq_some_iff.mp made
  obtain ⟨body, media⟩ := baseMessage_body (Option.join_eq_some_iff.mp found)
  refine ⟨base.text, body, ?_⟩
  rw [amend_text base (fun am listed => (mem_chain.mp listed).2)
    (fun am listed => kept am (mem_chain.mp listed).1), media]
  rfl

/-- The text of a bubble is the last edit, unless a caption was emptied on the way. -/
theorem retitle_last (distinct : Distinct msgs) {body : Js} (original : originalBody parse m = some body)
    (caption : captioned parse m = true) :
    LastEdit parse msgs m (retitle (hasMedia parse m) body (bodies parse msgs m)) ↔
      (hasMedia parse m = true → CaptionLast parse msgs m) := by
  rw [lastEdit_iff distinct original]
  unfold captioned at caption
  unfold originalBody at original
  unfold hasMedia
  cases inner : parseInner parse m.text with
  -- the text of a message follows every edit
  | text text =>
    simp only [Bool.false_eq_true, false_imp_iff, iff_true]
    exact retitle_text body _
  -- a caption does so until it is emptied
  | media text file =>
    simp only [inner, Option.some.injEq, Bool.not_eq_true'] at original caption
    subst original
    simp only [true_imp_iff, CaptionLast, latest_bodies distinct, ← mem_bodies]
    rw [retitle_media _ caption]
    have found : (bodies parse msgs m).any (fun body => body.same (.str "")) = true ↔
        .str "" ∈ bodies parse msgs m := by
      simp only [List.any_eq_true, Js.same_of_str, exists_eq_right]
    split
    -- once emptied it stays empty, whatever comes after
    next emptied =>
      rw [found] at emptied
      simp only [emptied, true_imp_iff]
      cases last : (bodies parse msgs m).getLast? with
      | none =>
        rw [List.getLast?_eq_none_iff] at last
        simp [last] at emptied
      | some top => simp [eq_comm]
    next full =>
      rw [found] at full
      exact iff_of_true rfl fun emptied => absurd emptied full
  | amendment target action change => simp [inner] at original
  | unknown => simp [inner] at original

theorem bubble_none (id : Js) : bubble account atob msgs id = none ↔
    ¬ ∀ x ∈ msgs, decodable account.parse atob x = true := by
  rw [bubble, Option.map_eq_none_iff, toMessages_eq, ← List.all_eq_true]
  split
  next all => simp [all]
  next some_ => simp [some_]

/-- A bubble shows the last edit exactly when its view decodes and, for a photo, no edit after
one that left it without a caption would count. -/
theorem last_edit_iff (distinct : Distinct msgs) (here : m ∈ msgs) (caption : captioned account.parse m = true)
    (kept : ∀ am ∈ msgs, retracts account.parse m am = false) :
    (∃ b, bubble account atob msgs m.id = some (some b) ∧ LastEdit account.parse msgs m b.text) ↔
      (∀ x ∈ msgs, decodable account.parse atob x = true) ∧
        (hasMedia account.parse m = true → CaptionLast account.parse msgs m) := by
  constructor
  · -- a bubble that shows: every message of the list decodes
    rintro ⟨b, shown, last⟩
    have decodes : ∀ x ∈ msgs, decodable account.parse atob x = true := by
      by_contra broken
      rw [(bubble_none m.id).mpr broken] at shown
      cases shown
    rw [bubble_eq distinct decodes here, Option.some.injEq] at shown
    obtain ⟨body, original, text⟩ := entry_text shown kept
    rw [text] at last
    exact ⟨decodes, (retitle_last distinct original caption).mp last⟩
  · -- and where all decode, the bubble is there
    rintro ⟨decodes, titled⟩
    have isOriginal_ : isOriginal account.parse m.text = true := by
      unfold captioned at caption
      unfold isOriginal
      split at caption <;> simp_all
    have some_ := (entry_isSome msgs (decodes m here)).trans isOriginal_
    obtain ⟨b, made⟩ := Option.isSome_iff_exists.mp some_
    obtain ⟨body, original, text⟩ := entry_text made kept
    refine ⟨b, by rw [bubble_eq distinct decodes here, made], ?_⟩
    rw [text]
    exact (retitle_last distinct original caption).mpr titled

end Edits

section Samples

open Demo

/-- A photo with a caption. -/
def seaText : String :=
  "\x7b\"type\":\"media\",\"body\":\"sea\",\"file\":\x7b\"url\":\"u\",\"key\":\"AAAA\"," ++
    "\"iv\":\"AAAA\",\"name\":\"n\",\"size\":1\x7d\x7d"

def recaption (body : String) : String :=
  "\x7b\"type\":\"amendment\",\"target_msg_id\":\"a\",\"action\":\"edit\",\"body\":\"" ++ body ++ "\"\x7d"

def recaptionJson (body : String) : Json :=
  .obj [("type", .str "amendment"), ("target_msg_id", .str "a"), ("action", .str "edit"), ("body", .str body)]

/-- `JSON.parse` of the photo and of two edits of it. -/
def readCaption (text : String) : Option Json :=
  if text = seaText then
    some (.obj [("type", .str "media"), ("body", .str "sea"), ("file", .obj [("url", .str "u"),
      ("key", .str "AAAA"), ("iv", .str "AAAA"), ("name", .str "n"), ("size", .num (.int 1))])])
  else if text = recaption "" then some (recaptionJson "")
  else if text = recaption "shore" then some (recaptionJson "shore")
  else none

def viewer : Account := { account with parse := readCaption }

def sea : StoredMessage := row bob "a" seaText

def cleared : StoredMessage := row bob "b" (recaption "")

def renamed : StoredMessage := row bob "c" (recaption "shore")

theorem captions_distinct : Distinct [sea, cleared, renamed] := by
  refine distinct_of_names (fun m member => ?_) (by decide)
  simp only [List.mem_cons, List.not_mem_nil, or_false] at member
  rcases member with rfl | rfl | rfl <;> rfl

/-- The caption is emptied, then written anew: the bubble stays without. -/
theorem emptied_stays : Distinct [sea, cleared, renamed] ∧ captioned viewer.parse sea = true ∧
    (∀ am ∈ [sea, cleared, renamed], retracts viewer.parse sea am = false) ∧
    (∃ b, bubble viewer atob [sea, cleared, renamed] sea.id = some (some b)) ∧
    ∀ b, bubble viewer atob [sea, cleared, renamed] sea.id = some (some b) →
      ¬ LastEdit viewer.parse [sea, cleared, renamed] sea b.text := by
  -- the caption was emptied and then edited again
  have shown : (bubble viewer atob [sea, cleared, renamed] sea.id).any
      (fun b => b.any fun b => b.text.same (.str "")) = true := by decide
  have last : (bodies viewer.parse [sea, cleared, renamed] sea).getLast?.any
      (fun body => body.same (.str "shore")) = true := by decide
  obtain ⟨x, view, some_⟩ := (Option.any_eq_true _ _).mp shown
  obtain ⟨b, rfl, empty⟩ := (Option.any_eq_true _ _).mp some_
  obtain ⟨body, top, shore⟩ := (Option.any_eq_true _ _).mp last
  refine ⟨captions_distinct, by decide, by decide, ⟨b, view⟩, fun b' view' edit => ?_⟩
  rw [view] at view'
  cases view'
  have original : originalBody viewer.parse sea = some (.str "sea") := by rfl
  rw [lastEdit_iff captions_distinct original, top, Option.getD_some, (Js.same_of_str _ _).mp shore,
    (Js.same_of_str _ _).mp empty] at edit
  exact absurd (Js.str.inj edit) (by decide)

/-- Without the first edit the second one shows. -/
theorem renamed_shown : ∃ b, bubble viewer atob [sea, renamed] sea.id = some (some b) ∧
    LastEdit viewer.parse [sea, renamed] sea b.text := by
  have distinct : Distinct [sea, renamed] := captions_distinct.sublist (by simp)
  refine (last_edit_iff distinct (by simp) (by decide) (by decide)).mpr
    ⟨by decide, fun _ ⟨am, member, empty⟩ => ?_⟩
  have none_ : ∀ am ∈ [sea, renamed],
      ((editBody viewer.parse sea am).any fun body => body.same (.str "")) = false := by decide
  exact absurd (none_ am member) (by simp [empty])

end Samples

end Atmin.Web
