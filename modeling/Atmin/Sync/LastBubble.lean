import Atmin.Data.JsonRoundTrip
import Atmin.Sync.Bubbles
import Atmin.Web.Preview

/-!
# The last bubble and the chat list

The chat list and the chat walk the same amendments in code of their own. On a sorted
conversation they agree: the summary of a conversation is one line of its last bubble.
-/

namespace Atmin.Web

/-! ### What a plaintext is read as -/

section Reading

variable {parse : String → Option Json}

/-- A string, with a lone surrogate or without. -/
def Js.IsText (x : Js) : Prop := ∃ us, x = .ofJson (JsonText.ofUnits us)

/-- `JSON.parse`, and `JSON.stringify` of a text payload. -/
structure Stringifies (parse : String → Option Json) (render : Js → String) : Prop where
  /-- What is parsed has no other strings. -/
  texts : ∀ text fields, parse text = some (.obj fields) → ∀ field ∈ fields, ∀ raw,
    field.2 = .badStr raw → ∃ us, JsonText.ofUnits us = .badStr raw
  opens : ∀ us, startsWith (render (.ofJson (JsonText.ofUnits us))) "\x7b" = true
  reads : ∀ us, parse (render (.ofJson (JsonText.ofUnits us))) =
    some (.obj [("type", .str "text"), ("body", JsonText.ofUnits us)])

theorem isText_str (s : String) : (Js.str s).IsText :=
  ⟨Utf16.ofString s, by rw [JsonText.ofUnits_ofString, Js.ofJson]⟩

theorem Js.IsText.isString {x : Js} (text : x.IsText) : x.isString = true := by
  obtain ⟨us, rfl⟩ := text
  unfold JsonText.ofUnits
  split
  next => simp [Js.ofJson, Js.isString]
  next => simp [Js.ofJson, Js.isString]

theorem ifTyped_some {isType : Js → Bool} {x y : Js} (kept : x.ifTyped isType = some y) :
    x = y ∧ isType y = true := by
  unfold Js.ifTyped at kept
  split at kept
  next typed =>
    cases kept
    exact ⟨rfl, typed⟩
  next => cases kept

/-- A member that is a string is a text. -/
theorem lastOf_isText {render : Js → String} (stringifies : Stringifies parse render)
    {text name : String}
    {fields : List (String × Json)} (parsed : parse text = some (.obj fields))
    (string : (Js.lastOf (Js.ofMembers fields) name).isString = true) :
    (Js.lastOf (Js.ofMembers fields) name).IsText := by
  unfold Js.lastOf at string ⊢
  cases found : (Js.ofMembers fields).reverse.find? fun e => decide (e.1 = name) with
  | none => simp [found, Js.isString] at string
  | some e =>
    obtain ⟨n, x⟩ := e
    obtain ⟨j, member, rfl⟩ := mem_ofMembers.mp (List.mem_reverse.mp (List.mem_of_find?_eq_some found))
    simp only [found, Option.map_some, Option.getD_some] at string ⊢
    cases j with
    | str s => simpa [Js.ofJson] using isText_str s
    | badStr raw =>
      obtain ⟨us, same⟩ := stringifies.texts text fields parsed _ member raw rfl
      exact ⟨us, by rw [same]⟩
    | _ => simp [Js.ofJson, Js.isString] at string

/-- The body of an amendment is a text. -/
theorem amendment_body {render : Js → String} (stringifies : Stringifies parse render) {text : String}
    {target action : Js} {change : Option Js}
    (inner : parseInner parse text = .amendment target action change) :
    ∀ body ∈ change, body.IsText := by
  intro body kept
  unfold parseInner at inner
  split at inner
  next =>
    split at inner
    next fields found =>
      cases parsed : parse text with
      | none => simp [parsed] at found
      | some j =>
        -- Only an object has members.
        cases j with
        | obj members =>
          simp only [parsed, Option.bind_some, Js.ofJson, Js.asObject, Option.some.injEq] at found
          subst found
          unfold parseObject at inner
          dsimp only at inner
          split at inner
          next => cases inner
          next =>
            split at inner
            next => cases inner
            next =>
              split at inner
              next =>
                cases inner
                obtain ⟨same, typed⟩ := ifTyped_some kept
                rw [← same] at typed ⊢
                exact lastOf_isText stringifies parsed typed
              next => cases inner
        | arr xs =>
          simp only [parsed, Option.bind_some, Js.ofJson, Js.asObject, Option.some.injEq] at found
          subst found
          simp [parseObject, Js.same] at inner
        | _ => simp [parsed, Js.ofJson, Js.asObject] at found
    next => cases inner
  next => cases inner

/-- A text that the summary wrote is read as its body. -/
theorem parseInner_render {render : Js → String} (stringifies : Stringifies parse render) {body : Js}
    (text : body.IsText) : parseInner parse (render body) = .text body := by
  have string := text.isString
  obtain ⟨us, rfl⟩ := text
  have type_ : Js.lastOf (Js.ofMembers [("type", .str "text"), ("body", JsonText.ofUnits us)]) "type" =
      .str "text" := by
    simp [Js.lastOf, Js.ofMembers, Js.ofJson]
  have body_ : Js.lastOf (Js.ofMembers [("type", .str "text"), ("body", JsonText.ofUnits us)]) "body" =
      .ofJson (JsonText.ofUnits us) := by
    simp [Js.lastOf, Js.ofMembers]
  simp only [parseInner, stringifies.opens us, if_true, stringifies.reads us, Option.bind_some, Js.ofJson,
    Js.asObject, parseObject, type_, body_, string, Js.same_str, Bool.and_true]

end Reading

section Walks

variable {account : Account} {atob : String → Option (List UInt8)} {msgs : List StoredMessage}

/-! ### Two walks over one chain -/

/-- The edit a summary keeps. -/
def revised (isText : Bool) (body edited : Option Js) : Option Js :=
  if isText && body.isSome then body else edited

section Chains

variable {parse : String → Option Json} {latest am : StoredMessage}

theorem applyChain_skip (skip : skipped parse latest.fromUser am = true) (isText : Bool)
    (rest : List StoredMessage) (edited : Option Js) :
    applyChain parse latest isText (am :: rest) edited = applyChain parse latest isText rest edited := by
  unfold skipped deletes edits at skip
  rw [applyChain]
  cases inner : parseInner parse am.text with
  | text body => rfl
  | media body file => rfl
  | unknown => rfl
  | amendment target action body =>
    rw [inner] at skip
    cases own : am.fromUser.same latest.fromUser with
    | false => simp
    | true => simp_all

theorem applyChain_remove (own : am.fromUser.same latest.fromUser = true)
    (deleting : deletes parse am = true) (isText : Bool) (rest : List StoredMessage)
    (edited : Option Js) : applyChain parse latest isText (am :: rest) edited = (true, none) := by
  unfold deletes at deleting
  rw [applyChain]
  cases inner : parseInner parse am.text with
  | text body => simp [inner] at deleting
  | media body file => simp [inner] at deleting
  | unknown => simp [inner] at deleting
  | amendment target action body =>
    have action_ : action.same (.str "delete") = true := by simpa only [inner] using deleting
    simp only [own, action_, Bool.not_true, Bool.false_eq_true, if_false, if_true]

theorem applyChain_edit {target : Js} {body : Option Js} (own : am.fromUser.same latest.fromUser = true)
    (inner : parseInner parse am.text = .amendment target (.str "edit") body) (isText : Bool)
    (rest : List StoredMessage) (edited : Option Js) :
    applyChain parse latest isText (am :: rest) edited =
      applyChain parse latest isText rest (revised isText body edited) := by
  have edit : (Js.str "edit").same (.str "delete") = false := by decide
  have edit_ : (Js.str "edit").same (.str "edit") = true := by decide
  rw [applyChain, inner]
  simp only [own, edit, edit_, Bool.not_true, Bool.false_eq_true, if_false, Bool.true_and, revised]
  split <;> rfl

end Chains

theorem edited_media (base : Message) (am : StoredMessage) (body : Option Js) :
    (base.edited am body).media = base.media := by
  cases body with
  | none => rfl
  | some body =>
    rw [Message.edited]
    split <;> rfl

theorem edited_text {base : Message} (text : base.media = none) (am : StoredMessage)
    (body : Option Js) : (base.edited am body).text = body.getD base.text := by
  cases body with
  | none => rfl
  | some body => simp [Message.edited, text]

theorem amend_timestamp (account : Account) (author : Js) (base : Message) (chain : List StoredMessage) :
    (amend account author base chain).timestamp = base.timestamp := by
  fun_induction amend account author base chain <;> first | rfl | assumption

/-- What the chat list keeps of a bubble while both walk the chain. -/
structure Abreast (isText : Bool) (body : Js) (base : Message) (edited : Option Js) : Prop where
  kept : base.deleted = false
  text : isText = true → base.media = none ∧ base.text = edited.getD body

theorem Abreast.edit {isText : Bool} {body : Js} {base : Message} {edited : Option Js}
    (abreast : Abreast isText body base edited) (am : StoredMessage) (change : Option Js) :
    Abreast isText body (base.edited am change) (revised isText change edited) where
  kept := (edited_deleted base am change).trans abreast.kept
  text is_text := by
    obtain ⟨plain, same⟩ := abreast.text is_text
    refine ⟨(edited_media base am change).trans plain, ?_⟩
    rw [edited_text plain, same, revised, is_text]
    cases change <;> rfl

/-- Both walks end alike: deleted, or with the last edit. -/
theorem walks_agree (account : Account) (latest : StoredMessage) {isText : Bool} {body : Js} {base : Message}
    {edited : Option Js} (chain : List StoredMessage) (abreast : Abreast isText body base edited) :
    (amend account latest.fromUser base chain).deleted =
        (applyChain account.parse latest isText chain edited).1 ∧
      ((applyChain account.parse latest isText chain edited).1 = false →
        (amend account latest.fromUser base chain).media = base.media ∧
        Abreast isText body (amend account latest.fromUser base chain)
          (applyChain account.parse latest isText chain edited).2) := by
  induction chain generalizing base edited with
  | nil => exact ⟨abreast.kept, fun _ => ⟨rfl, abreast⟩⟩
  | cons am rest ih =>
    rcases chain_cases account.parse latest.fromUser am with skip | ⟨own, deleting⟩ |
      ⟨own, _, target, change, inner⟩
    · rw [amend_skip skip, applyChain_skip skip]
      exact ih abreast
    · rw [amend_remove own deleting, applyChain_remove own deleting]
      exact ⟨rfl, fun kept => absurd kept (by decide)⟩
    · rw [amend_edit own inner, applyChain_edit own inner, ← edited_media base am change]
      exact ih (abreast.edit am change)

theorem unedited (isText : Bool) :
    ∀ body ∈ (none : Option Js), isText = true ∧ body.IsText := by
  rintro body ⟨⟩

/-- What a summary keeps is a text, or nothing for a media message. -/
theorem applyChain_body {parse : String → Option Json} {render : Js → String}
    (stringifies : Stringifies parse render) (latest : StoredMessage) {isText : Bool}
    {edited : Option Js} (chain : List StoredMessage)
    (before : ∀ body ∈ edited, isText = true ∧ body.IsText) :
    ∀ body ∈ (applyChain parse latest isText chain edited).2, isText = true ∧ body.IsText := by
  induction chain generalizing edited with
  | nil => exact before
  | cons am rest ih =>
    rcases chain_cases parse latest.fromUser am with skip | ⟨own, deleting⟩ |
      ⟨own, _, target, change, inner⟩
    · rw [applyChain_skip skip]
      exact ih before
    · rw [applyChain_remove own deleting]
      rintro body ⟨⟩
    · rw [applyChain_edit own inner]
      refine ih fun body kept => ?_
      unfold revised at kept
      split at kept
      next taken =>
        rw [kept, Bool.and_eq_true] at taken
        exact ⟨taken.1, amendment_body stringifies inner body kept⟩
      next => exact before body kept

/-! ### The last bubble -/

/-- One line of a bubble that is not deleted. -/
def bubblePreview (b : Message) : Js :=
  match b.media with
  | some file => placeholder file.mime file.name
  | none => b.text.oneLine

theorem decodeMedia_file {file : ParsedMediaFile} {media : MediaFile}
    (decoded : decodeMedia atob file = some media) : media.mime = file.mime ∧ media.name = file.name := by
  unfold decodeMedia at decoded
  simp only [Option.bind_eq_bind, Option.bind_eq_some_iff, Option.pure_def] at decoded
  obtain ⟨key, _, iv, _, rest⟩ := decoded
  split at rest
  next p =>
    obtain ⟨preview, _, found⟩ := Option.bind_eq_some_iff.mp rest
    cases found
    exact ⟨rfl, rfl⟩
  next =>
    cases rest
    exact ⟨rfl, rfl⟩

/-- The entry of an original, before its amendments. -/
theorem baseMessage_original {m : StoredMessage} {base : Message}
    (made : baseMessage account atob m = some (some base)) :
    base.timestamp = m.timestamp ∧ base.deleted = false ∧
      ((parseInner account.parse m.text = .text base.text ∧ base.media = none) ∨
        ∃ body file media, parseInner account.parse m.text = .media body file ∧
          decodeMedia atob file = some media ∧ base.media = some media) := by
  unfold baseMessage at made
  cases inner : parseInner account.parse m.text with
  | text body =>
    simp only [inner, Option.some.injEq] at made
    subst made
    exact ⟨rfl, rfl, .inl ⟨rfl, rfl⟩⟩
  | media body file =>
    simp only [inner, Option.bind_eq_bind, Option.bind_eq_some_iff, Option.pure_def,
      Option.some.injEq] at made
    obtain ⟨media, decoded, rfl⟩ := made
    exact ⟨rfl, rfl, .inr ⟨body, file, media, rfl, decoded, rfl⟩⟩
  | amendment target action body => simp [inner] at made
  | unknown => simp [inner] at made

/-- A summary and a bubble that tell the same. -/
structure Tells (account : Account) (summary : Summary) (b : Message) : Prop where
  timestamp : b.timestamp = summary.lastMessageTimestamp
  deleted : b.deleted = summary.lastMessageDeleted
  line : b.deleted = false →
    messagePreview account.parse summary.lastMessageText = bubblePreview b

/-- The summary of a message under its amendments tells what its bubble does. -/
theorem preview_tells (stringifies : Stringifies account.parse account.render) {m : StoredMessage}
    {b : Message} (made : entry account atob msgs m = some b) :
    Tells account
      (preview account.parse account.render m (amendmentChain account.parse msgs m.id)) b := by
  obtain ⟨base, found, rfl⟩ := Option.map_eq_some_iff.mp made
  obtain ⟨timestamp, kept, kind⟩ := baseMessage_original (Option.join_eq_some_iff.mp found)
  generalize amendmentChain account.parse msgs m.id = chain
  have dated := (amend_timestamp account m.fromUser base chain).trans timestamp
  rcases kind with ⟨inner, plain⟩ | ⟨body, file, media, inner, decoded, its⟩
  · -- a text: the last edit is its body
    have abreast : Abreast true base.text base none := ⟨kept, fun _ => ⟨plain, rfl⟩⟩
    obtain ⟨deleted, ended⟩ := walks_agree account m chain abreast
    have strings := applyChain_body stringifies m chain (unedited true)
    unfold preview
    simp only [inner]
    rcases applied : applyChain account.parse m true chain none with ⟨_ | _, edited⟩
    · obtain ⟨_, shown⟩ := ended (by rw [applied])
      obtain ⟨noMedia, text⟩ := shown.text rfl
      rw [applied] at deleted text strings
      cases edited with
      | none =>
        refine ⟨dated, deleted, fun _ => ?_⟩
        rw [messagePreview, inner, bubblePreview, noMedia, text, Option.getD_none]
      | some change =>
        refine ⟨dated, deleted, fun _ => ?_⟩
        rw [messagePreview, parseInner_render stringifies (strings change rfl).2, bubblePreview, noMedia,
          text, Option.getD_some]
    · rw [applied] at deleted
      exact ⟨dated, deleted, fun still => absurd (deleted.symm.trans still) Bool.noConfusion⟩
  · -- a media message: edits change its caption, and the preview does not show it
    have abreast : Abreast false body base none := ⟨kept, fun text => absurd text (by decide)⟩
    obtain ⟨deleted, ended⟩ := walks_agree account m chain abreast
    have strings := applyChain_body stringifies m chain (unedited false)
    obtain ⟨mime, name⟩ := decodeMedia_file decoded
    unfold preview
    simp only [inner]
    rcases applied : applyChain account.parse m false chain none with ⟨_ | _, edited⟩
    · obtain ⟨sameMedia, _⟩ := ended (by rw [applied])
      rw [applied] at deleted strings
      cases edited with
      | none =>
        refine ⟨dated, deleted, fun _ => ?_⟩
        rw [messagePreview, inner, bubblePreview, sameMedia, its]
        simp only [mime, name]
      | some change => exact absurd (strings change rfl).1 (by decide)
    · rw [applied] at deleted
      exact ⟨dated, deleted, fun still => absurd (deleted.symm.trans still) Bool.noConfusion⟩

/-- Rows in the order of the chat: by date, and by id within a date. -/
def Chronological (msgs : List StoredMessage) : Prop :=
  msgs.Pairwise fun a b => rank a < rank b

theorem last_paired {α β : Type} {R : α → β → Prop} {xs : List α} {ys : List β}
    (paired : List.Forall₂ R xs ys) {x : α} (last : xs.getLast? = some x) :
    ∃ y, ys.getLast? = some y ∧ R x y := by
  induction paired with
  | nil => cases last
  | cons head tail ih =>
    cases tail with
    | nil =>
      cases last
      exact ⟨_, rfl, head⟩
    | cons next rest =>
      rw [List.getLast?_cons_cons] at last ⊢
      exact ih last

/-- The last original of a sorted list is the latest. -/
theorem latest_last {parse : String → Option Json} (sorted : Chronological msgs) {m : StoredMessage}
    (last : (originals parse msgs).getLast? = some m) : LatestOriginal parse msgs m := by
  obtain ⟨front, split_⟩ := List.getLast?_eq_some_iff.mp last
  have member : m ∈ originals parse msgs := List.mem_of_getLast? last
  obtain ⟨inside, original⟩ := List.mem_filter.mp member
  refine ⟨inside, original, fun x here its => ?_⟩
  have listed : x ∈ originals parse msgs := List.mem_filter.mpr ⟨here, its⟩
  have ordered : (originals parse msgs).Pairwise fun a b => rank a < rank b := sorted.filter _
  rw [split_] at listed ordered
  rcases List.mem_append.mp listed with earlier | top
  · exact ((List.pairwise_append.mp ordered).2.2 x earlier m (by simp)).le
  · rw [List.mem_singleton.mp top]

/-- The summary of a sorted conversation tells what the last bubble of its chat does. -/
theorem summary_last_bubble (distinct : Distinct msgs) (proper : ∀ m ∈ msgs, Orderly m)
    (sorted : Chronological msgs) (decodes : ∀ m ∈ msgs, decodable account.parse atob m = true)
    (stringifies : Stringifies account.parse account.render) :
    ∃ shown, toMessages account atob msgs = some shown ∧
      match summarizeConversation account.parse account.render msgs with
      | none => shown = []
      | some summary => ∃ b, shown.getLast? = some b ∧ Tells account summary b := by
  refine ⟨msgs.filterMap (entry account atob msgs), ?_, ?_⟩
  · rw [toMessages_eq, if_pos (List.all_eq_true.mpr decodes)]
  · have paired : List.Forall₂ (fun m b => entry account atob msgs m = some b)
        (originals account.parse msgs) (msgs.filterMap (entry account atob msgs)) :=
      entries_forall decodes fun m _ b made => made
    rcases summarize_latest account.parse account.render proper with ⟨nothing, none_⟩ |
      ⟨latest, top, shows_⟩
    · rw [nothing]
      have empty : originals account.parse msgs = [] :=
        List.filter_eq_nil_iff.mpr fun m member => by simp [none_ m member]
      rw [empty] at paired
      exact List.forall₂_nil_left_iff.mp paired
    · rw [shows_]
      have some_ : originals account.parse msgs ≠ [] :=
        List.ne_nil_of_mem (List.mem_filter.mpr ⟨top.inside, top.original⟩)
      have last := List.getLast?_eq_some_getLast some_
      rw [(latest_last sorted last).unique distinct top] at last
      obtain ⟨b, there, made⟩ := last_paired paired last
      exact ⟨b, there, preview_tells stringifies made⟩

end Walks

section Samples

open Demo

/-- `JSON.stringify` of a text payload. -/
def renderText : Js → String
  | .str s => JsonText.stringify (.obj [("type", .str "text"), ("body", .str s)])
  | .badStr raw => JsonText.stringify (.obj [("type", .str "text"), ("body", .badStr raw)])
  | _ => JsonText.stringify (.obj [("type", .str "text")])

theorem renderText_ofUnits (us : List UInt16) : renderText (.ofJson (JsonText.ofUnits us)) =
    JsonText.stringify (.obj [("type", .str "text"), ("body", JsonText.ofUnits us)]) := by
  unfold JsonText.ofUnits
  split
  next => simp only [Js.ofJson, renderText]
  next => simp only [Js.ofJson, renderText]

/-- The built-ins are like that. -/
theorem text_stringifies : Stringifies JsonText.parse renderText where
  texts _ _ parsed _ member _ bad := JsonText.parse_badStr parsed member bad
  opens us := by
    rw [renderText_ofUnits, JsonText.stringify, startsWith, String.toList_ofList, String.toList_ofList,
      JsonText.print]
    rfl
  reads us := by
    rw [renderText_ofUnits]
    apply JsonText.parse_stringify
    exact ⟨trivial, JsonText.printable_ofUnits us, trivial⟩

def editText : String :=
  "\x7b\"type\":\"amendment\",\"target_msg_id\":\"a\",\"action\":\"edit\",\"body\":\"ho\"\x7d"

def teller : Account := { account with parse := JsonText.parse, render := renderText }

/-- Bob's greeting, and his edit of it. -/
def revision : List StoredMessage := [hello, { row bob "b" editText with timestamp := some 1 }]

/-- The chat list shows the edited text, as the chat does. -/
theorem revision_told :
    (summarizeConversation teller.parse teller.render revision).map Summary.lastMessageText =
      some (renderText (.str "ho")) ∧
    ∃ shown, toMessages teller atob revision = some shown ∧
      match summarizeConversation teller.parse teller.render revision with
      | none => shown = []
      | some summary => ∃ b, shown.getLast? = some b ∧ Tells teller summary b := by
  have orderly : ∀ m ∈ revision, Orderly m := by
    intro m member
    rcases List.mem_pair.mp member with rfl | rfl
    · exact ⟨rfl, rfl⟩
    · exact ⟨rfl, rfl⟩
  have sorted : Chronological revision := by
    simp [Chronological, revision, rank, Prod.Lex.toLex_lt_toLex, hello, row]
  have decodes : ∀ m ∈ revision, decodable teller.parse atob m = true := by decide +kernel
  have told := @summary_last_bubble teller atob revision (hello_then _ rfl) orderly sorted decodes
    text_stringifies
  exact ⟨by decide +kernel, told⟩

end Samples

end Atmin.Web
