import Mathlib.Data.List.Induction
import Mathlib.Data.Prod.Lex
import Atmin.Sync.Idempotence

/-!
# The chat list and the last bubble

A row of the chat list is kept by a fold over the messages that count, and recomputed from
all messages only when a batch has amendments. The two agree, however a set of messages is
delivered, exactly where no message that counts could take the row over from the latest
original.
-/

namespace Atmin.Web

open Interaction

/-! ### Summaries -/

section Summaries

variable {parse : String → Option Json} {render : Js → String}

/-- Texts and media are originals; an unknown payload is not. -/
def isOriginal (parse : String → Option Json) (text : String) : Bool :=
  match parseInner parse text with
  | .text _ | .media .. => true
  | _ => false

def amendsRow (parse : String → Option Json) (target : Js) (m : StoredMessage) : Bool :=
  match parseInner parse m.text with
  | .amendment id _ _ => id.same target
  | _ => false

/-- What a summary shows of a message under a chain of amendments. -/
def preview (parse : String → Option Json) (render : Js → String) (latest : StoredMessage)
    (chain : List StoredMessage) : Summary :=
  let isText := match parseInner parse latest.text with
    | .text _ => true
    | _ => false
  match applyChain parse latest isText chain none with
  | (true, _) => ⟨"", latest.timestamp, true⟩
  | (false, some body) => ⟨render body, latest.timestamp, false⟩
  | (false, none) => ⟨latest.text, latest.timestamp, false⟩

theorem summarizeConversation_eq (msgs : List StoredMessage) :
    summarizeConversation parse render msgs =
      match msgs.filter fun m => isOriginal parse m.text with
      | [] => none
      | first :: rest =>
        let latest := latestOf first rest
        some (preview parse render latest (amendmentChain parse msgs latest.id)) := by
  unfold summarizeConversation
  dsimp only
  split
  next nothing =>
    have none_ : (msgs.filter fun m => isOriginal parse m.text) = [] := nothing
    rw [none_]
  next first rest originals =>
    have some_ : (msgs.filter fun m => isOriginal parse m.text) = first :: rest := originals
    rw [some_]
    dsimp only [preview]
    generalize applyChain parse _ _ _ _ = applied
    obtain ⟨deleted, edited⟩ := applied
    cases deleted <;> cases edited <;> rfl

theorem preview_timestamp (latest : StoredMessage) (chain : List StoredMessage) :
    (preview parse render latest chain).lastMessageTimestamp = latest.timestamp := by
  unfold preview
  dsimp only
  split <;> rfl

/-- A message with a valid date, and a text for an id. -/
structure Orderly (m : StoredMessage) : Prop where
  dated : m.timestamp.isSome
  named : m.id = .str m.name

/-- Messages are ordered by date, and those of one date by id. -/
def rank (m : StoredMessage) : ℤ ×ₗ List ℕ := toLex (m.timestamp.getD 0, m.place)

theorem newer_iff {m latest : StoredMessage} (proper : Orderly m) (proper' : Orderly latest) :
    (m.timestamp.after latest.timestamp ||
      (m.timestamp.isSome && decide (m.timestamp = latest.timestamp) && m.id.after latest.id)) = true ↔
      rank latest < rank m := by
  obtain ⟨t, dated⟩ := Option.isSome_iff_exists.mp proper.dated
  obtain ⟨t', dated'⟩ := Option.isSome_iff_exists.mp proper'.dated
  rw [proper.named, proper'.named, dated, dated']
  simp only [Timestamp.after, Js.after, rank, StoredMessage.place, Prod.Lex.toLex_lt_toLex, dated,
    dated', Option.getD_some, Option.isSome_some, Bool.true_and, Bool.or_eq_true, Bool.and_eq_true,
    decide_eq_true_eq, Option.some.injEq]
  exact or_congr_right (and_congr_left fun _ => eq_comm)

theorem latestOf_max {first : StoredMessage} {rest : List StoredMessage}
    (proper : ∀ m ∈ first :: rest, Orderly m) :
    latestOf first rest ∈ first :: rest ∧ ∀ m ∈ first :: rest, rank m ≤ rank (latestOf first rest) := by
  induction rest generalizing first with
  | nil => simp [latestOf]
  | cons m rest ih =>
    have newer := newer_iff (proper m (by simp)) (proper first (by simp))
    rw [latestOf]
    split
    next later =>
      have before := newer.mp later
      obtain ⟨inside, above⟩ := ih fun m' member => proper m' (List.mem_cons_of_mem _ member)
      refine ⟨List.mem_cons_of_mem _ inside, fun m' member => ?_⟩
      rcases List.mem_cons.mp member with rfl | others
      · exact before.le.trans (above m (by simp))
      · exact above m' others
    next notLater =>
      have before : rank m ≤ rank first := le_of_not_gt fun later => notLater (newer.mpr later)
      obtain ⟨inside, above⟩ := @ih first fun m' member =>
        proper m' (by rcases List.mem_cons.mp member with rfl | others <;> simp [*])
      refine ⟨by rcases List.mem_cons.mp inside with same | others <;> simp [*], fun m' member => ?_⟩
      rcases List.mem_cons.mp member with rfl | others
      · exact above m' (by simp)
      · rcases List.mem_cons.mp others with rfl | others
        · exact before.trans (above first (by simp))
        · exact above m' (by simp [others])

/-- The latest original of some messages. -/
structure LatestOriginal (parse : String → Option Json) (msgs : List StoredMessage)
    (latest : StoredMessage) : Prop where
  inside : latest ∈ msgs
  original : isOriginal parse latest.text = true
  above : ∀ m ∈ msgs, isOriginal parse m.text = true → rank m ≤ rank latest

theorem LatestOriginal.unique {msgs : List StoredMessage} {latest latest' : StoredMessage}
    (distinct : Distinct msgs) (first : LatestOriginal parse msgs latest)
    (last : LatestOriginal parse msgs latest') : latest = latest' := by
  have same : rank latest = rank latest' :=
    le_antisymm (last.above _ first.inside first.original) (first.above _ last.inside last.original)
  have names : latest.name = latest'.name := Utf16.place_inj (congrArg (fun r => (ofLex r).2) same)
  refine distinct.unique _ first.inside _ last.inside ?_
  rw [distinct.ids _ first.inside, distinct.ids _ last.inside, names]

/-- A summary shows the latest original under the amendments that name it. -/
theorem summarize_latest (parse : String → Option Json) (render : Js → String)
    {msgs : List StoredMessage} (proper : ∀ m ∈ msgs, Orderly m) :
    (summarizeConversation parse render msgs = none ∧ ∀ m ∈ msgs, isOriginal parse m.text = false) ∨
    ∃ latest, LatestOriginal parse msgs latest ∧ summarizeConversation parse render msgs =
      some (preview parse render latest (amendmentChain parse msgs latest.id)) := by
  rw [summarizeConversation_eq]
  cases originals : msgs.filter fun m => isOriginal parse m.text with
  | nil =>
    left
    refine ⟨rfl, fun m member => ?_⟩
    simpa using List.filter_eq_nil_iff.mp originals m member
  | cons first rest =>
    right
    have inside : ∀ m, m ∈ first :: rest ↔ m ∈ msgs ∧ isOriginal parse m.text = true := by
      intro m
      rw [← originals, List.mem_filter]
    obtain ⟨member, above⟩ := latestOf_max fun m listed => proper m ((inside m).mp listed).1
    refine ⟨latestOf first rest, ⟨((inside _).mp member).1, ((inside _).mp member).2, ?_⟩, rfl⟩
    exact fun m here original => above m ((inside m).mpr ⟨here, original⟩)

/-- A summary is dated as the latest original, which is no amendment. -/
theorem summary_source {msgs : List StoredMessage} (proper : ∀ m ∈ msgs, Orderly m) {summary : Summary}
    (found : summarizeConversation parse render msgs = some summary) :
    ∃ latest, LatestOriginal parse msgs latest ∧ isAmendment parse latest.text = false ∧
      summary.lastMessageTimestamp = latest.timestamp := by
  rcases summarize_latest parse render proper with ⟨none_, _⟩ | ⟨latest, top, shows_⟩
  · rw [none_] at found
    cases found
  · refine ⟨latest, top, ?_, ?_⟩
    · have original := top.original
      unfold isOriginal at original
      unfold isAmendment
      split at original
      next text => rw [text]; rfl
      next media => rw [media]; rfl
      next => cases original
    · rw [shows_] at found
      rw [← Option.some.inj found]
      exact preview_timestamp latest _

theorem chain_congr {msgs msgs' : List StoredMessage} (distinct : Distinct msgs)
    (distinct' : Distinct msgs') (target : Js)
    (same : ∀ m, amendsRow parse target m = true → (m ∈ msgs ↔ m ∈ msgs')) :
    amendmentChain parse msgs target = amendmentChain parse msgs' target := by
  have members (m : StoredMessage) :
      m ∈ amendmentChain parse msgs target ↔ m ∈ amendmentChain parse msgs' target := by
    rw [mem_chain, mem_chain]
    exact and_congr_left fun amends => same m amends
  have nodup {rows : List StoredMessage} (distinct : Distinct rows) :
      (amendmentChain parse rows target).Nodup :=
    (List.perm_insertionSort _ _).nodup_iff.mpr (distinct.nodup.filter _)
  refine ((List.perm_ext_iff_of_nodup (nodup distinct) (nodup distinct')).mpr members).eq_of_pairwise ?_
    (chain_sorted distinct target) (chain_sorted distinct' target)
  intro a b inside inside' le le'
  have here := (mem_chain.mp ((members a).mp inside)).1
  have there := (mem_chain.mp inside').1
  refine distinct'.unique a here b there ?_
  rw [distinct'.ids a here, distinct'.ids b there, Utf16.place_inj (le_antisymm le le')]

/-- Whatever holds the latest original and all the amendments has the same summary. -/
theorem summarize_part {msgs all : List StoredMessage} (distinct : Distinct msgs)
    (distinct' : Distinct all) (proper : ∀ m ∈ all, Orderly m) (part : ∀ m ∈ msgs, m ∈ all)
    (amendments : ∀ m ∈ all, isAmendment parse m.text = true → m ∈ msgs)
    (latest : ∀ l, LatestOriginal parse all l → l ∈ msgs) :
    summarizeConversation parse render msgs = summarizeConversation parse render all := by
  rcases summarize_latest parse render proper with ⟨nothing, none_⟩ | ⟨l, top, shows_⟩
  · rcases summarize_latest parse render fun m member => proper m (part m member)
      with ⟨nothing', _⟩ | ⟨l, top, _⟩
    · rw [nothing, nothing']
    · have original := top.original
      rw [none_ l (part l top.inside)] at original
      cases original
  · have here : LatestOriginal parse msgs l :=
      ⟨latest l top, top.original, fun m member => top.above m (part m member)⟩
    rcases summarize_latest parse render fun m member => proper m (part m member)
      with ⟨_, none_⟩ | ⟨l', top', shows'⟩
    · have original := top.original
      rw [none_ l here.inside] at original
      cases original
    · have same : l' = l := top'.unique distinct here
      subst same
      rw [shows', shows_, chain_congr distinct distinct' l'.id]
      intro m amends_
      refine ⟨part m, fun member => amendments m member ?_⟩
      unfold amendsRow at amends_
      unfold isAmendment
      split at amends_
      next amendment => rw [amendment]; rfl
      next => cases amends_

end Summaries

/-! ### Sets of messages and their deliveries -/

/-- A finite set of messages, each under an id of its own and with a valid date. -/
structure MessageSet where
  messages : List ChatMessage
  distinct : (messages.map ChatMessage.id).Nodup
  dated : ∀ m ∈ messages, m.timestamp.isSome

theorem MessageSet.unique (set : MessageSet) {m m' : ChatMessage} (member : m ∈ set.messages)
    (member' : m' ∈ set.messages) (same : m.id = m'.id) : m = m' :=
  List.inj_on_of_nodup_map set.distinct member member' same

/-- Batches of these messages, in which each occurs. -/
def Delivers (set : MessageSet) (batches : List (List ChatMessage)) : Prop :=
  ∀ m, m ∈ batches.flatten ↔ m ∈ set.messages

section Previews

variable (account : Account)

/-- The rows of a conversation once the whole set is stored. -/
def rowsOf (set : MessageSet) (c : String) : List StoredMessage :=
  (set.messages.filter fun m => decide (m.conversationId = c)).map (ChatMessage.row account.userId.str)

def Shows (row : StoredConversation) (summary : Summary) : Prop :=
  row.lastMessageText = summary.lastMessageText ∧
    row.lastMessageTimestamp = summary.lastMessageTimestamp ∧
    row.lastMessageDeleted = summary.lastMessageDeleted

/-- Each conversation with an original shows what its messages summarize to. -/
def PreviewsRight (db : Database) : Prop :=
  ∀ c summary, summarizeConversation account.parse account.render (db.chat account c) = some summary →
    ∃ row, db.conversation c = some row ∧ Shows row summary

/-- No message that counts can take the row over: none is newer than the latest original,
or of its date with another text, and the original shows its own text. The fold starts
from the date zero. -/
def Unrivalled (set : MessageSet) (c : String) : Prop :=
  ∀ summary t, summarizeConversation account.parse account.render (rowsOf account set c) = some summary →
    summary.lastMessageTimestamp = some t →
    0 ≤ t ∧ ∀ m ∈ plainIn account.parse c set.messages, ∀ t', m.timestamp = some t' → t ≤ t' →
      t' = t ∧ m.text = summary.lastMessageText ∧ summary.lastMessageDeleted = false

variable {account}

theorem mem_rowsOf {set : MessageSet} {c : String} {row : StoredMessage} : row ∈ rowsOf account set c ↔
    ∃ m ∈ set.messages, m.conversationId = c ∧ m.row account.userId.str = row := by
  simp [rowsOf, and_assoc]

theorem orderly_row {userId : String} {m : ChatMessage} (dated : m.timestamp.isSome) :
    Orderly (m.row userId) := ⟨dated, rfl⟩

theorem rowsOf_orderly (set : MessageSet) (c : String) : ∀ row ∈ rowsOf account set c, Orderly row := by
  intro row member
  obtain ⟨m, inside, _, rfl⟩ := mem_rowsOf.mp member
  exact orderly_row (set.dated m inside)

theorem rowsOf_distinct (set : MessageSet) (c : String) : Distinct (rowsOf account set c) := by
  have unique : ∀ row ∈ rowsOf account set c, ∀ row' ∈ rowsOf account set c, row.id = row'.id →
      row = row' := by
    intro row member row' member' same
    obtain ⟨m, inside, _, rfl⟩ := mem_rowsOf.mp member
    obtain ⟨m', inside', _, rfl⟩ := mem_rowsOf.mp member'
    rw [set.unique inside inside' (Js.str.inj same)]
  refine ⟨?_, fun row member => (rowsOf_orderly set c row member).named, unique⟩
  refine List.Nodup.map_on (fun m member m' member' same => ?_) (set.distinct.of_map.filter _)
  exact set.unique (List.mem_of_mem_filter member) (List.mem_of_mem_filter member')
    (Js.str.inj (congrArg StoredMessage.id same))

theorem chat_distinct {db : Database} (named : Named db.messages) (c : String) :
    Distinct (db.chat account c) where
  nodup := by
    refine List.Nodup.filter _ ?_
    rw [Database.messagesOf, (List.perm_insertionSort _ _).nodup_iff]
    refine List.Nodup.filter _ (db.messages.nodup.of_map.map_on fun e first e' last same => ?_)
    obtain ⟨name, id, key⟩ := named e.1 e.2 (ObjectMap.get_of_mem first)
    obtain ⟨name', id', key'⟩ := named e'.1 e'.2 (ObjectMap.get_of_mem last)
    rw [same] at id
    have equal : name = name' := Js.str.inj (id.symm.trans id')
    exact Prod.ext (by rw [key, key', equal]) same
  ids m member := by
    obtain ⟨⟨key, found⟩, _⟩ := mem_messagesOf.mp (List.mem_of_mem_filter member)
    obtain ⟨name, id, _⟩ := named key m found
    simp [StoredMessage.name, id]
  unique m first m' last same := by
    obtain ⟨⟨key, found⟩, _⟩ := mem_messagesOf.mp (List.mem_of_mem_filter first)
    obtain ⟨⟨key', found'⟩, _⟩ := mem_messagesOf.mp (List.mem_of_mem_filter last)
    obtain ⟨name, id, rfl⟩ := named key m found
    obtain ⟨name', id', rfl⟩ := named key' m' found'
    rw [id, id'] at same
    cases same
    exact Option.some.inj (found.symm.trans found')

/-- The rows of a conversation are those of its delivered messages. -/
theorem mem_chat {set : MessageSet} {saved : List ChatMessage} {db : Database}
    (chats : Chats account saved db) (within : ∀ m ∈ saved, m ∈ set.messages) {c : String}
    {row : StoredMessage} : row ∈ db.chat account c ↔
      ∃ m ∈ saved, m.conversationId = c ∧ m.row account.userId.str = row := by
  rw [Database.chat, List.mem_filter, mem_messagesOf, Js.same_of_str]
  constructor
  · rintro ⟨⟨⟨key, found⟩, _⟩, here⟩
    rw [chats.messagesAt] at found
    obtain ⟨m, member, rfl⟩ := List.mem_map.mp (List.mem_reverse.mp (List.mem_of_find?_eq_some found))
    exact ⟨m, member, Js.str.inj here, rfl⟩
  · rintro ⟨m, member, rfl, rfl⟩
    refine ⟨⟨⟨[.str m.id], ?_⟩, rfl⟩, rfl⟩
    rw [chats.messagesAt]
    cases found : ((saved.map (ChatMessage.row account.userId.str)).reverse.find? fun row =>
        decide (row.id.key = some [.str m.id])) with
    | none =>
      have absent := List.find?_eq_none.mp found (m.row account.userId.str)
        (List.mem_reverse.mpr (List.mem_map_of_mem member))
      simp [ChatMessage.row, storedMessage, ChatMessage.decrypted] at absent
    | some row =>
      have hit := List.find?_some found
      obtain ⟨m', member', rfl⟩ := List.mem_map.mp (List.mem_reverse.mp (List.mem_of_find?_eq_some found))
      have same : m'.id = m.id := by
        simpa [ChatMessage.row, storedMessage, ChatMessage.decrypted] using hit
      rw [set.unique (within m' member') (within m member) same]

/-- The latest original of the set and all its amendments to the conversation are there. -/
def Complete (account : Account) (set : MessageSet) (c : String) (saved : List ChatMessage) : Prop :=
  ∀ m ∈ set.messages, m.conversationId = c →
    (isAmendment account.parse m.text = true ∨
      LatestOriginal account.parse (rowsOf account set c) (m.row account.userId.str)) → m ∈ saved

theorem summary_complete {set : MessageSet} {saved : List ChatMessage} {db : Database}
    (chats : Chats account saved db) (within : ∀ m ∈ saved, m ∈ set.messages) {c : String}
    (complete : Complete account set c saved) :
    summarizeConversation account.parse account.render (db.chat account c) =
      summarizeConversation account.parse account.render (rowsOf account set c) := by
  refine summarize_part (chat_distinct chats.namedRows c) (rowsOf_distinct set c)
    (rowsOf_orderly set c) ?_ ?_ ?_
  · intro row member
    obtain ⟨m, inside, here, rfl⟩ := (mem_chat chats within).mp member
    exact mem_rowsOf.mpr ⟨m, within m inside, here, rfl⟩
  · intro row member amendment
    obtain ⟨m, inside, here, rfl⟩ := mem_rowsOf.mp member
    exact (mem_chat chats within).mpr ⟨m, complete m inside here (.inl amendment), here, rfl⟩
  · intro row top
    obtain ⟨m, inside, here, rfl⟩ := mem_rowsOf.mp top.inside
    exact (mem_chat chats within).mpr ⟨m, complete m inside here (.inr top), here, rfl⟩

/-! ### A row under a summary -/

/-- The update of a batch is the first of its newest messages. -/
theorem tally_latest (messages : List ChatMessage) :
    (messages = [] ∧ messages.foldl bump none = none) ∨
      ∃ u, messages.foldl bump none = some u ∧
        (∃ m ∈ messages, u.text = m.text ∧ u.ts = m.timestamp) ∧
        ∀ m ∈ messages, m.timestamp.after u.ts = false := by
  induction messages using List.reverseRecOn with
  | nil => exact .inl ⟨rfl, rfl⟩
  | append_singleton messages last ih =>
    right
    rw [List.foldl_append]
    rcases ih with ⟨rfl, none_⟩ | ⟨u, tallied, ⟨m, member, text, ts⟩, newest⟩
    · refine ⟨_, rfl, ⟨last, by simp, rfl, rfl⟩, fun m member => ?_⟩
      rw [List.nil_append, List.mem_singleton] at member
      subst member
      cases m.timestamp <;> simp [Timestamp.after]
    · rw [tallied]
      by_cases later : last.timestamp.after u.ts = true
      · refine ⟨⟨u.conversationId, last.text, last.timestamp, u.count + 1⟩,
          by simp only [List.foldl_cons, List.foldl_nil, bump, if_pos later],
          ⟨last, by simp, rfl, rfl⟩, fun m' member' => ?_⟩
        rcases List.mem_append.mp member' with earlier | same
        · have below := newest m' earlier
          revert below later
          cases m'.timestamp <;> cases last.timestamp <;> cases u.ts <;> simp [Timestamp.after]
          intros
          omega
        · rw [List.mem_singleton.mp same]
          cases last.timestamp <;> simp [Timestamp.after]
      · refine ⟨{ u with count := u.count + 1 },
          by simp only [List.foldl_cons, List.foldl_nil, bump, if_neg later],
          ⟨m, by simp [member], text, ts⟩, fun m' member' => ?_⟩
        rcases List.mem_append.mp member' with earlier | same
        · exact newest m' earlier
        · rw [List.mem_singleton.mp same]
          simpa using later

/-- A row dated no later than `t`. -/
def DatedBy (t : Int) (row : StoredConversation) : Prop :=
  ∃ t' ≤ t, row.lastMessageTimestamp = some t'

/-- What a message that counts may bring while the row is to show the summary in the end. -/
structure NoRival (summary : Summary) (t : Int) (m : ChatMessage) : Prop where
  dated : ∃ t' ≤ t, m.timestamp = some t'
  shown : m.timestamp = some t → m.text = summary.lastMessageText ∧ summary.lastMessageDeleted = false

/-- A batch of such messages keeps the row no later than the summary. The row shows the summary
once a message of its date is counted in, and from then on. -/
theorem counted_shows {summary : Summary} {t : Int} {c : String} {batch : List ChatMessage}
    {row : Option StoredConversation} (late : 0 ≤ t) (date : summary.lastMessageTimestamp = some t)
    (noRival : ∀ m ∈ plainIn account.parse c batch, NoRival summary t m)
    (before : ∀ r ∈ row, DatedBy t r) :
    (∀ r ∈ counted account c batch row, DatedBy t r) ∧
      ((∃ m ∈ plainIn account.parse c batch, m.timestamp = some t) ∨ (∃ r ∈ row, Shows r summary) →
        ∃ r ∈ counted account c batch row, Shows r summary) := by
  unfold counted
  rcases tally_latest (plainIn account.parse c batch) with ⟨none_, tallied⟩ | ⟨u, tallied, ⟨m, member, text, ts⟩, newest⟩
  · -- nothing is counted, and the row is as before
    rw [tallied, none_]
    refine ⟨before, fun either => either.resolve_left ?_⟩
    rintro ⟨m, member, _⟩
    cases member
  · rw [tallied]
    obtain ⟨t', below, dated⟩ := (noRival m member).dated
    -- the row takes the later of the two dates
    have rowDate : ((row.map StoredConversation.lastMessageTimestamp).getD (some 0)).max u.ts =
        some (max (((row.bind StoredConversation.lastMessageTimestamp)).getD 0) t') := by
      rw [ts, dated]
      cases row with
      | none => rfl
      | some r =>
        obtain ⟨t0, _, rowDated⟩ := before r rfl
        simp [Timestamp.max, rowDated]
    have rowBelow : (row.bind StoredConversation.lastMessageTimestamp).getD 0 ≤ t := by
      cases row with
      | none => exact late
      | some r =>
        obtain ⟨t0, below0, rowDated⟩ := before r rfl
        simpa [rowDated] using below0
    constructor
    · rintro _ ⟨⟩
      exact ⟨_, max_le rowBelow below, rowDate⟩
    · intro either
      refine ⟨_, rfl, ?_⟩
      -- the latest of the batch decides the text if it is at the top, and the row keeps its own otherwise
      by_cases top : t' = t
      · subst top
        obtain ⟨shows_, undeleted⟩ := (noRival m member).shown dated
        have taken : (row.filter fun e => e.lastMessageTimestamp.after u.ts) = none := by
          cases row with
          | none => rfl
          | some r =>
            obtain ⟨t0, below0, rowDated⟩ := before r rfl
            rw [Option.filter_some, rowDated, ts, dated]
            simp [Timestamp.after, below0]
        refine ⟨?_, ?_, ?_⟩
        · simp [summaryRow, taken, text, shows_]
        · rw [summaryRow, rowDate, date, max_eq_right rowBelow]
        · simp [summaryRow, taken, undeleted]
      · obtain ⟨r, there, shows_⟩ : ∃ r ∈ row, Shows r summary := by
          refine either.resolve_left ?_
          rintro ⟨m', member', dated'⟩
          have notAfter := newest m' member'
          rw [dated', ts, dated] at notAfter
          have notBefore : t ≤ t' := by simpa [Timestamp.after] using notAfter
          exact top (le_antisymm below notBefore)
        cases there
        have kept : ((some r : Option StoredConversation).filter fun e =>
            e.lastMessageTimestamp.after u.ts) = some r := by
          rw [Option.filter_some, shows_.2.1, date, ts, dated]
          simp [Timestamp.after, lt_of_le_of_ne below top]
        refine ⟨?_, ?_, ?_⟩
        · simp [summaryRow, kept, shows_.1]
        · rw [summaryRow, rowDate, date]
          simp [shows_.2.1, date, below]
        · simp [summaryRow, kept, shows_.2.2]

/-- A recomputed row shows the summary of what is stored. -/
theorem corrected_shows (account : Account) (db : Database) (c : String) (row : StoredConversation) :
    (∀ summary, summarizeConversation account.parse account.render (db.chat account c) = some summary →
      ∃ r, corrected account c (db.messagesOf account.userId.str) (some row) = some r ∧ Shows r summary) ∧
    (summarizeConversation account.parse account.render (db.chat account c) = none →
      corrected account c (db.messagesOf account.userId.str) (some row) = some row) := by
  simp only [corrected, correctedRow, Option.bind_eq_bind, Option.bind_some]
  have chat : ((db.messagesOf account.userId.str).filter fun m => m.conversationId.same (.str c)) =
      db.chat account c := rfl
  rw [chat]
  constructor
  · intro summary found
    rw [found, Option.bind_some]
    split
    next same => exact ⟨row, rfl, same.1.symm, same.2.2.1.symm, same.2.2.2.symm⟩
    next => exact ⟨_, rfl, rfl, rfl, rfl⟩
  · intro nothing
    rw [nothing]
    rfl

/-! ### A whole delivery -/

/-- While the set arrives: the row is no later than the summary, and shows it once whatever
the summary depends on is there. -/
structure Arriving (account : Account) (set : MessageSet) (c : String) (summary : Summary) (t : Int)
    (saved : List ChatMessage) (db : Database) : Prop where
  chats : Chats account saved db
  within : ∀ m ∈ saved, m ∈ set.messages
  below : ∀ r ∈ db.conversation c, DatedBy t r
  shows_ : Complete account set c saved → ∃ r ∈ db.conversation c, Shows r summary

section Arrival

variable {set : MessageSet} {c : String} {summary : Summary} {t : Int}

theorem Arriving.save {saved batch : List ChatMessage} {db db' : Database}
    (arriving : Arriving account set c summary t saved db) (done : SavedChat account batch db db')
    (late : 0 ≤ t) (date : summary.lastMessageTimestamp = some t)
    (found : summarizeConversation account.parse account.render (rowsOf account set c) = some summary)
    (noRival : ∀ m ∈ plainIn account.parse c set.messages, NoRival summary t m)
    (batchWithin : ∀ m ∈ batch, m ∈ set.messages) :
    Arriving account set c summary t (saved ++ batch) db' := by
  have chats := arriving.chats.save done
  have within : ∀ m ∈ saved ++ batch, m ∈ set.messages := fun m member =>
    (List.mem_append.mp member).elim (arriving.within m) (batchWithin m)
  have noRival' : ∀ m ∈ plainIn account.parse c batch, NoRival summary t m := by
    intro m member
    obtain ⟨inside, plain⟩ := mem_plainIn.mp member
    exact noRival m (mem_plainIn.mpr ⟨batchWithin m inside, plain⟩)
  obtain ⟨countedBelow, countedShows⟩ := counted_shows late date noRival' arriving.below
  -- The latest original is a message of the set, dated as the summary.
  obtain ⟨latest, inSet, here, top, original, dated⟩ : ∃ m ∈ set.messages, m.conversationId = c ∧
      LatestOriginal account.parse (rowsOf account set c) (m.row account.userId.str) ∧
      isAmendment account.parse m.text = false ∧ m.timestamp = some t := by
    obtain ⟨row, top, plain, dated⟩ := summary_source (rowsOf_orderly set c) found
    obtain ⟨m, inside, here, rfl⟩ := mem_rowsOf.mp top.inside
    exact ⟨m, inside, here, top, plain, dated.symm.trans date⟩
  -- Once all is there, the row after counting exists.
  have thereWhenComplete : Complete account set c (saved ++ batch) →
      ∃ r, counted account c batch (db.conversation c) = some r := by
    intro complete
    have member := complete latest inSet here (.inr top)
    have counts : 0 < countOf (counted account c batch (db.conversation c)) := by
      rw [counted_count, arriving.chats.counts, ← List.length_append, plainIn, plainIn, ← List.filter_append]
      exact List.length_pos_of_mem (mem_plainIn.mpr ⟨member, original, here⟩)
    cases there : counted account c batch (db.conversation c) with
    | none => rw [there] at counts; cases counts
    | some r => exact ⟨r, rfl⟩
  have after := done.conversation c
  split at after
  next amended =>
    refine ⟨chats, within, fun r there => ?_, fun complete => ?_⟩
    · rw [after] at there
      cases row : counted account c batch (db.conversation c) with
      | none =>
        rw [row] at there
        cases there
      | some before =>
        rw [row] at there
        obtain ⟨recomputes, keeps⟩ := corrected_shows account db' c before
        cases stored : summarizeConversation account.parse account.render (db'.chat account c) with
        | none =>
          rw [keeps stored] at there
          cases there
          exact countedBelow _ row
        | some summary' =>
          obtain ⟨r', made, shows_⟩ := recomputes summary' stored
          rw [made] at there
          cases there
          -- Whatever is recomputed has the date of an original of the set.
          have orderly : ∀ row ∈ db'.chat account c, Orderly row := by
            intro row member
            obtain ⟨m, inside, _, rfl⟩ := (mem_chat chats within).mp member
            exact orderly_row (set.dated m (within m inside))
          obtain ⟨row, top', plain, dated'⟩ := summary_source orderly stored
          obtain ⟨m, inside, mine, rfl⟩ := (mem_chat chats within).mp top'.inside
          obtain ⟨t', earlier, dated''⟩ :=
            (noRival m (mem_plainIn.mpr ⟨within m inside, plain, mine⟩)).dated
          exact ⟨t', earlier, shows_.2.1.trans (dated'.trans dated'')⟩
    · obtain ⟨r, row⟩ := thereWhenComplete complete
      obtain ⟨r', made, shows_⟩ := (corrected_shows account db' c r).1
        summary ((summary_complete chats within complete).trans found)
      refine ⟨r', ?_, shows_⟩
      rw [after, row]
      exact made
  next plain =>
    refine ⟨chats, within, fun r there => countedBelow r (after ▸ there), fun complete => ?_⟩
    rw [after]
    apply countedShows
    by_cases arrived : latest ∈ batch
    · exact .inl ⟨latest, mem_plainIn.mpr ⟨arrived, original, here⟩, dated⟩
    · refine .inr (arriving.shows_ fun m member mine either => ?_)
      rcases List.mem_append.mp (complete m member mine either) with old | new
      · exact old
      · rcases either with amendment | top'
        · exact absurd (amends_iff.mpr ⟨m, new, amendment, mine⟩) plain
        · have same : latest = m := set.unique inSet member
            (Js.str.inj (congrArg StoredMessage.id (top.unique (rowsOf_distinct set c) top')))
          exact absurd (same ▸ new) arrived

theorem Arriving.run {saved : List ChatMessage} {s u : State} {batches : List (List ChatMessage)}
    (arriving : Arriving account set c summary t saved s.db)
    (ran : runAll account (batches.map .save) s = some u) (late : 0 ≤ t)
    (date : summary.lastMessageTimestamp = some t)
    (found : summarizeConversation account.parse account.render (rowsOf account set c) = some summary)
    (noRival : ∀ m ∈ plainIn account.parse c set.messages, NoRival summary t m)
    (within : ∀ m ∈ batches.flatten, m ∈ set.messages) :
    Arriving account set c summary t (saved ++ batches.flatten) u.db := by
  induction batches generalizing saved s with
  | nil =>
    cases ran
    rw [List.flatten_nil, List.append_nil]
    exact arriving
  | cons batch rest ih =>
    obtain ⟨v, first, later⟩ := Option.bind_eq_some_iff.mp ran
    obtain ⟨v', ran', done⟩ := save_runs account s batch
    simp only [ChatEvent.run, ran', Option.some.injEq] at first
    subst first
    rw [List.flatten_cons, ← List.append_assoc]
    refine ih (arriving.save done late date found noRival fun m member => ?_) later fun m member => ?_
    · exact within m (by simp [member])
    · exact within m (by rw [List.flatten_cons]; exact List.mem_append_right _ member)

end Arrival

theorem delivered_saves (batches : List (List ChatMessage)) :
    delivered (batches.map .save) = batches.flatten := by
  rw [delivered, List.flatMap_map, List.flatten_eq_flatMap]
  rfl

theorem Complete.of_all {set : MessageSet} {c : String} {saved : List ChatMessage}
    (all : ∀ m ∈ set.messages, m ∈ saved) : Complete account set c saved :=
  fun m member _ _ => all m member

/-- After a delivery the summaries are those of the set. -/
theorem summary_delivered {set : MessageSet} {batches : List (List ChatMessage)} {s : State}
    (delivers : Delivers set batches) (ran : runAll account (batches.map .save) {} = some s) (c : String) :
    summarizeConversation account.parse account.render (s.db.chat account c) =
      summarizeConversation account.parse account.render (rowsOf account set c) := by
  have chats := runAll_chats Chats.start ran
  rw [delivered_saves, List.nil_append] at chats
  exact summary_complete chats (fun m => (delivers m).mp) (.of_all fun m => (delivers m).mpr)

/-- Unrivalled, the latest original stays what the row shows. -/
theorem shown_if_unrivalled {set : MessageSet} {batches : List (List ChatMessage)} {s : State}
    (delivers : Delivers set batches) (ran : runAll account (batches.map .save) {} = some s)
    (unrivalled : ∀ c, Unrivalled account set c) : PreviewsRight account s.db := by
  intro c summary stored
  rw [summary_delivered delivers ran] at stored
  obtain ⟨row, top, _, dated⟩ := summary_source (rowsOf_orderly set c) stored
  obtain ⟨t, date⟩ := Option.isSome_iff_exists.mp (rowsOf_orderly set c row top.inside).dated
  obtain ⟨late, rivals⟩ := unrivalled c summary t stored (dated.trans date)
  have noRival : ∀ m ∈ plainIn account.parse c set.messages, NoRival summary t m := by
    intro m member
    obtain ⟨t', date'⟩ := Option.isSome_iff_exists.mp (set.dated m (mem_plainIn.mp member).1)
    refine ⟨⟨t', ?_, date'⟩, fun same => (rivals m member t same le_rfl).2⟩
    rcases le_total t t' with later | earlier
    · exact (rivals m member t' date' later).1.le
    · exact earlier
  have start : Arriving account set c summary t [] ({} : State).db := by
    refine ⟨Chats.start, fun _ none_ => (nomatch none_), fun _ none_ => absurd none_ (by simp [Database.conversation]), ?_⟩
    intro complete
    obtain ⟨m, inside, here, rfl⟩ := mem_rowsOf.mp top.inside
    exact absurd (complete m inside here (.inr top)) List.not_mem_nil
  have arrived := start.run ran late (dated.trans date) stored noRival fun m => (delivers m).mp
  rw [List.nil_append] at arrived
  exact arrived.shows_ (.of_all fun m => (delivers m).mpr)

/-- The set in two batches. -/
theorem two_batches (account : Account) (set : MessageSet) (first : ChatMessage → Bool) :
    ∃ s t : State, runAll account (([set.messages.filter first,
        set.messages.filter fun m => !first m] : List (List ChatMessage)).map .save) {} = some t ∧
      Delivers set [set.messages.filter first, set.messages.filter fun m => !first m] ∧
      SavedChat account (set.messages.filter first) {} s.db ∧
      SavedChat account (set.messages.filter fun m => !first m) s.db t.db := by
  obtain ⟨s, ran, done⟩ := save_runs account {} (set.messages.filter first)
  obtain ⟨t, ran', done'⟩ := save_runs account s (set.messages.filter fun m => !first m)
  refine ⟨s, t, ?_, fun m => ?_, done, done'⟩
  · simp only [List.map_cons, List.map_nil, runAll, ChatEvent.run, ran, Option.bind_some, ran']
  · cases h : first m <;> simp [h]

/-- Amendments first: the fold starts from the date zero. -/
theorem late_if_shown {set : MessageSet} {c : String} {summary : Summary} {t : Int}
    (right : ∀ batches s, Delivers set batches → runAll account (batches.map .save) {} = some s →
      PreviewsRight account s.db)
    (found : summarizeConversation account.parse account.render (rowsOf account set c) = some summary)
    (date : summary.lastMessageTimestamp = some t) : 0 ≤ t := by
  obtain ⟨s, u, ran, delivers, first, last⟩ :=
    two_batches account set fun m => isAmendment account.parse m.text
  obtain ⟨row, there, shows_⟩ := right _ u delivers ran c summary ((summary_delivered delivers ran c).trans found)
  have plain : ¬ amends account.parse c
      (set.messages.filter fun m => !isAmendment account.parse m.text) = true := by
    rw [amends_iff]
    rintro ⟨m, member, amendment, _⟩
    simp [amendment] at member
  have nothing : s.db.conversation c = none := by
    have none_ : counted account c (set.messages.filter fun m => isAmendment account.parse m.text)
        (({} : State).db.conversation c) = none := by
      rw [counted, plainIn_nil fun m member => by simpa using (List.mem_filter.mp member).2]
      rfl
    have after := first.conversation c
    rw [none_] at after
    rw [after]
    split <;> rfl
  have after := last.conversation c
  rw [if_neg plain, nothing, there] at after
  unfold counted at after
  split at after
  next => cases after
  next u _ =>
    cases after
    have dated := shows_.2.1
    rw [date] at dated
    cases date' : u.ts with
    | none => simp [summaryRow, Timestamp.max, date'] at dated
    | some t' =>
      have top : max 0 t' = t := by simpa [summaryRow, Timestamp.max, date'] using dated
      omega

/-- A message that comes last takes the row over if it is no older. -/
theorem unrivalled_if_shown {set : MessageSet} {c : String} {summary : Summary} {t t' : Int}
    {m : ChatMessage}
    (right : ∀ batches s, Delivers set batches → runAll account (batches.map .save) {} = some s →
      PreviewsRight account s.db)
    (found : summarizeConversation account.parse account.render (rowsOf account set c) = some summary)
    (date : summary.lastMessageTimestamp = some t) (member : m ∈ plainIn account.parse c set.messages)
    (date' : m.timestamp = some t') (later : t ≤ t') :
    t' = t ∧ m.text = summary.lastMessageText ∧ summary.lastMessageDeleted = false := by
  -- the delivery that is used: all the others first, then this message alone
  obtain ⟨s, u, ran, delivers, _, last⟩ := two_batches account set fun m' => decide (m' ≠ m)
  obtain ⟨row, there, shows_⟩ := right _ u delivers ran c summary ((summary_delivered delivers ran c).trans found)
  obtain ⟨inside, plain, here⟩ := mem_plainIn.mp member
  have only : (set.messages.filter fun m' => !decide (m' ≠ m)) = [m] := by
    have same : (set.messages.filter fun m' => !decide (m' ≠ m)) = set.messages.filter fun m' => m' == m := by
      congr 1
      funext m'
      by_cases h : m' = m <;> simp [h]
    rw [same, List.filter_beq, List.count_eq_one_of_mem set.distinct.of_map inside, List.replicate_one]
  rw [only] at last
  have counts : plainIn account.parse c [m] = [m] := by simp [plainIn, plain, here]
  have unamended : ¬ amends account.parse c [m] = true := by simp [amends, plain]
  have after := last.conversation c
  rw [if_neg unamended, there, counted, counts] at after
  cases after
  obtain ⟨text, dated, deleted⟩ := shows_
  rw [date] at dated
  -- the row then carries the later of the two dates, and it is the right one
  have dates : Timestamp.max (((s.db.conversation c).map StoredConversation.lastMessageTimestamp).getD (some 0))
      (some t') = some t := by
    rw [← dated, summaryRow, date']
  obtain ⟨t0, old⟩ : ∃ t0, ((s.db.conversation c).map StoredConversation.lastMessageTimestamp).getD (some 0) =
      some t0 := by
    cases old : ((s.db.conversation c).map StoredConversation.lastMessageTimestamp).getD (some 0) with
    | none => rw [old] at dates; cases dates
    | some t0 => exact ⟨t0, rfl⟩
  rw [old] at dates
  have top : max t0 t' = t := by simpa [Timestamp.max] using dates
  have same : t' = t := by omega
  -- so the row was not after the message, and the message was put into it
  have taken : (s.db.conversation c).filter (fun e => e.lastMessageTimestamp.after m.timestamp) = none := by
    cases row : s.db.conversation c with
    | none => rfl
    | some r =>
      rw [row] at old
      have rowDated : r.lastMessageTimestamp = some t0 := old
      have notAfter : t0 ≤ t' := by omega
      rw [Option.filter_some, rowDated, date']
      simp [Timestamp.after, notAfter]
  refine ⟨same, ?_, ?_⟩
  · rw [← text, summaryRow, taken]
    rfl
  · rw [← deleted, summaryRow, taken]
    rfl

/-- Every delivery of a set ends with each conversation showing its summary exactly if no
message of the set can take a row over from the latest original. -/
theorem previews_right (account : Account) (set : MessageSet) :
    (∀ batches, Delivers set batches → ∃ s, runAll account (batches.map .save) {} = some s ∧
      PreviewsRight account s.db) ↔ ∀ c, Unrivalled account set c := by
  constructor
  · intro all
    have right : ∀ batches s, Delivers set batches → runAll account (batches.map .save) {} = some s →
        PreviewsRight account s.db := by
      intro batches s delivers ran
      obtain ⟨s', ran', right⟩ := all batches delivers
      rw [ran] at ran'
      cases ran'
      exact right
    intro c summary t found date
    refine ⟨late_if_shown right found date, fun m member t' date' later => ?_⟩
    exact unrivalled_if_shown right found date member date' later
  · intro unrivalled batches delivers
    obtain ⟨s, ran⟩ := runAll_total account (batches.map .save) (s := {}) Chats.start
    exact ⟨s, ran, shown_if_unrivalled delivers ran unrivalled⟩

end Previews

section Samples

open Demo

/-- An answer within the same millisecond. -/
def answer : ChatMessage := { greeting with id := "m2", text := "ho" }

def exchange : MessageSet where
  messages := [greeting, answer]
  distinct := by decide
  dated := by decide

/-- The answer is the last bubble, and the row shows what came last. -/
theorem exchange_reversed : Delivers exchange [[answer], [greeting]] ∧
    ∃ s, runAll account [.save [answer], .save [greeting]] {} = some s ∧ ¬ PreviewsRight account s.db := by
  constructor
  · intro m
    simp [exchange, or_comm]
  · obtain ⟨s, ran⟩ := runAll_total account [.save [answer], .save [greeting]]
      (s := {}) Chats.start
    refine ⟨s, ran, fun right => ?_⟩
    have computed : (runAll account [.save [answer], .save [greeting]] {}).map (fun s =>
        (summarizeConversation account.parse account.render (s.db.chat account "dm:a:b"),
          (s.db.conversation "dm:a:b").map StoredConversation.lastMessageText)) =
        some (some ⟨"ho", some 5, false⟩, some "hi") := by decide
    rw [ran, Option.map_some, Option.some.injEq, Prod.mk.injEq] at computed
    obtain ⟨row, there, text, _⟩ := right _ _ computed.1
    rw [there, Option.map_some, text] at computed
    simp at computed

end Samples

end Atmin.Web
