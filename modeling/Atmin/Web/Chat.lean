import Atmin.Web.Messaging

/-!
# Rendering a conversation (`useChat.ts`)

A chat is rendered from the stored messages of its conversation: originals first, then for
each of them the amendments that name it, oldest id first.
-/

namespace Atmin.Web

namespace Database

/-- `Number.MAX_SAFE_INTEGER`, past every date. -/
def latest : Int := 2 ^ 53 - 1

/-- A row without a valid date is not in the index on the date. -/
def dated (m : StoredMessage) : Bool := m.timestamp.any fun t => decide (0 ≤ t ∧ t ≤ latest)

/-- `loadMessages`: the rows of one account, oldest date first. -/
def loadMessages (db : Database) (userId : String) : List StoredMessage :=
  ((db.messagesOf userId).filter dated).insertionSort
    fun a b => Timestamp.after a.timestamp b.timestamp = false

end Database

structure DecodedPreviewRef where
  url : Js
  key : List UInt8
  iv : List UInt8
  width : Js
  height : Js
  deriving Repr

structure MediaFile where
  url : Js
  key : List UInt8
  iv : List UInt8
  name : Js
  size : Js
  mime : Option Js
  width : Option Js
  height : Option Js
  optimized : Option Js
  preview : Option DecodedPreviewRef
  deriving Repr

structure Message where
  id : Js
  text : Js
  timestamp : Timestamp
  sent : Bool
  media : Option MediaFile := none
  editedAt : Option Timestamp := none
  deleted : Bool := false
  deriving Repr

section Materialize

-- `atob` is the built-in; it throws on whatever is not base64. What throws here has no result.
variable (account : Account) (atob : String → Option (List UInt8))

def base64UrlDecode (x : Js) : Option (List UInt8) :=
  match x with
  | .str s =>
    let b64 := s.toList.map fun c => if c = '-' then '+' else if c = '_' then '/' else c
    let pad := List.replicate ((4 - b64.length % 4) % 4) '='
    atob (String.ofList (b64 ++ pad))
  | _ => none

def decodePreview (p : PreviewRef) : Option DecodedPreviewRef := do
  let key ← base64UrlDecode atob p.key
  let iv ← base64UrlDecode atob p.iv
  pure { url := p.url, key, iv, width := p.width, height := p.height }

def decodeMedia (file : ParsedMediaFile) : Option MediaFile := do
  let key ← base64UrlDecode atob file.key
  let iv ← base64UrlDecode atob file.iv
  let preview ← match file.preview with
    | some p => (decodePreview atob p).map some
    | none => some none
  pure
    { url := file.url, key, iv, name := file.name, size := file.size, mime := file.mime
      width := file.width, height := file.height, optimized := file.optimized, preview }

/-- A message before its amendments; an amendment or an unknown payload becomes none. -/
def baseMessage (m : StoredMessage) : Option (Option Message) :=
  let sent := m.fromUser.same (.str account.userId.str)
  match parseInner account.parse m.text with
  | .text body => some (some { id := m.id, text := body, timestamp := m.timestamp, sent })
  | .media body file => do
    let media ← decodeMedia atob file
    pure (some { id := m.id, text := body, timestamp := m.timestamp, sent, media := some media })
  | .amendment .. | .unknown => some none

/-- Apply a chain of amendments: only those of the author count, and a deletion ends it. -/
def amend (author : Js) : Message → List StoredMessage → Message
  | base, [] => base
  | base, am :: rest => match parseInner account.parse am.text with
    | .amendment _ action body =>
      if !am.fromUser.same author then amend author base rest
      else if action.same (.str "delete") then
        { base with deleted := true, text := .str "", media := none }
      else if action.same (.str "edit") then
        match body with
        | none => amend author base rest
        | some body =>
          -- Media without a caption has no text to edit.
          if base.media.isSome && base.text.same (.str "") then amend author base rest
          else amend author { base with text := body, editedAt := some am.timestamp } rest
      else amend author base rest
    | _ => amend author base rest

/-- Whatever throws for one message leaves the chat without all of them. -/
def materialize (msgs : List StoredMessage) : List StoredMessage → Option (List Message)
  | [] => some []
  | m :: rest => do
    let base ← baseMessage account atob m
    let others ← materialize msgs rest
    pure ((base.map fun base => amend account m.fromUser base
      (amendmentChain account.parse msgs m.id)).toList ++ others)

def toMessages (msgs : List StoredMessage) : Option (List Message) :=
  materialize account atob msgs msgs

/-- `load`: the messages of an open chat. -/
def load (db : Database) (convId : String) : Option (List Message) :=
  toMessages account atob ((db.loadMessages account.userId.str).filter fun m =>
    m.conversationId.same (.str convId))

end Materialize

end Atmin.Web
