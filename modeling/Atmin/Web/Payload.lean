import Atmin.Server.Paths
import Atmin.Web.Js

/-!
# Inner plaintexts (`payload.ts`)
-/

namespace Atmin.Web

/-- A preview object reference on the wire. -/
structure PreviewRef where
  url : Js
  key : Js
  iv : Js
  width : Js
  height : Js
  deriving Repr

/-- The wire shape of a media file; the optional fields are read only when well typed. -/
structure ParsedMediaFile where
  url : Js
  key : Js
  iv : Js
  name : Js
  size : Js
  mime : Option Js
  width : Option Js
  height : Option Js
  optimized : Option Js
  preview : Option PreviewRef
  deriving Repr

inductive ParsedInner where
  | text (body : Js)
  | media (body : Js) (file : ParsedMediaFile)
  | amendment (targetMsgId action : Js) (body : Option Js)
  | unknown
  deriving Repr

namespace Js

/-- `typeof x === 'string'`. -/
def isString : Js → Bool
  | .str _ | .badStr _ => true
  | _ => false

/-- `typeof x === 'number'`. -/
def isNumber : Js → Bool
  | .num _ => true
  | _ => false

/-- `typeof x === 'boolean'`. -/
def isBoolean : Js → Bool
  | .bool _ => true
  | _ => false

/-- The members of a value that passes `x && typeof x === 'object'`. -/
def asObject : Js → Option (String → Js)
  | .obj fields => some (lastOf fields)
  | .arr _ | .foreign _ => some fun _ => .undefined
  | _ => none

/-- A member read only when it has the type. -/
def ifTyped (isType : Js → Bool) (x : Js) : Option Js := if isType x then some x else none

end Js

def parsePreview (p : String → Js) : Option PreviewRef :=
  if (p "url").isString && (p "key").isString && (p "iv").isString && (p "width").isNumber &&
      (p "height").isNumber then
    some { url := p "url", key := p "key", iv := p "iv", width := p "width", height := p "height" }
  else none

def parseFile (f : String → Js) : Option ParsedMediaFile :=
  if (f "url").isString && (f "key").isString && (f "iv").isString && (f "name").isString &&
      (f "size").isNumber then
    some
      { url := f "url", key := f "key", iv := f "iv", name := f "name", size := f "size"
        mime := (f "mime").ifTyped Js.isString
        width := (f "width").ifTyped Js.isNumber
        height := (f "height").ifTyped Js.isNumber
        optimized := (f "optimized").ifTyped Js.isBoolean
        preview := (f "preview").asObject.bind parsePreview }
  else none

def parseObject (o : String → Js) : ParsedInner :=
  if (o "type").same (.str "text") && (o "body").isString then .text (o "body")
  else
    let file := if (o "type").same (.str "media") && (o "body").isString then
        (o "file").asObject.bind parseFile
      else none
    match file with
    | some file => .media (o "body") file
    | none =>
      if (o "type").same (.str "amendment") && (o "target_msg_id").isString then
        .amendment (o "target_msg_id")
          (((o "action").ifTyped Js.isString).getD (.str "")) ((o "body").ifTyped Js.isString)
      else .unknown

/-- `parse` is `JSON.parse`; plaintext that is no JSON object is legacy text. -/
def parseInner (parse : String → Option Json) (text : String) : ParsedInner :=
  if startsWith text "\x7b" then
    match (parse text).bind fun j => (Js.ofJson j).asObject with
    | some o => parseObject o
    | none => .text (.str text)
  else .text (.str text)

def ParsedInner.isAmendment : ParsedInner → Bool
  | .amendment .. => true
  | _ => false

def isAmendment (parse : String → Option Json) (text : String) : Bool :=
  (parseInner parse text).isAmendment

end Atmin.Web
