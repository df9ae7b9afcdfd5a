import Atmin.Web.Payload

/-!
# One line of a message (`payload.ts`)

The chat list shows a stored plaintext as one line: a text collapsed, and a placeholder for
media.
-/

namespace Atmin.Web

/-- What `\s` matches, and what `trim` takes off. -/
def isSpace (c : Char) : Bool :=
  let n := c.toNat
  decide (9 ≤ n ∧ n ≤ 13) || decide (8192 ≤ n ∧ n ≤ 8202) ||
    [32, 160, 5760, 8232, 8233, 8239, 8287, 12288, 65279].contains n

/-- `s.replace(/\s+/g, ' ')`; `blank` is whether the run of blanks has its space already. -/
def collapseFrom (blank : Bool) : List Char → List Char
  | [] => []
  | c :: cs =>
    if isSpace c then (if blank then collapseFrom true cs else ' ' :: collapseFrom true cs)
    else c :: collapseFrom false cs

def trim (cs : List Char) : List Char :=
  ((cs.dropWhile isSpace).reverse.dropWhile isSpace).reverse

def collapse (s : String) : String := String.ofList (trim (collapseFrom false s.toList))

/-- A lone surrogate is no blank, and stays as it is. -/
def Js.oneLine : Js → Js
  | .str s => .str (collapse s)
  | .badStr raw => .badStr (collapse raw)
  | x => x

/-- The text of a string, lone surrogates included. -/
def Js.chars : Js → String
  | .str s | .badStr s => s
  | _ => ""

/-- `/\.(jpe?g|png|gif|webp|avif|bmp)$/i`. -/
def isLikelyImage (name : Js) : Bool :=
  [".jpg", ".jpeg", ".png", ".gif", ".webp", ".avif", ".bmp"].any fun ending =>
    endsWith (String.ofList (name.chars.toList.map Char.toLower)) ending

/-- The placeholder of a media message. -/
def placeholder (mime : Option Js) (name : Js) : Js :=
  if (mime.any fun mime => startsWith mime.chars "image/") || isLikelyImage name then .str "<photo>"
  else .str "<file>"

/-- What the chat list shows for a stored plaintext. -/
def messagePreview (parse : String → Option Json) (text : String) : Js :=
  match parseInner parse text with
  | .text body => body.oneLine
  | .media _ file => placeholder file.mime file.name
  | .amendment .. | .unknown => .str ""

example : messagePreview (fun _ => none) " hi \n\t there " = .str "hi there" := by rfl

end Atmin.Web
