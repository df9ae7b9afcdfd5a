import Atmin.Data.JsonRoundTrip
import Atmin.Web.Payload
import Mathlib.Data.List.Find

/-!
# What is sent is what is parsed

A payload has no member order of its own: its members are written in whatever order its
object was built.
-/

namespace Atmin.Web

open Utf16 JsonText

/-! ### Payloads (`messaging.ts`) -/

/-- A string: any sequence of UTF-16 units. -/
abbrev Text := List UInt16

/-- A finite number, by its one form. The two zeros are one number. -/
abbrev FiniteNumber := { n : Number // n.canon = n }

structure PreviewPayload where
  url : Text
  key : Text
  iv : Text
  width : FiniteNumber
  height : FiniteNumber

structure FilePayload where
  url : Text
  key : Text
  iv : Text
  name : Text
  size : FiniteNumber
  mime : Option Text
  width : Option FiniteNumber
  height : Option FiniteNumber
  optimized : Option Bool
  preview : Option PreviewPayload

inductive AmendmentAction where
  | edit
  | delete
  deriving DecidableEq, Repr

def AmendmentAction.text : AmendmentAction → String
  | .edit => "edit"
  | .delete => "delete"

inductive InnerPayload where
  | text (body : Text)
  | media (body : Text) (file : FilePayload)
  | amendment (targetMsgId : Text) (action : AmendmentAction) (body : Option Text)

def ofFinite (n : FiniteNumber) : Json := .num n.val

/-- `JSON.stringify` leaves out a member that is undefined. -/
def optionalMember {α : Type} (name : String) (write : α → Json) : Option α → List (String × Json)
  | some x => [(name, write x)]
  | none => []

/-- An object with these members, in any order. -/
def IsObject (fields : List (String × Json)) (j : Json) : Prop :=
  ∃ arranged : List (String × Json), arranged.Perm fields ∧ j = .obj arranged

def PreviewPayload.fields (p : PreviewPayload) : List (String × Json) :=
  [("url", ofUnits p.url), ("key", ofUnits p.key), ("iv", ofUnits p.iv), ("width", ofFinite p.width),
    ("height", ofFinite p.height)]

def FilePayload.fields (f : FilePayload) (preview : Option Json) : List (String × Json) :=
  [("url", ofUnits f.url), ("key", ofUnits f.key), ("iv", ofUnits f.iv), ("name", ofUnits f.name),
      ("size", ofFinite f.size)] ++
    (optionalMember "mime" ofUnits f.mime ++ (optionalMember "width" ofFinite f.width ++
      (optionalMember "height" ofFinite f.height ++ (optionalMember "optimized" Json.bool f.optimized ++
        optionalMember "preview" id preview))))

def FilePayload.Written (f : FilePayload) (j : Json) : Prop :=
  ∃ preview, Option.Rel (fun p j => IsObject p.fields j) f.preview preview ∧
    IsObject (f.fields preview) j

/-- The tree `JSON.stringify` writes for the payload. -/
def InnerPayload.Written : InnerPayload → Json → Prop
  | .text body, j => IsObject [("type", .str "text"), ("body", ofUnits body)] j
  | .media body file, j => ∃ f, file.Written f ∧
      IsObject [("type", .str "media"), ("body", ofUnits body), ("file", f)] j
  | .amendment target action body, j =>
    IsObject ([("type", .str "amendment"), ("target_msg_id", ofUnits target),
      ("action", .str action.text)] ++ optionalMember "body" ofUnits body) j

def PreviewPayload.toJson (p : PreviewPayload) : Json := .obj p.fields

def FilePayload.toJson (f : FilePayload) : Json := .obj (f.fields (f.preview.map PreviewPayload.toJson))

/-- The payload with its members in the order of its type. -/
def InnerPayload.toJson : InnerPayload → Json
  | .text body => .obj [("type", .str "text"), ("body", ofUnits body)]
  | .media body file =>
    .obj [("type", .str "media"), ("body", ofUnits body), ("file", file.toJson)]
  | .amendment target action body =>
    .obj ([("type", .str "amendment"), ("target_msg_id", ofUnits target),
      ("action", .str action.text)] ++ optionalMember "body" ofUnits body)

/-- Every payload is written. -/
theorem written_toJson (p : InnerPayload) : p.Written p.toJson := by
  cases p with
  | text body => exact ⟨_, .refl _, rfl⟩
  | media body file =>
    refine ⟨file.toJson, ⟨file.preview.map PreviewPayload.toJson, ?_, _, .refl _, rfl⟩, _, .refl _, rfl⟩
    cases file.preview with
    | none => exact .none
    | some p => exact .some ⟨_, .refl _, rfl⟩
  | amendment target action body => exact ⟨_, .refl _, rfl⟩

/-! ### Their fields, as the parser returns them -/

def Js.ofUnits (us : Text) : Js := Js.ofJson (JsonText.ofUnits us)

def Js.ofFinite (n : FiniteNumber) : Js := .num n.val

def PreviewPayload.parsed (p : PreviewPayload) : PreviewRef :=
  { url := Js.ofUnits p.url, key := Js.ofUnits p.key, iv := Js.ofUnits p.iv
    width := Js.ofFinite p.width, height := Js.ofFinite p.height }

def FilePayload.parsed (f : FilePayload) : ParsedMediaFile :=
  { url := Js.ofUnits f.url, key := Js.ofUnits f.key, iv := Js.ofUnits f.iv
    name := Js.ofUnits f.name, size := Js.ofFinite f.size, mime := f.mime.map Js.ofUnits
    width := f.width.map Js.ofFinite, height := f.height.map Js.ofFinite
    optimized := f.optimized.map Js.bool, preview := f.preview.map PreviewPayload.parsed }

/-- The payload's kind and fields. -/
def InnerPayload.parsed : InnerPayload → ParsedInner
  | .text body => .text (Js.ofUnits body)
  | .media body file => .media (Js.ofUnits body) file.parsed
  | .amendment target action body =>
    .amendment (Js.ofUnits target) (.str action.text) (body.map Js.ofUnits)

/-! ### Reading an object -/

/-- The members of an object, read by name. -/
def readObject (fields : List (String × Json)) (name : String) : Js :=
  ((Json.lookup fields name).map Js.ofJson).getD .undefined

theorem ofMembers_map (fields : List (String × Json)) :
    Js.ofMembers fields = fields.map fun e => (e.1, Js.ofJson e.2) := by
  induction fields with
  | nil => rfl
  | cons e rest ih =>
    obtain ⟨n, j⟩ := e
    rw [Js.ofMembers, ih, List.map_cons]

/-- With distinct names the order of the members does not matter. -/
theorem lastOf_arranged {arranged fields : List (String × Json)} (perm : arranged.Perm fields)
    (distinct : (fields.map Prod.fst).Nodup) :
    Js.lastOf (Js.ofMembers arranged) = readObject fields := by
  funext name
  have once : ((Js.ofMembers fields).map Prod.fst).Nodup := by
    rw [ofMembers_map, List.map_map]
    exact distinct
  -- names are distinct, so the order of the members does not matter
  have found : (Js.ofMembers arranged).reverse.find? (fun e => decide (e.1 = name)) =
      (Js.ofMembers fields).find? fun e => decide (e.1 = name) := by
    refine List.find?_eq_find?_of_perm ?_ ?_
    · rw [ofMembers_map, ofMembers_map]
      exact (List.reverse_perm _).trans (perm.map _)
    · intro e here e' there
      have once' : ((Js.ofMembers arranged).reverse.map Prod.fst).Nodup := by
        rw [ofMembers_map] at once ⊢
        exact ((((List.reverse_perm _).trans (perm.map _)).map Prod.fst).nodup_iff).mpr once
      have same : e.1 = e'.1 := by
        rw [of_decide_eq_true here.2, of_decide_eq_true there.2]
      exact List.inj_on_of_nodup_map once' here.1 there.1 same
  rw [Js.lastOf, found, readObject, Json.lookup, ofMembers_map, List.find?_map]
  simp only [Option.map_map]
  rfl

/-! ### The round trip -/

theorem membersPrintable_iff {fields : List (String × Json)} :
    MembersPrintable fields ↔ ∀ e ∈ fields, Printable e.2 := by
  induction fields with
  | nil => simp [MembersPrintable]
  | cons e rest ih =>
    obtain ⟨n, j⟩ := e
    simp [MembersPrintable, ih]

/-- What an object with printable members of distinct names is read as. -/
theorem asObject_isObject {fields : List (String × Json)} {j : Json} (written : IsObject fields j)
    (distinct : (fields.map Prod.fst).Nodup) : (Js.ofJson j).asObject = some (readObject fields) := by
  obtain ⟨arranged, perm, rfl⟩ := written
  rw [Js.ofJson, Js.asObject, lastOf_arranged perm distinct]

theorem printable_isObject {fields : List (String × Json)} {j : Json} (written : IsObject fields j)
    (all : ∀ e ∈ fields, Printable e.2) : Printable j := by
  obtain ⟨arranged, perm, rfl⟩ := written
  rw [Printable, membersPrintable_iff]
  exact fun e member => all e (perm.subset member)

theorem startsWith_stringify {fields : List (String × Json)} {j : Json} (written : IsObject fields j) :
    startsWith (stringify j) "\x7b" = true := by
  obtain ⟨arranged, perm, rfl⟩ := written
  simp only [startsWith, stringify, String.toList_ofList, print]
  rfl

theorem parseInner_isObject {fields : List (String × Json)} {j : Json} (written : IsObject fields j)
    (distinct : (fields.map Prod.fst).Nodup) (all : ∀ e ∈ fields, Printable e.2) :
    parseInner JsonText.parse (stringify j) = parseObject (readObject fields) := by
  rw [parseInner, if_pos (startsWith_stringify written),
    parse_stringify (printable_isObject written all), Option.bind_some,
    asObject_isObject written distinct]

theorem lookup_append (a b : List (String × Json)) (name : String) :
    Json.lookup (a ++ b) name = (Json.lookup a name).or (Json.lookup b name) := by
  rw [Json.lookup, List.find?_append]
  cases found : a.find? fun e => decide (e.1 = name) <;> simp [Json.lookup, found]

section

variable {α : Type} (write : α → Json) (x : Option α)

@[simp] theorem lookup_optional_self (name : String) :
    Json.lookup (optionalMember name write x) name = x.map write := by
  cases x <;> simp [optionalMember]

@[simp] theorem lookup_optional_ne {n m : String} (differ : n ≠ m) :
    Json.lookup (optionalMember n write x) m = none := by
  cases x <;> simp [optionalMember, differ]

theorem names_optional (name : String) :
    ((optionalMember name write x).map Prod.fst).Sublist [name] := by
  cases x <;> simp [optionalMember]

theorem printable_optional {name : String} (all : ∀ x, Printable (write x)) :
    ∀ e ∈ optionalMember name write x, Printable e.2 := by
  intro e member
  cases x with
  | none => simp [optionalMember] at member
  | some x =>
    simp only [optionalMember, List.mem_singleton] at member
    rw [member]
    exact all x

end

@[simp] theorem ofJson_ofUnits (us : Text) : Js.ofJson (JsonText.ofUnits us) = Js.ofUnits us := rfl

@[simp] theorem ofJson_ofFinite (n : FiniteNumber) : Js.ofJson (ofFinite n) = Js.ofFinite n := rfl

@[simp] theorem isString_ofUnits (us : Text) : (Js.ofUnits us).isString = true := by
  unfold Js.ofUnits JsonText.ofUnits
  split <;> rfl

@[simp] theorem isNumber_ofFinite (n : FiniteNumber) : (Js.ofFinite n).isNumber = true := rfl

theorem printable_ofFinite (n : FiniteNumber) : Printable (ofFinite n) := n.property

/-- An optional member is read when it is there and left absent when it is not. -/
theorem ifTyped_optional {α : Type} (isType : Js → Bool) (value : α → Js) (x : Option α)
    (typed : ∀ x, isType (value x) = true) (absent : isType .undefined = false) :
    ((x.map value).getD .undefined).ifTyped isType = x.map value := by
  cases x with
  | none => simp [Js.ifTyped, absent]
  | some x => simp [Js.ifTyped, typed]

theorem distinct_preview (p : PreviewPayload) : (p.fields.map Prod.fst).Nodup := by
  simp [PreviewPayload.fields]

theorem printable_preview (p : PreviewPayload) : ∀ e ∈ p.fields, Printable e.2 := by
  simp [PreviewPayload.fields, printable_ofUnits, printable_ofFinite]

theorem parsePreview_read (p : PreviewPayload) :
    parsePreview (readObject p.fields) = some p.parsed := by
  simp [parsePreview, readObject, PreviewPayload.fields, PreviewPayload.parsed]

theorem names_file (f : FilePayload) (preview : Option Json) :
    ((f.fields preview).map Prod.fst).Sublist
      (["url", "key", "iv", "name", "size"] ++
        (["mime"] ++ (["width"] ++ (["height"] ++ (["optimized"] ++ ["preview"]))))) := by
  simp only [FilePayload.fields, List.map_append]
  exact (List.Sublist.refl _).append ((names_optional _ _ _).append ((names_optional _ _ _).append
    ((names_optional _ _ _).append ((names_optional _ _ _).append (names_optional _ _ _)))))

theorem distinct_file (f : FilePayload) (preview : Option Json) :
    ((f.fields preview).map Prod.fst).Nodup :=
  (names_file f preview).nodup (by simp)

theorem printable_file (f : FilePayload) {preview : Option Json}
    (written : Option.Rel (fun p j => IsObject p.fields j) f.preview preview) :
    ∀ e ∈ f.fields preview, Printable e.2 := by
  intro e member
  simp only [FilePayload.fields, List.mem_append] at member
  -- the required members, then one by one the optional ones
  rcases member with required | mime | width | height | optimized | last
  · revert e
    simp [printable_ofUnits, printable_ofFinite]
  · exact printable_optional _ _ printable_ofUnits e mime
  · exact printable_optional _ _ printable_ofFinite e width
  · exact printable_optional _ _ printable_ofFinite e height
  · exact printable_optional Json.bool _ (fun _ => trivial) e optimized
  · -- the preview is an object of its own
    cases preview with
    | none => simp [optionalMember] at last
    | some j =>
      simp only [optionalMember, List.mem_singleton] at last
      rw [last]
      cases shape : f.preview with
      | none =>
        rw [shape] at written
        cases written
      | some p =>
        rw [shape] at written
        cases written with
        | some object => exact printable_isObject object (printable_preview p)

/-- The reference of a preview, from the object it was written as. -/
theorem parsePreview_written {preview : Option PreviewPayload} {written : Option Json}
    (rel : Option.Rel (fun p j => IsObject p.fields j) preview written) :
    (((written.map Js.ofJson).getD .undefined).asObject.bind parsePreview) =
      preview.map PreviewPayload.parsed := by
  cases rel with
  | none => rfl
  | @some p j object =>
    rw [Option.map_some, Option.getD_some, asObject_isObject object (distinct_preview p),
      Option.bind_some, parsePreview_read, Option.map_some]

theorem parseFile_read (f : FilePayload) {preview : Option Json}
    (written : Option.Rel (fun p j => IsObject p.fields j) f.preview preview) :
    parseFile (readObject (f.fields preview)) = some f.parsed := by
  have fields : parseFile (readObject (f.fields preview)) = some
      { url := Js.ofUnits f.url, key := Js.ofUnits f.key, iv := Js.ofUnits f.iv
        name := Js.ofUnits f.name, size := Js.ofFinite f.size
        mime := ((f.mime.map Js.ofUnits).getD .undefined).ifTyped Js.isString
        width := ((f.width.map Js.ofFinite).getD .undefined).ifTyped Js.isNumber
        height := ((f.height.map Js.ofFinite).getD .undefined).ifTyped Js.isNumber
        optimized := ((f.optimized.map Js.bool).getD .undefined).ifTyped Js.isBoolean
        preview := ((preview.map Js.ofJson).getD .undefined).asObject.bind parsePreview } := by
    simp [parseFile, readObject, FilePayload.fields, lookup_append, Function.comp_def, Js.ofJson]
  rw [fields, ifTyped_optional Js.isString Js.ofUnits f.mime isString_ofUnits rfl,
    ifTyped_optional Js.isNumber Js.ofFinite f.width isNumber_ofFinite rfl,
    ifTyped_optional Js.isNumber Js.ofFinite f.height isNumber_ofFinite rfl,
    ifTyped_optional Js.isBoolean Js.bool f.optimized (fun _ => rfl) rfl,
    parsePreview_written written, FilePayload.parsed]

/-- A payload is parsed as its own kind, with its own fields. -/
theorem parseInner_written {p : InnerPayload} {j : Json} (written : p.Written j) :
    parseInner JsonText.parse (stringify j) = p.parsed := by
  cases p with
  | text body =>
    rw [parseInner_isObject written (by simp) (by simp [printable_ofUnits, Printable])]
    simp [parseObject, readObject, InnerPayload.parsed, Js.ofJson]
  | media body file =>
    obtain ⟨f, ⟨preview, rel, object⟩, written⟩ := written
    -- the file is read as it was written, and so is its preview
    have inside := printable_isObject object (printable_file file rel)
    have parsed := parseFile_read file rel
    have members := asObject_isObject object (distinct_file file preview)
    rw [parseInner_isObject written (by simp) (by simp [printable_ofUnits, Printable, inside])]
    simp [parseObject, readObject, InnerPayload.parsed, Js.ofJson, members, parsed]
  | amendment target action body =>
    -- the body of an amendment may be left out
    have sub : (([("type", Json.str "amendment"), ("target_msg_id", JsonText.ofUnits target),
        ("action", .str action.text)] ++
          optionalMember "body" JsonText.ofUnits body).map Prod.fst).Sublist
            (["type", "target_msg_id", "action"] ++ ["body"]) := by
      rw [List.map_append]
      exact (List.Sublist.refl _).append (names_optional _ _ _)
    have printable : ∀ e ∈ [("type", Json.str "amendment"),
        ("target_msg_id", JsonText.ofUnits target), ("action", .str action.text)] ++
          optionalMember "body" JsonText.ofUnits body, Printable e.2 := by
      intro e member
      rcases List.mem_append.mp member with required | body
      · simp only [List.mem_cons, List.not_mem_nil, or_false] at required
        rcases required with rfl | rfl | rfl
        · trivial
        · exact printable_ofUnits target
        · trivial
      · exact printable_optional _ _ printable_ofUnits e body
    have verbatim : ((Js.str action.text).ifTyped Js.isString).getD (.str "") = .str action.text := rfl
    have edited := ifTyped_optional Js.isString Js.ofUnits body isString_ofUnits rfl
    rw [parseInner_isObject written (sub.nodup (by simp)) printable]
    simp [parseObject, readObject, InnerPayload.parsed, Js.ofJson, Function.comp_def, verbatim, edited]

/-! ### Distinct payloads -/

theorem js_ofUnits_injective : Function.Injective Js.ofUnits := by
  intro us vs same
  apply ofUnits_injective
  unfold Js.ofUnits at same
  unfold JsonText.ofUnits at same ⊢
  split at same <;> split at same <;> simp_all [Js.ofJson]

theorem js_ofFinite_injective : Function.Injective Js.ofFinite := by
  intro n m same
  exact Subtype.ext (Js.num.inj same)

theorem preview_parsed_injective : Function.Injective PreviewPayload.parsed := by
  rintro ⟨url, key, iv, width, height⟩ ⟨url', key', iv', width', height'⟩ same
  simp only [PreviewPayload.parsed, PreviewRef.mk.injEq, js_ofUnits_injective.eq_iff,
    js_ofFinite_injective.eq_iff] at same
  obtain ⟨rfl, rfl, rfl, rfl, rfl⟩ := same
  rfl

theorem file_parsed_injective : Function.Injective FilePayload.parsed := by
  rintro ⟨url, key, iv, name, size, mime, width, height, optimized, preview⟩
    ⟨url', key', iv', name', size', mime', width', height', optimized', preview'⟩ same
  have bool : Function.Injective Js.bool := fun a b same => Js.bool.inj same
  simp only [FilePayload.parsed, ParsedMediaFile.mk.injEq, js_ofUnits_injective.eq_iff,
    js_ofFinite_injective.eq_iff, (Option.map_injective js_ofUnits_injective).eq_iff,
    (Option.map_injective js_ofFinite_injective).eq_iff, (Option.map_injective bool).eq_iff,
    (Option.map_injective preview_parsed_injective).eq_iff] at same
  obtain ⟨rfl, rfl, rfl, rfl, rfl, rfl, rfl, rfl, rfl, rfl⟩ := same
  rfl

theorem action_text_injective : Function.Injective AmendmentAction.text := by
  intro a b same
  cases a <;> cases b <;> first | rfl | exact absurd same (by decide)

/-- No two payloads are parsed alike. -/
theorem parsed_injective : Function.Injective InnerPayload.parsed := by
  intro p q same
  cases p with
  | text body =>
    cases q with
    | text body' => rw [js_ofUnits_injective (ParsedInner.text.inj same)]
    | _ => exact ParsedInner.noConfusion same
  | media body file =>
    cases q with
    | media body' file' =>
      obtain ⟨caption, files⟩ := ParsedInner.media.inj same
      rw [js_ofUnits_injective caption, file_parsed_injective files]
    | _ => exact ParsedInner.noConfusion same
  | amendment target action body =>
    cases q with
    | amendment target' action' body' =>
      obtain ⟨targets, actions, bodies⟩ := ParsedInner.amendment.inj same
      rw [js_ofUnits_injective targets, action_text_injective (Js.str.inj actions),
        Option.map_injective js_ofUnits_injective bodies]
    | _ => exact ParsedInner.noConfusion same

/-- What is sent is what is parsed, and distinct payloads are parsed apart. -/
theorem sent_is_parsed {p q : InnerPayload} {j k : Json} (sent : p.Written j) (other : q.Written k) :
    parseInner JsonText.parse (stringify j) = p.parsed ∧
      (p ≠ q → parseInner JsonText.parse (stringify j) ≠ parseInner JsonText.parse (stringify k)) := by
  constructor
  · exact parseInner_written sent
  · intro differ same
    rw [parseInner_written sent, parseInner_written other] at same
    exact differ (parsed_injective same)

/-- A picture with a caption that has a lone surrogate. -/
def picture : InnerPayload :=
  .media [0x61, 0xD800]
    { url := [], key := [0x6B], iv := [], name := [0x22], size := ⟨.int 12, by decide⟩
      mime := some [0x5C], width := none, height := some ⟨.int (-1), by decide⟩
      optimized := some false
      preview := some
        { url := [], key := [], iv := [0x0A], width := ⟨.int 0, by decide⟩
          height := ⟨.int 1, by decide⟩ } }

theorem picture_is_parsed :
    parseInner JsonText.parse (stringify picture.toJson) = picture.parsed ∧
      (picture ≠ .amendment [] .delete none →
        parseInner JsonText.parse (stringify picture.toJson) ≠
          parseInner JsonText.parse (stringify (InnerPayload.amendment [] .delete none).toJson)) :=
  sent_is_parsed (written_toJson _) (written_toJson _)

end Atmin.Web
