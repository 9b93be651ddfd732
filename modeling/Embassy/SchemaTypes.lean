import Embassy.ManifestEdit

/-!
# Catalog items and their form (`admin/schema_types.py`, `templates/catalog_item_form.html`)

`prefilled` is what a browser submits if the edit form of an item is sent as it was rendered. Python's `repr`,
which is `str` of all that is no text, and what a browser makes of a text are parameters. `ItemKept` says that saving such
a form leaves the item as it was.
-/

namespace Embassy
open Lib

namespace Catalog

inductive InputType
  | text
  | textarea
  deriving DecidableEq, Repr

structure Field where
  name : String
  label : String
  inputType : InputType
  required : Bool := false
  deriving DecidableEq, Repr

def coreFields : List (String × List Field) :=
  [("Product", [⟨"name", "Name", .text, true⟩, ⟨"description", "Description", .textarea, false⟩,
      ⟨"sku", "SKU", .text, false⟩, ⟨"url", "URL", .text, false⟩]),
    ("Service", [⟨"name", "Name", .text, true⟩, ⟨"description", "Description", .textarea, false⟩,
      ⟨"url", "URL", .text, false⟩]),
    ("JobPosting", [⟨"title", "Title", .text, true⟩, ⟨"description", "Description", .textarea, false⟩,
      ⟨"employmentType", "Employment type", .text, false⟩, ⟨"url", "URL", .text, false⟩]),
    ("Demand", [⟨"name", "Name", .text, true⟩, ⟨"description", "Description", .textarea, false⟩,
      ⟨"url", "URL", .text, false⟩])]

def fieldsOf (itemType : String) : List Field := (coreFields.lookup itemType).getD []

/-- What `validate_item` and `item_from_form` raise. -/
inductive ItemExc
  /-- `InvalidItem` -/
  | invalid (message : String)
  | other
  deriving DecidableEq, Repr

/-- The elements of `for x in v`. -/
def iterate : Json → Except ItemExc (List Json)
  | .arr elems => .ok elems
  | .obj members => .ok ((Json.keys members).map .str)
  | .str s => .ok (s.toList.map fun c => .str (String.ofList [c]))
  | _ => .error .other

/-- `item.get("additionalProperty", [])`, in a loop. -/
def extraOf (item : List (String × Json)) : Except ItemExc (List Json) :=
  iterate ((Json.get? item "additionalProperty").getD (.arr []))

section
variable (repr : Json → String)

/-- `str(v)` -/
def pyStr : Json → String
  | .str s => s
  | v => repr v

/-- `str(item.get(name, ""))` -/
def shown (item : List (String × Json)) (name : String) : String := pyStr repr ((Json.get? item name).getD (.str ""))

def validateProperty : Json → Except ItemExc Unit
  | .obj prop =>
    if Json.str? (Json.get? prop "@type") ≠ some "PropertyValue" ∨ strip (shown repr prop "name") = "" then
      .error (.invalid "each additional property needs a name")
    else .ok ()
  | _ => .error .other

def validateItem (item : List (String × Json)) : Except ItemExc Unit :=
  match Json.inSet (coreFields.map Prod.fst) (Json.get? item "@type") with
  | .error _ => .error .other
  | .ok false => .error (.invalid ("unrecognized @type " ++ repr ((Json.get? item "@type").getD .null)))
  | .ok true =>
    let fields := fieldsOf ((Json.str? (Json.get? item "@type")).getD "")
    match fields.find? fun field => field.required ∧ strip (shown repr item field.name) = "" with
    | some field => .error (.invalid (field.label ++ " is required"))
    | none => do (← extraOf item).forM (validateProperty repr)

end

section
variable (form : Form)

/-- `form.get(name, "").strip()` -/
def textOf (name : String) : Except ItemExc String := (form.stripped name).mapError fun _ => .other

def setCore : List Field → List (String × Json) → Except ItemExc (List (String × Json))
  | [], item => .ok item
  | field :: fields, item => do
    let value ← textOf form ("field__" ++ field.name)
    setCore fields (if value = "" then Json.erase item field.name else Json.set item field.name (.str value))

/-- The properties that the rows of the form make. -/
def additional : List (FormValue × FormValue) → Except ItemExc (List Json)
  | [] => .ok []
  | (name, value) :: rows => do
    let name ← name.strip.mapError fun _ => .other
    if name = "" then additional rows
    else
      let value ← value.strip.mapError fun _ => .other
      return .obj [("@type", .str "PropertyValue"), ("name", .str name), ("value", .str value)] :: (← additional rows)

/-- `item_from_form`; a new item is built from the empty one. -/
def itemFromForm (itemType : String) (existing : List (String × Json)) : Except ItemExc (List (String × Json)) :=
  match coreFields.lookup itemType with
  -- `KeyError`
  | none => .error .other
  | some fields => do
    let item ← setCore form fields (Json.set existing "@type" (.str itemType))
    match ← additional form.extraRows with
    | [] => return Json.erase item "additionalProperty"
    | props => return Json.set item "additionalProperty" (.arr props)

end

/-- What a browser submits for a control that shows a text, and nothing is typed. -/
structure Browser where
  submitted : InputType → String → String
  empty : ∀ input, submitted input "" = ""

/-- The texts are sent as they are. -/
def Browser.exact : Browser where
  submitted _ s := s
  empty _ := rfl

section
variable (browser : Browser) (repr : Json → String)

/-- `prop.name` and `prop.value`; what has no such name is shown as nothing. -/
def propertyShown (name : String) : Json → String
  | .obj prop => shown repr prop name
  | _ => ""

/-- The controls of a row of the additional properties. -/
def extraRow (name value : String) : Form :=
  [("extra_name", .text (browser.submitted .text name)), ("extra_value", .text (browser.submitted .text value))]

def fieldInput (item : List (String × Json)) (field : Field) : String × FormValue :=
  ("field__" ++ field.name, .text (browser.submitted field.inputType (shown repr item field.name)))

/-- `catalog_item_form.html`, submitted as it is rendered: a row for each property, and an empty one. -/
def prefilled (itemType : String) (item : List (String × Json)) : Except ItemExc Form := do
  let extra ← extraOf item
  return (fieldsOf itemType).map (fieldInput browser repr item) ++
    extra.flatMap (fun prop => extraRow browser (propertyShown repr "name" prop) (propertyShown repr "value" prop)) ++
    extraRow browser "" ""

/-- The same value, up to white space around its texts. -/
inductive Alike : Json → Json → Prop
  | refl (v : Json) : Alike v v
  | str {s s' : String} (h : strip s = strip s') : Alike (.str s) (.str s')
  | arr {elems elems' : List Json} (h : List.Forall₂ Alike elems elems') : Alike (.arr elems) (.arr elems')
  | obj {members members' : List (String × Json)}
      (h : ∀ name, Option.Rel Alike (Json.get? members name) (Json.get? members' name)) :
      Alike (.obj members) (.obj members')

/-- The items that `validate_item` accepts. -/
abbrev ValidItem : Type := { item : List (String × Json) // validateItem repr item = .ok () }

/-- The edit form of the item, sent as it is, gives the item again. -/
def ItemKept (itemType : String) (item : List (String × Json)) : Prop :=
  ∃ form item', prefilled browser repr itemType item = .ok form ∧ itemFromForm form itemType item = .ok item' ∧
    Alike (.obj item) (.obj item')

/-- A text that the browser sends as it is shown, up to white space around it. -/
def Sent (input : InputType) (s : String) : Prop := strip (browser.submitted input s) = strip s

/-- A property of which the form shows everything. -/
structure PropertyShown (prop : List (String × Json)) : Prop where
  name : ∃ s, Json.get? prop "name" = some (.str s) ∧ Sent browser .text s
  value : ∃ s, Json.get? prop "value" = some (.str s) ∧ Sent browser .text s
  only : ∀ name, (Json.get? prop name).isSome → name ∈ ["@type", "name", "value"]

/-- An item of which the form shows everything that saving rebuilds. -/
structure ItemShown (itemType : String) (item : List (String × Json)) : Prop where
  type : Json.get? item "@type" = some (.str itemType)
  core : ∀ field ∈ fieldsOf itemType, ∀ v, Json.get? item field.name = some v →
    ∃ s, v = .str s ∧ strip s ≠ "" ∧ Sent browser field.inputType s
  extra : ∀ v, Json.get? item "additionalProperty" = some v → ∃ props, v = .arr props ∧ props ≠ [] ∧
    ∀ p ∈ props, ∃ prop, p = .obj prop ∧ PropertyShown browser prop

end

end Catalog

end Embassy
