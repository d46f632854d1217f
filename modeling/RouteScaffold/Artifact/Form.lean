import RouteScaffold.Artifact.Shape

/-! Forms.

A method with a body gets a form: one input per body field and per path
parameter, each known by a key such as `body.title`. The form's action reads the
submitted values back under the same keys. A facet whose fields are not known is
read as a whole: every value whose key starts with the facet's name.

Keys and labels stand in markup with the four special characters escaped. -/
namespace RouteScaffold.Artifact
open Route Text.Quoted

/-- The key of a field in a form. -/
def formKey (facet : String) (field : Field) : String := facet ++ "." ++ field.name

structure FormInput where
  key : String
  label : String
  /-- The kind of input that asks for the value. -/
  inputType : String
  required : Bool
  deriving DecidableEq, Repr

/-- A box that is not ticked sends nothing, so a checkbox is never required. -/
def FormInput.of (facet : String) (field : Field) : FormInput :=
  { key := formKey facet field
    label := labelOf field.name
    inputType := field.type.inputType
    required := !field.optional && field.type.inputType != "checkbox" }

/-- The inputs of a method's form: the body fields, then the path parameters. -/
def formInputs (e : Endpoint) (d : Descriptor) : List FormInput :=
  d.body.fields.map (FormInput.of "body") ++ (e.paramFields d).map (FormInput.of "params")

/-! ### Markup -/

def escapeMarkupChar (c : Char) : List Char :=
  if c == '&' then "&amp;".toList
  else if c == '\x22' then "&quot;".toList
  else if c == '<' then "&lt;".toList
  else if c == '>' then "&gt;".toList
  else [c]

/-- A text as it stands in markup, in an attribute or between tags. -/
def escapeMarkup (s : String) : String := String.ofList (s.toList.flatMap escapeMarkupChar)

def FormInput.definitionLine (i : FormInput) : String :=
  "  \x7b name: " ++ quote i.key ++ ", label: " ++ quote i.label ++ ", type: " ++
    quote i.inputType ++ ", required: " ++ (if i.required then "true" else "false") ++ " \x7d,"

def FormInput.markup (i : FormInput) : List String :=
  let key := escapeMarkup i.key
  ["<div>",
   "  <label htmlFor=\"" ++ key ++ "\">" ++ escapeMarkup i.label ++ "</label>",
   "  <input id=\"" ++ key ++ "\" name=\"" ++ key ++ "\" type=\"" ++ i.inputType ++ "\"" ++
     (if i.required then " required" else "") ++ " />",
   "</div>"]

/-! ### Reading a form -/

/-- The functions that read a single value. -/
inductive Reader where
  | text
  | number
  | boolean
  deriving DecidableEq, Repr

def Reader.name : Reader → String
  | .text => "readString"
  | .number => "readNumber"
  | .boolean => "readBoolean"

def Reader.ofType : BaseType → Reader
  | .number => .number
  | .boolean => .boolean
  | .string => .text
  | .other _ => .text

/-- The reading of one value into a property. -/
structure Reading where
  property : String
  reader : Reader
  key : String
  deriving DecidableEq, Repr

def Reading.of (facet : String) (field : Field) : Reading :=
  ⟨field.name, .ofType field.type, formKey facet field⟩

def Reading.text (r : Reading) : String :=
  quote r.property ++ ": " ++ r.reader.name ++ "(formData, " ++ quote r.key ++ "),"

/-- How one facet of an input is read from a form. -/
structure FacetReading where
  facet : String
  /-- The values read one by one. If there are none the facet is read as a whole. -/
  readings : List Reading
  deriving DecidableEq, Repr

def FacetReading.of (facet : String) (fields : List Field) : FacetReading :=
  ⟨facet, fields.map (Reading.of facet)⟩

def FacetReading.lines (f : FacetReading) : List String :=
  if f.readings.isEmpty then
    [f.facet ++ ": readPrefixed(formData, " ++ quote (f.facet ++ ".") ++ "),"]
  else block (f.facet ++ ":") (f.readings.map Reading.text) ","

/-- How a method's input is read from its form. -/
def formReadings (e : Endpoint) (d : Descriptor) : List FacetReading :=
  let params := e.paramFields d
  (if d.body.declared then [FacetReading.of "body" d.body.fields] else []) ++
  (if d.params.declared || !params.isEmpty then [FacetReading.of "params" params] else [])

end RouteScaffold.Artifact
