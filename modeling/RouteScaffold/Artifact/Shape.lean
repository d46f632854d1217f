import RouteScaffold.Artifact.Endpoint
import RouteScaffold.Artifact.Layout
import RouteScaffold.Text.Letters
import RouteScaffold.Text.Quoted

/-! The type of a method's input.

The input of a method is an object with one member per facet of the request. A
facet without known fields is a loose record; the parameters are a member as soon
as the path has a dynamic segment. A caller may leave the whole input out only if
no member is required. -/
namespace RouteScaffold.Artifact
open Route Text Text.Quoted

def isPlainStart (c : Char) : Bool := isAlphabetic c || c == '_' || c == '$'

def isPlainChar (c : Char) : Bool := isAlphanumeric c || c == '_' || c == '$'

/-- Whether a name can stand as a property key without quotes. -/
def isPlainName (name : String) : Bool :=
  match name.toList with
  | [] => false
  | c :: rest => isPlainStart c && (c :: rest).all isPlainChar

def propertyKey (name : String) : String := if isPlainName name then name else quote name

/-- A member of an object type. -/
def memberText (field : Field) : String :=
  propertyKey field.name ++ (if field.optional then "?" else "") ++ ": " ++ field.type.scriptType

/-- The object type of a list of fields. -/
def objectType (fields : List Field) : String :=
  if fields.isEmpty then "Record<string, unknown>"
  else inBraces ("; ".intercalate (fields.map memberText))

/-- A member of an input interface. -/
structure Member where
  name : String
  optional : Bool
  type : String
  deriving DecidableEq, Repr

def Member.text (m : Member) : String :=
  m.name ++ (if m.optional then "?" else "") ++ ": " ++ m.type ++ ";"

structure InputShape where
  hasParams : Bool
  members : List Member
  deriving DecidableEq, Repr

namespace InputShape

/-- Something must be supplied by the caller. -/
def required (s : InputShape) : Bool := s.members.any (!·.optional)

def of (e : Endpoint) (d : Descriptor) : InputShape :=
  let params := e.paramFields d
  let hasParams := d.params.declared || !params.isEmpty
  { hasParams
    members :=
      (if hasParams then [⟨"params", false, objectType params⟩] else []) ++
      (if d.body.declared then [⟨"body", false, objectType d.body.fields⟩] else []) ++
      (if d.searchParams.declared then
        [⟨"searchParams", true, objectType d.searchParams.fields⟩] else []) ++
      (if d.headers.declared then [⟨"headers", true, objectType d.headers.fields⟩] else []) }

end InputShape

/-- A parameter of a generated function. -/
structure Parameter where
  name : String
  type : String
  /-- The caller may leave it out, and then it is the empty object. -/
  optional : Bool
  deriving DecidableEq, Repr

def Parameter.text (p : Parameter) : String :=
  p.name ++ ": " ++ p.type ++ (if p.optional then " = \x7b\x7d" else "")

/-- The parameter that takes an input of this shape. -/
def InputShape.parameter (s : InputShape) (name type : String) : Parameter :=
  ⟨name, type, !s.required⟩

end RouteScaffold.Artifact
