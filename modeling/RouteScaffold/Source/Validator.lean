import RouteScaffold.Route.Descriptor
import RouteScaffold.Source.Schema

/-! Reading a descriptor file.

The export `requestValidator` is given a call, and the object literal among the
call's arguments says which facets the request has. The literal stands in the
call or is the value of a variable in the same file; a call with anything else
declares nothing, and so does an initializer without a call before the next
semicolon.

A facet whose value is a variable of the file has the fields of that variable's
schema. Any other value declares the facet without fields. -/
namespace RouteScaffold.Source
open Text Route

/-- The export that carries the validator. -/
def validatorName : String := "requestValidator"

/-- The text between the brackets of the validator's call, if there is one. -/
def validatorArguments? (source : List Char) : Option (List Char) := do
  let rest ← search (fun cells => (word? validatorName.toList cells).bind equals?) none
    (mask source)
  if (rest.takeWhile (·.shown != '(')).any (·.shown == ';') then none
  else
    match rest.dropWhile (·.shown != '(') with
    | [] => none
    | _ :: arguments =>
      let (inside, _) ← enclosed? '(' (sourceOf arguments)
      pure inside

/-- The text between the braces of the object literal that the validator's call is given; empty
if it is given none. -/
def validatorBody? (source : List Char) : Option (List Char) := do
  let arguments ← validatorArguments? source
  match stripComments arguments with
  | '\x7b' :: rest =>
    let (inside, _) ← enclosed? '\x7b' rest
    pure inside
  | argument =>
    match identifier? argument with
    | some (name, _) => pure ((objectBody? source name .literal).getD [])
    | none => pure []

/-- The fields behind the value of a facet. -/
def facetFields (source value : List Char) : List Field :=
  match identifier? value with
  | some (name, _) => if name == ['z'] then [] else schemaFields source name
  | none => []

end RouteScaffold.Source

namespace RouteScaffold.Route
open Source

/-- The descriptor with what one entry of the validator declares. -/
def Descriptor.declare (source : List Char) (d : Descriptor) (entry : Entry) : Descriptor :=
  let facet : Facet := ⟨true, facetFields source entry.value⟩
  if entry.key == "body".toList then { d with body := facet }
  else if entry.key == "params".toList then { d with params := facet }
  else if entry.key == "searchParams".toList then { d with searchParams := facet }
  else if entry.key == "headers".toList then { d with headers := facet }
  else if entry.key == "user".toList then { d with auth := true }
  else d

/-- What the source of a descriptor file declares. -/
def Descriptor.ofSource (method : Method) (fileName : String) (source : String) : Descriptor :=
  let cs := source.toList
  let blank : Descriptor := { method, fileName }
  match validatorBody? cs with
  | some body => (entries body).foldl (Descriptor.declare cs) blank
  | none => blank

end RouteScaffold.Route
