import RouteScaffold.Route.Field
import RouteScaffold.Route.Method

/-! What one descriptor file says about its route.

A facet is one part of a request that the descriptor may validate. Whether it is
declared and which fields it has are separate facts: a declared facet whose
schema cannot be read has no fields. -/
namespace RouteScaffold.Route

structure Facet where
  declared : Bool := false
  fields : List Field := []
  deriving DecidableEq, Repr, Inhabited

structure Descriptor where
  method : Method
  fileName : String
  body : Facet := {}
  params : Facet := {}
  searchParams : Facet := {}
  headers : Facet := {}
  /-- The request must come from a known user. -/
  auth : Bool := false
  deriving DecidableEq, Repr, Inhabited

/-- A file name without its last extension; a dot in front is no extension. -/
def stem (fileName : String) : String :=
  match fileName.toList.reverse.dropWhile (· != '.') with
  | [] => fileName
  | _ :: [] => fileName
  | _ :: rest => String.ofList rest.reverse

/-- How a generated module, one directory further down, names the descriptor's module. -/
def Descriptor.specifier (d : Descriptor) : String := "../" ++ stem d.fileName

end RouteScaffold.Route
