import RouteScaffold.Path.Basic
import RouteScaffold.Route.Descriptor
import RouteScaffold.Route.Segment

/-! One route directory, as the generated files see it. -/
namespace RouteScaffold.Artifact
open Route

structure Endpoint where
  /-- The route directory, relative to the root. -/
  directory : Path
  /-- The URL path, such as `/api/posts/[postId]`. -/
  path : String
  configs : List Descriptor
  deriving Repr

namespace Endpoint

def resource (e : Endpoint) : String := resourceName e.path

def segments (e : Endpoint) : List String := dynamicNames e.path

/-- The descriptors whose request has a body. -/
def bodyConfigs (e : Endpoint) : List Descriptor := e.configs.filter (·.body.declared)

def hasBody (e : Endpoint) : Bool := e.configs.any (·.body.declared)

theorem hasBody_iff (e : Endpoint) : e.hasBody = true ↔ e.bodyConfigs ≠ [] := by
  simp [hasBody, bodyConfigs, List.filter_eq_nil_iff]

/-- The fields of a request's path parameters: the dynamic segments in path order, each with
its declared type if it has one and a required string otherwise, then what else is declared. -/
def paramFields (e : Endpoint) (d : Descriptor) : List Field :=
  let ofSegments := e.segments.map fun segment =>
    (d.params.fields.find? (·.name == segment)).getD ⟨segment, .string, false⟩
  d.params.fields.foldl
    (fun fields field => if fields.any (·.name == field.name) then fields else fields ++ [field])
    ofSegments

end Endpoint
end RouteScaffold.Artifact
