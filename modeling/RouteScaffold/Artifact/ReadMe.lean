import RouteScaffold.Artifact.Endpoint
import RouteScaffold.Artifact.Layout
import RouteScaffold.Artifact.Text

/-! The readme of a route in the pages convention.

It names the directory and the path, lists the methods with the facets of their
requests, lists the files that stand beside it, and says how to re-export the
handler. -/
namespace RouteScaffold.Artifact
open Route

structure ReadMe where
  endpoint : Endpoint
  /-- The files of the route, the readme included. -/
  files : List String

def facetCell (facet : Facet) : String :=
  if facet.declared then
    match facet.fields.length with
    | 0 => "yes"
    | 1 => "1 field"
    | n => toString n ++ " fields"
  else "-"

def methodRow (d : Descriptor) : String :=
  "| " ++ " | ".intercalate
    [d.method.verb, facetCell d.body, facetCell d.params, facetCell d.searchParams,
     facetCell d.headers, if d.auth then "required" else "-"] ++ " |"

/-- The module that the readme tells the reader to re-export. -/
def handlerSpecifier : String := "./.generated/handler"

def ReadMe.lines (r : ReadMe) : List String :=
  ["<!-- @generated by routegen. Do not edit. -->",
   "# " ++ r.endpoint.resource ++ " route",
   "",
   "Generated from the route descriptors in `" ++ r.endpoint.directory.text ++ "` for `" ++
     r.endpoint.path ++ "`.",
   "",
   "## Methods",
   "",
   "| Method | Body | Params | Search params | Headers | Auth |",
   "| --- | --- | --- | --- | --- | --- |"] ++
  r.endpoint.configs.map methodRow ++
  ["",
   "## Files",
   ""] ++
  r.files.map (fun file => "- `" ++ file ++ "`") ++
  ["",
   "## Wiring",
   "",
   "Re-export the handler from the API route file that owns this directory:",
   "",
   "```ts",
   "export \x7b default \x7d from \"" ++ handlerSpecifier ++ "\";",
   "```",
   "",
   "Server actions and form actions are not available in this convention; submit forms " ++
     "through the client or the generated hooks instead."]

def ReadMe.text (r : ReadMe) : String := unlines r.lines

end RouteScaffold.Artifact
