import RouteScaffold.Artifact.Script

/-! The client of a route and the hooks around it.

The client has an input type, a response type and a method per descriptor. Each
method has a hook of its own: reading methods fetch by themselves, the others
wait to be called. -/
namespace RouteScaffold.Artifact
open Route

/-- The parts of a request that its descriptor declares, besides the parameters. -/
def requestParts (d : Descriptor) : List RequestPart :=
  (if d.body.declared then [.body] else []) ++
  (if d.searchParams.declared then [.searchParams] else []) ++
  (if d.headers.declared then [.headers] else [])

namespace Endpoint

/-- The input of a method, under a name that says whether the method uses it. -/
def clientInput (e : Endpoint) (d : Descriptor) : Parameter :=
  let shape := InputShape.of e d
  let used := (shape.hasParams && !e.segments.isEmpty) || !(requestParts d).isEmpty
  shape.parameter (if used then "input" else "_input") (inputTypeName d.method e.resource)

def clientMethod (e : Endpoint) (d : Descriptor) : ClientMethod :=
  { method := d.method
    input := e.clientInput d
    response := responseTypeName d.method e.resource
    url := urlTemplate e.path (if (InputShape.of e d).hasParams then "input.params" else "")
    parts := requestParts d }

/-- The input of a method as its hooks take it. -/
def hookInput (e : Endpoint) (d : Descriptor) : Parameter :=
  (InputShape.of e d).parameter "input" (inputTypeName d.method e.resource)

def clientScript (e : Endpoint) : Script :=
  { name := clientFile
    onServer := false
    imports := .types ["z"] "zod" :: e.configs.map (.config true)
    declarations :=
      e.configs.flatMap (fun d =>
        [.inputType (inputTypeName d.method e.resource) (InputShape.of e d).members,
         .responseType (responseTypeName d.method e.resource) d.method]) ++
      [.clientTypes, .client (clientClassName e.resource) (e.configs.map e.clientMethod)] }

def queryHook (e : Endpoint) (d : Descriptor) : QueryHook :=
  { name := hookName d.method e.resource
    method := d.method
    input := e.hookInput d
    response := responseTypeName d.method e.resource }

def mutationHook (e : Endpoint) (d : Descriptor) : MutationHook :=
  { name := hookName d.method e.resource
    invoke := "mutate"
    input := e.hookInput d
    callee := .client d.method
    response := responseTypeName d.method e.resource }

/-- What a hook file takes from the client. -/
def clientImport (e : Endpoint) (d : Descriptor) : Import :=
  ⟨false,
   .names
    [⟨clientClassName e.resource, false⟩, ⟨inputTypeName d.method e.resource, true⟩,
     ⟨responseTypeName d.method e.resource, true⟩],
   "./client"⟩

def hookScript (e : Endpoint) (d : Descriptor) : Script :=
  let stateHooks :=
    if d.method.isQuery then ["useCallback", "useEffect", "useRef", "useState"]
    else ["useCallback", "useState"]
  { name := hookFile d.method
    onServer := false
    imports := [.values stateHooks "react", e.clientImport d]
    declarations :=
      [.clientInstance (clientClassName e.resource),
       if d.method.isQuery then .queryHook (e.queryHook d) else .mutationHook (e.mutationHook d)] }

end Endpoint
end RouteScaffold.Artifact
