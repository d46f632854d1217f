import RouteScaffold.Artifact.Actions
import RouteScaffold.Artifact.ReadMe
import RouteScaffold.Artifact.Text
import RouteScaffold.Convention

/-! The files of a route.

Both conventions emit an entry, the client and its hooks, and form inputs where a
request has a body. The app convention adds the actions; the pages convention
adds a readme, which comes last and lists all files. -/
namespace RouteScaffold.Artifact
open Route

structure File where
  name : String
  content : String
  deriving DecidableEq, Repr

def Script.file (s : Script) : File := ⟨s.name, s.text⟩

namespace Endpoint

def routeScript (e : Endpoint) : Script :=
  { name := routeFile
    onServer := false
    imports := .values ["createRoute"] runtimeModule :: e.configs.map (.config false)
    declarations := [.routeConstants (e.configs.map (·.method))] }

def handlerScript (e : Endpoint) : Script :=
  { name := handlerFile
    onServer := false
    imports := .values ["createPagesRoute"] runtimeModule :: e.configs.map (.config false)
    declarations := [.handler e.segments (e.configs.map (·.method))] }

/-- The scripts of a route, in the order in which they are written. -/
def scripts (convention : Convention) (e : Endpoint) : List Script :=
  let shared := e.clientScript :: e.configs.map e.hookScript
  match convention with
  | .app =>
    e.routeScript :: shared ++
      if e.hasBody then
        [e.actionsScript, e.formActionsScript, e.actionHooksScript, e.formActionHooksScript,
         e.formFieldsScript]
      else []
  | .pages => e.handlerScript :: shared ++ if e.hasBody then [e.formFieldsScript] else []

/-- The readme that stands beside some scripts. -/
def readMe (e : Endpoint) (scripts : List Script) : ReadMe :=
  ⟨e, scripts.map (·.name) ++ [readMeFile]⟩

/-- The files of a route, in the order in which they are written. -/
def files (convention : Convention) (e : Endpoint) : List File :=
  let scripts := e.scripts convention
  match convention with
  | .app => scripts.map Script.file
  | .pages => scripts.map Script.file ++ [⟨readMeFile, (e.readMe scripts).text⟩]

end Endpoint

/-- The endpoint that a directory is under a convention. -/
def Endpoint.ofDirectory (convention : Convention) (directory : Path)
    (configs : List Descriptor) : Endpoint :=
  ⟨directory, convention.routePath directory, configs⟩

end RouteScaffold.Artifact
