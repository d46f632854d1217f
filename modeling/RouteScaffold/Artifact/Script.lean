import RouteScaffold.Artifact.Form
import RouteScaffold.Artifact.Names

/-! Generated TypeScript modules.

A module is a list of imports and a list of declarations; the text is made from
them and from nothing else (`RouteScaffold.Artifact.Text`). -/
namespace RouteScaffold.Artifact
open Route

/-! ### Imports -/

structure ImportedName where
  name : String
  /-- A type among values. -/
  isType : Bool
  deriving DecidableEq, Repr

inductive Binding where
  /-- The whole module under one name. -/
  | all (name : String)
  | names (names : List ImportedName)
  deriving DecidableEq, Repr

structure Import where
  typeOnly : Bool
  binding : Binding
  module : String
  deriving DecidableEq, Repr

namespace Import

/-- The names an import brings in. -/
def locals (i : Import) : List String :=
  match i.binding with
  | .all name => [name]
  | .names names => names.map (·.name)

def values (names : List String) (module : String) : Import :=
  ⟨false, .names (names.map (⟨·, false⟩)), module⟩

def types (names : List String) (module : String) : Import :=
  ⟨true, .names (names.map (⟨·, false⟩)), module⟩

/-- A descriptor's module under its alias. -/
def config (typeOnly : Bool) (d : Descriptor) : Import :=
  ⟨typeOnly, .all (configAlias d.method), d.specifier⟩

end Import

/-! ### Declarations -/

/-- The parts of a request that a client method sends along. -/
inductive RequestPart where
  | body
  | searchParams
  | headers
  deriving DecidableEq, Repr

def RequestPart.name : RequestPart → String
  | .body => "body"
  | .searchParams => "searchParams"
  | .headers => "headers"

structure ClientMethod where
  method : Method
  input : Parameter
  response : String
  url : String
  parts : List RequestPart
  deriving DecidableEq, Repr

/-- A hook that fetches by itself. -/
structure QueryHook where
  name : String
  method : Method
  input : Parameter
  response : String
  deriving DecidableEq, Repr

/-- What a mutation hook calls. -/
inductive Callee where
  | client (method : Method)
  | action (name : String)
  deriving DecidableEq, Repr

def Callee.text : Callee → String
  | .client method => "client." ++ method.token
  | .action name => name

/-- A hook that waits to be called through the function `invoke`. -/
structure MutationHook where
  name : String
  invoke : String
  input : Parameter
  callee : Callee
  response : String
  deriving DecidableEq, Repr

/-- A function that runs on the server and calls the route's handler. -/
structure Action where
  name : String
  config : Method
  input : String
  response : String
  deriving DecidableEq, Repr

/-- An action that takes its input from a form. -/
structure FormAction where
  action : Action
  readings : List FacetReading
  deriving DecidableEq, Repr

inductive Declaration where
  /-- One constant per method, named as requests spell it. -/
  | routeConstants (methods : List Method)
  /-- The one handler for all methods. -/
  | handler (segments : List String) (methods : List Method)
  | inputType (name : String) (members : List Member)
  | responseType (name : String) (config : Method)
  | clientTypes
  | client (name : String) (methods : List ClientMethod)
  | clientInstance (name : String)
  | queryHook (hook : QueryHook)
  | mutationHook (hook : MutationHook)
  | action (action : Action)
  | formReaders
  | formAction (action : FormAction)
  | formDefinitionType
  | formDefinitions (name : String) (inputs : List FormInput)
  | formComponent (name : String) (inputs : List FormInput)
  deriving DecidableEq, Repr

namespace Declaration

/-- The names a declaration exports. The handler is exported without a name. -/
def exports : Declaration → List String
  | .routeConstants methods => methods.map Method.verb
  | .handler _ _ => []
  | .inputType name _ => [name]
  | .responseType name _ => [name]
  | .clientTypes => ["RequestOptions"]
  | .client name _ => [name]
  | .clientInstance _ => []
  | .queryHook h => [h.name]
  | .mutationHook h => [h.name]
  | .action a => [a.name]
  | .formReaders => []
  | .formAction f => [f.action.name]
  | .formDefinitionType => ["FormFieldDefinition"]
  | .formDefinitions name _ => [name]
  | .formComponent name _ => [name]

end Declaration

/-! ### Modules -/

structure Script where
  name : String
  /-- Its exports run on the server. -/
  onServer : Bool
  imports : List Import
  declarations : List Declaration
  deriving DecidableEq, Repr

def Script.exports (s : Script) : List String := s.declarations.flatMap Declaration.exports

end RouteScaffold.Artifact
