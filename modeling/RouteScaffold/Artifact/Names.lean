import RouteScaffold.Route.Method
import RouteScaffold.Route.Naming

/-! The names of what is generated.

Every name but a few fixed ones is made of a method, the name of the route's
resource and a word for its kind. -/
namespace RouteScaffold.Artifact
open Route

/-- The name a descriptor's module is imported under. -/
def configAlias (m : Method) : String := m.token ++ "Config"

def hookFile (m : Method) : String := "use-" ++ m.token ++ ".ts"

/-- The method and the resource, as they start a type name. -/
def stemOf (m : Method) (resource : String) : String := pascalCase m.token ++ resource

def inputTypeName (m : Method) (resource : String) : String := stemOf m resource ++ "Input"

def responseTypeName (m : Method) (resource : String) : String := stemOf m resource ++ "Response"

def hookName (m : Method) (resource : String) : String := "use" ++ stemOf m resource

def clientClassName (resource : String) : String := resource ++ "Client"

def actionName (m : Method) (resource : String) : String := m.token ++ resource ++ "Action"

def formActionName (m : Method) (resource : String) : String := m.token ++ resource ++ "FormAction"

def actionHookName (m : Method) (resource : String) : String := hookName m resource ++ "Action"

def formActionHookName (m : Method) (resource : String) : String :=
  hookName m resource ++ "FormAction"

def formFieldsName (m : Method) (resource : String) : String := stemOf m resource ++ "FormFields"

def formDefinitionsName (m : Method) (resource : String) : String :=
  camelCase (formFieldsName m resource) ++ "Definitions"

def routeFile : String := "route.ts"
def handlerFile : String := "handler.ts"
def clientFile : String := "client.ts"
def actionsFile : String := "actions.ts"
def formActionsFile : String := "form-actions.ts"
def actionHooksFile : String := "use-actions.ts"
def formActionHooksFile : String := "use-form-actions.ts"
def formFieldsFile : String := "form-fields.tsx"
def readMeFile : String := "README.md"

/-- The module with the functions that generated scripts call. -/
def runtimeModule : String := "@routegen/next"

end RouteScaffold.Artifact
