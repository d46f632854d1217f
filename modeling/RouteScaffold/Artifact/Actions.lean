import RouteScaffold.Artifact.Client

/-! The files of a route whose requests have a body.

A body can be sent from the server, from a form, and from the browser through
either of the two; so there are actions, form actions, hooks around both, and the
form's inputs. Each file speaks of the methods with a body only. -/
namespace RouteScaffold.Artifact
open Route
namespace Endpoint

/-- The input and response types of every method with a body. -/
def bodyTypesImport (e : Endpoint) : Import :=
  .types
    (e.bodyConfigs.flatMap fun d =>
      [inputTypeName d.method e.resource, responseTypeName d.method e.resource])
    "./client"

def serverImports (e : Endpoint) : List Import :=
  .values ["invokeHandler"] runtimeModule ::
    (e.bodyConfigs.map (.config false) ++ [e.bodyTypesImport])

def action (e : Endpoint) (d : Descriptor) : Action :=
  { name := actionName d.method e.resource
    config := d.method
    input := inputTypeName d.method e.resource
    response := responseTypeName d.method e.resource }

def formAction (e : Endpoint) (d : Descriptor) : FormAction :=
  { action := { e.action d with name := formActionName d.method e.resource }
    readings := formReadings e d }

def actionsScript (e : Endpoint) : Script :=
  { name := actionsFile
    onServer := true
    imports := e.serverImports
    declarations := e.bodyConfigs.map fun d => .action (e.action d) }

def formActionsScript (e : Endpoint) : Script :=
  { name := formActionsFile
    onServer := true
    imports := e.serverImports
    declarations := .formReaders :: e.bodyConfigs.map fun d => .formAction (e.formAction d) }

def actionHook (e : Endpoint) (d : Descriptor) : MutationHook :=
  { name := actionHookName d.method e.resource
    invoke := "execute"
    input := e.hookInput d
    callee := .action (actionName d.method e.resource)
    response := responseTypeName d.method e.resource }

def formActionHook (e : Endpoint) (d : Descriptor) : MutationHook :=
  { name := formActionHookName d.method e.resource
    invoke := "submit"
    input := ⟨"formData", "FormData", false⟩
    callee := .action (formActionName d.method e.resource)
    response := responseTypeName d.method e.resource }

def actionHooksScript (e : Endpoint) : Script :=
  { name := actionHooksFile
    onServer := false
    imports :=
      [.values ["useCallback", "useState"] "react",
       .values (e.bodyConfigs.map fun d => actionName d.method e.resource) "./actions",
       e.bodyTypesImport]
    declarations := e.bodyConfigs.map fun d => .mutationHook (e.actionHook d) }

def formActionHooksScript (e : Endpoint) : Script :=
  { name := formActionHooksFile
    onServer := false
    imports :=
      [.values ["useCallback", "useState"] "react",
       .values (e.bodyConfigs.map fun d => formActionName d.method e.resource) "./form-actions",
       e.bodyTypesImport]
    declarations := e.bodyConfigs.map fun d => .mutationHook (e.formActionHook d) }

def formFieldsScript (e : Endpoint) : Script :=
  { name := formFieldsFile
    onServer := false
    imports := []
    declarations :=
      .formDefinitionType :: e.bodyConfigs.flatMap fun d =>
        [.formDefinitions (formDefinitionsName d.method e.resource) (formInputs e d),
         .formComponent (formFieldsName d.method e.resource) (formInputs e d)] }

end Endpoint
end RouteScaffold.Artifact
