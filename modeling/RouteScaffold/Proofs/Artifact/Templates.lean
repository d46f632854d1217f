import RouteScaffold.Proofs.Artifact.Declared
import RouteScaffold.Proofs.Artifact.Imports
import RouteScaffold.Proofs.Artifact.Names

/-! The names that the modules of a route bind.

Each kind of module has a template, which says what the module binds once and what it
binds for each method (`HasScript.made`). All templates are checked for the five
methods (`sound_of_mem_all`), and so a module binds no name twice unless two
descriptors have one method (`HasScript.nodup_names`). -/
namespace RouteScaffold.Artifact
open Route Text

/-! ### Sound templates -/

namespace Mold

def words : Mold → List String
  | fixed text => [text]
  | around front back => [front, back]

/-- Only characters of names stand in the words of the mold. -/
def isPlain (a : Mold) : Bool := a.words.all (·.toList.all isPlainChar)

theorem plain_fill {a : Mold} (h : a.isPlain = true) {resource : String}
    (hresource : ∀ c ∈ resource.toList, isPlainChar c = true) :
    ∀ c ∈ (a.fill resource).toList, isPlainChar c = true := by
  simp only [isPlain, List.all_eq_true] at h
  cases a with
  | fixed text => exact h text (List.mem_singleton_self _)
  | around front back =>
    have hfront := h front (List.mem_cons_self ..)
    have hback := h back (List.mem_cons_of_mem _ (List.mem_singleton_self _))
    simp only [Mold.fill, String.toList_append]
    exact List.forall_mem_append.mpr ⟨List.forall_mem_append.mpr ⟨hfront, hresource⟩, hback⟩

end Mold

namespace Template

/-- The names of a template differ from one another and can all stand in an import. -/
structure Sound (t : Template) : Prop where
  clear : Template.Clear (.once (reserved.map .fixed) :: t)
  plain : ∀ mold ∈ t.molds Method.all, mold.isPlain = true

instance (t : Template) : Decidable t.Sound :=
  decidable_of_iff (_ ∧ _) ⟨fun h => ⟨h.1, h.2⟩, fun h => ⟨h.clear, h.plain⟩⟩

variable {t : Template}

theorem Sound.nodup_names (h : t.Sound) {methods : List Method} (hmethods : methods.Nodup)
    (resource : String) : (t.names methods resource).Nodup :=
  Template.nodup_names (List.pairwise_append.mp h.clear).2.1 hmethods resource

theorem Sound.isIdentifier (h : t.Sound) {methods : List Method} (e : Endpoint) {name : String}
    (hname : name ∈ t.names methods e.resource) : IsIdentifier name := by
  obtain ⟨mold, hmold, rfl⟩ := List.mem_map.mp hname
  have hall : mold ∈ t.molds Method.all := by
    obtain ⟨slot, hslot, hmold⟩ := List.mem_flatMap.mp hmold
    refine List.mem_flatMap.mpr ⟨slot, hslot, ?_⟩
    cases slot with
    | once molds => exact hmold
    | each molds =>
      obtain ⟨m, -, hmold⟩ := List.mem_flatMap.mp hmold
      exact List.mem_flatMap.mpr ⟨m, Method.mem_all m, hmold⟩
  refine ⟨Mold.plain_fill (h.plain mold hall) fun c hc => ?_, fun hreserved => ?_⟩
  · rw [isPlainChar, isAlphanumeric_of_mem_resource hc]
    rfl
  · have hapart := (List.pairwise_append.mp h.clear).2.2 _
      (List.mem_map_of_mem hreserved) mold hall
    exact Mold.fill_ne_of_apart hapart e.resource rfl

end Template

/-! ### Molds of names -/

namespace Mold

section names
variable (m : Method) (resource : String)

def aliasOf : Mold := fixed (configAlias m)
def inputType : Mold := around (title m) "Input"
def responseType : Mold := around (title m) "Response"
def clientClass : Mold := around "" "Client"
def hook : Mold := around ("use" ++ title m) ""
def action : Mold := around m.token "Action"
def formAction : Mold := around m.token "FormAction"
def actionHook : Mold := around ("use" ++ title m) "Action"
def formActionHook : Mold := around ("use" ++ title m) "FormAction"
def formFields : Mold := around (title m) "FormFields"
def formDefinitions : Mold := around m.token "FormFieldsDefinitions"

@[simp] theorem fill_fixed (text : String) : (fixed text).fill resource = text := rfl

@[simp] theorem fill_aliasOf : (aliasOf m).fill resource = configAlias m := rfl

@[simp] theorem fill_inputType : (inputType m).fill resource = inputTypeName m resource := by
  rw [inputTypeName, stemOf_eq]
  rfl

@[simp] theorem fill_responseType :
    (responseType m).fill resource = responseTypeName m resource := by
  rw [responseTypeName, stemOf_eq]
  rfl

@[simp] theorem fill_clientClass : clientClass.fill resource = clientClassName resource := by
  simp [clientClass, Mold.fill, clientClassName]

@[simp] theorem fill_hook : (hook m).fill resource = hookName m resource := by
  simp [hook, Mold.fill, hookName, stemOf_eq, String.append_assoc]

@[simp] theorem fill_action : (action m).fill resource = actionName m resource := rfl

@[simp] theorem fill_formAction : (formAction m).fill resource = formActionName m resource := rfl

@[simp] theorem fill_actionHook : (actionHook m).fill resource = actionHookName m resource := by
  simp [actionHook, Mold.fill, actionHookName, hookName, stemOf_eq, String.append_assoc]

@[simp] theorem fill_formActionHook :
    (formActionHook m).fill resource = formActionHookName m resource := by
  simp [formActionHook, Mold.fill, formActionHookName, hookName, stemOf_eq, String.append_assoc]

@[simp] theorem fill_formFields : (formFields m).fill resource = formFieldsName m resource := by
  rw [formFieldsName, stemOf_eq]
  rfl

/-- The resource is one word, so that camel case changes the method's first character only. -/
@[simp] theorem fill_formDefinitions (e : Endpoint) :
    (formDefinitions m).fill e.resource = formDefinitionsName m e.resource := by
  have hword : IsWord (e.resource ++ "FormFields").toList := by
    rw [String.toList_append]
    exact e.isWord_resource.append ⟨by decide, by decide⟩
  rw [formDefinitionsName, formFieldsName, stemOf_eq, String.append_assoc, camelCase_title m hword]
  simp [formDefinitions, Mold.fill, String.append_assoc]

end names
end Mold

/-! ### Templates of modules -/

namespace Template

/-- The types that the client has for each method. -/
def types : Slot := .each fun m => [.inputType m, .responseType m]

/-- What an entry binds in front of its own names. -/
def entry (create : String) : Template := [.once [.fixed create], .each fun m => [.aliasOf m]]

def route : Template := entry "createRoute" ++ [.each fun m => [.fixed m.verb]]

def handler : Template := entry "createPagesRoute"

def client : Template :=
  entry "z" ++ [types, .once [.fixed "RequestOptions", .fixed "RequestParts", .clientClass]]

def hook (m : Method) : Template :=
  [.once ((if m.isQuery then ["useCallback", "useEffect", "useRef", "useState"]
      else ["useCallback", "useState"]).map .fixed),
   .once [.clientClass, .inputType m, .responseType m, .fixed "client", .hook m]]

/-- What a module on the server imports. -/
def server : Template := entry "invokeHandler" ++ [types]

def actions : Template := server ++ [.each fun m => [.action m]]

def formActions : Template :=
  server ++
    [.once (["readString", "readNumber", "readBoolean", "readPrefixed"].map .fixed),
     .each fun m => [.formAction m]]

/-- A hook around each action. -/
def hooks (action hook : Method → Mold) : Template :=
  [.once (["useCallback", "useState"].map .fixed), .each fun m => [action m], types,
   .each fun m => [hook m]]

def formFields : Template :=
  [.once [.fixed "FormFieldDefinition"], .each fun m => [.formDefinitions m, .formFields m]]

/-- The templates of all kinds of modules. -/
def all : List Template :=
  [route, handler, client, actions, formActions, hooks .action .actionHook,
    hooks .formAction .formActionHook, formFields] ++ Method.all.map hook

theorem sound_of_mem_all : ∀ t ∈ all, t.Sound := by decide +kernel

theorem hook_mem_all (m : Method) : hook m ∈ all :=
  List.mem_append_right _ (List.mem_map_of_mem (Method.mem_all m))

end Template

/-! ### Modules -/

theorem Import.locals_config (typeOnly : Bool) (d : Descriptor) :
    (Import.config typeOnly d).locals = [configAlias d.method] := rfl

namespace Endpoint
variable (e : Endpoint)

theorem locals_bodyTypesImport : e.bodyTypesImport.locals = e.bodyConfigs.flatMap fun d =>
    [inputTypeName d.method e.resource, responseTypeName d.method e.resource] := locals_types _ _

theorem locals_clientImport (d : Descriptor) : (e.clientImport d).locals =
    [clientClassName e.resource, inputTypeName d.method e.resource,
      responseTypeName d.method e.resource] := rfl

theorem names_routeScript : e.routeScript.names =
    Template.route.names (e.configs.map Descriptor.method) e.resource := by
  simp [Script.names, routeScript, Declaration.names, Declaration.exports, locals_values,
    Import.locals_config, Template.names, Template.molds, Template.route, Template.entry,
    Slot.molds, List.map_eq_flatMap, List.flatMap_assoc]

theorem names_handlerScript : e.handlerScript.names =
    Template.handler.names (e.configs.map Descriptor.method) e.resource := by
  simp [Script.names, handlerScript, Declaration.names, Declaration.exports, locals_values,
    Import.locals_config, Template.names, Template.molds, Template.handler, Template.entry,
    Slot.molds, List.map_eq_flatMap, List.flatMap_assoc]

theorem names_clientScript : e.clientScript.names =
    Template.client.names (e.configs.map Descriptor.method) e.resource := by
  simp [Script.names, clientScript, Declaration.names, Declaration.exports, locals_types,
    Import.locals_config, Template.names, Template.molds, Template.client, Template.entry,
    Template.types, Slot.molds, List.map_eq_flatMap, List.flatMap_assoc]

theorem names_hookScript (d : Descriptor) : (e.hookScript d).names =
    (Template.hook d.method).names [] e.resource := by
  cases hquery : d.method.isQuery <;>
    simp [Script.names, hookScript, Declaration.names, Declaration.exports, locals_values,
      locals_clientImport, queryHook, mutationHook, Template.names, Template.molds, Template.hook,
      Slot.molds, hquery]

theorem names_actionsScript : e.actionsScript.names =
    Template.actions.names (e.bodyConfigs.map Descriptor.method) e.resource := by
  simp [Script.names, actionsScript, serverImports, Declaration.names, Declaration.exports, action,
    locals_values, locals_bodyTypesImport, Import.locals_config, Template.names, Template.molds,
    Template.actions, Template.server, Template.entry, Template.types, Slot.molds,
    List.map_eq_flatMap, List.flatMap_assoc]

theorem names_formActionsScript : e.formActionsScript.names =
    Template.formActions.names (e.bodyConfigs.map Descriptor.method) e.resource := by
  simp [Script.names, formActionsScript, serverImports, Declaration.names, Declaration.exports,
    formAction, locals_values, locals_bodyTypesImport, Import.locals_config, Template.names,
    Template.molds, Template.formActions, Template.server, Template.entry, Template.types,
    Slot.molds, List.map_eq_flatMap, List.flatMap_assoc]

theorem names_actionHooksScript : e.actionHooksScript.names =
    (Template.hooks .action .actionHook).names (e.bodyConfigs.map Descriptor.method)
      e.resource := by
  simp [Script.names, actionHooksScript, actionHook, Declaration.names, Declaration.exports,
    locals_values, locals_bodyTypesImport, Template.names, Template.molds, Template.hooks,
    Template.types, Slot.molds, List.map_eq_flatMap, List.flatMap_assoc]

theorem names_formActionHooksScript : e.formActionHooksScript.names =
    (Template.hooks .formAction .formActionHook).names (e.bodyConfigs.map Descriptor.method)
      e.resource := by
  simp [Script.names, formActionHooksScript, formActionHook, Declaration.names, Declaration.exports,
    locals_values, locals_bodyTypesImport, Template.names, Template.molds, Template.hooks,
    Template.types, Slot.molds, List.map_eq_flatMap, List.flatMap_assoc]

theorem names_formFieldsScript : e.formFieldsScript.names =
    Template.formFields.names (e.bodyConfigs.map Descriptor.method) e.resource := by
  simp [Script.names, formFieldsScript, Declaration.names, Declaration.exports, Template.names,
    Template.molds, Template.formFields, Slot.molds, List.map_eq_flatMap, List.flatMap_assoc]

/-- A module is made from one of the templates, for some of the methods of its route. -/
theorem HasScript.made {e : Endpoint} {s : Script} (hs : e.HasScript s) :
    ∃ t ∈ Template.all, ∃ methods : List Method,
      methods.Sublist (e.configs.map Descriptor.method) ∧ s.names = t.names methods e.resource := by
  have hall := List.Sublist.refl (e.configs.map Descriptor.method)
  have hbody : (e.bodyConfigs.map Descriptor.method).Sublist (e.configs.map Descriptor.method) :=
    List.filter_sublist.map _
  cases hs with
  | route => exact ⟨_, by simp [Template.all], _, hall, e.names_routeScript⟩
  | handler => exact ⟨_, by simp [Template.all], _, hall, e.names_handlerScript⟩
  | client => exact ⟨_, by simp [Template.all], _, hall, e.names_clientScript⟩
  | hook hd => exact ⟨_, Template.hook_mem_all _, _, List.nil_sublist _, e.names_hookScript _⟩
  | actions => exact ⟨_, by simp [Template.all], _, hbody, e.names_actionsScript⟩
  | formActions => exact ⟨_, by simp [Template.all], _, hbody, e.names_formActionsScript⟩
  | actionHooks => exact ⟨_, by simp [Template.all], _, hbody, e.names_actionHooksScript⟩
  | formActionHooks =>
    exact ⟨_, by simp [Template.all], _, hbody, e.names_formActionHooksScript⟩
  | formFields => exact ⟨_, by simp [Template.all], _, hbody, e.names_formFieldsScript⟩

/-- What the lines of a module bind are its names. -/
theorem HasScript.declaredIn_lines {e : Endpoint} {s : Script} (hs : e.HasScript s) :
    s.lines.flatMap declaredIn = s.names := by
  obtain ⟨t, ht, methods, -, hnames⟩ := hs.made
  exact Script.declaredIn_lines fun name hname =>
    (Template.sound_of_mem_all t ht).isIdentifier e (hnames ▸ hname)

/-- If no two descriptors have one method, a module binds no name twice. -/
theorem HasScript.nodup_names {e : Endpoint} {s : Script} (hs : e.HasScript s)
    (h : (e.configs.map Descriptor.method).Nodup) : s.names.Nodup := by
  obtain ⟨t, ht, methods, hsub, hnames⟩ := hs.made
  rw [hnames]
  exact (Template.sound_of_mem_all t ht).nodup_names (h.sublist hsub) e.resource

end Endpoint
end RouteScaffold.Artifact
