import RouteScaffold.Proofs.Artifact.Templates

/-! The names that are derived from a path.

A route's path gives the name of its resource, and that gives with a method the names
of all that is generated for the method, one for each kind (`NameKind`). Of the path
nothing is known, so of the resource no more than that it is a word which does not start
with a digit of ASCII (`isDigit_of_head_resource`); and yet the names tell their kind and
their method apart, and are none of the names that the same modules bind once
(`derivedNames_apart`). -/
namespace RouteScaffold.Artifact
open Route Text

/-! ### The resource -/

theorem resourceName_ne_empty (path : String) : resourceName path ≠ "" := by
  rw [resourceName, ne_eq, ← String.toList_inj, String.toList_ofList]
  split
  next => decide
  next => split <;> simp

theorem isDigit_of_head_resource {path : String} {c : Char}
    (h : c ∈ (resourceName path).toList.head?) : c.isDigit = false := by
  have hroot (rest : List Char) : ∀ c ∈ ("Root".toList ++ rest).head?, c.isDigit = false := by
    simp
  rw [resourceName, String.toList_ofList] at h
  split at h
  next => exact hroot [] c h
  next first rest _ =>
    split at h
    next => exact hroot _ c h
    next hfirst =>
      obtain rfl : first = c := by simpa using h
      simpa using hfirst

/-! ### Kinds of names -/

/-- What a name is derived for, apart from the method. -/
inductive NameKind where
  | inputType
  | responseType
  | hook
  | action
  | formAction
  | actionHook
  | formActionHook
  | formFields
  | formDefinitions
  deriving DecidableEq, Repr

namespace NameKind

def all : List NameKind :=
  [inputType, responseType, hook, action, formAction, actionHook, formActionHook, formFields,
    formDefinitions]

theorem mem_all (k : NameKind) : k ∈ all := by cases k <;> decide

/-- The name of this kind for a method of a resource. -/
def name : NameKind → Method → String → String
  | inputType => inputTypeName
  | responseType => responseTypeName
  | hook => hookName
  | action => actionName
  | formAction => formActionName
  | actionHook => actionHookName
  | formActionHook => formActionHookName
  | formFields => formFieldsName
  | formDefinitions => formDefinitionsName

def mold : NameKind → Method → Mold
  | inputType => .inputType
  | responseType => .responseType
  | hook => .hook
  | action => .action
  | formAction => .formAction
  | actionHook => .actionHook
  | formActionHook => .formActionHook
  | formFields => .formFields
  | formDefinitions => .formDefinitions

theorem fill_mold (k : NameKind) (m : Method) (e : Endpoint) :
    (k.mold m).fill e.resource = k.name m e.resource := by
  cases k with
  | inputType => exact Mold.fill_inputType m _
  | responseType => exact Mold.fill_responseType m _
  | hook => exact Mold.fill_hook m _
  | action => exact Mold.fill_action m _
  | formAction => exact Mold.fill_formAction m _
  | actionHook => exact Mold.fill_actionHook m _
  | formActionHook => exact Mold.fill_formActionHook m _
  | formFields => exact Mold.fill_formFields m _
  | formDefinitions => exact Mold.fill_formDefinitions m e

end NameKind

/-! ### Names that are bound once -/

/-- The names with which every module of their kind declares the same. -/
def sharedNames : List String :=
  [Declaration.clientTypes, .formDefinitionType, .formReaders].flatMap Declaration.names

example : sharedNames =
    ["RequestOptions", "RequestParts", "FormFieldDefinition", "readString", "readNumber",
      "readBoolean", "readPrefixed"] := rfl

/-- What the derived names are not to be: the client's class and the names bound once. -/
def onceMolds : List Mold := .clientClass :: sharedNames.map .fixed

/-- The molds of two derived names show that they are different, unless kind and method agree. -/
theorem apart_molds : ∀ k ∈ NameKind.all, ∀ k' ∈ NameKind.all, ∀ m ∈ Method.all, ∀ m' ∈ Method.all,
    k = k' ∧ m = m' ∨ (k.mold m).apart (k'.mold m') = true := by
  decide +kernel

theorem apart_onceMolds : ∀ k ∈ NameKind.all, ∀ m ∈ Method.all, ∀ mold ∈ onceMolds,
    (k.mold m).apart mold = true := by
  decide +kernel

/-- **Derived names are usable and never collide**, whatever the path is. The resource is a word
that does not start with a digit, a name tells its kind and its method, and it is neither the
client's nor one that is bound once. -/
theorem derivedNames_apart (path : String) :
    let resource := resourceName path
    (resource ≠ "" ∧ (∀ c ∈ resource.toList, isAlphanumeric c = true) ∧
      ∀ c ∈ resource.toList.head?, c.isDigit = false) ∧
    (∀ (k k' : NameKind) (m m' : Method),
      k.name m resource = k'.name m' resource ↔ k = k' ∧ m = m') ∧
    ∀ (k : NameKind) (m : Method),
      k.name m resource ≠ clientClassName resource ∧ k.name m resource ∉ sharedNames := by
  intro resource
  let e : Endpoint := ⟨⟨""⟩, path, []⟩
  have hfill (k : NameKind) (m : Method) : k.name m resource = (k.mold m).fill resource :=
    (k.fill_mold m e).symm
  refine ⟨⟨resourceName_ne_empty path, fun c => isAlphanumeric_of_mem_resource,
    fun c => isDigit_of_head_resource⟩, fun k k' m m' => ⟨fun heq => ?_, ?_⟩, fun k m => ?_⟩
  · rcases apart_molds k k.mem_all k' k'.mem_all m m.mem_all m' m'.mem_all with hsame | hapart
    · exact hsame
    · rw [hfill, hfill] at heq
      exact absurd heq (Mold.fill_ne_of_apart hapart resource)
  · rintro ⟨rfl, rfl⟩
    rfl
  · have honce (mold : Mold) (hmold : mold ∈ onceMolds) : k.name m resource ≠ mold.fill resource :=
      have hapart := apart_onceMolds k k.mem_all m m.mem_all mold hmold
      hfill k m ▸ Mold.fill_ne_of_apart hapart resource
    refine ⟨?_, fun hshared => ?_⟩
    · rw [← Mold.fill_clientClass]
      exact honce _ (List.mem_cons_self ..)
    · exact honce _ (List.mem_cons_of_mem _ (List.mem_map_of_mem hshared)) rfl

/-- A resource that is itself the word for a kind: its action is called as the form action of no
resource would be. -/
theorem derivedNames_apart_form :
    let resource := resourceName "/api/form"
    resource = "Form" ∧ 'F' ∈ resource.toList.head? ∧ 'F'.isDigit = false ∧
      NameKind.action.name .get resource = "getFormAction" ∧
      NameKind.formAction.name .get resource ≠ NameKind.action.name .get resource := by
  intro resource
  have hresource : resource = "Form" := by decide +kernel
  have hhead : 'F' ∈ resource.toList.head? := by
    rw [hresource]
    decide
  obtain ⟨⟨-, -, hdigit⟩, htell, -⟩ := derivedNames_apart "/api/form"
  refine ⟨hresource, hhead, hdigit 'F' hhead, ?_, fun heq => ?_⟩
  · rw [hresource]
    decide
  · exact absurd ((htell _ _ _ _).mp heq).1 (by decide)

end RouteScaffold.Artifact
